/-
  Patchbay.Proofs.JsonExactness — a text is read as JSON only if it spells the value.

  What is read has a derivation in the grammar of `Spells`. A token takes a spelling of it off the
  text (`token?_spells`). `Completes` says what the rest of a text must be for a state to end in a
  value; one token carries it back from the state after to the state before (`Completes.step`), so a run
  that ends well carries it back to the start.
  - `ofText?_eq_some_iff`: a text is read as `v` if and only if it spells `v`.
-/

import Patchbay.Proofs.JsonTexts

namespace Patchbay.Json

/-! ## Strings -/

theorem toNat_lt_of_hexValue? {c : Char} {v : Nat} (h : Text.hexValue? c = some v) : c.toNat < 128 := by
  have hle : ∀ {d : Char}, c ≤ d → c.toNat ≤ d.toNat := fun h => UInt32.le_iff_toNat_le.1 (Char.le_def.1 h)
  simp only [Text.hexValue?, Bool.and_eq_true, decide_eq_true_eq] at h
  split at h
  · next hc => exact Nat.lt_of_le_of_lt (hle hc.2) (by decide)
  · split at h
    · next hc => exact Nat.lt_of_le_of_lt (hle hc.2) (by decide)
    · split at h
      · next hc => exact Nat.lt_of_le_of_lt (hle hc.2) (by decide)
      · cases h

theorem hexDigit_of_hexValue? {c : Char} {v : Nat} (h : Text.hexValue? c = some v) : HexDigit c v := by
  have hall : ∀ n < 128, (Text.hexValue? (Char.ofNat n)).all (fun v =>
      "0123456789abcdef".toList[v]? = some (Char.ofNat n) ∨
        "0123456789ABCDEF".toList[v]? = some (Char.ofNat n)) = true := by
    decide
  have hc := hall c.toNat (toNat_lt_of_hexValue? h)
  rw [Char.ofNat_toNat, h] at hc
  exact of_decide_eq_true (p := _ ∨ _) hc

theorem mem_shortEscapes {e : Char} {n : Nat} (h : escaped? e = some n) :
    ∃ c, (e, c) ∈ shortEscapes ∧ n = c.toNat := by
  refine ⟨Char.ofNat n, ?_⟩
  unfold escaped? at h
  split at h
  case h_9 => cases h
  all_goals (cases h; decide)

theorem spellsUnits_of_stringBody? {cs rest : List Char} {ns : List Nat} (h : stringBody? cs = some (ns, rest)) :
    ∃ body, cs = body ++ '"' :: rest ∧ SpellsUnits ns body := by
  fun_induction stringBody? cs generalizing ns rest with
  | case1 => cases h
  | case2 => cases h; exact ⟨[], rfl, .nil⟩
  | case3 a b c d cs ih =>
    simp only [Option.bind_eq_bind, Option.bind_eq_some_iff, Prod.exists] at h
    obtain ⟨unit, hunit, us, after, hs, h⟩ := h
    cases h
    obtain ⟨body, rfl, hbody⟩ := ih hs
    simp only [hex4?, Option.bind_eq_bind, Option.bind_eq_some_iff] at hunit
    obtain ⟨i, hi, j, hj, k, hk, l, hl, hunit⟩ := hunit
    cases hunit
    exact ⟨_, rfl, .cons (.digits (hexDigit_of_hexValue? hi) (hexDigit_of_hexValue? hj) (hexDigit_of_hexValue? hk)
      (hexDigit_of_hexValue? hl)) hbody⟩
  | case4 e cs _ ih =>
    simp only [Option.bind_eq_bind, Option.bind_eq_some_iff, Prod.exists] at h
    obtain ⟨unit, hunit, us, after, hs, h⟩ := h
    cases h
    obtain ⟨body, rfl, hbody⟩ := ih hs
    obtain ⟨c, hc, rfl⟩ := mem_shortEscapes hunit
    exact ⟨_, rfl, .cons (.short hc) hbody⟩
  | case5 => cases h
  | case6 c cs hquote hdigits hshort hlow ih =>
    simp only [Option.bind_eq_bind, Option.bind_eq_some_iff, Prod.exists] at h
    obtain ⟨us, after, hs, h⟩ := h
    cases h
    obtain ⟨body, rfl, hbody⟩ := ih hs
    have hescape : c ≠ '\\' := fun hc => by
      cases body with
      | nil => exact hshort _ _ hc rfl
      | cons => exact hshort _ _ hc rfl
    exact ⟨_, rfl, .cons (.plain (Nat.le_of_not_lt hlow) hquote hescape) hbody⟩

theorem spellsString_of_units {ns : List Nat} {body : List Char} (h : SpellsUnits ns body) :
    SpellsString ((charsOfUnits? ns).map String.ofList) ('"' :: body ++ ['"']) := by
  cases hcs : charsOfUnits? ns with
  | none =>
    refine .broken h fun cs hdenotes => ?_
    rw [charsOfUnits?_of_denotes hdenotes] at hcs
    cases hcs
  | some cs =>
    have hdenotes : Denotes ns (String.ofList cs).toList := by
      rw [String.toList_ofList]
      exact denotes_of_charsOfUnits? (lt_of_spellsUnits h) hcs
    exact .text h hdenotes

/-! ## Numbers -/

theorem digits_of_someDigits? {cs ds rest : List Char} (h : someDigits? cs = some (ds, rest)) :
    cs = ds ++ rest ∧ Digits ds := by
  unfold someDigits? at h
  split at h
  · cases h
  · next hne =>
    cases h
    refine ⟨List.takeWhile_append_dropWhile.symm, fun hnil => hne (by rw [hnil]; rfl), fun c hc => ?_⟩
    exact List.all_eq_true.1 List.all_takeWhile c hc

theorem isWhole_of_wholePart? {cs ds rest : List Char} (h : wholePart? cs = some (ds, rest)) :
    cs = ds ++ rest ∧ IsWhole ds := by
  simp only [wholePart?, Option.bind_eq_bind, Option.bind_eq_some_iff, Prod.exists] at h
  obtain ⟨ds, rest, hdigits, h⟩ := h
  obtain ⟨hcut, hds⟩ := digits_of_someDigits? hdigits
  split at h
  · cases h
  · next hzero =>
    cases h
    refine ⟨hcut, hds, fun h0 => ?_⟩
    have hone : ds.length = 1 := by simpa [h0] using hzero
    obtain ⟨d, rfl⟩ := List.length_eq_one_iff.1 hone
    exact congrArg (fun d => [d]) (Option.some.inj h0)

theorem signPart_spec (cs : List Char) :
    cs = (signPart cs).1 ++ (signPart cs).2 ∧ ((signPart cs).1 = [] ∨ (signPart cs).1 = ['-']) := by
  unfold signPart
  split <;> simp

theorem exponentSign_spec (cs : List Char) : cs = (exponentSign cs).1 ++ (exponentSign cs).2 ∧
    ((exponentSign cs).1 = [] ∨ (exponentSign cs).1 = ['+'] ∨ (exponentSign cs).1 = ['-']) := by
  unfold exponentSign
  split <;> simp

theorem isFraction_of_fraction? {cs ds rest : List Char} (h : fraction? cs = some (ds, rest)) :
    cs = ds ++ rest ∧ IsFraction ds := by
  unfold fraction? at h
  split at h
  · simp only [Option.map_eq_some_iff, Prod.exists] at h
    obtain ⟨run, rest, hdigits, h⟩ := h
    cases h
    obtain ⟨rfl, hrun⟩ := digits_of_someDigits? hdigits
    exact ⟨rfl, .inr ⟨run, rfl, hrun⟩⟩
  · cases h
    exact ⟨rfl, .inl rfl⟩

theorem isExponent_of_exponent? {cs ds rest : List Char} (h : exponent? cs = some (ds, rest)) :
    cs = ds ++ rest ∧ IsExponent ds := by
  unfold exponent? at h
  split at h
  · cases h
    exact ⟨rfl, .inl rfl⟩
  · next e cs =>
    split at h
    · next he =>
      simp only [Option.map_eq_some_iff, Prod.exists] at h
      obtain ⟨run, rest, hdigits, h⟩ := h
      cases h
      obtain ⟨hsign, hone⟩ := exponentSign_spec cs
      obtain ⟨hcut, hrun⟩ := digits_of_someDigits? hdigits
      have he : e = 'e' ∨ e = 'E' := by simpa using he
      refine ⟨?_, .inr ⟨e, (exponentSign cs).1, run, rfl, he, hone, hrun⟩⟩
      rw [hcut] at hsign
      rw [List.cons_append, List.cons_append, List.append_assoc, ← hsign]
    · cases h
      exact ⟨rfl, .inl rfl⟩

theorem isNumber_of_number? {cs rest : List Char} {t : Token} (h : number? cs = some (t, rest)) :
    ∃ ds, cs = ds ++ rest ∧ IsNumber ds ∧ t = .number (String.ofList ds) := by
  simp only [number?, Option.bind_eq_bind, Option.bind_eq_some_iff, Prod.exists] at h
  obtain ⟨whole, _, hw, fraction, _, hf, exponent, _, he, h⟩ := h
  cases h
  obtain ⟨hcut, hsign⟩ := signPart_spec cs
  obtain ⟨hunsigned, hwhole⟩ := isWhole_of_wholePart? hw
  obtain ⟨rfl, hfraction⟩ := isFraction_of_fraction? hf
  obtain ⟨rfl, hexponent⟩ := isExponent_of_exponent? he
  refine ⟨_, ?_, ⟨_, whole, fraction, exponent, rfl, hsign, hwhole, hfraction, hexponent⟩, rfl⟩
  rw [hunsigned] at hcut
  simpa [List.append_assoc] using hcut

/-! ## Tokens -/

def SpellsToken : Token → List Char → Prop
  | .openArray, cs => cs = ['[']
  | .closeArray, cs => cs = [']']
  | .openObject, cs => cs = ['\x7b']
  | .closeObject, cs => cs = ['\x7d']
  | .colon, cs => cs = [':']
  | .comma, cs => cs = [',']
  | .null, cs => cs = ['n', 'u', 'l', 'l']
  | .bool true, cs => cs = ['t', 'r', 'u', 'e']
  | .bool false, cs => cs = ['f', 'a', 'l', 's', 'e']
  | .number literal, cs => IsNumber cs ∧ literal = String.ofList cs
  | .string s, cs => SpellsString s cs

theorem token?_spells {cs rest : List Char} {t : Token} (h : token? cs = some (t, rest)) :
    ∃ ds, cs = ds ++ rest ∧ SpellsToken t ds := by
  unfold token? at h
  split at h
  case h_10 =>
    simp only [Option.map_eq_some_iff, Prod.exists] at h
    obtain ⟨ns, _, hbody, h⟩ := h
    cases h
    obtain ⟨body, rfl, hunits⟩ := spellsUnits_of_stringBody? hbody
    exact ⟨'"' :: body ++ ['"'], by simp, spellsString_of_units hunits⟩
  case h_11 =>
    obtain ⟨ds, hcut, hnumber, rfl⟩ := isNumber_of_number? h
    exact ⟨ds, hcut, hnumber, rfl⟩
  all_goals (cases h; exact ⟨_, rfl, rfl⟩)

/-! ## What ends a text -/

/-- What comes after the value `w` in the innermost of `frames`, when the whole text is to be `v`. -/
inductive Closes (v : Value) : List Frame → Value → List Char → Prop where
  | text {b : List Char} : Blanks b → Closes v [] v b
  | lastItem {frames : List Frame} {done : List Value} {w : Value} {b rest : List Char} : Blanks b →
      Closes v frames (.array (done.reverse ++ [w])) rest → Closes v (.array done :: frames) w (b ++ ']' :: rest)
  | items {frames : List Frame} {done ws : List Value} {w : Value} {b cs rest : List Char} : Blanks b →
      Spells (.items ws) cs → Closes v frames (.array (done.reverse ++ w :: ws)) rest →
      Closes v (.array done :: frames) w (b ++ ',' :: cs ++ ']' :: rest)
  | lastMember {frames : List Frame} {done : List (Option String × Value)} {key : Option String} {w : Value}
      {b rest : List Char} : Blanks b → Closes v frames (.object (done.reverse ++ [(key, w)])) rest →
      Closes v (.object done key :: frames) w (b ++ '\x7d' :: rest)
  | members {frames : List Frame} {done ms : List (Option String × Value)} {key : Option String} {w : Value}
      {b cs rest : List Char} : Blanks b → Spells (.members ms) cs →
      Closes v frames (.object (done.reverse ++ (key, w) :: ms)) rest →
      Closes v (.object done key :: frames) w (b ++ ',' :: cs ++ '\x7d' :: rest)

def Completes (v : Value) : State → List Char → Prop
  | ⟨frames, .value⟩, cs => ∃ w ds rest, cs = ds ++ rest ∧ Spells (.padded w) ds ∧ Closes v frames w rest
  | ⟨frames, .firstItem⟩, cs => ∃ ws ds rest, cs = ds ++ ']' :: rest ∧
      (ws = [] ∧ Blanks ds ∨ Spells (.items ws) ds) ∧ Closes v frames (.array ws) rest
  | ⟨frames, .firstKey⟩, cs => ∃ ms ds rest, cs = ds ++ '\x7d' :: rest ∧
      (ms = [] ∧ Blanks ds ∨ Spells (.members ms) ds) ∧ Closes v frames (.object ms) rest
  | ⟨frames, .nextKey done⟩, cs => ∃ ms ds rest, cs = ds ++ '\x7d' :: rest ∧
      Spells (.members ms) ds ∧ Closes v frames (.object (done.reverse ++ ms)) rest
  | ⟨frames, .colon done key⟩, cs => ∃ w b ds rest, cs = b ++ ':' :: ds ++ rest ∧ Blanks b ∧
      Spells (.padded w) ds ∧ Closes v (.object done key :: frames) w rest
  | ⟨frames, .after w⟩, cs => Closes v frames w cs

@[simp]
theorem completes_after {v w : Value} {frames : List Frame} {cs : List Char} :
    Completes v ⟨frames, .after w⟩ cs ↔ Closes v frames w cs := Iff.rfl

theorem Spells.padded_append {w : Value} {cs b : List Char} (h : Spells (.padded w) cs) (hb : Blanks b) :
    Spells (.padded w) (cs ++ b) := by
  cases h with
  | @padded _ b₀ ds b₁ hb₀ hw hb₁ =>
    rw [List.append_assoc _ b₁]
    refine .padded hb₀ hw fun c hc => ?_
    rcases List.mem_append.1 hc with hc | hc
    · exact hb₁ c hc
    · exact hb c hc

/-- A value in an array begins the rest of its items. -/
theorem Closes.takeItems {v w : Value} {frames : List Frame} {done : List Value} {ds cs : List Char}
    (hw : Spells (.padded w) ds) (h : Closes v (.array done :: frames) w cs) :
    ∃ ws es rest, ds ++ cs = es ++ ']' :: rest ∧ Spells (.items (w :: ws)) es ∧
      Closes v frames (.array (done.reverse ++ w :: ws)) rest := by
  cases h with
  | @lastItem _ _ _ b rest hb h => exact ⟨[], ds ++ b, rest, by simp, .item (hw.padded_append hb), h⟩
  | @items _ _ ws _ b cs rest hb hws h =>
    exact ⟨ws, ds ++ b ++ ',' :: cs, rest, by simp, .nextItem (hw.padded_append hb) hws, h⟩

/-- A member of an object begins the rest of its members. -/
theorem Closes.takeMembers {v w : Value} {frames : List Frame} {done : List (Option String × Value)}
    {key : Option String} {b₀ ks b₁ ds cs : List Char} (hb₀ : Blanks b₀) (hkey : SpellsString key ks) (hb₁ : Blanks b₁)
    (hw : Spells (.padded w) ds) (h : Closes v (.object done key :: frames) w cs) :
    ∃ ms es rest, b₀ ++ ks ++ b₁ ++ ':' :: ds ++ cs = es ++ '\x7d' :: rest ∧ Spells (.members ((key, w) :: ms)) es ∧
      Closes v frames (.object (done.reverse ++ (key, w) :: ms)) rest := by
  cases h with
  | @lastMember _ _ _ _ b rest hb h =>
    have hmember := Spells.member hb₀ hkey hb₁ (hw.padded_append hb)
    exact ⟨[], _, rest, by simp, .lastMember hmember, h⟩
  | @members _ _ ms _ _ b cs rest hb hms h =>
    have hmember := Spells.member hb₀ hkey hb₁ (hw.padded_append hb)
    exact ⟨ms, _, rest, by simp, .nextMember hmember hms, h⟩

theorem Spells.padded_of_blanks {w : Value} {b ds : List Char} (hb : Blanks b) (hw : Spells (.value w) ds) :
    Spells (.padded w) (b ++ ds) := by
  have hpadded := Spells.padded hb hw blanks_nil
  rwa [List.append_nil] at hpadded

/-- The first token of a value, with blanks before it. -/
theorem Completes.enter {v : Value} {frames : List Frame} {st : State} {t : Token} {b ds rest : List Char}
    (hst : State.enter? frames t = some st) (hb : Blanks b) (ht : SpellsToken t ds) (h : Completes v st rest) :
    Completes v ⟨frames, .value⟩ (b ++ ds ++ rest) := by
  -- a value of one token is complete at once, and then the rest closes the frames
  have hscalar : ∀ w, Spells (.value w) ds → Closes v frames w rest → Completes v ⟨frames, .value⟩ (b ++ ds ++ rest) :=
    fun w hw hrest => ⟨w, b ++ ds, rest, rfl, .padded_of_blanks hb hw, hrest⟩
  cases t with
  | openArray =>
    cases hst
    obtain ⟨ws, es, rest', rfl, hws, hrest⟩ := h
    have hw : Spells (.value (.array ws)) ('[' :: es ++ [']']) := by
      rcases hws with ⟨rfl, hes⟩ | hes
      · exact .emptyArray hes
      · exact .array hes
    obtain rfl : ds = ['['] := ht
    exact ⟨.array ws, b ++ ('[' :: es ++ [']']), rest', by simp, .padded_of_blanks hb hw, hrest⟩
  | openObject =>
    cases hst
    obtain ⟨ms, es, rest', rfl, hms, hrest⟩ := h
    have hw : Spells (.value (.object ms)) ('\x7b' :: es ++ ['\x7d']) := by
      rcases hms with ⟨rfl, hes⟩ | hes
      · exact .emptyObject hes
      · exact .object hes
    obtain rfl : ds = ['\x7b'] := ht
    exact ⟨.object ms, b ++ ('\x7b' :: es ++ ['\x7d']), rest', by simp, .padded_of_blanks hb hw, hrest⟩
  | null =>
    cases hst
    obtain rfl : ds = ['n', 'u', 'l', 'l'] := ht
    exact hscalar _ .null h
  | bool x =>
    cases hst
    cases x with
    | true =>
      obtain rfl : ds = ['t', 'r', 'u', 'e'] := ht
      exact hscalar _ .true h
    | false =>
      obtain rfl : ds = ['f', 'a', 'l', 's', 'e'] := ht
      exact hscalar _ .false h
  | number literal =>
    cases hst
    obtain ⟨hnumber, rfl⟩ := ht
    exact hscalar _ (.number hnumber) h
  | string s =>
    cases hst
    exact hscalar _ (.string ht) h
  | closeArray | closeObject | colon | comma => cases hst

/-- A token, with blanks before it, carries what the rest of a text is back to the state it is read in. -/
theorem Completes.step {v : Value} {st st' : State} {t : Token} {b ds rest : List Char}
    (hst : st.step? t = some st') (hb : Blanks b) (ht : SpellsToken t ds) (h : Completes v st' rest) :
    Completes v st (b ++ ds ++ rest) := by
  revert hst
  fun_cases State.step? st t with
  | case1 frames => exact fun hst => h.enter hst hb ht
  | case2 frames =>
    rintro ⟨⟩
    obtain rfl : ds = [']'] := ht
    exact ⟨[], b, rest, by simp, .inl ⟨rfl, hb⟩, h⟩
  | case3 frames =>
    intro hst
    obtain ⟨w, es, rest', hcut, hw, hrest⟩ := h.enter hst hb ht
    obtain ⟨ws, es', rest'', hcut', hws, hrest'⟩ := hrest.takeItems hw
    exact ⟨w :: ws, es', rest'', hcut.trans hcut', .inr hws, hrest'⟩
  | case4 frames =>
    rintro ⟨⟩
    obtain rfl : ds = ['\x7d'] := ht
    exact ⟨[], b, rest, by simp, .inl ⟨rfl, hb⟩, h⟩
  | case5 frames key =>
    rintro ⟨⟩
    obtain ⟨w, b', es, rest', rfl, hb', hw, hrest⟩ := h
    obtain ⟨ms, es', rest'', hcut, hms, hrest'⟩ := hrest.takeMembers hb ht hb' hw
    exact ⟨(key, w) :: ms, es', rest'', by simpa using hcut, .inr hms, hrest'⟩
  | case6 frames done key =>
    rintro ⟨⟩
    obtain ⟨w, b', es, rest', rfl, hb', hw, hrest⟩ := h
    obtain ⟨ms, es', rest'', hcut, hms, hrest'⟩ := hrest.takeMembers hb ht hb' hw
    exact ⟨(key, w) :: ms, es', rest'', by simpa using hcut, hms, hrest'⟩
  | case7 frames done key =>
    rintro ⟨⟩
    obtain rfl : ds = [':'] := ht
    obtain ⟨w, es, rest', rfl, hw, hrest⟩ := h
    exact ⟨w, b, es, rest', by simp, hb, hw, hrest⟩
  | case8 done frames w =>
    rintro ⟨⟩
    obtain rfl : ds = [','] := ht
    obtain ⟨w', es, rest', rfl, hw, hrest⟩ := h
    obtain ⟨ws, es', rest'', hcut, hws, hrest'⟩ := hrest.takeItems hw
    have hitems := Closes.items (w := w) hb hws (by simpa using hrest')
    rw [hcut]
    simpa using hitems
  | case9 done frames w =>
    rintro ⟨⟩
    obtain rfl : ds = [']'] := ht
    have hitem := Closes.lastItem (w := w) hb (by simpa using h)
    simpa using hitem
  | case10 done key frames w =>
    rintro ⟨⟩
    obtain rfl : ds = [','] := ht
    obtain ⟨ms, es, rest', rfl, hms, hrest⟩ := h
    have hmembers := Closes.members (w := w) hb hms (by simpa using hrest)
    simpa using hmembers
  | case11 done key frames w =>
    rintro ⟨⟩
    obtain rfl : ds = ['\x7d'] := ht
    have hmember := Closes.lastMember (w := w) hb (by simpa using h)
    simpa using hmember
  | case12 => exact fun hst => by cases hst

/-! ## Whole texts -/

/-- The tokens of a text: the first one has blanks before it, and the last one blanks behind it. -/
theorem tokens?_cases {cs : List Char} {ts : List Token} (h : tokens? cs = some ts) :
    (ts = [] ∧ Blanks cs) ∨ ∃ t ts' b ds rest, ts = t :: ts' ∧ cs = b ++ ds ++ rest ∧ Blanks b ∧ SpellsToken t ds ∧
      tokens? rest = some ts' := by
  fun_induction tokens? cs generalizing ts with
  | case1 =>
    cases h
    exact .inl ⟨rfl, blanks_nil⟩
  | case2 c cs hc ih =>
    have hblank : ∀ {b}, Blanks b → Blanks (c :: b) := fun hb d hd => by
      rcases List.mem_cons.1 hd with rfl | hd
      · simpa [isSpace, or_assoc] using hc
      · exact hb d hd
    rcases ih h with ⟨rfl, hb⟩ | ⟨t, ts', b, ds, rest, rfl, rfl, hb, ht, hrest⟩
    · exact .inl ⟨rfl, hblank hb⟩
    · exact .inr ⟨t, ts', c :: b, ds, rest, rfl, rfl, hblank hb, ht, hrest⟩
  | case3 => cases h
  | case4 c cs _ t rest ht ih =>
    obtain ⟨ts', hts', rfl⟩ := Option.map_eq_some_iff.1 h
    obtain ⟨ds, hcut, hds⟩ := token?_spells ht
    exact .inr ⟨t, ts', [], ds, rest, rfl, hcut, blanks_nil, hds, hts'⟩

theorem completes_of_tokens {v : Value} {ts : List Token} {st : State} {cs : List Char} (hcs : tokens? cs = some ts)
    (hrun : ts.foldlM State.step? st = some ⟨[], .after v⟩) : Completes v st cs := by
  induction ts generalizing st cs with
  | nil =>
    cases hrun
    rcases tokens?_cases hcs with ⟨-, hb⟩ | ⟨t, ts', b, ds, rest, hts, -⟩
    · exact .text hb
    · cases hts
  | cons t ts ih =>
    rcases tokens?_cases hcs with ⟨hts, -⟩ | ⟨t', ts', b, ds, rest, hts, rfl, hb, ht, hrest⟩
    · cases hts
    · cases hts
      obtain ⟨st', hst, hrun⟩ := Option.bind_eq_some_iff.1 hrun
      exact .step hst hb ht (ih hrest hrun)

theorem spells_of_ofText? {v : Value} {text : String} (h : Value.ofText? text = some v) : SpellsText v text := by
  obtain ⟨ts, hts, h⟩ := Option.bind_eq_some_iff.1 h
  obtain ⟨st, hrun, hst⟩ := Option.bind_eq_some_iff.1 h
  have hend : st = ⟨[], .after v⟩ := by
    unfold State.value? at hst
    split at hst
    · cases hst; rfl
    · cases hst
  have hcomplete : Completes v ⟨[], .value⟩ text.toList := completes_of_tokens hts (hend ▸ hrun)
  obtain ⟨w, ds, rest, hcut, hw, hrest⟩ := hcomplete
  cases hrest with
  | text hb =>
    rw [SpellsText, hcut]
    exact hw.padded_append hb

/-- A text is read as a value exactly if it spells the value. -/
theorem ofText?_eq_some_iff {v : Value} {text : String} : Value.ofText? text = some v ↔ SpellsText v text :=
  ⟨spells_of_ofText?, ofText?_of_spells⟩

end Patchbay.Json
