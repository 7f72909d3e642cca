/-
  Patchbay.Proofs.JsonTexts — the grammar of strict JSON texts, and that all of them are read.

  `Spells` says which characters spell a value, with blanks wherever they may stand and strings in
  any of their spellings; it knows nothing of tokens or stacks. A string with a surrogate that has no
  partner is well formed and has no text. Reading follows a spelling from left to right:
  - `stringBody?_append`, `charsOfUnits?_of_denotes`: strings, and the text of their units.
  - `number?_append`: numbers, which end where nothing goes on with them.
  - `Spells.reads`: what a phrase does to the state it is read in.
  - `ofText?_of_spells`: whole texts.
-/

import Mathlib.Data.List.TakeWhile
import Patchbay.Json.Value

namespace Patchbay.Json

/-! ## Grammar -/

def Blanks (cs : List Char) : Prop := ∀ c ∈ cs, c = ' ' ∨ c = '\t' ∨ c = '\n' ∨ c = '\r'

def Digits (cs : List Char) : Prop := cs ≠ [] ∧ ∀ c ∈ cs, c.isDigit = true

def IsWhole (cs : List Char) : Prop := Digits cs ∧ (cs.head? = some '0' → cs = ['0'])

def IsFraction (cs : List Char) : Prop := cs = [] ∨ ∃ ds, cs = '.' :: ds ∧ Digits ds

def IsExponent (cs : List Char) : Prop :=
  cs = [] ∨ ∃ e sign ds, cs = e :: sign ++ ds ∧ (e = 'e' ∨ e = 'E') ∧
    (sign = [] ∨ sign = ['+'] ∨ sign = ['-']) ∧ Digits ds

def IsNumber (cs : List Char) : Prop :=
  ∃ sign whole fraction exponent, cs = sign ++ whole ++ fraction ++ exponent ∧ (sign = [] ∨ sign = ['-']) ∧
    IsWhole whole ∧ IsFraction fraction ∧ IsExponent exponent

def HexDigit (c : Char) (v : Nat) : Prop :=
  "0123456789abcdef".toList[v]? = some c ∨ "0123456789ABCDEF".toList[v]? = some c

def shortEscapes : List (Char × Char) :=
  [('"', '"'), ('\\', '\\'), ('/', '/'), ('b', '\x08'), ('f', '\x0c'), ('n', '\n'), ('r', '\r'), ('t', '\t')]

/-- A code unit of a string, and how it is written: a character as it is or by an escape, or any
    number of sixteen bits by its digits. -/
inductive SpellsUnit : Nat → List Char → Prop where
  | plain {c : Char} : 0x20 ≤ c.toNat → c ≠ '"' → c ≠ '\\' → SpellsUnit c.toNat [c]
  | short {e c : Char} : (e, c) ∈ shortEscapes → SpellsUnit c.toNat ['\\', e]
  | digits {a b c d : Char} {i j k l : Nat} : HexDigit a i → HexDigit b j → HexDigit c k → HexDigit d l →
      SpellsUnit (((i * 16 + j) * 16 + k) * 16 + l) ['\\', 'u', a, b, c, d]

inductive SpellsUnits : List Nat → List Char → Prop where
  | nil : SpellsUnits [] []
  | cons {n : Nat} {ns : List Nat} {cs ds : List Char} : SpellsUnit n cs → SpellsUnits ns ds →
      SpellsUnits (n :: ns) (cs ++ ds)

/-- The units of a text: one for a character, or the two surrogates of one past the first plane. -/
inductive Denotes : List Nat → List Char → Prop where
  | nil : Denotes [] []
  | unit {c : Char} {ns : List Nat} {cs : List Char} : Denotes ns cs → Denotes (c.toNat :: ns) (c :: cs)
  | pair {c : Char} {ns : List Nat} {cs : List Char} : 0x10000 ≤ c.toNat → Denotes ns cs →
      Denotes ((0xd800 + (c.toNat - 0x10000) / 0x400) :: (0xdc00 + (c.toNat - 0x10000) % 0x400) :: ns) (c :: cs)

/-- A string in its quotes, with its text if its units are those of one. -/
inductive SpellsString : Option String → List Char → Prop where
  | text {s : String} {ns : List Nat} {body : List Char} : SpellsUnits ns body → Denotes ns s.toList →
      SpellsString (some s) ('"' :: body ++ ['"'])
  | broken {ns : List Nat} {body : List Char} : SpellsUnits ns body → (∀ cs, ¬Denotes ns cs) →
      SpellsString none ('"' :: body ++ ['"'])

inductive Phrase where
  | value (v : Value)
  /-- A value with blanks around it. -/
  | padded (v : Value)
  /-- One or more values, with commas between them. -/
  | items (vs : List Value)
  | member (key : Option String) (v : Value)
  /-- One or more members, with commas between them. -/
  | members (ms : List (Option String × Value))

inductive Spells : Phrase → List Char → Prop where
  | null : Spells (.value .null) ['n', 'u', 'l', 'l']
  | true : Spells (.value (.bool Bool.true)) ['t', 'r', 'u', 'e']
  | false : Spells (.value (.bool Bool.false)) ['f', 'a', 'l', 's', 'e']
  | number {cs : List Char} : IsNumber cs → Spells (.value (.number (String.ofList cs))) cs
  | string {s : Option String} {cs : List Char} : SpellsString s cs → Spells (.value (.string s)) cs
  | emptyArray {b : List Char} : Blanks b → Spells (.value (.array [])) ('[' :: b ++ [']'])
  | array {vs : List Value} {cs : List Char} : Spells (.items vs) cs → Spells (.value (.array vs)) ('[' :: cs ++ [']'])
  | emptyObject {b : List Char} : Blanks b → Spells (.value (.object [])) ('\x7b' :: b ++ ['\x7d'])
  | object {ms : List (Option String × Value)} {cs : List Char} : Spells (.members ms) cs →
      Spells (.value (.object ms)) ('\x7b' :: cs ++ ['\x7d'])
  | padded {v : Value} {b cs b' : List Char} : Blanks b → Spells (.value v) cs → Blanks b' →
      Spells (.padded v) (b ++ cs ++ b')
  | item {v : Value} {cs : List Char} : Spells (.padded v) cs → Spells (.items [v]) cs
  | nextItem {v : Value} {vs : List Value} {cs ds : List Char} : Spells (.padded v) cs → Spells (.items vs) ds →
      Spells (.items (v :: vs)) (cs ++ ',' :: ds)
  | member {key : Option String} {v : Value} {b ks b' cs : List Char} : Blanks b → SpellsString key ks → Blanks b' →
      Spells (.padded v) cs → Spells (.member key v) (b ++ ks ++ b' ++ ':' :: cs)
  | lastMember {key : Option String} {v : Value} {cs : List Char} : Spells (.member key v) cs →
      Spells (.members [(key, v)]) cs
  | nextMember {key : Option String} {v : Value} {ms : List (Option String × Value)} {cs ds : List Char} :
      Spells (.member key v) cs → Spells (.members ms) ds → Spells (.members ((key, v) :: ms)) (cs ++ ',' :: ds)

/-- A text that spells a value, with blanks around it. -/
def SpellsText (v : Value) (text : String) : Prop := Spells (.padded v) text.toList

/-! ## Strings -/

theorem lt_of_hexDigit {c : Char} {v : Nat} (h : HexDigit c v) : v < 16 := by
  rcases h with h | h <;> exact (List.getElem?_eq_some_iff.1 h).1

theorem hexValue?_of_hexDigit {c : Char} {v : Nat} (h : HexDigit c v) : Text.hexValue? c = some v := by
  have hdigits : ∀ v < 16, "0123456789abcdef".toList[v]?.bind Text.hexValue? = some v ∧
      "0123456789ABCDEF".toList[v]?.bind Text.hexValue? = some v := by decide
  obtain ⟨hlow, hhigh⟩ := hdigits v (lt_of_hexDigit h)
  rcases h with h | h
  · rwa [h] at hlow
  · rwa [h] at hhigh

theorem stringBody?_plain {c : Char} (hlow : 0x20 ≤ c.toNat) (hquote : c ≠ '"') (hescape : c ≠ '\\')
    (rest : List Char) : stringBody? (c :: rest) = (stringBody? rest).map fun r => (c.toNat :: r.1, r.2) := by
  have hlow : ¬c.toNat < 0x20 := by omega
  rw [stringBody?]
  · rw [if_neg hlow]
    cases stringBody? rest <;> rfl
  · exact hquote
  · intro a b d e r h _
    exact hescape h
  · intro d r h _
    exact hescape h

theorem stringBody?_short {e : Char} {n : Nat} (hu : e ≠ 'u') (he : escaped? e = some n) (rest : List Char) :
    stringBody? ('\\' :: e :: rest) = (stringBody? rest).map fun r => (n :: r.1, r.2) := by
  rw [stringBody?, he]
  · cases stringBody? rest <;> rfl
  · intro a b c d r h
    exact absurd h hu

theorem escaped?_of_mem {e c : Char} (h : (e, c) ∈ shortEscapes) : e ≠ 'u' ∧ escaped? e = some c.toNat := by
  have hall : ∀ p ∈ shortEscapes, p.1 ≠ 'u' ∧ escaped? p.1 = some p.2.toNat := by decide
  exact hall (e, c) h

/-- A unit is read as it is written, whatever follows. -/
theorem stringBody?_unit {n : Nat} {cs : List Char} (h : SpellsUnit n cs) (rest : List Char) :
    stringBody? (cs ++ rest) = (stringBody? rest).map fun r => (n :: r.1, r.2) := by
  cases h with
  | plain hlow hquote hescape => exact stringBody?_plain hlow hquote hescape rest
  | short he =>
    obtain ⟨hu, he⟩ := escaped?_of_mem he
    exact stringBody?_short hu he rest
  | digits ha hb hc hd =>
    simp only [List.cons_append, List.nil_append, stringBody?, hex4?, hexValue?_of_hexDigit ha,
      hexValue?_of_hexDigit hb, hexValue?_of_hexDigit hc, hexValue?_of_hexDigit hd]
    cases stringBody? rest <;> rfl

theorem stringBody?_append {ns : List Nat} {body : List Char} (h : SpellsUnits ns body) (rest : List Char) :
    stringBody? (body ++ '"' :: rest) = some (ns, rest) := by
  induction h with
  | nil => rw [List.nil_append, stringBody?]
  | cons hunit _ ih => rw [List.append_assoc, stringBody?_unit hunit, ih]; rfl

/-! ## Units and characters -/

theorem toNat_lt (c : Char) : c.toNat < 0x110000 := by
  rcases c.valid with h | h
  · exact Nat.lt_trans h (by decide)
  · exact h.2

theorem valid_of_notSurrogate {n : Nat} (hn : n < 0x110000) (hs : (isHighSurrogate n || isLowSurrogate n) = false) :
    n.isValidChar := by
  simp only [isHighSurrogate, isLowSurrogate, Bool.or_eq_false_iff, Bool.and_eq_false_iff,
    decide_eq_false_iff_not] at hs
  simp only [Nat.isValidChar]
  omega

theorem notSurrogate_toNat (c : Char) : (isHighSurrogate c.toNat || isLowSurrogate c.toNat) = false := by
  have hc : c.toNat.isValidChar := c.valid
  simp only [isHighSurrogate, isLowSurrogate, Bool.or_eq_false_iff, Bool.and_eq_false_iff, decide_eq_false_iff_not]
  simp only [Nat.isValidChar] at hc
  omega

theorem toNat_ofNat_of_valid {n : Nat} (h : n.isValidChar) : (Char.ofNat n).toNat = n := by
  rw [Char.ofNat, dif_pos h]
  rfl

theorem charsOfUnits?_unit {n : Nat} (hs : (isHighSurrogate n || isLowSurrogate n) = false) (ns : List Nat) :
    charsOfUnits? (n :: ns) = (charsOfUnits? ns).map (Char.ofNat n :: ·) := by
  cases ns with
  | nil => simp [charsOfUnits?, hs]
  | cons m ns =>
    rw [Bool.or_eq_false_iff] at hs
    rw [charsOfUnits?, hs.1, hs.2]
    rfl

theorem charsOfUnits?_pair {n m : Nat} (hn : isHighSurrogate n = true) (hm : isLowSurrogate m = true) (ns : List Nat) :
    charsOfUnits? (n :: m :: ns) =
      (charsOfUnits? ns).map (Char.ofNat (0x10000 + (n - 0xd800) * 0x400 + (m - 0xdc00)) :: ·) := by
  rw [charsOfUnits?, if_pos hn, if_pos hm]

theorem charsOfUnits?_of_denotes {ns : List Nat} {cs : List Char} (h : Denotes ns cs) :
    charsOfUnits? ns = some cs := by
  induction h with
  | nil => rw [charsOfUnits?]
  | unit _ ih => rw [charsOfUnits?_unit (notSurrogate_toNat _), ih, Option.map_some, Char.ofNat_toNat]
  | @pair c ns cs hc _ ih =>
    have hlast := toNat_lt c
    have hhigh : isHighSurrogate (0xd800 + (c.toNat - 0x10000) / 0x400) = true := by
      simp only [isHighSurrogate, Bool.and_eq_true, decide_eq_true_eq]; omega
    have hlow : isLowSurrogate (0xdc00 + (c.toNat - 0x10000) % 0x400) = true := by
      simp only [isLowSurrogate, Bool.and_eq_true, decide_eq_true_eq]; omega
    have hjoin : 0x10000 + (0xd800 + (c.toNat - 0x10000) / 0x400 - 0xd800) * 0x400 +
        (0xdc00 + (c.toNat - 0x10000) % 0x400 - 0xdc00) = c.toNat := by
      omega
    rw [charsOfUnits?_pair hhigh hlow, ih, hjoin, Option.map_some, Char.ofNat_toNat]

theorem denotes_of_charsOfUnits? {ns : List Nat} (hns : ∀ n ∈ ns, n < 0x110000) {cs : List Char}
    (h : charsOfUnits? ns = some cs) : Denotes ns cs := by
  fun_induction charsOfUnits? ns generalizing cs with
  | case1 => cases h; exact .nil
  | case2 => cases h
  | case3 n hs =>
    cases h
    have hunit := Denotes.unit (c := Char.ofNat n) .nil
    rwa [toNat_ofNat_of_valid (valid_of_notSurrogate (hns n (by simp)) (by simpa using hs))] at hunit
  | case4 n m rest hhigh hlow ih =>
    obtain ⟨cs', hcs', rfl⟩ := Option.map_eq_some_iff.1 h
    have hrest := ih (fun k hk => hns k (by simp [hk])) hcs'
    simp only [isHighSurrogate, isLowSurrogate, Bool.and_eq_true, decide_eq_true_eq] at hhigh hlow
    have hvalid : (0x10000 + (n - 0xd800) * 0x400 + (m - 0xdc00)).isValidChar := by
      simp only [Nat.isValidChar]; omega
    have hchar := toNat_ofNat_of_valid hvalid
    have hpair := Denotes.pair (c := Char.ofNat (0x10000 + (n - 0xd800) * 0x400 + (m - 0xdc00))) (by omega) hrest
    rw [hchar] at hpair
    have hn : 0xd800 + (0x10000 + (n - 0xd800) * 0x400 + (m - 0xdc00) - 0x10000) / 0x400 = n := by omega
    have hm : 0xdc00 + (0x10000 + (n - 0xd800) * 0x400 + (m - 0xdc00) - 0x10000) % 0x400 = m := by omega
    rwa [hn, hm] at hpair
  | case5 => cases h
  | case6 => cases h
  | case7 n m rest hhigh hlow ih =>
    obtain ⟨cs', hcs', rfl⟩ := Option.map_eq_some_iff.1 h
    have hunit := Denotes.unit (c := Char.ofNat n) (ih (fun k hk => hns k (List.mem_cons_of_mem n hk)) hcs')
    rwa [toNat_ofNat_of_valid (valid_of_notSurrogate (hns n (by simp)) (by simp [hhigh, hlow]))] at hunit

theorem lt_of_spellsUnits {ns : List Nat} {cs : List Char} (h : SpellsUnits ns cs) : ∀ n ∈ ns, n < 0x110000 := by
  induction h with
  | nil => simp
  | cons hunit _ ih =>
    refine List.forall_mem_cons.2 ⟨?_, ih⟩
    cases hunit with
    | plain => exact toNat_lt _
    | short => exact toNat_lt _
    | digits ha hb hc hd =>
      have := lt_of_hexDigit ha
      have := lt_of_hexDigit hb
      have := lt_of_hexDigit hc
      have := lt_of_hexDigit hd
      omega

/-! ## Tokens -/

theorem token?_quoted {ns : List Nat} {body : List Char} (h : SpellsUnits ns body) (rest : List Char) :
    token? ('"' :: body ++ ['"'] ++ rest) = some (.string ((charsOfUnits? ns).map String.ofList), rest) := by
  have hcut : '"' :: body ++ ['"'] ++ rest = '"' :: (body ++ '"' :: rest) := by simp
  rw [hcut, token?, stringBody?_append h]
  rfl

/-- A string is one token, which has the text of the string if it has one. -/
theorem token?_string {s : Option String} {cs : List Char} (h : SpellsString s cs) (rest : List Char) :
    token? (cs ++ rest) = some (.string s, rest) := by
  cases h with
  | text hbody hs =>
    rw [token?_quoted hbody, charsOfUnits?_of_denotes hs, Option.map_some, String.ofList_toList]
  | @broken ns body hbody hs =>
    have hnone : charsOfUnits? ns = none := by
      cases hcs : charsOfUnits? ns with
      | none => rfl
      | some cs => exact absurd (denotes_of_charsOfUnits? (lt_of_spellsUnits hbody) hcs) (hs cs)
    rw [token?_quoted hbody, hnone, Option.map_none]

/-! ## Numbers -/

def Clear (rest : List Char) : Prop := ∀ c ∈ rest.head?, c.isDigit = false ∧ c ≠ '.' ∧ c ≠ 'e' ∧ c ≠ 'E'

theorem mem_head?_append {cs ds : List Char} {c : Char} (h : c ∈ (cs ++ ds).head?) :
    c ∈ cs.head? ∨ cs = [] ∧ c ∈ ds.head? := by
  cases cs with
  | nil => exact .inr ⟨rfl, h⟩
  | cons => exact .inl h

theorem Digits.exists_cons {ds : List Char} (h : Digits ds) : ∃ d rest, ds = d :: rest ∧ d.isDigit = true := by
  cases ds with
  | nil => exact absurd rfl h.1
  | cons d rest => exact ⟨d, rest, rfl, h.2 d List.mem_cons_self⟩

theorem someDigits?_append {ds rest : List Char} (h : Digits ds) (hrest : ∀ c ∈ rest.head?, c.isDigit = false) :
    someDigits? (ds ++ rest) = some (ds, rest) := by
  have hstop : rest.takeWhile Char.isDigit = [] ∧ rest.dropWhile Char.isDigit = rest := by
    cases rest with
    | nil => exact ⟨rfl, rfl⟩
    | cons c rest => simp [hrest c rfl]
  rw [someDigits?, List.takeWhile_append_of_pos h.2, List.dropWhile_append_of_pos h.2, hstop.1, hstop.2,
    List.append_nil, List.isEmpty_eq_false_iff.2 h.1]
  rfl

theorem wholePart?_append {ds rest : List Char} (h : IsWhole ds) (hrest : ∀ c ∈ rest.head?, c.isDigit = false) :
    wholePart? (ds ++ rest) = some (ds, rest) := by
  have hzero : ds.head? = some '0' → ds.length = 1 := fun h0 => by rw [h.2 h0]; rfl
  rw [wholePart?, someDigits?_append h.1 hrest]
  simpa using hzero

theorem fraction?_append {cs rest : List Char} (h : IsFraction cs)
    (hrest : ∀ c ∈ rest.head?, c.isDigit = false ∧ c ≠ '.') : fraction? (cs ++ rest) = some (cs, rest) := by
  rcases h with rfl | ⟨ds, rfl, hds⟩
  · cases rest with
    | nil => rfl
    | cons c rest =>
      rw [List.nil_append, fraction?]
      rintro cs ⟨rfl, -⟩
      exact (hrest '.' rfl).2 rfl
  · rw [List.cons_append, fraction?, someDigits?_append hds fun c hc => (hrest c hc).1]
    rfl

theorem exponentSign_append {sign ds rest : List Char} (hsign : sign = [] ∨ sign = ['+'] ∨ sign = ['-'])
    (hds : Digits ds) : exponentSign (sign ++ ds ++ rest) = (sign, ds ++ rest) := by
  rcases hsign with rfl | rfl | rfl
  · obtain ⟨d, ds, rfl, hd⟩ := hds.exists_cons
    rw [List.nil_append, List.cons_append, exponentSign]
    · rintro cs ⟨rfl, -⟩
      exact absurd hd (by decide)
    · rintro cs ⟨rfl, -⟩
      exact absurd hd (by decide)
  · rfl
  · rfl

theorem exponent?_append {cs rest : List Char} (h : IsExponent cs)
    (hrest : ∀ c ∈ rest.head?, c.isDigit = false ∧ c ≠ 'e' ∧ c ≠ 'E') : exponent? (cs ++ rest) = some (cs, rest) := by
  rcases h with rfl | ⟨e, sign, ds, rfl, he, hsign, hds⟩
  · cases rest with
    | nil => rfl
    | cons c rest =>
      have hc := hrest c rfl
      rw [List.nil_append, exponent?]
      simp [hc.2.1, hc.2.2]
  · have hdigits := someDigits?_append hds fun c hc => (hrest c hc).1
    have hmark : (decide (e = 'e') || decide (e = 'E')) = true := by simpa using he
    rw [List.cons_append, List.cons_append, exponent?, if_pos hmark, exponentSign_append hsign hds]
    simp only [hdigits, Option.map_some, List.cons_append]

theorem number?_append {cs rest : List Char} (h : IsNumber cs) (hrest : Clear rest) :
    number? (cs ++ rest) = some (.number (String.ofList cs), rest) := by
  obtain ⟨sign, whole, fraction, exponent, rfl, hsign, hwhole, hfraction, hexponent⟩ := h
  have hpart : signPart (sign ++ (whole ++ (fraction ++ (exponent ++ rest)))) =
      (sign, whole ++ (fraction ++ (exponent ++ rest))) := by
    rcases hsign with rfl | rfl
    · obtain ⟨d, ds, rfl, hd⟩ := hwhole.1.exists_cons
      rw [List.nil_append, List.cons_append, signPart]
      rintro cs ⟨rfl, -⟩
      exact absurd hd (by decide)
    · rfl
  -- an exponent starts with its letter, a fraction with its dot, and neither is a digit
  have hafter : ∀ c ∈ (exponent ++ rest).head?, c.isDigit = false ∧ c ≠ '.' := fun c hc => by
    rcases mem_head?_append hc with hc | ⟨-, hc⟩
    · rcases hexponent with rfl | ⟨e, sign, ds, rfl, rfl | rfl, -, -⟩ <;> cases hc <;> decide
    · exact ⟨(hrest c hc).1, (hrest c hc).2.1⟩
  have hbehind : ∀ c ∈ (fraction ++ (exponent ++ rest)).head?, c.isDigit = false := fun c hc => by
    rcases mem_head?_append hc with hc | ⟨-, hc⟩
    · rcases hfraction with rfl | ⟨ds, rfl, -⟩ <;> cases hc
      decide
    · exact (hafter c hc).1
  have hend := exponent?_append hexponent fun c hc => ⟨(hrest c hc).1, (hrest c hc).2.2⟩
  simp only [List.append_assoc]
  rw [number?, hpart]
  simp only [wholePart?_append hwhole hbehind, fraction?_append hfraction hafter, hend, Option.bind_eq_bind,
    Option.bind_some, Option.pure_def, List.append_assoc]

theorem token?_of_number {c : Char} (hc : c = '-' ∨ c.isDigit = true) (cs : List Char) :
    token? (c :: cs) = number? (c :: cs) := by
  have hne : ∀ d : Char, d.isDigit = false → d ≠ '-' → c ≠ d := by
    rintro d hdigit hsign rfl
    rcases hc with rfl | hc
    · exact hsign rfl
    · rw [hdigit] at hc; cases hc
  rw [token?]
  all_goals
    rintro _ ⟨⟩
    exact hne _ (by decide) (by decide) rfl

theorem token?_number {cs rest : List Char} (h : IsNumber cs) (hrest : Clear rest) :
    token? (cs ++ rest) = some (.number (String.ofList cs), rest) := by
  have hstart : ∃ c ds, cs = c :: ds ∧ (c = '-' ∨ c.isDigit = true) := by
    obtain ⟨sign, whole, fraction, exponent, rfl, rfl | rfl, hwhole, -, -⟩ := h
    · obtain ⟨d, ds, rfl, hd⟩ := hwhole.1.exists_cons
      exact ⟨d, ds ++ fraction ++ exponent, by simp, .inr hd⟩
    · exact ⟨'-', whole ++ fraction ++ exponent, by simp, .inl rfl⟩
  obtain ⟨c, ds, rfl, hc⟩ := hstart
  rw [List.cons_append, token?_of_number hc, ← List.cons_append, number?_append h hrest]

/-! ## Reading through a text -/

def State.read? (st : State) (cs : List Char) : Option State := (tokens? cs).bind fun ts => ts.foldlM State.step? st

theorem token?_blank {c : Char} (h : isSpace c = true) (cs : List Char) : token? (c :: cs) = none := by
  simp only [isSpace, Bool.or_eq_true, decide_eq_true_eq] at h
  rcases h with ((rfl | rfl) | rfl) | rfl <;> rfl

theorem read?_token {cs rest : List Char} {t : Token} (h : token? cs = some (t, rest)) (st : State) :
    st.read? cs = (st.step? t).bind fun st' => st'.read? rest := by
  cases cs with
  | nil => cases h
  | cons c cs =>
    have hblank : isSpace c = false := by
      cases hc : isSpace c with
      | false => rfl
      | true => rw [token?_blank hc] at h; cases h
    have htokens : tokens? (c :: cs) = (tokens? rest).map (t :: ·) := by
      rw [tokens?, if_neg (by simp [hblank])]
      split
      · next hnone => rw [h] at hnone; cases hnone
      · next hsome => rw [h] at hsome; cases hsome; rfl
    rw [State.read?, htokens]
    cases hrest : tokens? rest with
    | none => cases st.step? t <;> simp [State.read?, hrest]
    | some ts => cases hst : st.step? t <;> simp [State.read?, hrest, hst, List.foldlM_cons]

theorem blanks_nil : Blanks [] := fun _ hc => by cases hc

theorem isSpace_of_blanks {b : List Char} (hb : Blanks b) {c : Char} (hc : c ∈ b) : isSpace c = true := by
  rcases hb c hc with rfl | rfl | rfl | rfl <;> rfl

theorem read?_blanks {b : List Char} (hb : Blanks b) (cs : List Char) (st : State) :
    st.read? (b ++ cs) = st.read? cs := by
  induction b with
  | nil => rfl
  | cons c b ih =>
    have hc : isSpace c = true := isSpace_of_blanks hb List.mem_cons_self
    have htokens : tokens? (c :: (b ++ cs)) = tokens? (b ++ cs) := by rw [tokens?, if_pos hc]
    rw [List.cons_append, State.read?, htokens]
    exact ih fun d hd => hb d (List.mem_cons_of_mem c hd)

theorem clear_of_blanks {b rest : List Char} (hb : Blanks b) (hrest : Clear rest) : Clear (b ++ rest) := by
  intro c hc
  rcases mem_head?_append hc with hc | ⟨-, hc⟩
  · rcases hb c (List.mem_of_mem_head? hc) with rfl | rfl | rfl | rfl <;> decide
  · exact hrest c hc

theorem clear_cons {c : Char} (h : c.isDigit = false ∧ c ≠ '.' ∧ c ≠ 'e' ∧ c ≠ 'E') (rest : List Char) :
    Clear (c :: rest) := by
  intro d hd
  cases hd
  exact h

/-! ## Reading a phrase -/

def Enters (st : State) (frames : List Frame) : Prop := ∀ t, t ≠ .closeArray → st.step? t = State.enter? frames t

/-- The state takes the key of a member of the innermost object, which has the members `done` before it. -/
def TakesKey (st : State) (frames : List Frame) (done : List (Option String × Value)) : Prop :=
  ∀ key, st.step? (.string key) = some ⟨frames, .colon done key⟩

/-- What reading a stretch of a text does to a state that is ready for it. The last item and the
    last member are read together with the bracket behind them. -/
def Reads : Phrase → List Char → Prop
  | .value v, cs | .padded v, cs => ∀ st frames rest, Enters st frames → Clear rest →
    st.read? (cs ++ rest) = State.read? ⟨frames, .after v⟩ rest
  | .items vs, cs => ∀ st frames done rest, Enters st (.array done :: frames) →
    st.read? (cs ++ ']' :: rest) = State.read? ⟨frames, .after (.array (done.reverse ++ vs))⟩ rest
  | .member key v, cs => ∀ st frames done rest, TakesKey st frames done → Clear rest →
    st.read? (cs ++ rest) = State.read? ⟨.object done key :: frames, .after v⟩ rest
  | .members ms, cs => ∀ st frames done rest, TakesKey st frames done →
    st.read? (cs ++ '\x7d' :: rest) = State.read? ⟨frames, .after (.object (done.reverse ++ ms))⟩ rest

theorem enters_value (frames : List Frame) : Enters ⟨frames, .value⟩ frames := fun _ _ => rfl

theorem enters_firstItem (frames : List Frame) : Enters ⟨frames, .firstItem⟩ (.array [] :: frames) := by
  intro t ht
  cases t <;> first | rfl | exact absurd rfl ht

theorem takesKey_firstKey (frames : List Frame) : TakesKey ⟨frames, .firstKey⟩ frames [] := fun _ => rfl

theorem takesKey_nextKey (frames : List Frame) (done : List (Option String × Value)) :
    TakesKey ⟨frames, .nextKey done⟩ frames done := fun _ => rfl

/-- A value that is one token. -/
theorem reads_token {v : Value} {cs : List Char} {t : Token} (ht : t ≠ .closeArray)
    (henter : ∀ frames, State.enter? frames t = some ⟨frames, .after v⟩)
    (htoken : ∀ rest, Clear rest → token? (cs ++ rest) = some (t, rest)) : Reads (.value v) cs := by
  intro st frames rest hst hrest
  rw [read?_token (htoken rest hrest), hst t ht, henter]
  rfl

theorem Spells.reads {p : Phrase} {cs : List Char} (h : Spells p cs) : Reads p cs := by
  induction h with
  | null => exact reads_token (t := .null) (by decide) (fun _ => rfl) fun _ _ => rfl
  | true => exact reads_token (t := .bool Bool.true) (by decide) (fun _ => rfl) fun _ _ => rfl
  | false => exact reads_token (t := .bool Bool.false) (by decide) (fun _ => rfl) fun _ _ => rfl
  | number h => exact reads_token (by simp) (fun _ => rfl) fun _ hrest => token?_number h hrest
  | string h => exact reads_token (by simp) (fun _ => rfl) fun rest _ => token?_string h rest
  | @emptyArray b hb =>
    intro st frames rest hst _
    have hopen : token? ('[' :: b ++ [']'] ++ rest) = some (.openArray, b ++ ']' :: rest) := by simp [token?]
    rw [read?_token hopen, hst .openArray (by decide), State.enter?, Option.bind_some, read?_blanks hb,
      read?_token (t := .closeArray) rfl]
    rfl
  | @array vs cs _ ih =>
    intro st frames rest hst _
    have hopen : token? ('[' :: cs ++ [']'] ++ rest) = some (.openArray, cs ++ ']' :: rest) := by simp [token?]
    rw [read?_token hopen, hst .openArray (by decide), State.enter?, Option.bind_some,
      ih _ frames [] rest (enters_firstItem frames)]
    rfl
  | @emptyObject b hb =>
    intro st frames rest hst _
    have hopen : token? ('\x7b' :: b ++ ['\x7d'] ++ rest) = some (.openObject, b ++ '\x7d' :: rest) := by
      simp [token?]
    rw [read?_token hopen, hst .openObject (by decide), State.enter?, Option.bind_some, read?_blanks hb,
      read?_token (t := .closeObject) rfl]
    rfl
  | @object ms cs _ ih =>
    intro st frames rest hst _
    have hopen : token? ('\x7b' :: cs ++ ['\x7d'] ++ rest) = some (.openObject, cs ++ '\x7d' :: rest) := by
      simp [token?]
    rw [read?_token hopen, hst .openObject (by decide), State.enter?, Option.bind_some,
      ih _ frames [] rest (takesKey_firstKey frames)]
    rfl
  | padded hb _ hb' ih =>
    intro st frames rest hst hrest
    rw [List.append_assoc, List.append_assoc, read?_blanks hb, ih st frames _ hst (clear_of_blanks hb' hrest),
      read?_blanks hb']
  | item _ ih =>
    intro st frames done rest hst
    rw [ih st _ _ hst (clear_cons (by decide) rest), read?_token (t := .closeArray) rfl]
    simp only [State.step?, Option.bind_some, List.reverse_cons]
  | @nextItem v vs cs ds _ _ ihv ihvs =>
    intro st frames done rest hst
    have hcut : cs ++ ',' :: ds ++ ']' :: rest = cs ++ ',' :: (ds ++ ']' :: rest) := by simp
    rw [hcut, ihv st _ _ hst (clear_cons (by decide) _), read?_token (t := .comma) rfl]
    simp only [State.step?, Option.bind_some]
    rw [ihvs _ frames (v :: done) rest (enters_value _), List.reverse_cons, List.append_assoc]
    rfl
  | @member key v b ks b' cs hb hkey hb' _ ih =>
    intro st frames done rest hst hrest
    have hcut : b ++ ks ++ b' ++ ':' :: cs ++ rest = b ++ (ks ++ (b' ++ ':' :: (cs ++ rest))) := by simp
    rw [hcut, read?_blanks hb, read?_token (token?_string hkey _), hst key, Option.bind_some, read?_blanks hb',
      read?_token (t := .colon) rfl]
    exact ih _ _ rest (enters_value _) hrest
  | lastMember _ ih =>
    intro st frames done rest hst
    rw [ih st frames done _ hst (clear_cons (by decide) rest), read?_token (t := .closeObject) rfl]
    simp only [State.step?, Option.bind_some, List.reverse_cons]
  | @nextMember key v ms cs ds _ _ ihm ihms =>
    intro st frames done rest hst
    have hcut : cs ++ ',' :: ds ++ '\x7d' :: rest = cs ++ ',' :: (ds ++ '\x7d' :: rest) := by simp
    rw [hcut, ihm st frames done _ hst (clear_cons (by decide) _), read?_token (t := .comma) rfl]
    simp only [State.step?, Option.bind_some]
    rw [ihms _ frames ((key, v) :: done) rest (takesKey_nextKey _ _), List.reverse_cons, List.append_assoc]
    rfl

/-- Every text that spells a value is read as that value. -/
theorem ofText?_of_spells {v : Value} {text : String} (h : SpellsText v text) : Value.ofText? text = some v := by
  have hread := h.reads ⟨[], .value⟩ [] [] (enters_value []) fun c hc => by cases hc
  have hnil : tokens? [] = some [] := by rw [tokens?]
  rw [List.append_nil] at hread
  have hstate : State.read? ⟨[], .value⟩ text.toList = some ⟨[], .after v⟩ := by
    rw [hread, State.read?, hnil]; rfl
  obtain ⟨ts, hts, hrun⟩ := Option.bind_eq_some_iff.1 hstate
  rw [Value.ofText?, hts, Option.bind_some, Value.ofTokens?, hrun]
  rfl

end Patchbay.Json
