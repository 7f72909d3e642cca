/-
  Patchbay.Proofs.Spelling — what was read was spelled so.

  `Passes r bits r'` says that reading got from `r` to `r'` over `bits`. `Takes m layout meaning`
  says that `m`, where it succeeds, passes the layout of some entry and makes of it what the
  entry means; it is the converse of `Reads`.
  - `takes_moduleRecord`, `takes_cableRecord`, `takes_parameterRecord`: the records.
  - `exists_content_of_records`: a section that is read without fault spells some content.
-/

import Patchbay.Proofs.Layout

namespace Patchbay.Container

open Bits

/-! ## Fields and bits -/

theorem exists_fieldBits {width : Nat} {bits : List Bool} (h : bits.length = width) :
    ∃ v : BitVec width, fieldBits v = bits := by
  subst h
  refine ⟨BitVec.ofNat bits.length (toNat bits), ?_⟩
  rw [fieldBits, BitVec.toNat_ofNat, Nat.mod_eq_of_lt (toNat_lt bits), ofNat_toNat]

/-- Bits of several fields come apart after the first. -/
theorem exists_fieldBits_append (width rest : Nat) {bits : List Bool} (h : bits.length = width + rest) :
    ∃ (v : BitVec width) (more : List Bool), more.length = rest ∧ bits = fieldBits v ++ more := by
  have htake : (bits.take width).length = width := by rw [List.length_take]; omega
  obtain ⟨v, hv⟩ := exists_fieldBits htake
  refine ⟨v, bits.drop width, by rw [List.length_drop]; omega, ?_⟩
  rw [hv, List.take_append_drop]

theorem exists_flatMap_fieldBits {width n : Nat} {bits : List Bool} (h : bits.length = n * width) :
    ∃ vs : List (BitVec width), vs.length = n ∧ vs.flatMap fieldBits = bits := by
  induction n generalizing bits with
  | zero =>
    rw [Nat.zero_mul] at h
    exact ⟨[], rfl, (List.length_eq_zero_iff.1 h).symm⟩
  | succ n ih =>
    rw [Nat.succ_mul, Nat.add_comm] at h
    obtain ⟨v, more, hmore, rfl⟩ := exists_fieldBits_append _ _ h
    obtain ⟨vs, hvs, rfl⟩ := ih hmore
    exact ⟨v :: vs, by rw [List.length_cons, hvs], rfl⟩

/-- A list is as long as its count says. -/
theorem exists_counted {width : Nat} {α : Type} {es : List α} {count : BitVec width} (h : es.length = count.toNat) :
    ∃ l : Counted width α, l.1 = es ∧ l.countBits = fieldBits count :=
  ⟨⟨es, by rw [h]; exact count.isLt⟩, rfl, by rw [Counted.countBits, h, fieldBits]⟩

/-- The thirty bits between a module's id and its modes. -/
theorem exists_looks {bits : List Bool} (h : bits.length = 30) :
    ∃ (x y : BitVec 7) (color : BitVec 8) (uprate leds : BitVec 1) (reserved : BitVec 6),
      bits = fieldBits x ++ fieldBits y ++ fieldBits color ++ fieldBits uprate ++ fieldBits leds ++
        fieldBits reserved := by
  obtain ⟨x, bits₁, h₁, rfl⟩ := exists_fieldBits_append 7 23 h
  obtain ⟨y, bits₂, h₂, rfl⟩ := exists_fieldBits_append 7 16 h₁
  obtain ⟨color, bits₃, h₃, rfl⟩ := exists_fieldBits_append 8 8 h₂
  obtain ⟨uprate, bits₄, h₄, rfl⟩ := exists_fieldBits_append 1 7 h₃
  obtain ⟨leds, bits₅, h₅, rfl⟩ := exists_fieldBits_append 1 6 h₄
  obtain ⟨reserved, rfl⟩ := exists_fieldBits h₅
  exact ⟨x, y, color, uprate, leds, reserved, by simp only [List.append_assoc]⟩

/-! ## Passing over bits -/

namespace Fields

structure Passes (r : Reader) (bits : List Bool) (r' : Reader) : Prop where
  rest : r.rest = bits ++ r'.rest
  position : r'.position = r.position + bits.length

theorem Passes.refl (r : Reader) : Passes r [] r := ⟨rfl, rfl⟩

theorem Passes.trans {r s t : Reader} {bits bits' : List Bool} (h : Passes r bits s) (h' : Passes s bits' t) :
    Passes r (bits ++ bits') t := by
  refine ⟨?_, ?_⟩
  · rw [h.rest, h'.rest, List.append_assoc]
  · rw [h'.position, h.position, List.length_append, Nat.add_assoc]

def Takes {α γ : Type} (m : Fields α) (layout : γ → List Bool) (meaning : γ → α) : Prop :=
  ∀ r a r', m r = .ok (a, r') → ∃ e, meaning e = a ∧ Passes r (layout e) r'

section

variable {α β γ : Type} {m : Fields α} {r r' : Reader}

theorem exists_of_bind_eq_ok {f : α → Fields β} {b : β} (h : (m >>= f) r = .ok (b, r')) :
    ∃ a s, m r = .ok (a, s) ∧ f a s = .ok (b, r') := by
  change Except.bind (m r) (fun p => f p.1 p.2) = _ at h
  cases hm : m r with
  | error e => rw [hm] at h; cases h
  | ok p => rw [hm] at h; exact ⟨p.1, p.2, rfl, h⟩

theorem eq_of_pure_eq_ok {a b : α} (h : (pure a : Fields α) r = .ok (b, r')) : b = a ∧ r' = r := by
  cases h
  exact ⟨rfl, rfl⟩

theorem Answers.takes {width : Nat} {answer : List Bool → α} (h : Answers width answer m) :
    Takes m (@fieldBits width) fun v => answer (fieldBits v) := by
  intro r a r' hr
  rw [h] at hr
  split at hr
  · next hwidth =>
    cases hr
    obtain ⟨v, hv⟩ := exists_fieldBits (List.length_take_of_le hwidth)
    refine ⟨v, congrArg answer hv, ?_, by rw [length_fieldBits]⟩
    rw [hv, List.take_append_drop]
  · cases hr

theorem takes_field (width : Nat) : Takes (field width) (@fieldBits width) BitVec.toNat := by
  have hvalue : (fun v : BitVec width => toNat (fieldBits v)) = BitVec.toNat := by
    funext v
    rw [fieldBits, toNat_ofNat, Nat.mod_eq_of_lt v.isLt]
  exact hvalue ▸ (answers_field width).takes

theorem takes_skip (width : Nat) : Takes (skip width) (@fieldBits width) fun _ => () := (answers_skip width).takes

/-- What is read first takes the first bits. -/
theorem Takes.of_bind {layout : γ → List Bool} {meaning : γ → α} (hm : Takes m layout meaning) {f : α → Fields β}
    {b : β} (h : (m >>= f) r = .ok (b, r')) :
    ∃ e s, Passes r (layout e) s ∧ f (meaning e) s = .ok (b, r') := by
  obtain ⟨a, s, ha, h⟩ := exists_of_bind_eq_ok h
  obtain ⟨e, rfl, he⟩ := hm _ _ _ ha
  exact ⟨e, s, he, h⟩

theorem takes_coded {width : Nat} {ofCode : Nat → Except UnknownCode α} {code : α → Nat}
    (hcode : ∀ n a, ofCode n = .ok a → code a = n) :
    Takes (coded width ofCode) (fun a => ofNat width (code a)) id := by
  intro r a r' h
  unfold coded at h
  obtain ⟨v, s, hv, h⟩ := (takes_field width).of_bind h
  cases hc : ofCode v.toNat with
  | error e => rw [hc] at h; cases h
  | ok b =>
    rw [hc] at h
    obtain ⟨rfl, rfl⟩ := eq_of_pure_eq_ok h
    refine ⟨a, rfl, ?_⟩
    show Passes r (ofNat width (code a)) r'
    rw [hcode _ _ hc]
    exact hv

/-- Reading goes on to something that reads no further. -/
theorem Takes.bind_pure {layout : γ → List Bool} {meaning : γ → α} {f : α → Fields β} {g : α → β}
    (hm : Takes m layout meaning) (hf : ∀ a, f a = pure (g a)) : Takes (m >>= f) layout fun e => g (meaning e) := by
  intro r b r' h
  obtain ⟨e, s, he, h⟩ := hm.of_bind h
  rw [hf] at h
  obtain ⟨rfl, rfl⟩ := eq_of_pure_eq_ok h
  exact ⟨e, rfl, he⟩

variable {layout : γ → List Bool} {meaning : γ → α}

theorem takes_times (hm : Takes m layout meaning) {n : Nat} {as : List α} (h : times n m r = .ok (as, r')) :
    ∃ es : List γ, es.length = n ∧ es.map meaning = as ∧ Passes r (es.flatMap layout) r' := by
  induction n generalizing r as with
  | zero =>
    obtain ⟨rfl, rfl⟩ := eq_of_pure_eq_ok h
    exact ⟨[], rfl, rfl, .refl _⟩
  | succ n ih =>
    unfold times at h
    obtain ⟨e, s, he, h⟩ := hm.of_bind h
    obtain ⟨rest, t, hrest, h⟩ := exists_of_bind_eq_ok h
    obtain ⟨rfl, rfl⟩ := eq_of_pure_eq_ok h
    obtain ⟨es, rfl, rfl, hes⟩ := ih hrest
    exact ⟨e :: es, rfl, rfl, he.trans hes⟩

theorem takes_collect (hm : Takes m layout meaning) {n : Nat} {as : List α} (h : collect n m r = (as, .ok r')) :
    ∃ es : List γ, es.length = n ∧ Passes r (es.flatMap layout) r' := by
  induction n generalizing r as with
  | zero =>
    cases h
    exact ⟨[], rfl, .refl _⟩
  | succ n ih =>
    unfold collect at h
    cases ha : m r with
    | error e => rw [ha] at h; cases h
    | ok p =>
      obtain ⟨a, s⟩ := p
      obtain ⟨e, -, he⟩ := hm _ _ _ ha
      rw [ha] at h
      obtain ⟨rest, last, hrest⟩ : ∃ rest last, collect n m s = (rest, last) := ⟨_, _, rfl⟩
      simp only [hrest, Prod.mk.injEq] at h
      obtain ⟨-, rfl⟩ := h
      obtain ⟨es, rfl, hes⟩ := ih hrest
      exact ⟨e :: es, rfl, he.trans hes⟩

end

end Fields

open Fields

/-! ## Records -/

theorem code_of_ofCode_area (n : Nat) (a : Area) (h : Area.ofCode n = .ok a) : a.code = n := by
  unfold Area.ofCode at h
  split at h <;> cases h <;> rfl

theorem code_of_ofCode_kind (n : Nat) (k : CableKind) (h : CableKind.ofCode n = .ok k) : k.code = n := by
  unfold CableKind.ofCode at h
  split at h <;> cases h <;> rfl

theorem code_of_ofCode_color (n : Nat) (c : CableColor) (h : CableColor.ofCode n = .ok c) : c.code = n := by
  unfold CableColor.ofCode at h
  split at h <;> cases h <;> rfl

theorem takes_moduleRecord : Takes moduleRecord ModuleEntry.bits ModuleEntry.key := by
  intro r key r' h
  unfold moduleRecord at h
  obtain ⟨typeId, s, ht, h⟩ := (takes_field 8).of_bind h
  obtain ⟨id, t, hi, h⟩ := (takes_field 8).of_bind h
  obtain ⟨looks, u, hl, h⟩ := (takes_skip 30).of_bind h
  obtain ⟨count, v, hc, h⟩ := (takes_field 4).of_bind h
  obtain ⟨modeBits, w, hm, h⟩ := (takes_skip (count.toNat * 6)).of_bind h
  obtain ⟨rfl, rfl⟩ := eq_of_pure_eq_ok h
  obtain ⟨x, y, color, uprate, leds, reserved, hlooks⟩ := exists_looks (length_fieldBits looks)
  obtain ⟨modes, hlen, hmodes⟩ := exists_flatMap_fieldBits (length_fieldBits modeBits)
  obtain ⟨counted, rfl, hcount⟩ := exists_counted hlen
  refine ⟨⟨typeId, id, x, y, color, uprate, leds, reserved, counted⟩, rfl, ?_⟩
  have hpass := (((ht.trans hi).trans hl).trans hc).trans hm
  rw [hlooks, ← hmodes, ← hcount] at hpass
  exact hpass

theorem takes_cableRecord (area : Area) : Takes (cableRecord area) CableEntry.bits fun e => e.stored.inArea area := by
  intro r c r' h
  unfold cableRecord at h
  obtain ⟨color, s, hcolor, h⟩ := (takes_coded code_of_ofCode_color).of_bind h
  obtain ⟨moduleFrom, t, hm, h⟩ := (takes_field 8).of_bind h
  obtain ⟨jackFrom, u, hj, h⟩ := (takes_field 6).of_bind h
  obtain ⟨kind, v, hkind, h⟩ := (takes_coded code_of_ofCode_kind).of_bind h
  obtain ⟨moduleTo, w, hm', h⟩ := (takes_field 8).of_bind h
  obtain ⟨jackTo, x, hj', h⟩ := (takes_field 6).of_bind h
  obtain ⟨rfl, rfl⟩ := eq_of_pure_eq_ok h
  exact ⟨⟨color, moduleFrom, jackFrom, kind, moduleTo, jackTo⟩, rfl,
    ((((hcolor.trans hm).trans hj).trans hkind).trans hm').trans hj'⟩

/-- A variation is taken only if it stores as many values as its module declares. -/
theorem takes_variationRecord (area : Area) (moduleId : Nat) (declared : BitVec 7) :
    Takes (variationRecord area moduleId declared.toNat) (@VariationEntry.bits declared.toNat)
      fun v => v.values.map BitVec.toNat := by
  intro r as r' h
  unfold variationRecord at h
  obtain ⟨number, s, hn, h⟩ := (takes_skip 8).of_bind h
  obtain ⟨stored, t, hs, h⟩ := (takes_field 7).of_bind h
  by_cases heq : stored.toNat = declared.toNat
  · rw [if_neg (not_not.2 heq)] at h
    obtain ⟨values, hlen, rfl, hvalues⟩ := takes_times (takes_field 7) h
    refine ⟨⟨number, values, hlen.trans heq⟩, rfl, ?_⟩
    have hpass := (hn.trans hs).trans hvalues
    simpa only [VariationEntry.bits, hlen, fieldBits] using hpass
  · rw [if_pos heq] at h
    cases h

theorem takes_parameterRecord (area : Area) (variations : Nat) :
    Takes (parameterRecord area variations) (@ParameterEntry.bits variations)
      fun e => e.block?.map (·.inArea area) := by
  intro r block r' h
  unfold parameterRecord at h
  obtain ⟨moduleId, s, hm, h⟩ := (takes_field 8).of_bind h
  obtain ⟨declared, t, hd, h⟩ := (takes_field 7).of_bind h
  obtain ⟨values, u, hvalues, h⟩ := exists_of_bind_eq_ok h
  obtain ⟨rfl, rfl⟩ := eq_of_pure_eq_ok h
  obtain ⟨stored, hlen, rfl, hstored⟩ := takes_times (takes_variationRecord area moduleId.toNat declared) hvalues
  refine ⟨⟨moduleId, declared, stored, hlen⟩, ?_, (hm.trans hd).trans hstored⟩
  unfold ParameterEntry.block?
  cases stored <;> rfl

/-! ## Sections -/

namespace Section

theorem passes_ofBytes {payload : List UInt8} {bits : List Bool} {r : Reader}
    (h : Passes (Reader.ofBytes payload) bits r) : ofBytes payload = bits ++ r.rest ∧ r.position = bits.length :=
  ⟨h.rest, by rw [h.position]; exact Nat.zero_add _⟩

/-- Where a section's records end without fault, they leave less than a byte of it. -/
theorem spelled_of_ending {s : Section} {bits : List Bool} {r : Reader}
    (h : Passes (Reader.ofBytes s.payload) bits r) (hend : s.ending (.ok r) = none) :
    ∃ padding, padding.length < 8 ∧ ofBytes s.payload = bits ++ padding := by
  obtain ⟨hbits, hpos⟩ := passes_ofBytes h
  have hconsumed : r.bytesConsumed = s.payload.length := by
    by_cases he : r.bytesConsumed = s.payload.length
    · exact he
    · simp [ending, he] at hend
  have hlen := congrArg List.length hbits
  rw [length_ofBytes, List.length_append] at hlen
  unfold Reader.bytesConsumed at hconsumed
  exact ⟨r.rest, by omega, hbits⟩

variable {s : Section} {opening : Fields Opening} {records : List Record}

/-- A section is read without fault in two steps: its opening, and as many items as it counts. -/
theorem exists_of_records (hopening : s.opening? = some opening) (h : s.records = (records, none)) :
    ∃ o r items r', opening (Reader.ofBytes s.payload) = .ok (o, r) ∧ collect o.count o.item r = (items, .ok r') ∧
      s.ending (.ok r') = none := by
  unfold Section.records at h
  rw [hopening] at h
  cases ho : opening (Reader.ofBytes s.payload) with
  | error e => simp [ho] at h
  | ok p =>
    obtain ⟨o, r⟩ := p
    obtain ⟨items, last, hitems⟩ : ∃ items last, collect o.count o.item r = (items, last) := ⟨_, _, rfl⟩
    simp only [ho, hitems, Prod.mk.injEq] at h
    cases last with
    | error e => simp [ending] at h
    | ok r' => exact ⟨o, r, items, r', rfl, hitems, h.2⟩

theorem exists_description (hopening : s.opening? = some descriptionOpening) (h : s.records = (records, none)) :
    ∃ activeVariation voices mono reserved,
      (Content.description activeVariation voices mono reserved).Spelled s.payload := by
  obtain ⟨o, r, items, r', ho, hitems, hend⟩ := exists_of_records hopening h
  unfold descriptionOpening description at ho
  obtain ⟨d, t, hd, ho⟩ := exists_of_bind_eq_ok ho
  obtain ⟨rfl, rfl⟩ := eq_of_pure_eq_ok ho
  cases hitems
  obtain ⟨activeVariation, u, hv, hd⟩ := (takes_field 8).of_bind hd
  obtain ⟨voices, v, hp, hd⟩ := (takes_field 5).of_bind hd
  obtain ⟨mono, w, hm, hd⟩ := (takes_field 1).of_bind hd
  obtain ⟨reserved, x, hr, hd⟩ := (takes_skip 2).of_bind hd
  obtain ⟨rfl, rfl⟩ := eq_of_pure_eq_ok hd
  refine ⟨activeVariation, voices, mono.toNat = 1, reserved, fun bits hbits => ?_⟩
  have hmono : ofNat 1 (decide (mono.toNat = 1)).toNat = fieldBits mono := by
    have hlt := mono.isLt
    unfold fieldBits
    rcases Nat.le_one_iff_eq_zero_or_eq_one.1 (Nat.le_of_lt_succ hlt) with h | h <;> rw [h] <;> rfl
  cases hbits
  rw [hmono]
  exact spelled_of_ending (((hv.trans hp).trans hm).trans hr) hend

theorem exists_moduleList (hopening : s.opening? = some (moduleListOpening s.span)) (h : s.records = (records, none)) :
    ∃ area entries, (Content.modules area entries).Spelled s.payload := by
  obtain ⟨o, r, items, r', ho, hitems, hend⟩ := exists_of_records hopening h
  unfold moduleListOpening at ho
  obtain ⟨area, t, ha, ho⟩ := (takes_coded code_of_ofCode_area).of_bind ho
  obtain ⟨count, u, hc, ho⟩ := (takes_field 8).of_bind ho
  obtain ⟨rfl, rfl⟩ := eq_of_pure_eq_ok ho
  obtain ⟨entries, hlen, he⟩ := takes_collect (takes_moduleRecord.bind_pure fun _ => rfl) hitems
  obtain ⟨counted, rfl, hcount⟩ := exists_counted hlen
  refine ⟨area, counted, fun bits hbits => ?_⟩
  cases hbits
  rw [hcount]
  exact spelled_of_ending ((ha.trans hc).trans he) hend

theorem exists_cableList (hopening : s.opening? = some cableListOpening) (h : s.records = (records, none)) :
    ∃ area reserved entries, (Content.cables area reserved entries).Spelled s.payload := by
  obtain ⟨o, r, items, r', ho, hitems, hend⟩ := exists_of_records hopening h
  unfold cableListOpening at ho
  obtain ⟨area, t, ha, ho⟩ := (takes_coded code_of_ofCode_area).of_bind ho
  obtain ⟨reserved, u, hr, ho⟩ := (takes_skip 12).of_bind ho
  obtain ⟨count, v, hc, ho⟩ := (takes_field 10).of_bind ho
  obtain ⟨rfl, rfl⟩ := eq_of_pure_eq_ok ho
  obtain ⟨entries, hlen, he⟩ := takes_collect ((takes_cableRecord _).bind_pure fun _ => rfl) hitems
  obtain ⟨counted, rfl, hcount⟩ := exists_counted hlen
  refine ⟨area, reserved, counted, fun bits hbits => ?_⟩
  cases hbits
  rw [hcount]
  exact spelled_of_ending (((ha.trans hr).trans hc).trans he) hend

theorem exists_parameters (hopening : s.opening? = some parametersOpening) (h : s.records = (records, none)) :
    ∃ area variations entries, (Content.parameters area variations entries).Spelled s.payload := by
  obtain ⟨o, r, items, r', ho, hitems, hend⟩ := exists_of_records hopening h
  unfold parametersOpening at ho
  obtain ⟨area, t, ha, ho⟩ := (takes_coded code_of_ofCode_area).of_bind ho
  obtain ⟨count, u, hc, ho⟩ := (takes_field 8).of_bind ho
  obtain ⟨variations, v, hv, ho⟩ := (takes_field 8).of_bind ho
  obtain ⟨rfl, rfl⟩ := eq_of_pure_eq_ok ho
  obtain ⟨entries, hlen, he⟩ := takes_collect ((takes_parameterRecord _ _).bind_pure fun _ => rfl) hitems
  obtain ⟨counted, rfl, hcount⟩ := exists_counted hlen
  refine ⟨area, variations, counted, fun bits hbits => ?_⟩
  cases hbits
  rw [hcount]
  exact spelled_of_ending (((ha.trans hc).trans hv).trans he) hend

/-- A section that is read without fault spells a content of its kind. -/
theorem exists_content_of_records (h : s.records.2 = none) : ∃ c : Content, c.kind = s.kind ∧ c.Spelled s.payload := by
  have hrecords : s.records = (s.records.1, none) := by rw [← h]
  by_cases hd : s.kind = descriptionKind
  · obtain ⟨activeVariation, voices, mono, reserved, hc⟩ :=
      exists_description (by simp only [opening?, if_pos hd]) hrecords
    exact ⟨.description activeVariation voices mono reserved, hd.symm, hc⟩
  by_cases hm : s.kind = moduleListKind
  · obtain ⟨area, entries, hc⟩ := exists_moduleList (by simp only [opening?, if_neg hd, if_pos hm]) hrecords
    exact ⟨.modules area entries, hm.symm, hc⟩
  by_cases hc : s.kind = cableListKind
  · obtain ⟨area, reserved, entries, hc'⟩ :=
      exists_cableList (by simp only [opening?, if_neg hd, if_neg hm, if_pos hc]) hrecords
    exact ⟨.cables area reserved entries, hc.symm, hc'⟩
  by_cases hp : s.kind = parametersKind
  · obtain ⟨area, variations, entries, hc'⟩ :=
      exists_parameters (by simp only [opening?, if_neg hd, if_neg hm, if_neg hc, if_pos hp]) hrecords
    exact ⟨.parameters area variations entries, hp.symm, hc'⟩
  have hunknown : s.kind ∉ knownKinds := by simp [knownKinds, hd, hm, hc, hp]
  exact ⟨.other s.kind hunknown, rfl, fun bits hbits => by cases hbits⟩

end Section

end Patchbay.Container
