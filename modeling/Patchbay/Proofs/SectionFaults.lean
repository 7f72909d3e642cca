/-
  Patchbay.Proofs.SectionFaults — where reading a section fails, and on what.

  - `Fails`: where a reader fails, something holds of the fault and of the bits that were left.
    `fails_moduleRecord`, `fails_cableRecord`, `fails_parameterRecord` say so of the records.
  - `opens_of_opening?`, `fault_of_records`: the fault of a section stands in its payload, or its
    records leave some of it.
  - `not_spelled_of_records`: and the payload spells no content.
  - `exists_entries_of_placed`: a module that a section declares, and those it declares before.
-/

import Patchbay.Proofs.Spelling

namespace Patchbay

/-! ## Codes -/

def CodeField.width : CodeField → Nat
  | .area => 2
  | .cableKind => 1
  | .cableColor => 3

/-- The code fits its field but stands for nothing there. A cable kind has no such code. -/
def UnknownCode.NamesNothing : UnknownCode → Prop
  | ⟨.area, code⟩ => code = 2 ∨ code = 3
  | ⟨.cableKind, _⟩ => False
  | ⟨.cableColor, code⟩ => code = 7

namespace Container

open Bits Fields

theorem namesNothing_of_area {v : BitVec 2} {e : UnknownCode} (h : Area.ofCode v.toNat = .error e) :
    e.NamesNothing ∧ ofNat e.field.width e.code = fieldBits v := by
  have hlt := v.isLt
  have hcode : ∀ n < 4, Area.ofCode n = .error e → e = ⟨.area, n⟩ ∧ (n = 2 ∨ n = 3)
    | 2, _, h | 3, _, h => by cases h; decide
  obtain ⟨rfl, hnothing⟩ := hcode _ hlt h
  exact ⟨hnothing, rfl⟩

theorem namesNothing_of_color {v : BitVec 3} {e : UnknownCode} (h : CableColor.ofCode v.toNat = .error e) :
    e.NamesNothing ∧ ofNat e.field.width e.code = fieldBits v := by
  have hlt := v.isLt
  have hcode : ∀ n < 8, CableColor.ofCode n = .error e → e = ⟨.cableColor, n⟩ ∧ n = 7
    | 7, _, h => by cases h; decide
  obtain ⟨rfl, hnothing⟩ := hcode _ hlt h
  exact ⟨hnothing, rfl⟩

theorem not_error_of_kind {v : BitVec 1} {e : UnknownCode} (h : CableKind.ofCode v.toNat = .error e) : False := by
  have hcode : ∀ n < 2, CableKind.ofCode n ≠ .error e
    | 0, _, h | 1, _, h => by cases h
  exact hcode _ v.isLt h

/-! ## Faults of readers -/

namespace Fields

/-- Where `m` fails, `P` holds of the bits that were left and the fault. -/
def Fails {α : Type} (m : Fields α) (P : List Bool → RecordFault → Prop) : Prop :=
  ∀ r fault, m r = .error fault → P r.rest fault

section

variable {α β γ : Type} {m : Fields α} {P : List Bool → RecordFault → Prop} {layout : γ → List Bool} {meaning : γ → α}

theorem fails_pure (a : α) : Fails (pure a) P := by
  intro r fault h
  cases h

theorem Answers.fails {width : Nat} {answer : List Bool → α} (h : Answers width answer m)
    (hshort : ∀ bits, P bits .short) : Fails m P := by
  intro r fault hr
  rw [h] at hr
  split at hr
  · cases hr
  · cases hr
    exact hshort _

theorem fails_field (width : Nat) (hshort : ∀ bits, P bits .short) : Fails (field width) P :=
  (answers_field width).fails hshort

theorem fails_skip (width : Nat) (hshort : ∀ bits, P bits .short) : Fails (skip width) P :=
  (answers_skip width).fails hshort

/-- What fails second fails after the bits that were read first. -/
theorem Fails.bind {f : α → Fields β} (hm : Fails m P) (htakes : Takes m layout meaning)
    (hf : ∀ e, Fails (f (meaning e)) fun bits fault => P (layout e ++ bits) fault) : Fails (m >>= f) P := by
  intro r fault h
  change Except.bind (m r) (fun p => f p.1 p.2) = _ at h
  cases hmr : m r with
  | error e =>
    rw [hmr] at h
    cases h
    exact hm r _ hmr
  | ok p =>
    obtain ⟨a, s⟩ := p
    rw [hmr] at h
    obtain ⟨e, rfl, he⟩ := htakes _ _ _ hmr
    rw [he.rest]
    exact hf e s fault h

theorem Fails.bind_pure {f : α → Fields β} {g : α → β} (hm : Fails m P) (hf : ∀ a, f a = pure (g a)) :
    Fails (m >>= f) P := by
  intro r fault h
  change Except.bind (m r) (fun p => f p.1 p.2) = _ at h
  cases hmr : m r with
  | error e =>
    rw [hmr] at h
    cases h
    exact hm r _ hmr
  | ok p =>
    rw [hmr] at h
    change f p.1 p.2 = _ at h
    rw [hf] at h
    cases h

theorem fails_coded {width : Nat} {ofCode : Nat → Except UnknownCode α} (hshort : ∀ bits, P bits .short)
    (hcode : ∀ (v : BitVec width) e rest, ofCode v.toNat = .error e → P (fieldBits v ++ rest) (.badCode e)) :
    Fails (coded width ofCode) P := by
  refine (fails_field width hshort).bind (takes_field width) fun v => ?_
  cases hc : ofCode v.toNat with
  | ok a => exact fails_pure a
  | error e =>
    rintro r _ ⟨⟩
    exact hcode v e _ hc

/-- `P` must go on holding when more bits were read before. -/
theorem Fails.times (hm : Fails m P) (htakes : Takes m layout meaning)
    (hP : ∀ e bits fault, P bits fault → P (layout e ++ bits) fault) (n : Nat) : Fails (times n m) P := by
  induction n with
  | zero => exact fails_pure []
  | succ n ih =>
    refine hm.bind htakes fun e => ?_
    have hrest : Fails (Fields.times n m) fun bits fault => P (layout e ++ bits) fault :=
      fun r fault h => hP e _ _ (ih r fault h)
    exact hrest.bind_pure fun _ => rfl

/-- Items are read up to a place where they are at an end, or where the next one fails. -/
theorem exists_of_collect (htakes : Takes m layout meaning) (n : Nat) (r : Reader) :
    ∃ (es : List γ) (r' : Reader), (collect n m r).1 = es.map meaning ∧ Passes r (es.flatMap layout) r' ∧
      ((collect n m r).2 = .ok r' ∨ ∃ fault, (collect n m r).2 = .error fault ∧ m r' = .error fault) := by
  induction n generalizing r with
  | zero => exact ⟨[], r, rfl, .refl r, .inl rfl⟩
  | succ n ih =>
    unfold collect
    cases hmr : m r with
    | error fault => exact ⟨[], r, rfl, .refl r, .inr ⟨fault, rfl, hmr⟩⟩
    | ok p =>
      obtain ⟨a, s⟩ := p
      obtain ⟨e, rfl, he⟩ := htakes _ _ _ hmr
      obtain ⟨es, r', hes, hpass, hend⟩ := ih s
      exact ⟨e :: es, r', by rw [List.map_cons, ← hes], he.trans hpass, hend⟩

end

end Fields

/-! ## Faults of records -/

/-- What a fault says is there in the payload of a section of the kind. -/
def RecordFault.StandsIn (kind : UInt8) (payload : List Bool) : RecordFault → Prop
  | .short => True
  | .badCode e => e.NamesNothing ∧ ∃ front rest, payload = front ++ (ofNat e.field.width e.code ++ rest)
  | .parameterCount area moduleId declared stored =>
    kind = parametersKind ∧ declared ≠ stored ∧ declared < 2 ^ 7 ∧ stored < 2 ^ 7 ∧ ∃ front between rest,
      payload = ofNat 2 area.code ++ (front ++ (ofNat 8 moduleId ++ (ofNat 7 declared ++
        (between ++ (ofNat 7 stored ++ rest)))))

def Behind (kind : UInt8) (head bits : List Bool) (fault : RecordFault) : Prop :=
  ∀ front, fault.StandsIn kind (head ++ (front ++ bits))

theorem fails_description {P : List Bool → RecordFault → Prop} (hshort : ∀ bits, P bits .short) :
    Fails description P :=
  (fails_field 8 hshort).bind (takes_field 8) fun _ => (fails_field 5 fun _ => hshort _).bind (takes_field 5) fun _ =>
    (fails_field 1 fun _ => hshort _).bind (takes_field 1) fun _ =>
    (fails_skip 2 fun _ => hshort _).bind_pure fun _ => rfl

theorem fails_moduleRecord {P : List Bool → RecordFault → Prop} (hshort : ∀ bits, P bits .short) :
    Fails moduleRecord P :=
  (fails_field 8 hshort).bind (takes_field 8) fun _ => (fails_field 8 fun _ => hshort _).bind (takes_field 8) fun _ =>
    (fails_skip 30 fun _ => hshort _).bind (takes_skip 30) fun _ =>
    (fails_field 4 fun _ => hshort _).bind (takes_field 4) fun _ =>
    (fails_skip _ fun _ => hshort _).bind_pure fun _ => rfl

theorem fails_cableRecord (area : Area) (kind : UInt8) (head : List Bool) :
    Fails (cableRecord area) (Behind kind head) := by
  have hcolor (v : BitVec 3) (e : UnknownCode) (rest : List Bool) (he : CableColor.ofCode v.toNat = .error e) :
      Behind kind head (fieldBits v ++ rest) (.badCode e) := by
    obtain ⟨hnothing, hbits⟩ := namesNothing_of_color he
    exact fun front => ⟨hnothing, head ++ front, rest, by rw [hbits, List.append_assoc]⟩
  exact (fails_coded (fun _ _ => trivial) hcolor).bind (takes_coded code_of_ofCode_color) fun _ =>
    (fails_field 8 fun _ _ => trivial).bind (takes_field 8) fun _ =>
    (fails_field 6 fun _ _ => trivial).bind (takes_field 6) fun _ =>
    (fails_coded (fun _ _ => trivial) fun _ _ _ he => (not_error_of_kind he).elim).bind
      (takes_coded code_of_ofCode_kind) fun _ =>
    (fails_field 8 fun _ _ => trivial).bind (takes_field 8) fun _ =>
    (fails_field 6 fun _ _ => trivial).bind_pure fun _ => rfl

/-- A variation can store another number of values than its module declares. -/
theorem fails_variationRecord {area : Area} {moduleId declared : Nat} {P : List Bool → RecordFault → Prop}
    (hshort : ∀ bits, P bits .short)
    (hcount : ∀ (number : BitVec 8) (stored : BitVec 7) rest, declared ≠ stored.toNat →
      P (fieldBits number ++ (fieldBits stored ++ rest)) (.parameterCount area moduleId declared stored.toNat)) :
    Fails (variationRecord area moduleId declared) P := by
  refine (fails_skip 8 hshort).bind (takes_skip 8) fun number =>
    (fails_field 7 fun _ => hshort _).bind (takes_field 7) fun stored => ?_
  by_cases h : stored.toNat ≠ declared
  · intro r fault hfault
    rw [if_pos h] at hfault
    cases hfault
    exact hcount number stored _ h.symm
  · rw [if_neg h]
    have hvalue : Fails (field 7) fun bits fault => ∀ before,
        P (fieldBits number ++ (fieldBits stored ++ (before ++ bits))) fault := fails_field 7 fun _ _ => hshort _
    intro r fault hfault
    refine hvalue.times (takes_field 7) ?_ stored.toNat r fault hfault []
    intro e bits fault' h' before
    rw [← List.append_assoc before]
    exact h' (before ++ fieldBits e)

theorem fails_parameterRecord (area : Area) (variations : Nat) (more : List Bool) :
    Fails (parameterRecord area variations) (Behind parametersKind (ofNat 2 area.code ++ more)) := by
  refine (fails_field 8 fun _ _ => trivial).bind (takes_field 8) fun moduleId =>
    (fails_field 7 fun _ _ => trivial).bind (takes_field 7) fun declared => ?_
  -- The variations before the one that fails stand between the two counts.
  have hvariation : Fails (variationRecord area moduleId.toNat declared.toNat) fun bits fault => ∀ between,
      Behind parametersKind (ofNat 2 area.code ++ more)
        (fieldBits moduleId ++ (fieldBits declared ++ (between ++ bits))) fault := by
    refine fails_variationRecord (fun _ _ _ => trivial) fun number stored rest hne between front => ?_
    refine ⟨rfl, hne, declared.isLt, stored.isLt, more ++ front, between ++ fieldBits number, rest, ?_⟩
    simp only [fieldBits, List.append_assoc]
  have hvariations := hvariation.times (takes_variationRecord area moduleId.toNat declared)
    (fun e bits fault h between => by
      rw [← List.append_assoc between]
      exact h (between ++ e.bits)) variations
  have hempty : Fails (times variations (variationRecord area moduleId.toNat declared.toNat)) fun bits fault =>
      Behind parametersKind (ofNat 2 area.code ++ more) (fieldBits moduleId ++ (fieldBits declared ++ bits)) fault :=
    fun r fault h => hvariations r fault h []
  exact hempty.bind_pure fun _ => rfl

/-! ## Faults of sections -/

/-- How a section opens: a fault of the opening stands in its bits; else there are items to be
    read, and a fault of theirs stands behind the bits of the opening. Of all records `K` holds. -/
structure Opens (kind : UInt8) (K : Record → Prop) (m : Fields Opening) : Prop where
  fails : Fails m fun bits fault => fault.StandsIn kind bits
  items : ∀ r o r', m r = .ok (o, r') → ∃ head, Passes r head r' ∧ K o.record ∧ Fails o.item (Behind kind head) ∧
    ∃ (γ : Type) (layout : γ → List Bool) (meaning : γ → List Record),
      Takes o.item layout meaning ∧ ∀ e, ∀ record ∈ meaning e, K record

theorem fails_area (kind : UInt8) : Fails (coded 2 Area.ofCode) fun bits fault => fault.StandsIn kind bits :=
  fails_coded (fun _ => trivial) fun v e rest he => by
    obtain ⟨hnothing, hbits⟩ := namesNothing_of_area he
    exact ⟨hnothing, [], rest, by rw [hbits, List.nil_append]⟩

section

variable {K : Record → Prop}

theorem opens_description (hK : ∀ d, K (.description d)) : Opens descriptionKind K Section.descriptionOpening where
  fails := (fails_description fun _ => trivial).bind_pure fun _ => rfl
  items := by
    intro r o r' h
    unfold Section.descriptionOpening description at h
    obtain ⟨d, s, hd, h⟩ := exists_of_bind_eq_ok h
    obtain ⟨rfl, rfl⟩ := eq_of_pure_eq_ok h
    obtain ⟨activeVariation, t, hv, hd⟩ := (takes_field 8).of_bind hd
    obtain ⟨voices, u, hp, hd⟩ := (takes_field 5).of_bind hd
    obtain ⟨mono, v, hm, hd⟩ := (takes_field 1).of_bind hd
    obtain ⟨reserved, w, hr, hd⟩ := (takes_skip 2).of_bind hd
    obtain ⟨rfl, rfl⟩ := eq_of_pure_eq_ok hd
    have htakes : Takes (pure [] : Fields (List Record)) (fun _ : Unit => []) fun _ => [] := by
      intro x records x' hx
      obtain ⟨rfl, rfl⟩ := eq_of_pure_eq_ok hx
      exact ⟨(), rfl, .refl _⟩
    exact ⟨_, ((hv.trans hp).trans hm).trans hr, hK _, fails_pure [], Unit, _, _, htakes,
      fun _ _ hmem => absurd hmem List.not_mem_nil⟩

/-- A module list opens with its area and its count. -/
theorem exists_of_moduleListOpening {span : Span} {r r' : Reader} {o : Opening}
    (h : Section.moduleListOpening span r = .ok (o, r')) :
    ∃ (area : Area) (count : BitVec 8), Passes r (ofNat 2 area.code ++ fieldBits count) r' ∧
      o = ⟨.moduleList area count.toNat, count.toNat, do
        let (typeId, id) ← moduleRecord
        return [.placed area typeId id span]⟩ := by
  unfold Section.moduleListOpening at h
  obtain ⟨area, s, ha, h⟩ := (takes_coded code_of_ofCode_area).of_bind h
  obtain ⟨count, t, hc, h⟩ := (takes_field 8).of_bind h
  obtain ⟨rfl, rfl⟩ := eq_of_pure_eq_ok h
  exact ⟨area, count, ha.trans hc, rfl⟩

theorem opens_moduleList (span : Span) (hlist : ∀ area count, K (.moduleList area count))
    (hK : ∀ area typeId id, K (.placed area typeId id span)) :
    Opens moduleListKind K (Section.moduleListOpening span) where
  fails := (fails_area _).bind (takes_coded code_of_ofCode_area) fun _ =>
    (fails_field 8 fun _ => trivial).bind_pure fun _ => rfl
  items := by
    intro r o r' h
    obtain ⟨area, count, hhead, rfl⟩ := exists_of_moduleListOpening h
    refine ⟨_, hhead, hlist _ _, (fails_moduleRecord fun _ _ => trivial).bind_pure fun _ => rfl,
      ModuleEntry, _, _, takes_moduleRecord.bind_pure fun _ => rfl, fun e record hmem => ?_⟩
    rw [List.mem_singleton.1 hmem]
    exact hK _ _ _

theorem opens_cableList (hlist : ∀ area count, K (.cableList area count)) (hK : ∀ c, K (.cable c)) :
    Opens cableListKind K Section.cableListOpening where
  fails := (fails_area _).bind (takes_coded code_of_ofCode_area) fun _ =>
    (fails_skip 12 fun _ => trivial).bind (takes_skip 12) fun _ =>
    (fails_field 10 fun _ => trivial).bind_pure fun _ => rfl
  items := by
    intro r o r' h
    unfold Section.cableListOpening at h
    obtain ⟨area, s, ha, h⟩ := (takes_coded code_of_ofCode_area).of_bind h
    obtain ⟨reserved, t, hr, h⟩ := (takes_skip 12).of_bind h
    obtain ⟨count, u, hc, h⟩ := (takes_field 10).of_bind h
    obtain ⟨rfl, rfl⟩ := eq_of_pure_eq_ok h
    refine ⟨_, (ha.trans hr).trans hc, hlist _ _, (fails_cableRecord _ _ _).bind_pure fun _ => rfl, CableEntry, _, _,
      (takes_cableRecord _).bind_pure fun _ => rfl, fun e record hmem => ?_⟩
    rw [List.mem_singleton.1 hmem]
    exact hK _

theorem opens_parameters (hlist : ∀ area modules variations, K (.parameterList area modules variations))
    (hK : ∀ b, K (.parameters b)) : Opens parametersKind K Section.parametersOpening where
  fails := (fails_area _).bind (takes_coded code_of_ofCode_area) fun _ =>
    (fails_field 8 fun _ => trivial).bind (takes_field 8) fun _ =>
    (fails_field 8 fun _ => trivial).bind_pure fun _ => rfl
  items := by
    intro r o r' h
    unfold Section.parametersOpening at h
    obtain ⟨area, s, ha, h⟩ := (takes_coded code_of_ofCode_area).of_bind h
    obtain ⟨count, t, hc, h⟩ := (takes_field 8).of_bind h
    obtain ⟨variations, u, hv, h⟩ := (takes_field 8).of_bind h
    obtain ⟨rfl, rfl⟩ := eq_of_pure_eq_ok h
    have hitem := fails_parameterRecord area variations.toNat (fieldBits count ++ fieldBits variations)
    rw [← List.append_assoc] at hitem
    refine ⟨_, (ha.trans hc).trans hv, hlist _ _ _, hitem.bind_pure fun _ => rfl, ParameterEntry variations.toNat,
      _, _, (takes_parameterRecord _ _).bind_pure fun _ => rfl, fun e record hmem => ?_⟩
    obtain ⟨b, -, rfl⟩ := List.mem_map.1 hmem
    exact hK b

end

namespace Section

def MayDeclare (s : Section) (r : Record) : Prop := s.kind ≠ moduleListKind → r.declared? = none

theorem opens_of_opening? {s : Section} {m : Fields Opening} (h : s.opening? = some m) :
    Opens s.kind s.MayDeclare m := by
  unfold opening? at h
  split at h
  · next hkind =>
    cases h
    exact hkind ▸ opens_description fun _ _ => rfl
  split at h
  · next hkind =>
    cases h
    exact hkind ▸ opens_moduleList _ (fun _ _ _ => rfl) fun _ _ _ hother => absurd hkind hother
  split at h
  · next hkind =>
    cases h
    exact hkind ▸ opens_cableList (fun _ _ _ => rfl) fun _ _ => rfl
  split at h
  · next hkind =>
    cases h
    exact hkind ▸ opens_parameters (fun _ _ _ _ => rfl) fun _ _ => rfl
  · cases h

/-- A fault of a section is one that stands in its payload, or its records use less of it. -/
theorem fault_of_records {s : Section} {c : Corruption} (h : s.records.2 = some c) :
    (∃ fault : RecordFault, c = s.locate fault ∧ fault.StandsIn s.kind (ofBytes s.payload)) ∨
      ∃ consumed < s.payload.length, c = .sectionLength s.kind s.offset s.payload.length consumed := by
  unfold records at h
  cases hopening : s.opening? with
  | none => simp [hopening] at h
  | some m =>
    have hopens := opens_of_opening? hopening
    simp only [hopening] at h
    cases hm : m (Reader.ofBytes s.payload) with
    | error fault =>
      simp only [hm, Option.some.injEq] at h
      exact .inl ⟨fault, h.symm, hopens.fails _ _ hm⟩
    | ok p =>
      obtain ⟨o, r⟩ := p
      obtain ⟨head, hhead, -, hitem, γ, layout, meaning, htakes, -⟩ := hopens.items _ _ _ hm
      obtain ⟨es, r', -, hpass, hend⟩ := exists_of_collect htakes o.count r
      obtain ⟨hbits, hpos⟩ := passes_ofBytes (hhead.trans hpass)
      simp only [hm] at h
      rcases hend with hend | ⟨fault, hend, hfault⟩
      · rw [hend, ending] at h
        have hlen := congrArg List.length hbits
        rw [length_ofBytes, List.length_append] at hlen
        by_cases hfull : r'.bytesConsumed = s.payload.length
        · simp [hfull] at h
        · simp only [ne_eq, hfull, not_false_eq_true, if_true, Option.some.injEq] at h
          unfold Reader.bytesConsumed at hfull h
          exact .inr ⟨_, by omega, h.symm⟩
      · rw [hend] at h
        cases h
        refine .inl ⟨fault, rfl, ?_⟩
        rw [hbits, List.append_assoc]
        exact hitem _ _ hfault _

/-- A section with a fault spells no content of its kind. -/
theorem not_spelled_of_records {s : Section} {c : Corruption} (h : s.records.2 = some c)
    (hlt : s.payload.length < 2 ^ 16) {content : Content} (hkind : content.kind = s.kind) :
    ¬content.Spelled s.payload := by
  intro hspelled
  let w : WrittenSection := ⟨content, s.payload, hlt, hspelled⟩
  have hsection : w.toSection s.offset = s := by simp only [WrittenSection.toSection, w, hkind]
  have hclean := (w.records_toSection_of_spelled s.offset).1
  rw [hsection, h] at hclean
  cases hclean

/-! ## Modules that are declared again -/

theorem kind_of_declared {s : Section} {r : Record} (hmem : r ∈ s.records.1) {m : Area × Nat}
    (hr : r.declared? = some m) : s.kind = moduleListKind := by
  by_contra hkind
  have hnone : ∀ r ∈ s.records.1, r.declared? = none := by
    unfold records
    cases hopening : s.opening? with
    | none =>
      intro r hr
      rw [List.mem_singleton.1 hr]
      rfl
    | some o =>
      have hopens := opens_of_opening? hopening
      cases ho : o (Reader.ofBytes s.payload) with
      | error fault =>
        intro r hr
        simp [ho] at hr
      | ok p =>
        obtain ⟨o, r⟩ := p
        obtain ⟨-, -, hrecord, -, γ, layout, meaning, htakes, hmeaning⟩ := hopens.items _ _ _ ho
        obtain ⟨es, r', hes, -⟩ := exists_of_collect htakes o.count r
        intro r hr
        simp only [ho, hes] at hr
        rcases List.mem_cons.1 hr with rfl | hr
        · exact hrecord hkind
        · obtain ⟨l, hl, hr⟩ := List.mem_flatten.1 hr
          obtain ⟨e, -, rfl⟩ := List.mem_map.1 hl
          exact hmeaning e r hr hkind
  rw [hnone r hmem] at hr
  cases hr

/-- What is read of a module list, if its opening is: modules of the list in their order. -/
theorem exists_records_of_moduleList {s : Section} (hkind : s.kind = moduleListKind) : s.records.1 = [] ∨
    ∃ (area : Area) (count : BitVec 8) (es : List ModuleEntry) (rest : List Bool),
      ofBytes s.payload = ofNat 2 area.code ++ (fieldBits count ++ (es.flatMap ModuleEntry.bits ++ rest)) ∧
      s.records.1 =
        .moduleList area count.toNat :: es.map fun e => .placed area e.typeId.toNat e.id.toNat s.span := by
  have hopening : s.opening? = some (moduleListOpening s.span) := by rw [opening?, hkind]; rfl
  unfold records
  cases ho : moduleListOpening s.span (Reader.ofBytes s.payload) with
  | error fault => exact .inl (by simp only [hopening, ho])
  | ok p =>
    obtain ⟨o, r⟩ := p
    obtain ⟨area, count, hhead, rfl⟩ := exists_of_moduleListOpening ho
    have hitem : Takes (do let (typeId, id) ← moduleRecord; return [Record.placed area typeId id s.span])
        ModuleEntry.bits fun e => [.placed area e.typeId.toNat e.id.toNat s.span] :=
      takes_moduleRecord.bind_pure fun _ => rfl
    obtain ⟨es, r', hes, hpass, -⟩ := exists_of_collect hitem count.toNat r
    refine .inr ⟨area, count, es, r'.rest, ?_, ?_⟩
    · rw [(passes_ofBytes (hhead.trans hpass)).1]
      simp only [List.append_assoc]
    · have hflat : (es.map fun e => Record.placed area e.typeId.toNat e.id.toNat s.span) =
          (es.map fun e => [Record.placed area e.typeId.toNat e.id.toNat s.span]).flatten :=
        List.map_eq_flatMap.trans List.flatMap_def
      simp only [hopening, ho, hes, hflat]

/-- A module that a section declares is one of its list, after the modules declared before it. -/
theorem exists_entries_of_placed {s : Section} {before after : List Record} {area : Area} {typeId id : Nat}
    {span : Span} (h : s.records.1 = before ++ .placed area typeId id span :: after) :
    s.kind = moduleListKind ∧ ∃ (count : BitVec 8) (earlier : List ModuleEntry) (e : ModuleEntry) (rest : List Bool),
      ofBytes s.payload =
        ofNat 2 area.code ++ (fieldBits count ++ (earlier.flatMap ModuleEntry.bits ++ (e.bits ++ rest))) ∧
      e.id.toNat = id ∧ before.filterMap Record.declared? = earlier.map fun e => (area, e.id.toNat) := by
  have hmem : .placed area typeId id span ∈ s.records.1 := by rw [h]; exact List.mem_append_right _ List.mem_cons_self
  have hkind : s.kind = moduleListKind := kind_of_declared hmem rfl
  refine ⟨hkind, ?_⟩
  obtain hnone | ⟨area', count, es, rest, hbits, hrecords⟩ := exists_records_of_moduleList hkind
  · rw [hnone] at hmem
    exact absurd hmem List.not_mem_nil
  · rw [hrecords] at h
    cases before with
    | nil => cases h
    | cons heading before =>
      obtain ⟨rfl, hplaced⟩ := List.cons_eq_cons.1 h
      obtain ⟨earlier, later, rfl, rfl, hlater⟩ := List.map_eq_append_iff.1 hplaced
      obtain ⟨e, more, rfl, he, -⟩ := List.map_eq_cons_iff.1 hlater
      cases he
      refine ⟨count, earlier, e, more.flatMap ModuleEntry.bits ++ rest, ?_, rfl, ?_⟩
      · rw [hbits]
        simp only [List.flatMap_append, List.flatMap_cons, List.append_assoc]
      · rw [List.filterMap_cons_none rfl, List.filterMap_map, ← List.filterMap_eq_map]
        rfl

end Section

end Container

end Patchbay
