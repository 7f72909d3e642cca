/-
  Patchbay.Proofs.TemplateLoading — what a loaded set of templates holds, and which are valid.

  What a source gives for a type hangs on the type alone, so asking twice changes nothing:
  - `get?_of_load`: a set has, for the types that were asked for, what the source gave for them.
  - `mem_missing_of_load`, `noTemplate_mem_events`: the other types are the missing ones, and each
    is noted.
  - `mismatches_validate_eq_nil`: a template without mismatches has the jacks and the number of
    parameters that the catalog gives its type.
-/

import Patchbay.Template.Set

namespace Patchbay

theorem eq_ok_of_toOption_eq_some {ε α : Type} {x : Except ε α} {a : α} (h : x.toOption = some a) : x = .ok a := by
  cases x with
  | error e => cases h
  | ok b => cases h; rfl

/-! ## Sources -/

namespace Template

theorem typeId_of_parse {typeId : Nat} {text origin : String} {t : Template}
    (h : parse typeId text origin = .ok t) : t.typeId = typeId := by
  unfold parse at h
  dsimp only at h
  split at h
  · cases h
  · cases h; rfl

variable {source : Source} {typeId : Nat}

theorem typeId_of_load {t : Template} (h : (source.load typeId).value = .ok t) : t.typeId = typeId := by
  unfold Source.load at h
  split at h
  · dsimp only at h
    split at h
    · cases h
    · cases h
    · exact typeId_of_parse h
  · split at h
    · cases h
    · exact typeId_of_parse h

def Source.given? (source : Source) (typeId : Nat) : Option Template := (source.load typeId).value.toOption

theorem typeId_of_given? {t : Template} (h : source.given? typeId = some t) : t.typeId = typeId := by
  unfold Source.given? at h
  exact typeId_of_load (eq_ok_of_toOption_eq_some h)

end Template

/-! ## Loading -/

namespace TemplateSet

theorem get?_insert (s : TemplateSet) (t : Template) (typeId : Nat) :
    (s.insert t).get? typeId = if t.typeId = typeId then some t else s.get? typeId := by
  unfold get? insert
  by_cases h : t.typeId = typeId
  · rw [if_pos h, List.find?_cons_of_pos (by simpa using h)]
  · rw [if_neg h, List.find?_cons_of_neg (by simpa using h), List.find?_filter]
    congr 1
    funext u
    by_cases hu : u.typeId = typeId
    · simp [hu, Ne.symm h]
    · simp [hu]

variable {source : Template.Source} {s s' : TemplateSet} {ids : List Nat}

/-- A load that ends well is one step, and a load that ends well. -/
theorem loadInto_cons {typeId : Nat} (h : (loadInto source s (typeId :: ids)).value = .ok s') :
    (∃ t, source.given? typeId = some t ∧ (loadInto source (s.insert t) ids).value = .ok s' ∧
      (loadInto source s (typeId :: ids)).events =
        (source.load typeId).events ++ (loadInto source (s.insert t) ids).events) ∨
    source.given? typeId = none ∧
      (loadInto source { s with missing := s.missing ++ [typeId] } ids).value = .ok s' ∧
      (loadInto source s (typeId :: ids)).events = (source.load typeId).events ++ .noTemplate typeId ::
        (loadInto source { s with missing := s.missing ++ [typeId] } ids).events := by
  unfold Template.Source.given?
  simp only [loadInto, Logged.value_bind, Logged.events_bind] at h ⊢
  cases hl : (source.load typeId).value with
  | ok t =>
    simp only [hl] at h ⊢
    exact Or.inl ⟨t, rfl, h, rfl⟩
  | error e =>
    cases e with
    | notFound =>
      simp only [hl, Logged.value_bind, Logged.events_bind] at h ⊢
      exact Or.inr ⟨rfl, h, rfl⟩
    | unreadable | malformed => simp only [hl] at h; cases h

theorem get?_of_loadInto (h : (loadInto source s ids).value = .ok s') (typeId : Nat) :
    s'.get? typeId = (if typeId ∈ ids then source.given? typeId else none).or (s.get? typeId) := by
  induction ids generalizing s with
  | nil =>
    cases h
    rfl
  | cons first ids ih =>
    rcases loadInto_cons h with ⟨t, ht, h, -⟩ | ⟨hnone, h, -⟩
    · rw [ih h, get?_insert, Template.typeId_of_given? ht]
      by_cases heq : first = typeId
      · subst heq
        rw [if_pos rfl, if_pos List.mem_cons_self, ht]
        split <;> rfl
      · simp [heq, Ne.symm heq]
    · rw [ih h]
      by_cases heq : first = typeId
      · subst heq
        simp [hnone, get?]
      · simp [Ne.symm heq, get?]

theorem missing_of_loadInto (h : (loadInto source s ids).value = .ok s') :
    s'.missing = s.missing ++ ids.filter fun typeId => (source.given? typeId).isNone := by
  induction ids generalizing s with
  | nil =>
    cases h
    exact (List.append_nil _).symm
  | cons first ids ih =>
    rcases loadInto_cons h with ⟨t, ht, h, -⟩ | ⟨hnone, h, -⟩
    · rw [ih h, List.filter_cons_of_neg (by simp [ht])]
      rfl
    · rw [ih h, List.filter_cons_of_pos (by simp [hnone]), List.append_assoc]
      rfl

/-- A load that ends well found a template, or none, for each type it was asked for. -/
theorem load_of_loadInto (h : (loadInto source s ids).value = .ok s') {typeId : Nat} (hmem : typeId ∈ ids) :
    (∃ t, (source.load typeId).value = .ok t) ∨ ∃ n, (source.load typeId).value = .error (.notFound n) := by
  induction ids generalizing s with
  | nil => cases hmem
  | cons first ids ih =>
    rcases List.mem_cons.1 hmem with rfl | hmem
    · simp only [loadInto, Logged.value_bind] at h
      cases hl : (source.load typeId).value with
      | ok t => exact Or.inl ⟨t, rfl⟩
      | error e =>
        cases e with
        | notFound n => exact Or.inr ⟨n, rfl⟩
        | unreadable | malformed => simp only [hl] at h; cases h
    · rcases loadInto_cons h with ⟨t, -, h, -⟩ | ⟨-, h, -⟩
      · exact ih h hmem
      · exact ih h hmem

theorem noTemplate_mem_events_loadInto (h : (loadInto source s ids).value = .ok s') {typeId : Nat}
    (hmem : typeId ∈ ids) (hnone : source.given? typeId = none) :
    .noTemplate typeId ∈ (loadInto source s ids).events := by
  induction ids generalizing s with
  | nil => cases hmem
  | cons first ids ih =>
    rcases loadInto_cons h with ⟨t, ht, h, hevents⟩ | ⟨-, h, hevents⟩
    · rw [hevents]
      rcases List.mem_cons.1 hmem with rfl | hmem
      · cases hnone.symm.trans ht
      · exact List.mem_append_right _ (ih h hmem)
    · rw [hevents]
      rcases List.mem_cons.1 hmem with rfl | hmem
      · exact List.mem_append_right _ List.mem_cons_self
      · exact List.mem_append_right _ (List.mem_cons_of_mem _ (ih h hmem))

variable {types : List UsedType}

theorem get?_of_load (h : (load source types).value = .ok s) (typeId : Nat) :
    s.get? typeId = if typeId ∈ types.map UsedType.typeId then source.given? typeId else none := by
  rw [get?_of_loadInto h]
  exact Option.or_none

theorem typeId_of_get? {t : Template} {typeId : Nat} (h : s.get? typeId = some t) : t.typeId = typeId := by
  unfold get? at h
  simpa using List.find?_some h

theorem load_of_get? (h : (load source types).value = .ok s) {typeId : Nat} {t : Template}
    (ht : s.get? typeId = some t) : (source.load typeId).value = .ok t := by
  rw [get?_of_load h] at ht
  split at ht
  · exact eq_ok_of_toOption_eq_some ht
  · cases ht

/-- The missing types are those asked for that have no template. -/
theorem mem_missing_of_load (h : (load source types).value = .ok s) {u : UsedType} (hu : u ∈ types) :
    u.typeId ∈ s.missing ↔ s.get? u.typeId = none := by
  have hmem : u.typeId ∈ types.map UsedType.typeId := List.mem_map_of_mem hu
  rw [missing_of_loadInto h, get?_of_load h, if_pos hmem]
  simp [hmem]

theorem missing_eq_nil_of_load (h : (load source types).value = .ok s) :
    s.missing = [] ↔ ∀ u ∈ types, ∃ t, s.get? u.typeId = some t := by
  constructor
  · intro hnil u hu
    have hnot : u.typeId ∉ s.missing := by rw [hnil]; exact List.not_mem_nil
    rw [mem_missing_of_load h hu, ← ne_eq, Option.ne_none_iff_exists'] at hnot
    exact hnot
  · intro hall
    rw [missing_of_loadInto h]
    refine List.filter_eq_nil_iff.2 fun typeId hmem => ?_
    obtain ⟨u, hu, rfl⟩ := List.mem_map.1 hmem
    obtain ⟨t, ht⟩ := hall u hu
    rw [get?_of_load h, if_pos hmem] at ht
    simp [ht]

theorem noTemplate_mem_events (h : (load source types).value = .ok s) {u : UsedType} (hu : u ∈ types)
    (hnone : s.get? u.typeId = none) : .noTemplate u.typeId ∈ (load source types).events := by
  have hmem : u.typeId ∈ types.map UsedType.typeId := List.mem_map_of_mem hu
  rw [get?_of_load h, if_pos hmem] at hnone
  exact noTemplate_mem_events_loadInto h hmem hnone

end TemplateSet

/-! ## Validation -/

namespace Validation

theorem rateMismatches_eq_nil (kind : SlotKind) (index : Nat) {declared wanted : List Rate}
    (hlen : declared.length = wanted.length) : rateMismatches kind index declared wanted = [] ↔ declared = wanted := by
  induction declared generalizing index wanted with
  | nil =>
    obtain rfl := List.length_eq_zero_iff.1 hlen.symm
    exact ⟨fun _ => rfl, fun _ => rfl⟩
  | cons found declared ih =>
    cases wanted with
    | nil => cases hlen
    | cons expected wanted =>
      have hlen' : declared.length = wanted.length := Nat.succ.inj hlen
      unfold rateMismatches
      by_cases heq : found = expected
      · simp [heq, ih (index + 1) hlen']
      · simp [heq]

/-- Declared jacks are those wanted, or they are reported. -/
theorem jackMismatches_eq_nil {kind : SlotKind} {declared : Option (List Rate)} {wanted : List Rate} :
    jackMismatches kind declared wanted = [] ↔ declared = some wanted := by
  cases declared with
  | none => simp [jackMismatches]
  | some declared =>
    unfold jackMismatches
    by_cases hlen : declared.length = wanted.length
    · simp [hlen, rateMismatches_eq_nil kind 0 hlen]
    · simp only [hlen, ne_eq, not_false_eq_true, if_true, reduceCtorEq, false_iff, Option.some.injEq]
      exact fun heq => hlen (congrArg List.length heq)

theorem argMismatches_eq_nil {declared : Option (List ArgRate)} {wanted : Nat} :
    argMismatches declared wanted = [] ↔ ∃ args, declared = some args ∧ args.length = wanted := by
  cases declared with
  | none => simp [argMismatches]
  | some declared => simp [argMismatches]

end Validation

structure Template.Matches (t : Template) (m : ModuleType) : Prop where
  inlets : t.slots.inlets = some m.inlets
  outlets : t.slots.outlets = some m.outlets
  args : ∃ args, t.slots.args = some args ∧ args.length = m.params

theorem Template.mismatches_validate_eq_nil {catalog : Catalog} {t : Template} :
    (t.validate catalog).mismatches = [] ↔ ∃ m, catalog.lookup t.typeId = some m ∧ t.Matches m := by
  unfold validate
  cases catalog.lookup t.typeId with
  | none => simp
  | some m =>
    simp only [List.append_eq_nil_iff, Validation.jackMismatches_eq_nil, Validation.argMismatches_eq_nil,
      Option.some.injEq, exists_eq_left']
    exact ⟨fun h => ⟨h.1.1, h.1.2, h.2⟩, fun h => ⟨⟨h.inlets, h.outlets⟩, h.args⟩⟩

end Patchbay
