/-
  Patchbay.Proofs.CatalogMap — a catalog is the list of types it is made of, as a finite map.

  Types are added one by one, and the first whose id is taken ends that. What carries the proofs is
  that before it the catalog holds the types added so far, and these have different ids:
  - `add_eq_ok` / `add_eq_error`: what one type does.
  - `foldlM_add_spec`: what a list does, from any catalog.
  - `FirstRepeat.unique`: the types that are reported are determined by the list.
  - `ofTypes_makes_map`: whole lists.
-/

import Mathlib.Data.List.Nodup
import Patchbay.Catalog

namespace Patchbay.Catalog

variable {c c' : Catalog} {t first second : ModuleType} {types before : List ModuleType} {e : CatalogError}

/-! ## Lookup -/

theorem lookup_eq_some_iff {id : Nat} : c.lookup id = some t ↔ t ∈ c.types ∧ t.id = id := by
  unfold lookup
  constructor
  · intro h
    exact ⟨List.mem_of_find?_eq_some h, by simpa using List.find?_some h⟩
  · rintro ⟨ht, rfl⟩
    obtain ⟨as, bs, hsplit⟩ := List.append_of_mem ht
    have hascending := c.ascending
    rw [hsplit, List.pairwise_append] at hascending
    refine List.find?_eq_some_iff_append.2 ⟨by simp, as, bs, hsplit, fun a ha => ?_⟩
    have hlt := hascending.2.2 a ha t List.mem_cons_self
    simpa using Nat.ne_of_lt hlt

theorem lookup_eq_none_iff {id : Nat} : c.lookup id = none ↔ id ∉ c.types.map ModuleType.id := by
  simp [lookup]

/-- Two catalogs of the same types are one catalog. -/
theorem eq_of_perm (h : c.types.Perm c'.types) : c = c' := by
  have htypes : c.types = c'.types :=
    h.eq_of_pairwise (fun a b _ _ hab hba => absurd hba (Nat.lt_asymm hab)) c.ascending c'.ascending
  cases c
  cases c'
  rw [mk.injEq]
  exact htypes

/-! ## Adding -/

theorem perm_place (t : ModuleType) (us : List ModuleType) : (place t us).Perm (t :: us) := by
  induction us with
  | nil => exact .refl _
  | cons u us ih =>
    rw [place]
    split
    · exact .refl _
    · exact (ih.cons u).trans (.swap t u us)

theorem add_eq_ok (h : t.id ∉ c.types.map ModuleType.id) : ∃ c', c.add t = .ok c' ∧ c'.types.Perm (t :: c.types) := by
  unfold add
  split
  · next u hu => exact absurd (lookup_eq_none_iff.2 h) (by simp [hu])
  · exact ⟨_, rfl, perm_place t c.types⟩

theorem add_eq_error (hfirst : first ∈ c.types) (hid : first.id = t.id) :
    c.add t = .error (.duplicateType t.id first.name t.name) := by
  have hlookup : c.lookup t.id = some first := lookup_eq_some_iff.2 ⟨hfirst, hid⟩
  unfold add
  split
  · next u hu =>
    obtain rfl : u = first := Option.some.inj (hu.symm.trans hlookup)
    rfl
  · next hnone =>
    rw [hlookup] at hnone
    cases hnone

/-! ## Lists of types -/

def Distinct (types : List ModuleType) : Prop := (types.map ModuleType.id).Nodup

/-- `second` is the first type of which the id occurred before, and `first` is the type it occurred with. -/
def FirstRepeat (types : List ModuleType) (first second : ModuleType) : Prop :=
  ∃ before after, types = before ++ second :: after ∧ Distinct before ∧ first ∈ before ∧ first.id = second.id

theorem Distinct.concat (h : Distinct before) (ht : t.id ∉ before.map ModuleType.id) : Distinct (before ++ [t]) := by
  unfold Distinct
  rw [List.map_append, List.map_singleton, List.nodup_append_comm, List.singleton_append, List.nodup_cons]
  exact ⟨ht, h⟩

theorem FirstRepeat.not_distinct (h : FirstRepeat types first second) : ¬Distinct types := by
  obtain ⟨before, after, rfl, -, hfirst, hid⟩ := h
  intro hall
  unfold Distinct at hall
  rw [List.map_append, List.map_cons, List.nodup_middle, List.nodup_cons] at hall
  exact hall.1 (List.mem_append_left _ (hid ▸ List.mem_map_of_mem hfirst))

/-- A repeat that ends the list before another would make that list hold two types of one id. -/
theorem FirstRepeat.eq_nil {more after after' : List ModuleType} (hsplit : second :: after = more ++ t :: after')
    (hfirst : first ∈ before) (hid : first.id = second.id) (hbefore : Distinct before)
    (hmore : Distinct (before ++ more)) : more = [] := by
  cases more with
  | nil => rfl
  | cons u more =>
    obtain rfl : second = u := (List.cons.inj hsplit).1
    exact absurd hmore (FirstRepeat.not_distinct ⟨before, more, rfl, hbefore, hfirst, hid⟩)

theorem FirstRepeat.unique {first' second' : ModuleType} (h : FirstRepeat types first second)
    (h' : FirstRepeat types first' second') : first = first' ∧ second = second' := by
  obtain ⟨before, after, rfl, hbefore, hfirst, hid⟩ := h
  obtain ⟨before', after', hsplit, hbefore', hfirst', hid'⟩ := h'
  have hsame : before = before' ∧ second :: after = second' :: after' := by
    rcases List.append_eq_append_iff.1 hsplit with ⟨more, rfl, hmore⟩ | ⟨more, rfl, hmore⟩
    · obtain rfl := FirstRepeat.eq_nil hmore hfirst hid hbefore hbefore'
      exact ⟨(List.append_nil _).symm, hmore⟩
    · obtain rfl := FirstRepeat.eq_nil hmore hfirst' hid' hbefore' hbefore
      exact ⟨List.append_nil _, hmore.symm⟩
  obtain ⟨rfl, hcons⟩ := hsame
  obtain rfl : second = second' := (List.cons.inj hcons).1
  exact ⟨List.inj_on_of_nodup_map hbefore hfirst hfirst' (hid.trans hid'.symm), rfl⟩

/-- A list of types, added one by one to a catalog that holds those before them. -/
theorem foldlM_add_spec (types : List ModuleType) (hbefore : Distinct before) (hc : c.types.Perm before) :
    match types.foldlM add c with
    | .ok c' => Distinct (before ++ types) ∧ c'.types.Perm (before ++ types)
    | .error e => ∃ first second, FirstRepeat (before ++ types) first second ∧
        e = .duplicateType second.id first.name second.name := by
  induction types generalizing c before with
  | nil =>
    rw [List.append_nil]
    exact ⟨hbefore, hc⟩
  | cons t types ih =>
    rw [List.foldlM_cons]
    by_cases ht : t.id ∈ before.map ModuleType.id
    · obtain ⟨first, hfirst, hid⟩ := List.mem_map.1 ht
      rw [add_eq_error (hc.mem_iff.2 hfirst) hid]
      exact ⟨first, t, ⟨before, types, rfl, hbefore, hfirst, hid⟩, rfl⟩
    · obtain ⟨c', hc', hperm⟩ := add_eq_ok (c := c) (t := t) fun h => ht ((hc.map ModuleType.id).mem_iff.1 h)
      have hmove : before ++ t :: types = before ++ [t] ++ types := (List.append_assoc before [t] types).symm
      rw [hc', hmove]
      exact ih (hbefore.concat ht) (hperm.trans ((hc.cons t).trans (List.perm_append_singleton t before).symm))

theorem ofTypes_cases (types : List ModuleType) :
    (∃ c, ofTypes types = .ok c ∧ Distinct types ∧ c.types.Perm types) ∨
      ∃ first second, FirstRepeat types first second ∧
        ofTypes types = .error (.duplicateType second.id first.name second.name) := by
  have hnone : Distinct [] := List.nodup_nil
  have hspec := foldlM_add_spec (c := empty) types hnone (.refl [])
  unfold ofTypes
  cases h : types.foldlM add empty with
  | ok c =>
    rw [h] at hspec
    exact .inl ⟨c, rfl, hspec⟩
  | error e =>
    rw [h] at hspec
    obtain ⟨first, second, hrepeat, rfl⟩ := hspec
    exact .inr ⟨first, second, hrepeat, rfl⟩

theorem distinct_iff_exists_ofTypes : (∃ c, ofTypes types = .ok c) ↔ Distinct types := by
  rcases ofTypes_cases types with ⟨c, hc, hdistinct, -⟩ | ⟨first, second, hrepeat, herror⟩
  · exact iff_of_true ⟨c, hc⟩ hdistinct
  · refine iff_of_false ?_ hrepeat.not_distinct
    rintro ⟨c, hc⟩
    rw [herror] at hc
    cases hc

theorem perm_of_ofTypes (h : ofTypes types = .ok c) : c.types.Perm types := by
  rcases ofTypes_cases types with ⟨c', hc', -, hperm⟩ | ⟨first, second, -, herror⟩
  · obtain rfl := Except.ok.inj (hc'.symm.trans h)
    exact hperm
  · rw [herror] at h
    cases h

theorem ofTypes_eq_error_iff : ofTypes types = .error e ↔
    ∃ first second, FirstRepeat types first second ∧ e = .duplicateType second.id first.name second.name := by
  rcases ofTypes_cases types with ⟨c, hc, hdistinct, -⟩ | ⟨first, second, hrepeat, herror⟩
  · refine iff_of_false (by simp [hc]) ?_
    rintro ⟨first, second, hrepeat, -⟩
    exact hrepeat.not_distinct hdistinct
  · rw [herror, Except.error.injEq]
    constructor
    · rintro rfl
      exact ⟨first, second, hrepeat, rfl⟩
    · rintro ⟨first', second', hrepeat', rfl⟩
      obtain ⟨rfl, rfl⟩ := hrepeat.unique hrepeat'
      rfl

/-- The order of the types does not show in the catalog. -/
theorem ofTypes_perm {types' : List ModuleType} (h : ofTypes types = .ok c) (hperm : types'.Perm types) :
    ofTypes types' = .ok c := by
  have hdistinct : Distinct types' := ((hperm.map ModuleType.id).nodup_iff).2 (distinct_iff_exists_ofTypes.1 ⟨c, h⟩)
  obtain ⟨c', hc'⟩ := distinct_iff_exists_ofTypes.2 hdistinct
  rw [hc', eq_of_perm (((perm_of_ofTypes hc').trans hperm).trans (perm_of_ofTypes h).symm)]

/-- Types make a catalog iff no two have one id. The catalog finds each of them by its id and nothing
    else, lists each once in strictly ascending order, and is the same for every order of the types.
    Otherwise the first type whose id occurred before is refused, and both are named. -/
theorem ofTypes_makes_map (types : List ModuleType) :
    ((∃ c, ofTypes types = .ok c) ↔ (types.map ModuleType.id).Nodup) ∧
    (∀ c, ofTypes types = .ok c →
      (∀ id t, c.lookup id = some t ↔ t ∈ types ∧ t.id = id) ∧
      (∀ id, c.lookup id = none ↔ id ∉ types.map ModuleType.id) ∧
      c.types.Perm types ∧ (c.types.map ModuleType.id).Pairwise (· < ·) ∧ c.types.length = types.length ∧
      ∀ types', types'.Perm types → ofTypes types' = .ok c) ∧
    ∀ e, ofTypes types = .error e ↔ ∃ before second after first, types = before ++ second :: after ∧
      (before.map ModuleType.id).Nodup ∧ first ∈ before ∧ first.id = second.id ∧
      e = .duplicateType second.id first.name second.name := by
  refine ⟨distinct_iff_exists_ofTypes, fun c hc => ?_, fun e => ?_⟩
  · have hperm := perm_of_ofTypes hc
    refine ⟨fun id t => ?_, fun id => ?_, hperm, List.pairwise_map.2 c.ascending, hperm.length_eq,
      fun types' => ofTypes_perm hc⟩
    · rw [lookup_eq_some_iff, hperm.mem_iff]
    · rw [lookup_eq_none_iff, (hperm.map ModuleType.id).mem_iff]
  · rw [ofTypes_eq_error_iff]
    constructor
    · rintro ⟨first, second, ⟨before, after, hsplit, hbefore, hfirst, hid⟩, he⟩
      exact ⟨before, second, after, first, hsplit, hbefore, hfirst, hid, he⟩
    · rintro ⟨before, second, after, first, hsplit, hbefore, hfirst, hid, he⟩
      exact ⟨first, second, ⟨before, after, hsplit, hbefore, hfirst, hid⟩, he⟩

/-- Three types out of order, and the same with two ids taken twice. -/
theorem ofTypes_makes_map_outOfOrder :
    (∃ c, ofTypes [⟨9, "Out", [.audio], [], 0⟩, ⟨4, "Osc", [], [.audio], 2⟩] = .ok c ∧
      ofTypes [⟨4, "Osc", [], [.audio], 2⟩, ⟨9, "Out", [.audio], [], 0⟩] = .ok c ∧
      c.lookup 4 = some ⟨4, "Osc", [], [.audio], 2⟩) ∧
    ofTypes [⟨9, "Out", [], [], 0⟩, ⟨4, "Osc", [], [], 2⟩, ⟨4, "Saw", [], [], 0⟩, ⟨9, "In", [], [], 0⟩] =
      .error (.duplicateType 4 "Osc" "Saw") := by
  obtain ⟨hmade, hmap, -⟩ := ofTypes_makes_map [⟨9, "Out", [.audio], [], 0⟩, ⟨4, "Osc", [], [.audio], 2⟩]
  obtain ⟨-, -, hrefused⟩ := ofTypes_makes_map
    [⟨9, "Out", [], [], 0⟩, ⟨4, "Osc", [], [], 2⟩, ⟨4, "Saw", [], [], 0⟩, ⟨9, "In", [], [], 0⟩]
  obtain ⟨c, hc⟩ := hmade.2 (by decide)
  obtain ⟨hlookup, -, -, -, -, hperm⟩ := hmap c hc
  refine ⟨⟨c, hc, hperm _ (.swap _ _ _), (hlookup 4 _).2 ⟨by simp, rfl⟩⟩, (hrefused _).2 ?_⟩
  exact ⟨[⟨9, "Out", [], [], 0⟩, ⟨4, "Osc", [], [], 2⟩], ⟨4, "Saw", [], [], 0⟩, [⟨9, "In", [], [], 0⟩],
    ⟨4, "Osc", [], [], 2⟩, rfl, by decide, by simp, rfl, rfl⟩

end Patchbay.Catalog
