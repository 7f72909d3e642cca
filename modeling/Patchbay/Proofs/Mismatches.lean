/-
  Patchbay.Proofs.Mismatches — validation reports each difference from the catalog once, and
  nothing else.

  What a group of slots gives rise to is said by relations that do not compute:
  - `rateFindings_iff`: lists of one length differ at the places that are reported, in order.
  - `jackFindings_iff`, `argFindings_iff`: a group of jacks and the parameters.
  - `validate_reports_differences`: a template, and when it is valid.
-/

import Mathlib.Data.List.Sort
import Patchbay.Proofs.TemplateChecks

namespace Patchbay

def Mismatch.place : Mismatch → Nat
  | .slotRate _ index _ _ => index
  | _ => 0

namespace Validation

/-! ## Rates -/

variable {kind : SlotKind} {declared wanted : List Rate} {found : List Mismatch}

/-- The differences between two lists of rates, one for each place at which they differ. -/
structure RateFindings (kind : SlotKind) (declared wanted : List Rate) (found : List Mismatch) : Prop where
  ascending : found.Pairwise fun x y => x.place < y.place
  mem_iff : ∀ x, x ∈ found ↔ ∃ i given expected, declared[i]? = some given ∧ wanted[i]? = some expected ∧
    given ≠ expected ∧ x = .slotRate kind i expected given

theorem mem_rateMismatches_iff (kind : SlotKind) (index : Nat) (declared wanted : List Rate) (x : Mismatch) :
    x ∈ rateMismatches kind index declared wanted ↔
      ∃ i given expected, declared[i]? = some given ∧ wanted[i]? = some expected ∧ given ≠ expected ∧
        x = .slotRate kind (index + i) expected given := by
  induction declared generalizing index wanted with
  | nil => simp [rateMismatches]
  | cons given declared ih =>
    cases wanted with
    | nil => simp [rateMismatches]
    | cons expected wanted =>
      have hshift (i : Nat) : index + 1 + i = index + (i + 1) := by omega
      have hrest := ih (index + 1) wanted
      simp only [hshift] at hrest
      -- The first place, or one of the rest.
      rw [← Nat.or_exists_add_one]
      simp only [List.getElem?_cons_zero, List.getElem?_cons_succ, ← hrest, rateMismatches]
      by_cases heq : given = expected
      · simp [heq]
      · simp [heq]

theorem ascending_rateMismatches (kind : SlotKind) (index : Nat) (declared wanted : List Rate) :
    (rateMismatches kind index declared wanted).Pairwise fun x y => x.place < y.place := by
  induction declared generalizing index wanted with
  | nil => exact .nil
  | cons given declared ih =>
    cases wanted with
    | nil => exact .nil
    | cons expected wanted =>
      unfold rateMismatches
      dsimp only
      split
      · exact ih (index + 1) wanted
      · refine List.pairwise_cons.2 ⟨fun y hy => ?_, ih (index + 1) wanted⟩
        obtain ⟨i, given', expected', -, -, -, rfl⟩ := (mem_rateMismatches_iff ..).1 hy
        show index < index + 1 + i
        omega

/-- Findings in ascending order are known by what is among them. -/
theorem rateFindings_iff :
    RateFindings kind declared wanted found ↔ found = rateMismatches kind 0 declared wanted := by
  have hmem := mem_rateMismatches_iff kind 0 declared wanted
  simp only [Nat.zero_add] at hmem
  have hascending := ascending_rateMismatches kind 0 declared wanted
  constructor
  · intro h
    have hirrefl : Std.Irrefl fun x y : Mismatch => x.place < y.place := ⟨fun x => Nat.lt_irrefl x.place⟩
    exact List.Pairwise.eq_of_mem_iff h.ascending hascending fun x => (h.mem_iff x).trans (hmem x).symm
  · rintro rfl
    exact ⟨hascending, hmem⟩

/-! ## Groups -/

inductive JackFindings (kind : SlotKind) (wanted : List Rate) : Option (List Rate) → List Mismatch → Prop
  | undeclared : JackFindings kind wanted none [.missingDirective kind]
  | miscounted {declared : List Rate} : declared.length ≠ wanted.length →
      JackFindings kind wanted (some declared) [.slotCount kind wanted.length declared.length]
  | compared {declared : List Rate} {found : List Mismatch} : declared.length = wanted.length →
      RateFindings kind declared wanted found → JackFindings kind wanted (some declared) found

/-- What declared parameters give rise to. Their rates are not compared with anything. -/
inductive ArgFindings (wanted : Nat) : Option (List ArgRate) → List Mismatch → Prop
  | undeclared : ArgFindings wanted none [.missingDirective .args]
  | miscounted {declared : List ArgRate} : declared.length ≠ wanted →
      ArgFindings wanted (some declared) [.slotCount .args wanted declared.length]
  | counted {declared : List ArgRate} : declared.length = wanted → ArgFindings wanted (some declared) []

theorem jackFindings_iff {declared : Option (List Rate)} :
    JackFindings kind wanted declared found ↔ found = jackMismatches kind declared wanted := by
  constructor
  · intro h
    cases h with
    | undeclared => rfl
    | miscounted hlen => exact (if_pos hlen).symm
    | compared hlen hfound => exact (rateFindings_iff.1 hfound).trans (if_neg (not_not.2 hlen)).symm
  · rintro rfl
    cases declared with
    | none => exact .undeclared
    | some declared =>
      unfold jackMismatches
      dsimp only
      split
      · next hlen => exact .miscounted hlen
      · next hlen => exact .compared (not_not.1 hlen) (rateFindings_iff.2 rfl)

theorem argFindings_iff {declared : Option (List ArgRate)} {wanted : Nat} :
    ArgFindings wanted declared found ↔ found = argMismatches declared wanted := by
  constructor
  · intro h
    cases h with
    | undeclared => rfl
    | miscounted hlen => exact (if_pos hlen).symm
    | counted hlen => exact (if_neg (not_not.2 hlen)).symm
  · rintro rfl
    cases declared with
    | none => exact .undeclared
    | some declared =>
      unfold argMismatches
      dsimp only
      split
      · next hlen => exact .miscounted hlen
      · next hlen => exact .counted (not_not.1 hlen)

end Validation

/-! ## Templates -/

open Validation in
/-- The findings for a template of a type that the catalog lacks are that the type is unknown.
    Otherwise they are those for its inlets, its outlets and its parameters, in this order. So a
    template is valid iff the catalog has its type, and the template declares the inlets and outlets of
    the type and as many parameters as it has. -/
theorem validate_reports_differences (catalog : Catalog) (t : Template) :
    (t.validate catalog).typeId = t.typeId ∧
    (∀ found, (t.validate catalog).mismatches = found ↔
      (catalog.lookup t.typeId = none ∧ found = [.unknownType t.typeId]) ∨
      ∃ m inlets outlets args, catalog.lookup t.typeId = some m ∧
        JackFindings .inlets m.inlets t.slots.inlets inlets ∧
        JackFindings .outlets m.outlets t.slots.outlets outlets ∧
        ArgFindings m.params t.slots.args args ∧ found = inlets ++ outlets ++ args) ∧
    ((t.validate catalog).isValid = true ↔ ∃ m, catalog.lookup t.typeId = some m ∧
      t.slots.inlets = some m.inlets ∧ t.slots.outlets = some m.outlets ∧
      ∃ args, t.slots.args = some args ∧ args.length = m.params) := by
  refine ⟨Template.typeId_validate catalog t, fun found => ?_, ?_⟩
  · unfold Template.validate
    cases hlookup : catalog.lookup t.typeId with
    | none =>
      constructor
      · rintro rfl
        exact .inl ⟨rfl, rfl⟩
      · rintro (⟨-, rfl⟩ | ⟨m, -, -, -, hm, -⟩)
        · rfl
        · cases hm
    | some m =>
      simp only [jackFindings_iff, argFindings_iff]
      constructor
      · rintro rfl
        exact .inr ⟨m, _, _, _, rfl, rfl, rfl, rfl, rfl⟩
      · rintro (⟨hnone, -⟩ | ⟨m', _, _, _, hm, rfl, rfl, rfl, rfl⟩)
        · cases hnone
        · cases hm
          rfl
  · rw [Report.isValid_iff, Template.mismatches_validate_eq_nil]
    refine exists_congr fun m => and_congr_right fun _ => ?_
    exact ⟨fun h => ⟨h.inlets, h.outlets, h.args⟩, fun ⟨hinlets, houtlets, hargs⟩ => ⟨hinlets, houtlets, hargs⟩⟩

end Patchbay
