/-
  Patchbay.Catalog — the module types a patch may use.

  A catalog lists its types in strictly ascending id order, so it holds no id twice; adding
  a type whose id is taken fails and names both types. `lookup` is the catalog as a finite
  map, `ofTypes` builds one from types in any order.
-/

import Patchbay.Rate
import Patchbay.Disk

namespace Patchbay

/-- The interface of one module type. -/
structure ModuleType where
  id : Nat
  name : String
  inlets : List Rate := []
  outlets : List Rate := []
  params : Nat := 0
  deriving DecidableEq, Repr

inductive CatalogError where
  | unreadable (path : Path) (fault : IoFault)
  | malformed (origin : String)
  | duplicateType (id : Nat) (first second : String)
  deriving DecidableEq, Repr

def CatalogError.message : CatalogError → String
  | .unreadable path fault => s!"{path}: {fault.message}"
  | .malformed origin => s!"{origin}: malformed catalog"
  | .duplicateType id first second => s!"duplicate module type {id}: '{first}' and '{second}'"

structure Catalog where
  types : List ModuleType
  ascending : types.Pairwise (fun s t => s.id < t.id)

namespace Catalog

def empty : Catalog := ⟨[], .nil⟩

def lookup (c : Catalog) (id : Nat) : Option ModuleType := c.types.find? (·.id == id)

/-! ## Adding a type -/

/-- Put `t` before the first type of a higher id. -/
def place (t : ModuleType) : List ModuleType → List ModuleType
  | [] => [t]
  | u :: us => if t.id < u.id then t :: u :: us else u :: place t us

theorem mem_place {t u : ModuleType} {us : List ModuleType} : u ∈ place t us ↔ u = t ∨ u ∈ us := by
  induction us with
  | nil => simp [place]
  | cons v vs ih =>
    rw [place]
    split
    · simp
    · simp [ih]; grind

theorem ascending_place {t : ModuleType} {us : List ModuleType} (h : us.Pairwise (fun s u => s.id < u.id))
    (fresh : ∀ u ∈ us, u.id ≠ t.id) : (place t us).Pairwise (fun s u => s.id < u.id) := by
  induction us with
  | nil => simp [place]
  | cons v vs ih =>
    rw [List.pairwise_cons] at h
    rw [place]
    split
    · next hlt =>
      refine List.pairwise_cons.2 ⟨fun u hu => ?_, List.pairwise_cons.2 h⟩
      rcases List.mem_cons.1 hu with rfl | hu
      · exact hlt
      · exact Nat.lt_trans hlt (h.1 u hu)
    · next hle =>
      have hv : v.id ≠ t.id := fresh v (List.mem_cons_self)
      refine List.pairwise_cons.2 ⟨fun u hu => ?_, ih h.2 fun u hu => fresh u (List.mem_cons_of_mem _ hu)⟩
      rcases mem_place.1 hu with rfl | hu
      · omega
      · exact h.1 u hu

theorem fresh_of_lookup {c : Catalog} {id : Nat} (h : c.lookup id = none) : ∀ u ∈ c.types, u.id ≠ id := by
  simpa [lookup] using h

def add (c : Catalog) (t : ModuleType) : Except CatalogError Catalog :=
  match h : c.lookup t.id with
  | some first => .error (.duplicateType t.id first.name t.name)
  | none => .ok ⟨place t c.types, ascending_place c.ascending (fresh_of_lookup h)⟩

/-- The catalog of a list of types; the first type whose id came before is refused. -/
def ofTypes (types : List ModuleType) : Except CatalogError Catalog := types.foldlM add empty

end Catalog

end Patchbay
