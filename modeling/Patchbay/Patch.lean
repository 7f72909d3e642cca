/-
  Patchbay.Patch — the contents of a patch: modules, cables, parameters.

  A patch has two areas, and a module is known by its id within its area. A freshly placed
  module has its catalog type's jacks, all of them on the reserved buses; routing puts other
  buses in. Where ids repeat, the first module or parameter block counts.
-/

import Patchbay.Bus
import Patchbay.Catalog
import Patchbay.Diagnostic
import Patchbay.Patch.Code

namespace Patchbay

/-! ## Modules -/

structure PatchModule where
  typeId : Nat
  /-- `none` when the catalog lacks the type. -/
  typeName : Option String
  id : Nat
  area : Area
  inletRates : List Rate
  outletRates : List Rate
  inletBuses : List Bus
  outletBuses : List Bus
  deriving DecidableEq, Repr

namespace PatchModule

/-- A module with the jacks the catalog gives its type; a type the catalog lacks has none. -/
def place (catalog : Catalog) (area : Area) (typeId id : Nat) : PatchModule :=
  match catalog.lookup typeId with
  | some t =>
    { typeId, typeName := some t.name, id, area, inletRates := t.inlets, outletRates := t.outlets
      inletBuses := t.inlets.map fun _ => Bus.silent
      outletBuses := t.outlets.map fun _ => Bus.discard }
  | none =>
    { typeId, typeName := none, id, area, inletRates := [], outletRates := [], inletBuses := [], outletBuses := [] }

@[simp] theorem typeId_place (catalog : Catalog) (area : Area) (typeId id : Nat) :
    (place catalog area typeId id).typeId = typeId := by
  unfold place
  cases catalog.lookup typeId <;> rfl

@[simp] theorem id_place (catalog : Catalog) (area : Area) (typeId id : Nat) :
    (place catalog area typeId id).id = id := by
  unfold place
  cases catalog.lookup typeId <;> rfl

@[simp] theorem area_place (catalog : Catalog) (area : Area) (typeId id : Nat) :
    (place catalog area typeId id).area = area := by
  unfold place
  cases catalog.lookup typeId <;> rfl

def isKnown (m : PatchModule) : Bool := m.typeName.isSome

def displayName (m : PatchModule) : String := m.typeName.getD "?"

end PatchModule

/-! ## Cables, parameters, description -/

structure Cable where
  area : Area
  kind : CableKind
  color : CableColor
  moduleFrom : Nat
  jackFrom : Nat
  moduleTo : Nat
  jackTo : Nat
  deriving DecidableEq, Repr

/-- The stored parameter values of one module. -/
structure ParameterBlock where
  area : Area
  moduleId : Nat
  declared : Nat
  values : List Nat
  deriving DecidableEq, Repr

structure Description where
  activeVariation : Nat := 0
  voices : Nat := 0
  mono : Bool := false
  deriving DecidableEq, Repr

/-! ## Patches -/

/-- A module type that needs a definition. -/
structure UsedType where
  typeId : Nat
  /-- `none` when the catalog lacks the type. -/
  name : Option String
  deriving DecidableEq, Repr

structure Patch where
  description : Description := {}
  modules : List PatchModule := []
  cables : List Cable := []
  params : List ParameterBlock := []
  diagnostics : List Diagnostic := []
  deriving DecidableEq, Repr

namespace Patch

def findModule? (p : Patch) (id : Nat) (area : Area) : Option PatchModule :=
  p.modules.find? fun m => m.id == id && m.area == area

def findParams? (p : Patch) (id : Nat) (area : Area) : Option ParameterBlock :=
  p.params.find? fun b => b.moduleId == id && b.area == area

/-- The stored values of a module, none when it has no block. -/
def paramValues (p : Patch) (area : Area) (id : Nat) : List Nat :=
  match p.findParams? id area with
  | some b => b.values
  | none => []

/-- The elements that differ under `key` from all before them. -/
def firstBy {α : Type} (key : α → Nat) (l : List α) : List α :=
  l.foldl (fun seen a => if seen.any (key · == key a) then seen else seen ++ [a]) []

/-- Each module type once, in the order of the first module of that type. -/
def usedTypes (p : Patch) : List UsedType := firstBy UsedType.typeId (p.modules.map fun m => ⟨m.typeId, m.typeName⟩)

/-- The types the catalog lacks, each once, in the order of their first modules. -/
def unknownTypes (p : Patch) : List Nat :=
  firstBy id ((p.modules.filter fun m => !m.isKnown).map PatchModule.typeId)

end Patch

end Patchbay
