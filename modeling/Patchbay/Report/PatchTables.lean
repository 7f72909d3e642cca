/-
  Patchbay.Report.PatchTables — the modules and cables of a patch as tables.
-/

import Patchbay.Patch
import Patchbay.Report.Table

namespace Patchbay.Report

structure ModuleRow where
  name : String
  id : Nat
  typeId : Nat
  params : List Nat
  area : String
  deriving DecidableEq, Repr

structure CableRow where
  source : String
  dest : String
  color : String
  kind : String
  area : String
  deriving DecidableEq, Repr

def moduleRows (p : Patch) : List ModuleRow :=
  p.modules.map fun m => ⟨m.displayName, m.id, m.typeId, p.paramValues m.area m.id, m.area.label⟩

/-- The name of the module a cable end is at, `?` if there is none. -/
def endName (p : Patch) (area : Area) (id : Nat) : String :=
  match p.findModule? id area with
  | some m => m.displayName
  | none => "?"

def cableRow (p : Patch) (c : Cable) : CableRow :=
  let pin := match c.kind with
    | .inToIn => "in"
    | .outToIn => "out"
  { source := s!"{endName p c.area c.moduleFrom}(id={c.moduleFrom}, {pin}={c.jackFrom})"
    dest := s!"{endName p c.area c.moduleTo}(id={c.moduleTo}, in={c.jackTo})"
    color := c.color.label
    kind := c.kind.label
    area := c.area.label }

def cableRows (p : Patch) : List CableRow := p.cables.map (cableRow p)

/-- Numbers in brackets. -/
def numberList (ns : List Nat) : String := "[" ++ ", ".intercalate (ns.map toString) ++ "]"

def ModuleRow.cells (r : ModuleRow) : List String :=
  [r.name, toString r.id, toString r.typeId, numberList r.params, r.area]

def CableRow.cells (r : CableRow) : List String := [r.source, "->", r.dest, r.color, r.kind, r.area]

/-- Both tables. -/
def patchTables (p : Patch) : String :=
  "Modules\n" ++
  table ["Name", "ID", "Type", "Parameters", "Area"] ((moduleRows p).map ModuleRow.cells) ++
  "\nCables\n" ++
  table ["From", "", "To", "Color", "Type", "Area"] ((cableRows p).map CableRow.cells)

end Patchbay.Report
