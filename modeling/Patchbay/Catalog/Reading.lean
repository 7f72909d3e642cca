/-
  Patchbay.Catalog.Reading — catalogs from JSON texts.

  A catalog file is an object with the member `modules`, a list of module types; a type is
  an object with `id` and `name` and, if they are not empty, `inlets`, `outlets` and
  `params`. Members of other names are passed over, whatever they hold. Either kind of
  object may also be written as an array of its members' values in the order given here,
  cut short after any member that may be missing. A rate is its letter, or an object whose
  one member is that letter with the value `null`. The whole file is read before ids are
  compared.
-/

import Patchbay.Catalog
import Patchbay.Json.Value

namespace Patchbay.Catalog

open Json (Value)

/-! ## Records -/

/-- The value a record holds under a name. -/
abbrev Record := String → Option Value

/-- A record with the given member names, from an object or from an array in their order. No
    name may be repeated in an object, and no item may be left over in an array. -/
def record? (names : List String) : Value → Option Record
  | .object members =>
    if members.all (fun m => m.1.isSome) &&
        names.all (fun n => (members.filter fun m => m.1 == some n).length ≤ 1) then
      some fun n => members.lookup (some n)
    else none
  | .array items => if items.length ≤ names.length then some fun n => (names.zip items).lookup n else none
  | _ => none

/-- The member `name` read by `read?`; `default` when it is missing. -/
def Record.member? {α : Type} (r : Record) (name : String) (read? : Value → Option α) (default : Option α) :
    Option α :=
  match r name with
  | some v => read? v
  | none => default

/-! ## Members -/

def rate? : Value → Option Rate
  | .string (some "a") => some .audio
  | .string (some "k") => some .control
  | .object [(some "a", .null)] => some .audio
  | .object [(some "k", .null)] => some .control
  | _ => none

def list? {α : Type} (read? : Value → Option α) (v : Value) : Option (List α) := do
  let items ← v.items?
  items.mapM read?

def below? (bound : Nat) (v : Value) : Option Nat := do
  let n ← v.natural?
  if n < bound then some n else none

/-- Ids are below this. -/
def idLimit : Nat := 0x100000000

/-- Parameter counts are below this. -/
def countLimit : Nat := 0x10000000000000000

def moduleType? (v : Value) : Option ModuleType := do
  let r ← record? ["id", "name", "inlets", "outlets", "params"] v
  let id ← r.member? "id" (below? idLimit) none
  let name ← r.member? "name" Value.text? none
  let inlets ← r.member? "inlets" (list? rate?) (some [])
  let outlets ← r.member? "outlets" (list? rate?) (some [])
  let params ← r.member? "params" (below? countLimit) (some 0)
  return ⟨id, name, inlets, outlets, params⟩

def moduleTypes? (v : Value) : Option (List ModuleType) := do
  let r ← record? ["modules"] v
  r.member? "modules" (list? moduleType?) none

/-! ## Files -/

def ofJson (text origin : String) : Except CatalogError Catalog :=
  match (Value.ofText? text).bind moduleTypes? with
  | some types => ofTypes types
  | none => .error (.malformed origin)

def load (d : Disk) (p : Path) : Except CatalogError Catalog :=
  match d.readText p with
  | .error fault => .error (.unreadable p fault)
  | .ok text => ofJson text p.text

end Patchbay.Catalog
