/-
  Patchbay.Routing.Link — cables checked against the modules of a patch.

  A cable names its modules by id and its jacks by number. A link is a cable whose modules
  and jacks are there, whose jacks have one rate, and whose inlet no cable before it enters.
  The first fault of the first cable that is no link is reported; the checks are made in the
  order source module, destination module, source jack, destination jack, rate, inlet free.
-/

import Patchbay.Routing.Jack

namespace Patchbay

/-! ## Faults -/

/-- Why the cable of a number cannot be routed. -/
inductive RoutingError where
  | unknownModule (cable : Nat) (area : Area) (moduleId : Nat)
  | unknownJack (cable : Nat) (area : Area) (moduleId : Nat) (name : String) (kind : JackKind) (jack : Nat)
  | inletConnectedTwice (cable : Nat) (area : Area) (moduleId jack first : Nat)
  | rateMismatch (cable : Nat) (area : Area) (fromModule : Nat) (fromKind : JackKind) (fromJack : Nat)
      (fromRate : Rate) (toModule jack : Nat) (toRate : Rate)
  deriving DecidableEq, Repr

def RoutingError.message : RoutingError → String
  | .unknownModule cable area moduleId => s!"cable {cable}: {area} module {moduleId} does not exist"
  | .unknownJack cable area moduleId name kind jack =>
    s!"cable {cable}: {area} module {moduleId} ({name}) has no {kind} {jack}"
  | .inletConnectedTwice cable area moduleId jack first =>
    s!"cable {cable}: inlet {jack} of {area} module {moduleId} is already fed by cable {first}"
  | .rateMismatch cable area fromModule fromKind fromJack fromRate toModule jack toRate =>
    s!"cable {cable}: {area} module {fromModule} {fromKind} {fromJack} is {fromRate}-rate " ++
      s!"but module {toModule} inlet {jack} is {toRate}-rate"

namespace Routing

/-! ## Checks -/

structure Link where
  source : Jack
  dest : Jack
  rate : Rate
  deriving DecidableEq, Repr

/-- The first module with an area and id, and its position. -/
def moduleAt (p : Patch) (cable : Nat) (area : Area) (id : Nat) : Except RoutingError (PatchModule × Nat) :=
  match p.modules.zipIdx.find? fun found => found.1.id == id && found.1.area == area with
  | some found => .ok found
  | none => .error (.unknownModule cable area id)

def jackOf (cable : Nat) (owner : PatchModule × Nat) (kind : JackKind) (index : Nat) :
    Except RoutingError (Jack × Rate) :=
  match (owner.1.rates kind)[index]? with
  | some rate => .ok (⟨owner.2, kind, index⟩, rate)
  | none => .error (.unknownJack cable owner.1.area owner.1.id owner.1.displayName kind index)

/-- The link that a cable is; `fed` tells which cable enters an inlet. -/
def link (p : Patch) (fed : List (Jack × Nat)) (cable : Nat) (c : Cable) : Except RoutingError Link := do
  let sourceModule ← moduleAt p cable c.area c.moduleFrom
  let destModule ← moduleAt p cable c.area c.moduleTo
  let (source, sourceRate) ← jackOf cable sourceModule c.kind.source c.jackFrom
  let (dest, destRate) ← jackOf cable destModule .inlet c.jackTo
  if sourceRate ≠ destRate then
    .error (.rateMismatch cable c.area c.moduleFrom c.kind.source c.jackFrom sourceRate c.moduleTo c.jackTo destRate)
  else
    match fed.lookup dest with
    | some first => .error (.inletConnectedTwice cable c.area c.moduleTo c.jackTo first)
    | none => .ok ⟨source, dest, destRate⟩

/-- The links of cables of which the first has number `cable`. -/
def links (p : Patch) (fed : List (Jack × Nat)) (cable : Nat) : List Cable → Except RoutingError (List Link)
  | [] => .ok []
  | c :: cs => do
    let l ← link p fed cable c
    let rest ← links p ((l.dest, cable) :: fed) (cable + 1) cs
    return l :: rest

end Routing

end Patchbay
