/-
  Patchbay.Routing — buses for the cables of a patch.

  Jacks joined by cables form a net, and each net gets one bus. Buses are handed out after
  all cables are joined, in the order of the nets' first cables, so a net made of parts that
  meet late keeps the place of its earliest cable. A jack without cables keeps the bus it
  has. An allocator works on a patch in place: it reads the patch until all cables are
  checked, joined and numbered, and then writes its counter and the buses of the cabled
  jacks, one jack after the other.
-/

import Patchbay.Event
import Patchbay.Routing.Link
import Patchbay.Routing.Nets

namespace Patchbay

namespace Routing

def netsOf (ls : List Link) : Nets Jack := ls.foldl (fun n l => n.union l.source l.dest) {}

/-! ## Numbering -/

structure Numbering where
  counter : BusCounter
  /-- The bus of each net seen so far, by its representative, newest first. -/
  buses : List (Jack × Bus) := []
  events : List Event := []
  deriving Repr

/-- Give the net of the link with number `cable` a bus, if it has none. -/
def Numbering.add (nets : Nets Jack) (n : Numbering) (numbered : Link × Nat) : Numbering :=
  let (l, cable) := numbered
  let net := nets.find l.dest
  match n.buses.lookup net with
  | some _ => n
  | none =>
    let (bus, counter) := n.counter.alloc l.rate
    ⟨counter, (net, bus) :: n.buses, n.events ++ [.allocatedBus cable bus l.rate]⟩

def number (counter : BusCounter) (nets : Nets Jack) (ls : List Link) : Numbering :=
  ls.zipIdx.foldl (Numbering.add nets) { counter }

/-- The bus of each cabled jack, in the order in which `jacks` lists them. -/
def assignments (nets : Nets Jack) (n : Numbering) (jacks : List Jack) : List (Jack × Bus) :=
  jacks.filterMap fun j => (n.buses.lookup (nets.find j)).map (j, ·)

/-! ## Work in place -/

/-- An allocator's counter, the patch it works on, and what it noted. -/
structure Bench where
  counter : BusCounter
  patch : Patch
  events : List Event := []
  deriving DecidableEq, Repr

/-- A fault ends the work and leaves the bench as it is then. -/
abbrev Work := ExceptT RoutingError (StateM Bench)

def putBuses : List (Jack × Bus) → Work Unit
  | [] => pure ()
  | (j, bus) :: rest => do
    modify fun b => { b with patch := b.patch.setBus j bus }
    putBuses rest

/-- Number the nets of the links, and write the counter and all buses. -/
def commit (ls : List Link) : Work Unit := do
  let nets := netsOf ls
  let n := number (← get).counter nets ls
  modify fun b => { b with counter := n.counter, events := b.events ++ n.events }
  putBuses (assignments nets n nets.members)

/-- Route all cables of the patch on the bench, and list its types. -/
def routeAll : Work (List UsedType) := do
  let p := (← get).patch
  let ls ← ofExcept (links p [] 0 p.cables)
  commit ls
  return (← get).patch.usedTypes

/-- What comes of routing on a bench, and the bench as it is left. -/
def Bench.route (b : Bench) : Except RoutingError (List UsedType) × Bench := routeAll.run.run b

/-- The bench once the nets of the links have their buses. -/
def Bench.committed (b : Bench) (ls : List Link) : Bench :=
  let nets := netsOf ls
  let n := number b.counter nets ls
  { counter := n.counter
    patch := (assignments nets n nets.members).foldl (fun p a => p.setBus a.1 a.2) b.patch
    events := b.events ++ n.events }

theorem putBuses_run (buses : List (Jack × Bus)) (b : Bench) :
    (putBuses buses).run.run b = (.ok (), { b with patch := buses.foldl (fun p a => p.setBus a.1 a.2) b.patch }) := by
  induction buses generalizing b with
  | nil => rfl
  | cons a rest ih => exact ih _

theorem commit_run (ls : List Link) (b : Bench) : (commit ls).run.run b = (.ok (), b.committed ls) :=
  putBuses_run _ _

/-- Routing reads until all cables are links, and only then writes. -/
theorem route_eq (b : Bench) :
    b.route = match links b.patch [] 0 b.patch.cables with
      | .ok ls => (.ok (b.committed ls).patch.usedTypes, b.committed ls)
      | .error e => (.error e, b) := by
  have h : b.route = (do
      let ls ← ofExcept (links b.patch [] 0 b.patch.cables)
      commit ls
      return (← get).patch.usedTypes : Work (List UsedType)).run.run b := rfl
  rw [h]
  cases links b.patch [] 0 b.patch.cables with
  | error e => rfl
  | ok ls =>
    have hc : (commit ls).run.run b = (.ok (), b.committed ls) := commit_run ls b
    show (ExceptT.run (commit ls >>= fun _ => _)).run b = _
    rw [ExceptT.run_bind, StateT.run_bind, hc]
    rfl

/-- A bench after all cables are routed. -/
structure Routed extends Bench where
  types : List UsedType
  deriving Repr

end Routing

open Routing in
/-- Route all cables, handing out buses from `counter`. -/
def Patch.connect (counter : BusCounter) (p : Patch) : Except RoutingError Routed :=
  match Bench.route { counter, patch := p } with
  | (.ok types, b) => .ok { b with types }
  | (.error e, _) => .error e

open Routing in
theorem Patch.exists_links_of_connect {counter : BusCounter} {p : Patch} {r : Routed} (h : p.connect counter = .ok r) :
    ∃ ls, links p [] 0 p.cables = .ok ls ∧ r.toBench = Bench.committed { counter, patch := p } ls := by
  unfold Patch.connect at h
  rw [route_eq] at h
  cases hl : links p [] 0 p.cables with
  | error e => simp [hl] at h
  | ok ls =>
    simp only [hl, Except.ok.injEq] at h
    subst h
    exact ⟨ls, rfl, rfl⟩

end Patchbay
