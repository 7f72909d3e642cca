/-
  Patchbay.Proofs.GuardedRouting — routing with every step that could fail checked.

  The routing of `Patchbay.Routing` takes modules with their positions, keeps nets as merges and
  leaves out what has no place. Here modules and jacks are found by position, nets are kept as
  parent pointers, and buses are looked up and written where they must be: a position outside of
  its list, a way up that never ends or a net without a number makes the whole result `none`. The
  jacks to write are taken in any order in which the table of nets may list them.
  - `follows_joinCables`, `number_eq`, `mapM_assign_eq`, `foldlM_write_eq`: each stage does what
    the stage of `Patchbay.Routing` does.
  - `route_eq`: routing fails only if a cabled jack has no place for its bus, in whatever order.
  - `routing_is_safe`: it never fails on modules that were placed and then routed, however often.
  - `route_in_any_order`: the order of the jacks is never seen.
-/

import Patchbay.Proofs.Forest
import Patchbay.Proofs.Succession

namespace Patchbay.Routing

namespace Guarded

/-! ## Cables -/

/-- A fault ends the work; `none` is a step that could not be made. -/
abbrev Checked := ExceptT RoutingError Option

def present {α : Type} (found : Option α) : Checked α := ExceptT.lift found

@[simp] theorem present_some {α : Type} (a : α) : present (some a) = pure a := rfl

@[simp] theorem throw_bind {α β : Type} (e : RoutingError) (f : α → Checked β) : (throw e >>= f) = throw e := rfl

def positionOf (p : Patch) (cable : Nat) (area : Area) (id : Nat) : Checked Nat :=
  match p.modules.findIdx? fun m => m.id == id && m.area == area with
  | some position => pure position
  | none => throw (.unknownModule cable area id)

def jackAt (p : Patch) (cable position : Nat) (kind : JackKind) (index : Nat) : Checked Jack := do
  let m ← present p.modules[position]?
  if (m.rates kind).length ≤ index then throw (.unknownJack cable m.area m.id m.displayName kind index)
  else return ⟨position, kind, index⟩

def rateAt (p : Patch) (j : Jack) : Checked Rate := do
  let m ← present p.modules[j.position]?
  present (m.rates j.kind)[j.index]?

/-- The link that a cable is; `fed` tells which cable enters an inlet. -/
def linkAt (p : Patch) (fed : List (Jack × Nat)) (cable : Nat) (c : Cable) : Checked Link := do
  let sourcePosition ← positionOf p cable c.area c.moduleFrom
  let destPosition ← positionOf p cable c.area c.moduleTo
  let source ← jackAt p cable sourcePosition c.kind.source c.jackFrom
  let dest ← jackAt p cable destPosition .inlet c.jackTo
  let sourceRate ← rateAt p source
  let destRate ← rateAt p dest
  if sourceRate ≠ destRate then
    throw (.rateMismatch cable c.area c.moduleFrom c.kind.source c.jackFrom sourceRate c.moduleTo c.jackTo destRate)
  else
    match fed.lookup dest with
    | some first => throw (.inletConnectedTwice cable c.area c.moduleTo c.jackTo first)
    | none => return ⟨source, dest, destRate⟩

/-- What is kept while cables are joined. -/
structure Joined where
  nets : Forest Jack := .empty
  fed : List (Jack × Nat) := []
  /-- The inlets that cables enter, in the order of the cables. -/
  dests : List (Jack × Rate) := []

noncomputable def joinCables (p : Patch) (s : Joined) (cable : Nat) : List Cable → Checked Joined
  | [] => return s
  | c :: cs => do
    let l ← linkAt p s.fed cable c
    let nets ← present (s.nets.union? l.source l.dest)
    joinCables p ⟨nets, (l.dest, cable) :: s.fed, s.dests ++ [(l.dest, l.rate)]⟩ (cable + 1) cs

/-! ## Numbers and buses -/

noncomputable def add (nets : Forest Jack) (n : Numbering) (numbered : (Jack × Rate) × Nat) : Option Numbering := do
  let ((dest, rate), cable) := numbered
  let net ← nets.find? dest
  match n.buses.lookup net with
  | some _ => return n
  | none =>
    let (bus, counter) := n.counter.alloc rate
    return ⟨counter, (net, bus) :: n.buses, n.events ++ [.allocatedBus cable bus rate]⟩

noncomputable def number (counter : BusCounter) (nets : Forest Jack) (dests : List (Jack × Rate)) : Option Numbering :=
  dests.zipIdx.foldlM (add nets) { counter }

/-- The bus of a jack's net, which must have been numbered. -/
noncomputable def assign (nets : Forest Jack) (n : Numbering) (j : Jack) : Option (Jack × Bus) := do
  let net ← nets.find? j
  let bus ← n.buses.lookup net
  return (j, bus)

def write (p : Patch) (assignment : Jack × Bus) : Option Patch := do
  let (j, bus) := assignment
  let m ← p.modules[j.position]?
  if j.index < (m.buses j.kind).length then
    return { p with modules := p.modules.set j.position (m.setBus j.kind j.index bus) }
  else none

/-- Route all cables of the patch on the bench; `listing` is the order in which a table of nets
    lists its jacks. -/
noncomputable def route (listing : Forest Jack → List Jack) (b : Bench) :
    Option (Except RoutingError (List UsedType) × Bench) := do
  match ← (joinCables b.patch {} 0 b.patch.cables).run with
  | .error e => return (.error e, b)
  | .ok s =>
    let n ← number b.counter s.nets s.dests
    let buses ← (listing s.nets).mapM (assign s.nets n)
    let patch ← buses.foldlM write b.patch
    return (.ok patch.usedTypes, { counter := n.counter, patch, events := b.events ++ n.events })

def Lists (listing : Forest Jack → List Jack) : Prop :=
  ∀ f, (listing f).Nodup ∧ ∀ j, j ∈ listing f ↔ j ∈ f.parents

/-! ## Checks -/

/-- Checked work with the outcome of other work: the same fault, or values that are related. -/
inductive Follows {α β : Type} (R : α → β → Prop) : Checked α → Except RoutingError β → Prop
  | ok {a : α} {b : β} : R a b → Follows R (pure a) (.ok b)
  | error (e : RoutingError) : Follows R (throw e) (.error e)

theorem Follows.bind {α β γ δ : Type} {R : α → β → Prop} {S : γ → δ → Prop} {m : Checked α}
    {n : Except RoutingError β} {f : α → Checked γ} {g : β → Except RoutingError δ} (h : Follows R m n)
    (hf : ∀ a b, R a b → Follows S (f a) (g b)) : Follows S (m >>= f) (n >>= g) := by
  cases h with
  | ok hab => rw [pure_bind]; exact hf _ _ hab
  | error e => exact .error e

theorem Follows.exists_of_run_eq_ok {α β : Type} {R : α → β → Prop} {m : Checked α} {n : Except RoutingError β}
    (h : Follows R m n) {a : α} (hrun : m.run = some (.ok a)) : ∃ b, n = .ok b ∧ R a b := by
  cases h with
  | ok hab =>
    cases hrun
    exact ⟨_, rfl, hab⟩
  | error e => cases hrun

theorem Follows.exists_run_eq_ok {α β : Type} {R : α → β → Prop} {m : Checked α} {b : β} (h : Follows R m (.ok b)) :
    ∃ a, m.run = some (.ok a) ∧ R a b := by
  cases h with
  | ok hab => exact ⟨_, rfl, hab⟩

variable {p : Patch}

theorem follows_positionOf (p : Patch) (cable : Nat) (area : Area) (id : Nat) :
    Follows (fun k found => found.2 = k ∧ p.modules[k]? = some found.1) (positionOf p cable area id)
      (moduleAt p cable area id) := by
  have hkey (m : PatchModule) : (m.id == id && m.area == area) = true ↔ m.area = area ∧ m.id = id := by
    simp [and_comm]
  unfold positionOf
  cases hfind : p.modules.findIdx? fun m => m.id == id && m.area == area with
  | some k =>
    obtain ⟨hk, hat, hbefore⟩ := List.findIdx?_eq_some_iff_getElem.1 hfind
    have hm : p.modules[k]? = some p.modules[k] := List.getElem?_eq_getElem hk
    have hfirst : p.FirstAt area id k := by
      refine ⟨⟨_, hm, (hkey _).1 hat⟩, fun i hi m him hmm => ?_⟩
      obtain ⟨hi', rfl⟩ := List.getElem?_eq_some_iff.1 him
      exact hbefore i hi ((hkey _).2 hmm)
    obtain ⟨m, hm', hmodule⟩ := moduleAt_eq_ok cable hfirst
    rw [hmodule]
    exact .ok ⟨rfl, hm'⟩
  | none =>
    have hnone : ¬∃ k, p.FirstAt area id k := by
      rintro ⟨k, ⟨m, hm, hmm⟩, -⟩
      have hno := List.findIdx?_eq_none_iff.1 hfind m (List.mem_of_getElem? hm)
      rw [(hkey m).2 hmm] at hno
      cases hno
    rw [moduleAt_eq_error hnone]
    exact .error _

theorem follows_jackAt {k : Nat} {m : PatchModule} (hm : p.modules[k]? = some m) (cable : Nat) (kind : JackKind)
    (index : Nat) : Follows (fun j found => found.1 = j ∧ rateAt p j = pure found.2) (jackAt p cable k kind index)
      (jackOf cable (m, k) kind index) := by
  simp only [jackAt, hm, present_some, pure_bind, jackOf]
  cases hr : (m.rates kind)[index]? with
  | some r =>
    rw [if_neg (Nat.not_le.2 (List.getElem?_eq_some_iff.1 hr).1)]
    refine .ok ⟨rfl, ?_⟩
    simp only [rateAt, hm, present_some, pure_bind, hr]
  | none =>
    rw [if_pos (List.getElem?_eq_none_iff.1 hr)]
    exact .error _

theorem follows_linkAt (p : Patch) (fed : List (Jack × Nat)) (cable : Nat) (c : Cable) :
    Follows Eq (linkAt p fed cable c) (link p fed cable c) := by
  refine (follows_positionOf p cable c.area c.moduleFrom).bind fun k found hsource => ?_
  obtain ⟨rfl, hm⟩ := hsource
  refine (follows_positionOf p cable c.area c.moduleTo).bind fun l found' hdest => ?_
  obtain ⟨rfl, hn⟩ := hdest
  refine (follows_jackAt hm cable c.kind.source c.jackFrom).bind fun s from_ hs => ?_
  obtain ⟨rfl, hsr⟩ := hs
  refine (follows_jackAt hn cable .inlet c.jackTo).bind fun d to_ hd => ?_
  obtain ⟨rfl, hdr⟩ := hd
  simp only [hsr, hdr, pure_bind]
  by_cases hrate : from_.2 ≠ to_.2
  · rw [if_pos hrate, if_pos hrate]
    exact .error _
  · rw [if_neg hrate, if_neg hrate]
    cases fed.lookup to_.1 with
    | some first => exact .error _
    | none => exact .ok rfl

/-! ## Joining -/

/-- Cables are joined as their links are: the same fault, or nets that find what the links' nets
    find, and the inlets of the links in their order. -/
theorem follows_joinCables {n : Nets Jack} (s : Joined) (h : s.nets.Mirrors n) (cable : Nat) (cs : List Cable) :
    Follows (fun s' ls => s'.nets.Mirrors (ls.foldl (fun n l => n.union l.source l.dest) n) ∧
        s'.dests = s.dests ++ ls.map fun l => (l.dest, l.rate))
      (joinCables p s cable cs) (links p s.fed cable cs) := by
  induction cs generalizing s n cable with
  | nil => exact .ok ⟨h, (List.append_nil _).symm⟩
  | cons c cs ih =>
    refine (follows_linkAt p s.fed cable c).bind fun l l' hl => ?_
    subst hl
    obtain ⟨g, hg, hmirrors⟩ := h.exists_union l.source l.dest
    rw [hg, present_some, pure_bind]
    have hrest := ih ⟨g, (l.dest, cable) :: s.fed, s.dests ++ [(l.dest, l.rate)]⟩ hmirrors (cable + 1)
    generalize joinCables p _ (cable + 1) cs = m at hrest ⊢
    dsimp only at hrest
    generalize links p _ (cable + 1) cs = e at hrest ⊢
    cases hrest with
    | ok hab => exact .ok ⟨hab.1, by rw [hab.2, List.append_assoc]; rfl⟩
    | error e => exact .error e

abbrev destsOf (ls : List Link) : List (Jack × Rate) := ls.map fun l => (l.dest, l.rate)

/-- All cables of a patch are joined as routing joins them. -/
theorem follows_joinCables_cables (p : Patch) :
    Follows (fun s ls => s.nets.Mirrors (netsOf ls) ∧ s.dests = destsOf ls) (joinCables p {} 0 p.cables)
      (links p [] 0 p.cables) :=
  follows_joinCables {} Forest.mirrors_empty 0 p.cables

/-! ## Numbering -/

section

variable {f : Forest Jack} {n : Nets Jack} (h : f.Mirrors n)

include h

theorem add_eq (k : Numbering) (l : Link) (cable : Nat) :
    add f k ((l.dest, l.rate), cable) = some (k.add n (l, cable)) := by
  simp only [add, h.find?_eq, Option.bind_eq_bind, Option.bind_some, Numbering.add]
  cases k.buses.lookup (n.find l.dest) <;> rfl

theorem number_eq (counter : BusCounter) (ls : List Link) :
    number counter f (destsOf ls) = some (Routing.number counter n ls) := by
  unfold number Routing.number
  generalize ({ counter } : Numbering) = k
  rw [List.zipIdx_map]
  generalize ls.zipIdx = numbered
  induction numbered generalizing k with
  | nil => rfl
  | cons a rest ih =>
    have hadd := add_eq h k a.1 a.2
    rw [List.map_cons, List.foldlM_cons, List.foldl_cons]
    show Option.bind (add f k ((a.1.dest, a.1.rate), a.2)) _ = _
    rw [hadd, Option.bind_some, ih]

/-- What is listed has a number, so the buses of all of it are known. -/
theorem mapM_assign_eq {k : Numbering} {js : List Jack} (hjs : ∀ j ∈ js, (k.buses.lookup (n.find j)).isSome) :
    js.mapM (assign f k) = some (assignments n k js) := by
  induction js with
  | nil => rfl
  | cons j js ih =>
    obtain ⟨bus, hbus⟩ := Option.isSome_iff_exists.1 (hjs j List.mem_cons_self)
    have hassign : assign f k j = some (j, bus) := by
      simp only [assign, h.find?_eq, Option.bind_eq_bind, Option.bind_some, hbus]
      rfl
    have hrest := ih fun i hi => hjs i (List.mem_cons_of_mem _ hi)
    have hcons : assignments n k (j :: js) = (j, bus) :: assignments n k js :=
      List.filterMap_cons_some (by rw [hbus]; rfl)
    rw [List.mapM_cons, hassign, hrest, hcons]
    rfl

end

/-- Every jack that the links joined is in a net that was numbered. -/
theorem isSome_lookup_of_mem_members (counter : BusCounter) {ls : List Link} {j : Jack}
    (hj : j ∈ (netsOf ls).members) :
    ((Routing.number counter (netsOf ls) ls).buses.lookup ((netsOf ls).find j)).isSome := by
  obtain ⟨l, hl, hnet⟩ : ∃ l ∈ ls, (netsOf ls).find l.dest = (netsOf ls).find j := by
    rw [netsOf_eq_joinAll, Nets.mem_members_joinAll] at hj
    obtain h | ⟨_, he, hj⟩ := hj
    · cases h
    obtain ⟨l, hl, rfl⟩ := List.mem_map.1 he
    refine ⟨l, hl, ?_⟩
    obtain rfl | rfl := hj
    · rw [netsOf_eq_joinAll, Nets.find_joinAll_empty_eq_iff]
      exact .symm _ _ (.rel _ _ he)
    · rfl
  obtain ⟨k, hk⟩ := List.mem_iff_getElem?.1 hl
  obtain ⟨i, hi, m, hm, hopened, hopens⟩ := exists_opens (netsOf ls) hk
  have hlt : i < ls.length := (List.getElem?_eq_some_iff.1 hm).1
  rw [((numbered_number (netsOf ls) ls counter).buses _ _).2 ⟨i, hlt, m, hm, hopened.trans hnet, hopens, rfl⟩]
  rfl

/-! ## Writing -/

theorem write_eq (p : Patch) (j : Jack) (bus : Bus) :
    write p (j, bus) = if (p.bus? j).isSome then some (p.setBus j bus) else none := by
  cases hm : p.modules[j.position]? with
  | none => simp [write, Patch.bus?, hm]
  | some m =>
    have hset : p.modules.set j.position (m.setBus j.kind j.index bus) =
        p.modules.modify j.position (·.setBus j.kind j.index bus) := by
      rw [List.modify_eq_set_getElem?, hm]
      rfl
    simp [write, Patch.bus?, Patch.setBus, hm, hset]

theorem isSome_bus?_setBus (p : Patch) (j k : Jack) (bus : Bus) :
    ((p.setBus j bus).bus? k).isSome = (p.bus? k).isSome := by
  rw [Patch.bus?_setBus]
  split
  · next h => rw [h, Option.isSome_map]
  · rfl

/-- Writing goes through iff every jack has a place for its bus. -/
theorem foldlM_write_eq (p : Patch) (as : List (Jack × Bus)) :
    as.foldlM write p = if ∀ a ∈ as, (p.bus? a.1).isSome then some (as.foldl (fun p a => p.setBus a.1 a.2) p)
      else none := by
  induction as generalizing p with
  | nil => simp
  | cons a as ih =>
    rw [List.foldlM_cons, write_eq, List.foldl_cons]
    by_cases ha : (p.bus? a.1).isSome
    · have hrest := ih (p.setBus a.1 a.2)
      simp only [isSome_bus?_setBus] at hrest
      rw [if_pos ha, Option.bind_eq_bind, Option.bind_some, hrest]
      simp only [List.forall_mem_cons, ha, true_and]
    · have hnot : ¬∀ b ∈ a :: as, (p.bus? b.1).isSome := fun h => ha (h a List.mem_cons_self)
      rw [if_neg ha, if_neg hnot]
      rfl

/-! ## Whole runs -/

/-- Each jack is assigned a bus once, in the order in which the jacks are listed. -/
theorem map_fst_assignments {n : Nets Jack} {k : Numbering} {js : List Jack}
    (hjs : ∀ j ∈ js, (k.buses.lookup (n.find j)).isSome) : (assignments n k js).map Prod.fst = js := by
  rw [assignments, List.map_filterMap]
  refine (List.filterMap_congr fun j hj => ?_).trans List.filterMap_some
  obtain ⟨bus, hbus⟩ := Option.isSome_iff_exists.1 (hjs j hj)
  rw [hbus]
  rfl

/-- What is written hangs on which jacks are listed, not on their order. -/
theorem foldl_setBus_assignments (b : Bench) (ls : List Link) {js : List Jack}
    (hjs : ∀ j, j ∈ js ↔ j ∈ (netsOf ls).members) :
    (assignments (netsOf ls) (Routing.number b.counter (netsOf ls) ls) js).foldl (fun p a => p.setBus a.1 a.2) b.patch =
      (b.committed ls).patch := by
  refine Patch.eq_of_bus?_eq ?_ fun j => ?_
  · rw [withoutBuses_foldl_setBus, withoutBuses_committed]
  · rw [bus?_committed]
    simp only [← hjs]
    exact bus?_foldl_setBus (fun j => (Routing.number b.counter (netsOf ls) ls).buses.lookup ((netsOf ls).find j)) _ _ j

/-- Routing fails only where a joined jack has no place for its bus. What comes of it is what
    comes of `Bench.route`, in whatever order the jacks are listed. -/
theorem route_eq {listing : Forest Jack → List Jack} (hlisting : Lists listing) (b : Bench) :
    route listing b = match links b.patch [] 0 b.patch.cables with
      | .ok ls => if ∀ j ∈ (netsOf ls).members, (b.patch.bus? j).isSome then some b.route else none
      | .error _ => some b.route := by
  have hjoin := follows_joinCables_cables b.patch
  rw [Routing.route_eq, route]
  generalize joinCables b.patch {} 0 b.patch.cables = joined at hjoin ⊢
  generalize links b.patch [] 0 b.patch.cables = linked at hjoin ⊢
  cases hjoin with
  | error e => rfl
  | @ok s ls hs =>
    obtain ⟨hnets, hdests⟩ := hs
    have hmem (j : Jack) : j ∈ listing s.nets ↔ j ∈ (netsOf ls).members :=
      ((hlisting s.nets).2 j).trans (hnets.mem_iff j)
    have hnumbered (j : Jack) (hj : j ∈ listing s.nets) :
        ((Routing.number b.counter (netsOf ls) ls).buses.lookup ((netsOf ls).find j)).isSome :=
      isSome_lookup_of_mem_members b.counter ((hmem j).1 hj)
    have hplaces : (∀ a ∈ assignments (netsOf ls) (Routing.number b.counter (netsOf ls) ls) (listing s.nets),
        (b.patch.bus? a.1).isSome) ↔ ∀ j ∈ (netsOf ls).members, (b.patch.bus? j).isSome := by
      rw [← List.forall_mem_map (P := fun j => (b.patch.bus? j).isSome), map_fst_assignments hnumbered]
      simp only [hmem]
    have hwrite := foldlM_write_eq b.patch
      (assignments (netsOf ls) (Routing.number b.counter (netsOf ls) ls) (listing s.nets))
    rw [foldl_setBus_assignments b ls hmem] at hwrite
    simp only [hplaces] at hwrite
    have hrun : (pure s : Checked Joined).run = some (.ok s) := rfl
    simp only [hrun, Option.bind_eq_bind, Option.bind_some, hdests, number_eq hnets, mapM_assign_eq hnets hnumbered,
      hwrite]
    split <;> rfl

/-! ## Safety -/

inductive Worked : Patch → Prop
  | placed {p : Patch} : p.Placed → Worked p
  | edited {p q : Patch} : Worked p → q.modules = p.modules → Worked q
  | routed {b : Bench} : Worked b.patch → Worked b.route.2.patch

theorem fitted_route {b : Bench} (h : b.patch.Fitted) : b.route.2.patch.Fitted := by
  rcases route_cases b with ⟨ls, -, -, -, hroute⟩ | ⟨e, -, hroute⟩
  · rw [hroute]
    exact fitted_committed h ls
  · rw [hroute]
    exact h

theorem Worked.fitted {p : Patch} (h : Worked p) : p.Fitted := by
  induction h with
  | placed h => exact h.fitted
  | edited _ hmodules ih =>
    unfold Patch.Fitted
    rw [hmodules]
    exact ih
  | routed _ ih => exact fitted_route ih

/-- Each jack that cables join has a place for its bus. -/
theorem isSome_bus?_of_mem_members {p : Patch} (hfit : p.Fitted) {ls : List Link}
    (hls : List.Forall₂ p.Linked p.cables ls) {j : Jack} (hj : j ∈ (netsOf ls).members) : (p.bus? j).isSome := by
  obtain ⟨r, hr⟩ := exists_rate_of_cabled hls ((cabled_iff_mem hls).2 hj)
  rw [hfit.isSome_bus?_eq, hr]
  rfl

/-- A patch with a bus for each of its jacks is routed to the end. -/
theorem route_of_fitted {listing : Forest Jack → List Jack} (hlisting : Lists listing) {b : Bench}
    (hfit : b.patch.Fitted) : route listing b = some b.route := by
  rw [route_eq hlisting]
  cases hok : links b.patch [] 0 b.patch.cables with
  | ok ls => exact if_pos fun j hj => isSome_bus?_of_mem_members hfit (linked_of_links_eq_ok hok).2 hj
  | error e => rfl

theorem index_lt_of_isSome_bus? {p : Patch} {j : Jack} (h : (p.bus? j).isSome) :
    ∃ m, p.modules[j.position]? = some m ∧ j.index < (m.buses j.kind).length := by
  obtain ⟨bus, hbus⟩ := Option.isSome_iff_exists.1 h
  obtain ⟨m, hm, hat⟩ := Option.bind_eq_some_iff.1 hbus
  exact ⟨m, hm, (List.getElem?_eq_some_iff.1 hat).1⟩

/-- Routing modules that were placed and then worked on never fails and keeps a bus for each of
    their jacks. In what the joined cables leave, every jack goes up to a net with a number, and
    the jack has a place in the bus list of a module that is there. -/
theorem routing_is_safe {listing : Forest Jack → List Jack} (hlisting : Lists listing) {b : Bench}
    (hb : Worked b.patch) :
    route listing b = some b.route ∧ b.route.2.patch.Fitted ∧
    ∀ s, (joinCables b.patch {} 0 b.patch.cables).run = some (.ok s) →
      ∃ n, number b.counter s.nets s.dests = some n ∧ ∀ j ∈ s.nets.parents,
        (∃ net bus, s.nets.find? j = some net ∧ n.buses.lookup net = some bus) ∧
        ∃ m, b.patch.modules[j.position]? = some m ∧ j.index < (m.buses j.kind).length := by
  have hfit := hb.fitted
  refine ⟨route_of_fitted hlisting hfit, fitted_route hfit, fun s hs => ?_⟩
  obtain ⟨ls, hok, hnets, hdests⟩ := (follows_joinCables_cables b.patch).exists_of_run_eq_ok hs
  obtain ⟨-, hls⟩ := linked_of_links_eq_ok hok
  refine ⟨Routing.number b.counter (netsOf ls) ls, by rw [hdests, number_eq hnets], fun j hj => ?_⟩
  have hmem : j ∈ (netsOf ls).members := (hnets.mem_iff j).1 hj
  obtain ⟨bus, hbus⟩ := Option.isSome_iff_exists.1 (isSome_lookup_of_mem_members b.counter hmem)
  exact ⟨⟨_, bus, hnets.find?_eq j, hbus⟩, index_lt_of_isSome_bus? (isSome_bus?_of_mem_members hfit hls hmem)⟩

theorem lists_toList : Lists fun f => f.parents.keys.toList :=
  fun _ => ⟨Finset.nodup_toList _, fun _ => Finset.mem_toList.trans Finmap.mem_keys⟩

theorem placed_bridgedMixers : bridgedMixers.Placed := by
  intro m hm
  rcases hm with _ | ⟨_, _ | ⟨_, _ | ⟨_, hm⟩⟩⟩
  · exact ⟨_, _, _, _, rfl⟩
  · exact ⟨_, _, _, _, rfl⟩
  · exact ⟨_, _, _, _, rfl⟩
  · cases hm

def bridgedBench : Bench := (Bench.route { counter := {}, patch := bridgedMixers }).2

theorem worked_bridgedBench : Worked bridgedBench.patch := .routed (.placed placed_bridgedMixers)

theorem routing_is_safe_bridgedBench :
    Lists (fun f => f.parents.keys.toList) ∧ Worked bridgedBench.patch ∧
    (∃ outcome, route (fun f => f.parents.keys.toList) bridgedBench = some outcome ∧
      outcome.2.patch.bus? ⟨0, .outlet, 0⟩ = some 3) ∧
    ∃ s n net bus, (joinCables bridgedBench.patch {} 0 bridgedBench.patch.cables).run = some (.ok s) ∧
      number bridgedBench.counter s.nets s.dests = some n ∧ s.nets.find? ⟨0, .outlet, 0⟩ = some net ∧
      n.buses.lookup net = some bus := by
  obtain ⟨hroute, -, hjoined⟩ := routing_is_safe lists_toList worked_bridgedBench
  refine ⟨lists_toList, worked_bridgedBench, ⟨_, hroute, by decide⟩, ?_⟩
  obtain ⟨ls, hok⟩ : ∃ ls, links bridgedBench.patch [] 0 bridgedBench.patch.cables = .ok ls := ⟨_, rfl⟩
  obtain ⟨s, hs, hnets, -⟩ := (hok ▸ follows_joinCables_cables bridgedBench.patch).exists_run_eq_ok
  obtain ⟨n, hn, hmembers⟩ := hjoined s hs
  have hmem : (⟨0, .outlet, 0⟩ : Jack) ∈ s.nets.parents := by
    rw [hnets.mem_iff]
    cases hok
    decide
  obtain ⟨⟨net, bus, hnet, hbus⟩, -⟩ := hmembers _ hmem
  exact ⟨s, n, net, bus, hs, hn, hnet, hbus⟩

/-! ## Any order -/

/-- Routing comes out the same in whatever order the jacks are listed: the same fault, or the same
    types, counter and buses. -/
theorem route_in_any_order {listing listing' : Forest Jack → List Jack} (h : Lists listing) (h' : Lists listing')
    (b : Bench) :
    route listing b = route listing' b ∧ ∀ outcome, route listing b = some outcome → outcome = b.route := by
  refine ⟨(route_eq h b).trans (route_eq h' b).symm, fun outcome houtcome => ?_⟩
  rw [route_eq h] at houtcome
  split at houtcome
  · split at houtcome
    · exact (Option.some.inj houtcome).symm
    · cases houtcome
  · exact (Option.some.inj houtcome).symm

theorem Lists.reverse {listing : Forest Jack → List Jack} (h : Lists listing) : Lists fun f => (listing f).reverse :=
  fun f => ⟨List.nodup_reverse.2 (h f).1, fun _ => List.mem_reverse.trans ((h f).2 _)⟩

theorem route_in_any_order_bridgedBench :
    Lists (fun f => f.parents.keys.toList) ∧ Lists (fun f => f.parents.keys.toList.reverse) ∧
    ∃ outcome, route (fun f => f.parents.keys.toList) bridgedBench = some outcome ∧
      route (fun f => f.parents.keys.toList.reverse) bridgedBench = some outcome ∧
      outcome.2.patch.bus? ⟨0, .outlet, 0⟩ = some 3 := by
  obtain ⟨hsame, -⟩ := route_in_any_order lists_toList lists_toList.reverse bridgedBench
  have hroute := route_of_fitted lists_toList worked_bridgedBench.fitted
  exact ⟨lists_toList, lists_toList.reverse, _, hroute, hsame ▸ hroute, by decide⟩

end Guarded

end Patchbay.Routing
