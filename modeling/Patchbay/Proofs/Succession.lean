/-
  Patchbay.Proofs.Succession — patches routed one after the other through one counter.

  Routing reads no bus that a patch holds, and of its counter only where it stands. So a patch
  routed behind others gets the numbers it gets from a new counter, moved up by those handed
  out before.
  - `links_of_withoutBuses`, `route_fst_eq`: what comes of routing hangs on neither buses nor counter.
  - `route_cases`: the two ways in which routing can end, with all that holds of each.
  - `handedOut_route`, `handedOut_counterAfter`: one patch moves the counter on by its demand, none
    if it fails, and so do the patches of a history, one by one.
  - `patch_route_again`: the buses that routing wrote do not change what it writes.
  - `routeAfter_translates`: all of this for a patch behind any history.
-/

import Patchbay.Proofs.Compilation

namespace Patchbay

namespace Routing

open Patch

/-! ## Routing reads no bus -/

theorem jackOf_withoutBuses (cable : Nat) (m : PatchModule) (k : Nat) (kind : JackKind) (index : Nat) :
    jackOf cable (m.withoutBuses, k) kind index = jackOf cable (m, k) kind index := by
  cases kind <;> rfl

theorem moduleAt_withoutBuses (p : Patch) (cable : Nat) (area : Area) (moduleId : Nat) :
    moduleAt p.withoutBuses cable area moduleId =
      (moduleAt p cable area moduleId).map fun found => (found.1.withoutBuses, found.2) := by
  have hsame : ((fun found : PatchModule × Nat => found.1.id == moduleId && found.1.area == area) ∘
      Prod.map PatchModule.withoutBuses id) = fun found => found.1.id == moduleId && found.1.area == area := rfl
  simp only [moduleAt, withoutBuses, List.zipIdx_map, List.find?_map, hsame]
  cases p.modules.zipIdx.find? fun found => found.1.id == moduleId && found.1.area == area <;> rfl

theorem link_withoutBuses (p : Patch) (fed : List (Jack × Nat)) (cable : Nat) (c : Cable) :
    link p.withoutBuses fed cable c = link p fed cable c := by
  simp only [link, moduleAt_withoutBuses]
  cases moduleAt p cable c.area c.moduleFrom with
  | error e => rfl
  | ok source =>
    cases moduleAt p cable c.area c.moduleTo with
    | error e => rfl
    | ok dest => simp only [Except.map, bind, Except.bind, jackOf_withoutBuses]

theorem links_withoutBuses (p : Patch) (fed : List (Jack × Nat)) (cable : Nat) (cs : List Cable) :
    links p.withoutBuses fed cable cs = links p fed cable cs := by
  induction cs generalizing fed cable with
  | nil => rfl
  | cons c cs ih => simp only [links, link_withoutBuses, ih]

theorem links_of_withoutBuses {p q : Patch} (h : q.withoutBuses = p.withoutBuses) :
    links q [] 0 q.cables = links p [] 0 p.cables := by
  rw [← links_withoutBuses q, ← links_withoutBuses p, h, cables_of_withoutBuses h]

/-- What comes of routing hangs on the patch alone. -/
theorem route_fst_eq (b : Bench) : b.route.1 = (links b.patch [] 0 b.patch.cables).map fun _ => b.patch.usedTypes := by
  rw [route_eq]
  cases links b.patch [] 0 b.patch.cables with
  | error e => rfl
  | ok ls => exact congrArg Except.ok (usedTypes_of_withoutBuses (withoutBuses_committed b ls))

/-- Routing commits the links of sound cables, or it reports the first fault and leaves the bench. -/
theorem route_cases (b : Bench) :
    (∃ ls, links b.patch [] 0 b.patch.cables = .ok ls ∧ b.patch.Sound ∧
      List.Forall₂ b.patch.Linked b.patch.cables ls ∧ b.route = (.ok b.patch.usedTypes, b.committed ls)) ∨
    ∃ e, b.patch.FirstFault e ∧ b.route = (.error e, b) := by
  rw [route_eq]
  rcases links_cables b.patch with ⟨ls, hok, hsound, hls⟩ | ⟨e, he, hfirst⟩
  · refine Or.inl ⟨ls, hok, hsound, hls, ?_⟩
    rw [hok, ← usedTypes_of_withoutBuses (withoutBuses_committed b ls)]
  · refine Or.inr ⟨e, hfirst, ?_⟩
    rw [he]

theorem exists_linked_of_route {b : Bench} {types : List UsedType} (h : b.route.1 = .ok types) :
    ∃ ls, List.Forall₂ b.patch.Linked b.patch.cables ls ∧ b.route.2 = b.committed ls := by
  rcases route_cases b with ⟨ls, -, -, hls, hroute⟩ | ⟨e, -, hroute⟩
  · exact ⟨ls, hls, congrArg Prod.snd hroute⟩
  · rw [hroute] at h
    cases h

/-- A cabled jack gets the next bus plus the number of nets with an earlier cable. -/
theorem bus?_route_of_ok {b : Bench} {types : List UsedType} (h : b.route.1 = .ok types) (hfit : b.patch.Fitted)
    {j : Jack} {r : Rate} (hj : b.patch.Cabled j) (hr : b.patch.rate? j = some r) : b.route.2.patch.bus? j =
      some (b.counter.next r +
        {N | N ∈ b.patch.netsOfRate r ∧ b.patch.earliest N < b.patch.earliest (b.patch.net j)}.ncard) := by
  obtain ⟨ls, hls, hbench⟩ := exists_linked_of_route h
  rw [hbench, bus?_committed_of_cabled hls hfit hj hr, openedBus, opened_eq_ncard hls]

theorem types_of_route {b : Bench} {types : List UsedType} (h : b.route.1 = .ok types) : types = b.patch.usedTypes := by
  rcases route_cases b with ⟨ls, -, -, -, hroute⟩ | ⟨e, -, hroute⟩
  · rw [hroute] at h
    cases h
    rfl
  · rw [hroute] at h
    cases h

theorem route_snd_eq_of_error {b : Bench} {e : RoutingError} (h : b.route.1 = .error e) : b.route.2 = b := by
  rcases route_cases b with ⟨ls, -, -, -, hroute⟩ | ⟨f, -, hroute⟩
  · rw [hroute] at h
    cases h
  · rw [hroute]

theorem exists_types_iff_sound (b : Bench) : (∃ types, b.route.1 = .ok types) ↔ b.patch.Sound := by
  rcases route_cases b with ⟨ls, -, hsound, -, hroute⟩ | ⟨e, hfirst, hroute⟩
  · rw [hroute]
    exact ⟨fun _ => hsound, fun _ => ⟨_, rfl⟩⟩
  · rw [hroute]
    refine ⟨fun hx => ?_, fun hs => absurd hs hfirst.not_sound⟩
    obtain ⟨types, htypes⟩ := hx
    cases htypes

/-! ## Routing again -/

/-- The same links commit the same buses again. -/
theorem patch_committed_again (c : BusCounter) (p : Patch) (ls : List Link) :
    (Bench.committed { counter := c, patch := (Bench.committed { counter := c, patch := p } ls).patch } ls).patch =
      (Bench.committed { counter := c, patch := p } ls).patch := by
  refine eq_of_bus?_eq (withoutBuses_committed _ ls) fun j => ?_
  rw [bus?_committed, bus?_committed, Option.map_map]
  congr 1
  funext old
  rw [Function.comp_apply]
  -- A jack that got a bus gets it again, and any other keeps what it had.
  cases if j ∈ (netsOf ls).members then (number c (netsOf ls) ls).buses.lookup ((netsOf ls).find j) else none <;> rfl

/-- A patch that was routed is left as it is by routing it from the same counter. -/
theorem patch_route_again (c : BusCounter) (p : Patch) :
    (Bench.route { counter := c, patch := (Bench.route { counter := c, patch := p }).2.patch }).2.patch =
      (Bench.route { counter := c, patch := p }).2.patch := by
  rcases route_cases { counter := c, patch := p } with ⟨ls, hl, -, -, hroute⟩ | ⟨e, -, hroute⟩
  · have hlinks : links (Bench.committed { counter := c, patch := p } ls).patch [] 0
        (Bench.committed { counter := c, patch := p } ls).patch.cables = .ok ls := by
      rw [links_of_withoutBuses (withoutBuses_committed _ ls)]
      exact hl
    have hagain : (Bench.route { counter := c, patch := (Bench.committed { counter := c, patch := p } ls).patch }).2 =
        Bench.committed { counter := c, patch := (Bench.committed { counter := c, patch := p } ls).patch } ls := by
      rw [route_eq, hlinks]
    rw [hroute, hagain, patch_committed_again]
  · rw [hroute, hroute]

/-! ## Histories -/

/-- How many buses of a rate a patch is handed out from a new counter. -/
def demand (p : Patch) (r : Rate) : Nat := (Bench.route { counter := {}, patch := p }).2.counter.handedOut r

/-- The counter after patches are routed from a new one, one after the other, each with or without success. -/
def counterAfter (history : List Patch) : BusCounter :=
  history.foldl (fun c p => (Bench.route { counter := c, patch := p }).2.counter) {}

def routeAfter (history : List Patch) (p : Patch) : Except RoutingError (List UsedType) × Bench :=
  Bench.route { counter := counterAfter history, patch := p }

theorem handedOut_committed (b : Bench) (ls : List Link) (r : Rate) :
    (b.committed ls).counter.handedOut r = b.counter.handedOut r + opened (netsOf ls) ls r ls.length := by
  have h := next_committed b ls r
  rw [BusCounter.next, BusCounter.next, Nat.add_assoc] at h
  exact Nat.add_left_cancel h

/-- A patch moves any counter on by its demand. -/
theorem handedOut_route (b : Bench) (r : Rate) :
    b.route.2.counter.handedOut r = b.counter.handedOut r + demand b.patch r := by
  rw [demand, route_eq, route_eq]
  cases links b.patch [] 0 b.patch.cables with
  | error e =>
    show b.counter.handedOut r = b.counter.handedOut r + BusCounter.handedOut {} r
    rw [BusCounter.handedOut_new, Nat.add_zero]
  | ok ls =>
    show (b.committed ls).counter.handedOut r =
      b.counter.handedOut r + (Bench.committed { counter := {}, patch := b.patch } ls).counter.handedOut r
    rw [handedOut_committed, handedOut_committed, BusCounter.handedOut_new, Nat.zero_add]

theorem counterAfter_concat (history : List Patch) (p : Patch) :
    counterAfter (history ++ [p]) = (routeAfter history p).2.counter := List.foldl_append ..

/-- The patches of a history move the counter on by their demands. -/
theorem handedOut_counterAfter (history : List Patch) (r : Rate) :
    (counterAfter history).handedOut r = (history.map (demand · r)).sum := by
  induction history using List.reverseRecOn with
  | nil => exact BusCounter.handedOut_new r
  | append_singleton history p ih =>
    rw [counterAfter_concat, routeAfter, handedOut_route, ih, List.map_append, List.sum_append, List.map_singleton,
      List.sum_singleton]

theorem next_counterAfter_le (before after : List Patch) (r : Rate) :
    (counterAfter before).next r ≤ (counterAfter (before ++ after)).next r := by
  rw [BusCounter.next, BusCounter.next, handedOut_counterAfter, handedOut_counterAfter, List.map_append,
    List.sum_append, ← Nat.add_assoc]
  exact Nat.le_add_right _ _

theorem demand_eq_zero_of_error {history : List Patch} {p : Patch} {e : RoutingError}
    (h : (routeAfter history p).1 = .error e) (r : Rate) : demand p r = 0 := by
  have hmoved := handedOut_route { counter := counterAfter history, patch := p } r
  rw [route_snd_eq_of_error h] at hmoved
  exact Nat.left_eq_add.1 hmoved

theorem demand_eq_ncard_of_ok {history : List Patch} {p : Patch} {types : List UsedType}
    (h : (routeAfter history p).1 = .ok types) (r : Rate) : demand p r = (p.netsOfRate r).ncard := by
  obtain ⟨ls, hls, hbench⟩ := exists_linked_of_route h
  have hmoved := handedOut_route { counter := counterAfter history, patch := p } r
  rw [hbench, handedOut_committed, opened_length hls] at hmoved
  exact (Nat.add_left_cancel hmoved).symm

/-- What comes of routing a patch behind others comes of it alone. -/
theorem routeAfter_fst_eq (history : List Patch) (p : Patch) : (routeAfter history p).1 = (routeAfter [] p).1 := by
  rw [routeAfter, routeAfter, route_fst_eq, route_fst_eq]

/-- A cabled jack gets the number that it gets from a new counter, moved up by what was handed out before. -/
theorem exists_bus_of_routeAfter {history : List Patch} {p : Patch} (hfit : p.Fitted) {types : List UsedType}
    (h : (routeAfter history p).1 = .ok types) {j : Jack} {r : Rate} (hj : p.Cabled j) (hr : p.rate? j = some r) :
    ∃ bus, (routeAfter [] p).2.patch.bus? j = some bus ∧
      (routeAfter history p).2.patch.bus? j = some (bus + (history.map (demand · r)).sum) := by
  have hok : (routeAfter [] p).1 = .ok types := (routeAfter_fst_eq history p).symm.trans h
  refine ⟨_, bus?_route_of_ok hok hfit hj hr, (bus?_route_of_ok h hfit hj hr).trans (congrArg some ?_)⟩
  show (counterAfter history).next r + _ = BusCounter.next {} r + _ + _
  rw [BusCounter.next, BusCounter.next, BusCounter.handedOut_new, handedOut_counterAfter, Nat.add_zero,
    Nat.add_right_comm]

theorem mem_Ico_of_routeAfter {history : List Patch} {p : Patch} {types : List UsedType}
    (h : (routeAfter history p).1 = .ok types) {j : Jack} {r : Rate} {bus : Bus} (hj : p.Cabled j)
    (hr : p.rate? j = some r) (hbus : (routeAfter history p).2.patch.bus? j = some bus) :
    (counterAfter history).next r ≤ bus ∧ bus < (counterAfter (history ++ [p])).next r := by
  obtain ⟨ls, hls, hbench⟩ := exists_linked_of_route h
  rw [counterAfter_concat]
  rw [routeAfter, hbench] at hbus ⊢
  exact mem_Ico_of_bus?_committed hls hj hr hbus

/-- Routing behind any history does what routing from a new counter does, but for its numbers:
    those of a rate are moved up by what the history handed out, which puts them above those of
    every earlier patch. A patch that fails takes no number, and routing twice is routing once. -/
theorem routeAfter_translates (history : List Patch) {p : Patch} (hfit : p.Fitted) :
    (routeAfter history p).1 = (routeAfter [] p).1 ∧
    (∀ types, (routeAfter history p).1 = .ok types → ∀ j r, p.Cabled j → p.rate? j = some r →
      ∃ bus, (routeAfter [] p).2.patch.bus? j = some bus ∧
        (routeAfter history p).2.patch.bus? j = some (bus + (history.map (demand · r)).sum)) ∧
    (∀ e, (routeAfter history p).1 = .error e →
      (routeAfter history p).2 = { counter := counterAfter history, patch := p }) ∧
    (∀ before q after, history = before ++ q :: after →
      (∀ r, (routeAfter before q).2.counter.handedOut r = (counterAfter before).handedOut r + demand q r) ∧
      (∀ e, (routeAfter before q).1 = .error e → ∀ r, demand q r = 0) ∧
      (∀ types, (routeAfter before q).1 = .ok types → ∀ r, demand q r = (q.netsOfRate r).ncard) ∧
      ∀ types types', (routeAfter before q).1 = .ok types → (routeAfter history p).1 = .ok types' →
        ∀ j k r bus bus', q.Cabled j → q.rate? j = some r → (routeAfter before q).2.patch.bus? j = some bus →
          p.Cabled k → p.rate? k = some r → (routeAfter history p).2.patch.bus? k = some bus' → bus < bus') ∧
    (routeAfter [] (routeAfter [] p).2.patch).2.patch = (routeAfter [] p).2.patch := by
  refine ⟨routeAfter_fst_eq history p, fun types h j r hj hr => exists_bus_of_routeAfter hfit h hj hr,
    fun e he => route_snd_eq_of_error he, fun before q after heq => ?_, patch_route_again {} p⟩
  refine ⟨fun r => handedOut_route _ r, fun e he => demand_eq_zero_of_error he,
    fun types h => demand_eq_ncard_of_ok h, ?_⟩
  intro types types' hq hp j k r bus bus' hj hjr hbus hk hkr hbus'
  have hsplit : history = (before ++ [q]) ++ after := by rw [heq, List.append_assoc, List.singleton_append]
  calc bus < (counterAfter (before ++ [q])).next r := (mem_Ico_of_routeAfter hq hj hjr hbus).2
    _ ≤ (counterAfter history).next r := hsplit ▸ next_counterAfter_le (before ++ [q]) after r
    _ ≤ bus' := (mem_Ico_of_routeAfter hp hk hkr hbus').1

theorem fitted_bridgeFirst : bridgeFirst.Fitted := by
  intro m hm kind
  revert m
  cases kind <;> decide

theorem cabled_bridgeFirst : bridgeFirst.Cabled ⟨0, .outlet, 0⟩ := by
  refine ⟨⟨.voice, .outToIn, .red, 1, 0, 2, 0⟩, by decide, Or.inl ⟨⟨⟨_, rfl, rfl, rfl⟩, ?_⟩, rfl, rfl⟩⟩
  exact fun i hi => absurd hi (Nat.not_lt_zero i)

def strayCable : Patch := { bridgeFirst with cables := bridgeFirst.cables ++ [⟨.fx, .outToIn, .red, 1, 0, 2, 0⟩] }

theorem routeAfter_translates_bridgeFirst :
    bridgeFirst.Fitted ∧ (routeAfter [bridgeFirst, strayCable] bridgeFirst).1 = .ok [⟨7, some "Mixer"⟩] ∧
      bridgeFirst.Cabled ⟨0, .outlet, 0⟩ ∧ bridgeFirst.rate? ⟨0, .outlet, 0⟩ = some .audio ∧
      (routeAfter [bridgeFirst, strayCable] bridgeFirst).2.patch.bus? ⟨0, .outlet, 0⟩ = some 4 ∧
      demand strayCable .audio = 0 := by
  have hok : (routeAfter [bridgeFirst, strayCable] bridgeFirst).1 = .ok [⟨7, some "Mixer"⟩] := by decide
  obtain ⟨-, hbus, -, hcalls, -⟩ := routeAfter_translates [bridgeFirst, strayCable] fitted_bridgeFirst
  obtain ⟨bus, hnew, hbehind⟩ := hbus _ hok ⟨0, .outlet, 0⟩ .audio cabled_bridgeFirst rfl
  obtain rfl : 2 = bus := Option.some.inj hnew
  have hstray := (hcalls [bridgeFirst] strayCable [] rfl).2.1 _ rfl .audio
  exact ⟨fitted_bridgeFirst, hok, cabled_bridgeFirst, rfl, hbehind, hstray⟩

end Routing

end Patchbay
