/-
  Patchbay.Proofs.NetBuses — the buses of a routed patch, net by net.

  A net of a rate is the set of jacks in one net with a cabled jack of that rate; it is known
  by the number of the earliest cable that touches it.
  - `find_netsOf_eq_iff`: routing joins jacks exactly along the equivalence closure of the wiring.
  - `opens_iff_earliest`: a link opens a net iff its cable is the earliest of a net.
  - `bus?_committed_of_cabled`, `bus?_committed_eq_iff`, `exists_cabled_of_lt_next`: a cabled jack
    gets the number of its net; nets of a rate have different numbers, and none is left out.
  - `mem_Ico_of_bus?_committed`: these numbers lie between the counter before and the counter after.
  - `connect_numbers_nets`: all of this for a patch that was routed, with what stays as it was.
-/

import Mathlib.Data.Set.Card
import Mathlib.Order.Lattice.Nat
import Patchbay.Proofs.CableChecks
import Patchbay.Proofs.Numbering

namespace Patchbay

/-! ## Nets of a patch -/

namespace Patch

variable (p : Patch)

def net (j : Jack) : Set Jack := {k | p.SameNet j k}

def netsOfRate (r : Rate) : Set (Set Jack) := {N | ∃ j, p.Cabled j ∧ p.rate? j = some r ∧ p.net j = N}

def touching (N : Set Jack) : Set Nat := {i | ∃ c, p.cables[i]? = some c ∧ ∃ j ∈ N, p.Leaves c j ∨ p.Enters c j}

noncomputable def earliest (N : Set Jack) : Nat := sInf (p.touching N)

variable {p}

theorem SameNet.net_eq {j k : Jack} (h : p.SameNet j k) : p.net j = p.net k := by
  ext i
  exact ⟨fun hi => .trans _ _ _ (.symm _ _ h) hi, fun hi => .trans _ _ _ h hi⟩

theorem mem_net_self (j : Jack) : j ∈ p.net j := .refl j

theorem net_eq_iff {j k : Jack} : p.net j = p.net k ↔ p.SameNet j k :=
  ⟨fun h => by have : k ∈ p.net j := h ▸ mem_net_self k
               exact this, SameNet.net_eq⟩

end Patch

namespace Routing

open Patch

/-! ## Links and wiring -/

theorem netsOf_eq_joinAll (ls : List Link) :
    netsOf ls = ({} : Nets Jack).joinAll (ls.map fun l => (l.source, l.dest)) := by
  simp only [netsOf, Nets.joinAll, List.foldl_map]

section

variable {p : Patch} {ls : List Link} (hls : List.Forall₂ p.Linked p.cables ls)

include hls

theorem link_of_cable {i : Nat} {c : Cable} (hc : p.cables[i]? = some c) : ∃ l, ls[i]? = some l ∧ p.Linked c l := by
  obtain ⟨hi, rfl⟩ := List.getElem?_eq_some_iff.1 hc
  have hi' : i < ls.length := hls.length_eq ▸ hi
  exact ⟨ls[i], List.getElem?_eq_getElem hi', hls.get hi hi'⟩

theorem cable_of_link {i : Nat} {l : Link} (hl : ls[i]? = some l) : ∃ c, p.cables[i]? = some c ∧ p.Linked c l := by
  obtain ⟨hi, rfl⟩ := List.getElem?_eq_some_iff.1 hl
  have hi' : i < p.cables.length := hls.length_eq ▸ hi
  exact ⟨p.cables[i], List.getElem?_eq_getElem hi', hls.get hi' hi⟩

/-- The ends of the links are the jacks that the cables leave and enter. -/
theorem wired_iff_mem {a b : Jack} : p.Wired a b ↔ (a, b) ∈ ls.map fun l => (l.source, l.dest) := by
  constructor
  · intro hx
    obtain ⟨c, hc, ha, hb⟩ := hx
    obtain ⟨i, hi⟩ := List.mem_iff_getElem?.1 hc
    obtain ⟨l, hl, hlinked⟩ := link_of_cable hls hi
    cases Names.unique ha hlinked.leaves
    cases Names.unique hb hlinked.enters
    exact List.mem_map.2 ⟨l, List.mem_of_getElem? hl, rfl⟩
  · intro h
    obtain ⟨l, hl, he⟩ := List.mem_map.1 h
    cases he
    obtain ⟨i, hi⟩ := List.mem_iff_getElem?.1 hl
    obtain ⟨c, hc, hlinked⟩ := cable_of_link hls hi
    exact ⟨c, List.mem_of_getElem? hc, hlinked.leaves, hlinked.enters⟩

theorem cabled_iff_mem {j : Jack} : p.Cabled j ↔ j ∈ (netsOf ls).members := by
  have hend : p.Cabled j ↔ ∃ a b, p.Wired a b ∧ (j = a ∨ j = b) := by
    constructor
    · intro hx
      obtain ⟨c, hc, hj⟩ := hx
      obtain ⟨i, hi⟩ := List.mem_iff_getElem?.1 hc
      obtain ⟨l, -, hlinked⟩ := link_of_cable hls hi
      refine ⟨l.source, l.dest, ⟨c, hc, hlinked.leaves, hlinked.enters⟩, ?_⟩
      exact hj.imp (Names.unique · hlinked.leaves) (Names.unique · hlinked.enters)
    · intro hx
      obtain ⟨a, b, ⟨c, hc, ha, hb⟩, rfl | rfl⟩ := hx
      · exact ⟨c, hc, Or.inl ha⟩
      · exact ⟨c, hc, Or.inr hb⟩
  rw [hend, netsOf_eq_joinAll, Nets.mem_members_joinAll]
  constructor
  · intro hx
    obtain ⟨a, b, h, hj⟩ := hx
    exact Or.inr ⟨(a, b), (wired_iff_mem hls).1 h, hj⟩
  · intro hx
    rcases hx with h | ⟨⟨a, b⟩, h, hj⟩
    · cases h
    · exact ⟨a, b, (wired_iff_mem hls).2 h, hj⟩

/-- Routing joins jacks along the equivalence closure of the wiring. -/
theorem find_netsOf_eq_iff {a b : Jack} : (netsOf ls).find a = (netsOf ls).find b ↔ p.SameNet a b := by
  have hwired : p.Wired = fun a b => (a, b) ∈ ls.map fun l => (l.source, l.dest) := by
    funext a b
    exact propext (wired_iff_mem hls)
  rw [netsOf_eq_joinAll, Nets.find_joinAll_empty_eq_iff, SameNet, hwired]

/-- Jacks in one net have one rate. -/
theorem rate?_eq_of_sameNet {a b : Jack} (h : p.SameNet a b) : p.rate? a = p.rate? b := by
  have hrates : Equivalence fun a b => p.rate? a = p.rate? b := ⟨fun _ => rfl, Eq.symm, Eq.trans⟩
  refine hrates.eqvGen_iff.1 (Relation.EqvGen.mono (fun a b hab => ?_) a b h)
  obtain ⟨l, hl, he⟩ := List.mem_map.1 ((wired_iff_mem hls).1 hab)
  cases he
  obtain ⟨i, hi⟩ := List.mem_iff_getElem?.1 hl
  obtain ⟨c, -, hlinked⟩ := cable_of_link hls hi
  exact hlinked.sourceRate.trans hlinked.destRate.symm

/-! ## Earliest cables -/

/-- A cable touches a net iff its link enters it. -/
theorem mem_touching_net_iff {j : Jack} {i : Nat} :
    i ∈ p.touching (p.net j) ↔ ∃ l, ls[i]? = some l ∧ (netsOf ls).find l.dest = (netsOf ls).find j := by
  constructor
  · intro hx
    obtain ⟨c, hc, k, hk, hck⟩ := hx
    obtain ⟨l, hl, hlinked⟩ := link_of_cable hls hc
    have hsd : p.SameNet l.source l.dest := .rel _ _ ⟨c, List.mem_of_getElem? hc, hlinked.leaves, hlinked.enters⟩
    refine ⟨l, hl, (find_netsOf_eq_iff hls).2 (.symm _ _ (.trans _ k _ hk ?_))⟩
    rcases hck with hck | hck
    · cases Names.unique hck hlinked.leaves; exact hsd
    · cases Names.unique hck hlinked.enters; exact .refl _
  · intro hx
    obtain ⟨l, hl, hnet⟩ := hx
    obtain ⟨c, hc, hlinked⟩ := cable_of_link hls hl
    exact ⟨c, hc, l.dest, .symm _ _ ((find_netsOf_eq_iff hls).1 hnet), Or.inr hlinked.enters⟩

/-- The earliest cable of a cabled jack's net: its link is in the net and opens it. -/
theorem opens_earliest {j : Jack} (hj : p.Cabled j) :
    ∃ l, ls[p.earliest (p.net j)]? = some l ∧ (netsOf ls).find l.dest = (netsOf ls).find j ∧
      Opens (netsOf ls) ls l.rate (p.earliest (p.net j)) := by
  have hne : (p.touching (p.net j)).Nonempty := by
    obtain ⟨c, hc, hcj⟩ := hj
    obtain ⟨i, hi⟩ := List.mem_iff_getElem?.1 hc
    exact ⟨i, c, hi, j, mem_net_self j, hcj⟩
  obtain ⟨l, hl, hnet⟩ := (mem_touching_net_iff hls).1 (Nat.sInf_mem hne)
  refine ⟨l, hl, hnet, l, hl, rfl, fun h hlt m hm hmnet => ?_⟩
  have : p.earliest (p.net j) ≤ h := Nat.sInf_le ((mem_touching_net_iff hls).2 ⟨m, hm, hmnet.trans hnet⟩)
  omega

theorem rate_of_find_eq {i : Nat} {l : Link} {j : Jack} (hl : ls[i]? = some l)
    (hnet : (netsOf ls).find l.dest = (netsOf ls).find j) : p.rate? j = some l.rate := by
  obtain ⟨c, -, hlinked⟩ := cable_of_link hls hl
  rw [← rate?_eq_of_sameNet hls ((find_netsOf_eq_iff hls).1 hnet), hlinked.destRate]

/-- The links that open a net of a rate have the numbers of the earliest cables of such nets. -/
theorem opens_iff_earliest {r : Rate} {i : Nat} :
    Opens (netsOf ls) ls r i ↔ ∃ N ∈ p.netsOfRate r, p.earliest N = i := by
  constructor
  · intro hi
    obtain ⟨l, hl, rfl, -⟩ := id hi
    obtain ⟨c, hc, hlinked⟩ := cable_of_link hls hl
    have hcabled : p.Cabled l.dest := ⟨c, List.mem_of_getElem? hc, Or.inr hlinked.enters⟩
    obtain ⟨m, hm, hnet, hopen⟩ := opens_earliest hls hcabled
    exact ⟨p.net l.dest, ⟨l.dest, hcabled, hlinked.destRate, rfl⟩, hopen.eq_of_find_eq hi hm hl hnet⟩
  · intro hx
    obtain ⟨N, ⟨j, hj, hr, rfl⟩, rfl⟩ := hx
    obtain ⟨l, hl, hnet, hopen⟩ := opens_earliest hls hj
    have := rate_of_find_eq hls hl hnet
    rw [hr, Option.some.injEq] at this
    exact this ▸ hopen

/-- Nets have different earliest cables. -/
theorem earliest_injOn (r : Rate) : Set.InjOn p.earliest (p.netsOfRate r) := by
  rintro N ⟨j, hj, -, rfl⟩ M ⟨k, hk, -, rfl⟩ he
  obtain ⟨l, hl, hlj, -⟩ := opens_earliest hls hj
  obtain ⟨m, hm, hmk, -⟩ := opens_earliest hls hk
  rw [he] at hl
  cases hl.symm.trans hm
  exact SameNet.net_eq ((find_netsOf_eq_iff hls).1 (hlj.symm.trans hmk))

/-- The nets of a rate opened by the first links are those with an earlier cable. -/
theorem opened_eq_ncard (r : Rate) (k : Nat) :
    opened (netsOf ls) ls r k = {N | N ∈ p.netsOfRate r ∧ p.earliest N < k}.ncard := by
  have himage : p.earliest '' {N | N ∈ p.netsOfRate r ∧ p.earliest N < k} =
      (((Finset.range k).filter (Opens (netsOf ls) ls r) : Finset Nat) : Set Nat) := by
    ext i
    simp only [Set.mem_image, Set.mem_ofPred_eq, Finset.coe_filter, Finset.mem_range, opens_iff_earliest hls]
    constructor
    · intro hx
      obtain ⟨N, ⟨hN, hlt⟩, rfl⟩ := hx
      exact ⟨hlt, N, hN, rfl⟩
    · intro hx
      obtain ⟨hlt, N, hN, rfl⟩ := hx
      exact ⟨N, ⟨hN, hlt⟩, rfl⟩
  rw [opened, Nat.count_eq_card_filter_range, ← Set.ncard_coe_finset, ← himage, Set.InjOn.ncard_image]
  exact (earliest_injOn hls r).mono fun N hN => hN.1

theorem earliest_lt_length {r : Rate} {N : Set Jack} (hN : N ∈ p.netsOfRate r) : p.earliest N < ls.length := by
  obtain ⟨j, hj, -, rfl⟩ := hN
  obtain ⟨l, hl, -⟩ := opens_earliest hls hj
  exact (List.getElem?_eq_some_iff.1 hl).1

theorem finite_netsOfRate (r : Rate) : (p.netsOfRate r).Finite :=
  Set.Finite.of_finite_image ((Set.finite_lt_nat ls.length).subset (by
    rintro _ ⟨N, hN, rfl⟩; exact earliest_lt_length hls hN)) (earliest_injOn hls r)

theorem opened_length (r : Rate) : opened (netsOf ls) ls r ls.length = (p.netsOfRate r).ncard := by
  have hall : {N | N ∈ p.netsOfRate r ∧ p.earliest N < ls.length} = p.netsOfRate r := by
    ext N
    exact ⟨fun h => h.1, fun h => ⟨h, earliest_lt_length hls h⟩⟩
  rw [opened_eq_ncard hls, hall]

theorem exists_rate_of_cabled {j : Jack} (hj : p.Cabled j) : ∃ r, p.rate? j = some r := by
  obtain ⟨l, hl, hnet, -⟩ := opens_earliest hls hj
  exact ⟨l.rate, rate_of_find_eq hls hl hnet⟩

end

/-! ## Buses and counters -/

section

variable {b : Bench} {ls : List Link} (hls : List.Forall₂ b.patch.Linked b.patch.cables ls)

include hls

/-- A cabled jack that has a bus at all gets the one that was next when its net was opened. -/
theorem bus?_committed_eq_map_of_cabled {j : Jack} {r : Rate} (hj : b.patch.Cabled j)
    (hr : b.patch.rate? j = some r) : (b.committed ls).patch.bus? j =
      (b.patch.bus? j).map fun _ => openedBus (netsOf ls) ls b.counter r (b.patch.earliest (b.patch.net j)) := by
  obtain ⟨l, hl, hnet, hopen⟩ := opens_earliest hls hj
  have hrate := rate_of_find_eq hls hl hnet
  rw [hr, Option.some.injEq] at hrate
  have hlook : (number b.counter (netsOf ls) ls).buses.lookup ((netsOf ls).find j) =
      some (openedBus (netsOf ls) ls b.counter r (b.patch.earliest (b.patch.net j))) := by
    refine ((numbered_number (netsOf ls) ls b.counter).buses _ _).2
      ⟨_, (List.getElem?_eq_some_iff.1 hl).1, l, hl, hnet, hopen, ?_⟩
    rw [hrate]
  rw [bus?_committed, if_pos ((cabled_iff_mem hls).1 hj), hlook]
  rfl

theorem bus?_committed_of_cabled (hfit : b.patch.Fitted) {j : Jack} {r : Rate} (hj : b.patch.Cabled j)
    (hr : b.patch.rate? j = some r) : (b.committed ls).patch.bus? j =
      some (openedBus (netsOf ls) ls b.counter r (b.patch.earliest (b.patch.net j))) := by
  have hbus : ∃ old, b.patch.bus? j = some old := by
    rw [← Option.isSome_iff_exists, hfit.isSome_bus?_eq, hr]; rfl
  obtain ⟨old, hold⟩ := hbus
  rw [bus?_committed_eq_map_of_cabled hls hj hr, hold]
  rfl

/-- What a cabled jack gets lies between the counter before and the counter after. -/
theorem mem_Ico_of_bus?_committed {j : Jack} {r : Rate} {bus : Bus} (hj : b.patch.Cabled j)
    (hr : b.patch.rate? j = some r) (hbus : (b.committed ls).patch.bus? j = some bus) :
    b.counter.next r ≤ bus ∧ bus < (b.committed ls).counter.next r := by
  rw [bus?_committed_eq_map_of_cabled hls hj hr] at hbus
  obtain ⟨old, -, rfl⟩ := Option.map_eq_some_iff.1 hbus
  refine ⟨Nat.le_add_right _ _, ?_⟩
  have hopens := (opens_iff_earliest hls).2 ⟨_, ⟨j, hj, hr, rfl⟩, rfl⟩
  obtain ⟨l, hl, -⟩ := opens_earliest hls hj
  rw [next_committed]
  exact Nat.add_lt_add_left (opened_lt_of_opens hopens (List.getElem?_eq_some_iff.1 hl).1) _

theorem bus?_committed_of_not_cabled {j : Jack} (hj : ¬b.patch.Cabled j) :
    (b.committed ls).patch.bus? j = b.patch.bus? j := by
  rw [bus?_committed, if_neg fun h => hj ((cabled_iff_mem hls).2 h)]
  exact Option.map_id'

/-- Cabled jacks of one rate share a bus iff they are in one net. -/
theorem bus?_committed_eq_iff (hfit : b.patch.Fitted) {j k : Jack} {r : Rate} (hj : b.patch.Cabled j)
    (hk : b.patch.Cabled k) (hjr : b.patch.rate? j = some r) (hkr : b.patch.rate? k = some r) :
    (b.committed ls).patch.bus? j = (b.committed ls).patch.bus? k ↔ b.patch.SameNet j k := by
  rw [bus?_committed_of_cabled hls hfit hj hjr, bus?_committed_of_cabled hls hfit hk hkr, Option.some.injEq,
    openedBus, openedBus, Nat.add_left_cancel_iff]
  have hopens {i : Jack} (hi : b.patch.Cabled i) (hir : b.patch.rate? i = some r) :
      Opens (netsOf ls) ls r (b.patch.earliest (b.patch.net i)) :=
    (opens_iff_earliest hls).2 ⟨_, ⟨i, hi, hir, rfl⟩, rfl⟩
  constructor
  · intro he
    rcases Nat.lt_trichotomy (b.patch.earliest (b.patch.net j)) (b.patch.earliest (b.patch.net k)) with h | h | h
    · exact absurd he (Nat.ne_of_lt (opened_lt_of_opens (hopens hj hjr) h))
    · exact net_eq_iff.1 (earliest_injOn hls r ⟨j, hj, hjr, rfl⟩ ⟨k, hk, hkr, rfl⟩ h)
    · exact absurd he.symm (Nat.ne_of_lt (opened_lt_of_opens (hopens hk hkr) h))
  · intro h
    rw [h.net_eq]

/-- Every number handed out is the bus of a cabled jack. -/
theorem exists_cabled_of_lt_next (hfit : b.patch.Fitted) {r : Rate} {bus : Bus} (hle : b.counter.next r ≤ bus)
    (hlt : bus < (b.committed ls).counter.next r) :
    ∃ j, b.patch.Cabled j ∧ b.patch.rate? j = some r ∧ (b.committed ls).patch.bus? j = some bus := by
  rw [next_committed] at hlt
  have hlt' : bus - b.counter.next r < opened (netsOf ls) ls r ls.length := Nat.sub_lt_left_of_lt_add hle hlt
  obtain ⟨i, -, hopen, hcount⟩ := exists_opens_of_lt_opened hlt'
  obtain ⟨N, ⟨j, hj, hr, rfl⟩, rfl⟩ := (opens_iff_earliest hls).1 hopen
  refine ⟨j, hj, hr, ?_⟩
  rw [bus?_committed_of_cabled hls hfit hj hr, openedBus, hcount, Nat.add_sub_cancel' hle]

end

/-- What routing does to a patch and a counter, net by net: a cabled jack gets the next bus of
    its rate plus the number of nets with an earlier cable, the counter moves on by the nets of
    a rate, and all but the buses of cabled jacks stays as it was. -/
theorem connect_numbers_nets {c : BusCounter} {p : Patch} {routed : Routed} (hfit : p.Fitted)
    (h : p.connect c = .ok routed) :
    (∀ j r, p.Cabled j → p.rate? j = some r → routed.patch.bus? j =
      some (c.next r + {N | N ∈ p.netsOfRate r ∧ p.earliest N < p.earliest (p.net j)}.ncard)) ∧
    (∀ r, (p.netsOfRate r).Finite ∧ routed.counter.next r = c.next r + (p.netsOfRate r).ncard) ∧
    (∀ j, ¬p.Cabled j → routed.patch.bus? j = p.bus? j) ∧
    routed.patch.withoutBuses = p.withoutBuses ∧ routed.patch.Fitted ∧
    (∀ j k r, p.Cabled j → p.Cabled k → p.rate? j = some r → p.rate? k = some r →
      (routed.patch.bus? j = routed.patch.bus? k ↔ p.SameNet j k)) ∧
    ∀ r b, c.next r ≤ b → b < routed.counter.next r →
      ∃ j, p.Cabled j ∧ p.rate? j = some r ∧ routed.patch.bus? j = some b := by
  obtain ⟨ls, -, hls, hrouted⟩ := exists_linked_of_connect h
  rw [hrouted]
  refine ⟨fun j r hj hr => ?_, fun r => ⟨finite_netsOfRate hls r, ?_⟩, fun j hj => bus?_committed_of_not_cabled hls hj,
    withoutBuses_committed _ _, fitted_committed hfit ls,
    fun j k r hj hk hjr hkr => bus?_committed_eq_iff hls hfit hj hk hjr hkr,
    fun r b hle hlt => exists_cabled_of_lt_next hls hfit hle hlt⟩
  · rw [bus?_committed_of_cabled hls hfit hj hr, openedBus, opened_eq_ncard hls]
  · rw [next_committed, opened_length hls]

/-- A bridge between two modules, cabled before the cable that drives it, and a net apart. -/
def bridgeFirst : Patch :=
  let m (id : Nat) : PatchModule :=
    { typeId := 7, typeName := some "Mixer", id, area := .voice, inletRates := [.audio, .audio], outletRates := [.audio]
      inletBuses := [0, 0], outletBuses := [1] }
  { modules := [m 1, m 2, m 3]
    cables := [⟨.voice, .inToIn, .red, 2, 0, 3, 0⟩, ⟨.voice, .outToIn, .red, 3, 0, 1, 1⟩,
      ⟨.voice, .outToIn, .red, 1, 0, 2, 0⟩] }

theorem connect_numbers_nets_bridgeFirst :
    bridgeFirst.Fitted ∧ ∃ routed, bridgeFirst.connect {} = .ok routed ∧
      routed.patch.bus? ⟨0, .outlet, 0⟩ = some 2 ∧ (bridgeFirst.netsOfRate .audio).ncard = 2 := by
  have hfit : bridgeFirst.Fitted := by
    intro m hm kind
    revert m
    cases kind <;> decide
  refine ⟨hfit, _, rfl, rfl, ?_⟩
  have hnext := ((connect_numbers_nets (c := {}) hfit rfl).2.1 .audio).2
  exact (Nat.add_left_cancel (n := 2) (m := 2) hnext).symm

end Routing

end Patchbay
