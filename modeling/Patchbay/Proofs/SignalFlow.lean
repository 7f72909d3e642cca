/-
  Patchbay.Proofs.SignalFlow — the buses of a routed patch carry its signals.

  Nets do not say which way a cable runs, signals do. Both agree because a routed inlet is
  entered by one cable at most and an outlet by none: going back from a jack there is one
  way, so whatever shares a net with an outlet is reached from it.
  - `Sound.sameNet_outlet_iff`: the jacks in an outlet's net are those its signal reaches.
  - `placed_ofBytes`, `Placed.bus?_eq`: a patch read from bytes has every jack on the reserved bus
    of its kind; `cabled_iff_not_isReserved`: routing takes just the cabled jacks off it.
  - `exists_shared_iff_flows`, `eq_of_shared_outlets`: an outlet and an inlet share a bus iff the
    signal of the one reaches the other, and no two outlets of a rate write to one bus;
    `share_bus_iff_flows` says both of patches read from bytes.
-/

import Patchbay.Container.Builder
import Patchbay.Container.Decoding
import Patchbay.Proofs.NetBuses

namespace Patchbay

/-! ## Going back -/

/-- Where each point has one predecessor at most and `o` has none, only what `o` reaches is
    joined to it. -/
theorem reflTransGen_of_eqvGen {α : Type} {R : α → α → Prop} (huniq : ∀ a b c, R a c → R b c → a = b) {o : α}
    (ho : ∀ a, ¬R a o) {x : α} (h : Relation.EqvGen R o x) : Relation.ReflTransGen R o x := by
  have hstep (a b : α) (hab : R a b) : Relation.ReflTransGen R o a ↔ Relation.ReflTransGen R o b := by
    refine ⟨fun ha => ha.tail hab, fun hb => ?_⟩
    cases hb with
    | refl => exact absurd hab (ho a)
    | tail hc hcb => exact huniq _ _ _ hcb hab ▸ hc
  have hequiv : Equivalence fun a b => Relation.ReflTransGen R o a ↔ Relation.ReflTransGen R o b :=
    ⟨fun _ => Iff.rfl, Iff.symm, Iff.trans⟩
  exact (hequiv.eqvGen_iff.1 (Relation.EqvGen.mono hstep o x h)).1 .refl

namespace Patch

variable {p : Patch}

/-- Two sound cables that enter one inlet are one cable. -/
theorem Sound.wired_unique (hs : p.Sound) {a b j : Jack} (ha : p.Wired a j) (hb : p.Wired b j) : a = b := by
  obtain ⟨c, hc, hca, hcj⟩ := ha
  obtain ⟨d, hd, hdb, hdj⟩ := hb
  obtain ⟨i, hi⟩ := List.mem_iff_getElem?.1 hc
  obtain ⟨k, hk⟩ := List.mem_iff_getElem?.1 hd
  rcases Nat.lt_trichotomy i k with h | rfl | h
  · exact absurd hcj (hs k d hk .inletFree i h c hi j hdj)
  · cases hi.symm.trans hk
    exact Names.unique hca hdb
  · exact absurd hdj (hs i c hi .inletFree k h d hk j hcj)

/-! ## Signals -/

theorem Flows.kind {o i : Jack} (h : p.Flows o i) : i.kind = .inlet := by
  cases h with
  | first c _ _ _ hi => exact hi.kind
  | later c _ _ _ _ hi => exact hi.kind

theorem Flows.cabled {o i : Jack} (h : p.Flows o i) : p.Cabled o ∧ p.Cabled i := by
  induction h with
  | first c hc _ ho hi => exact ⟨⟨c, hc, Or.inl ho⟩, c, hc, Or.inr hi⟩
  | later c _ hc _ _ hk ih => exact ⟨ih.1, c, hc, Or.inr hk⟩

theorem Flows.sameNet {o i : Jack} (h : p.Flows o i) : p.SameNet o i := by
  induction h with
  | first c hc _ ho hi => exact .rel _ _ ⟨c, hc, ho, hi⟩
  | later c _ hc _ hi hk ih => exact .trans _ _ _ ih (.rel _ _ ⟨c, hc, hi, hk⟩)

/-- Cables carry an outlet's signal wherever they lead. -/
theorem eq_or_flows {o j : Jack} (ho : o.kind = .outlet) (h : Relation.ReflTransGen p.Wired o j) :
    j = o ∨ p.Flows o j := by
  induction h with
  | refl => exact Or.inl rfl
  | @tail i k _ hik ih =>
    obtain ⟨c, hc, hi, hk⟩ := hik
    have hsource := hi.kind
    rcases ih with rfl | hflow
    · have hkind : c.kind = .outToIn := by
        cases hck : c.kind <;> simp_all [CableKind.source]
      exact Or.inr (.first c hc hkind hi hk)
    · have hkind : c.kind = .inToIn := by
        have := hflow.kind
        cases hck : c.kind <;> simp_all [CableKind.source]
      exact Or.inr (.later c hflow hc hkind hi hk)

/-- The jacks in an outlet's net are those its signal reaches. -/
theorem Sound.sameNet_outlet_iff (hs : p.Sound) {o j : Jack} (ho : o.kind = .outlet) :
    p.SameNet o j ↔ j = o ∨ p.Flows o j := by
  constructor
  · intro h
    have hno (a : Jack) : ¬p.Wired a o := by
      intro hx
      obtain ⟨c, -, -, hao⟩ := hx
      cases ho.symm.trans hao.kind
    have huniq (a b k : Jack) (ha : p.Wired a k) (hb : p.Wired b k) : a = b := hs.wired_unique ha hb
    exact eq_or_flows ho (reflTransGen_of_eqvGen huniq hno h)
  · intro hx
    rcases hx with rfl | h
    · exact .refl _
    · exact h.sameNet

end Patch

/-! ## Before routing -/

def JackKind.idleBus : JackKind → Bus
  | .inlet => Bus.silent
  | .outlet => Bus.discard

theorem JackKind.idleBus_isReserved (k : JackKind) : k.idleBus.isReserved := by cases k <;> rfl

namespace PatchModule

theorem buses_place (catalog : Catalog) (area : Area) (typeId id : Nat) (kind : JackKind) :
    (place catalog area typeId id).buses kind =
      ((place catalog area typeId id).rates kind).map fun _ => kind.idleBus := by
  unfold place
  cases catalog.lookup typeId <;> cases kind <;> rfl

end PatchModule

namespace Patch

def Placed (p : Patch) : Prop := ∀ m ∈ p.modules, ∃ catalog area typeId id, m = .place catalog area typeId id

theorem Placed.fitted {p : Patch} (h : p.Placed) : p.Fitted := by
  intro m hm kind
  obtain ⟨catalog, area, typeId, id, rfl⟩ := h m hm
  rw [PatchModule.buses_place, List.length_map]

/-- Every jack of a placed module is on the reserved bus of its kind. -/
theorem Placed.bus?_eq {p : Patch} (h : p.Placed) (j : Jack) : p.bus? j = (p.rate? j).map fun _ => j.kind.idleBus := by
  unfold bus? rate?
  cases hm : p.modules[j.position]? with
  | none => rfl
  | some m =>
    obtain ⟨catalog, area, typeId, id, rfl⟩ := h m (List.mem_of_getElem? hm)
    simp only [Option.bind_some, PatchModule.buses_place, List.getElem?_map]

theorem exists_records_of_ofBytes {catalog : Catalog} {bytes : List UInt8} {p : Patch}
    (h : (Patch.ofBytes catalog bytes).value = .ok p) : ∃ records, p = ofRecords catalog records := by
  unfold Patch.ofBytes at h
  split at h
  · cases h
  · dsimp only at h
    split at h
    · cases h
    · cases h
      exact ⟨_, rfl⟩

/-- The modules of a patch read from bytes are as that catalog places them. -/
theorem eq_place_of_mem_ofBytes {catalog : Catalog} {bytes : List UInt8} {p : Patch}
    (h : (Patch.ofBytes catalog bytes).value = .ok p) {m : PatchModule} (hm : m ∈ p.modules) :
    ∃ area typeId id, m = .place catalog area typeId id := by
  obtain ⟨records, rfl⟩ := exists_records_of_ofBytes h
  obtain ⟨r, -, hr⟩ := List.mem_filterMap.1 hm
  cases r with
  | placed area typeId id span => exact ⟨area, typeId, id, (Option.some.inj hr).symm⟩
  | _ => cases hr

theorem placed_ofBytes {catalog : Catalog} {bytes : List UInt8} {p : Patch}
    (h : (Patch.ofBytes catalog bytes).value = .ok p) : p.Placed :=
  fun _ hm => ⟨catalog, eq_place_of_mem_ofBytes h hm⟩

end Patch

/-! ## After routing -/

namespace Routing

open Patch

section

variable {b : Bench} {ls : List Link} (hls : List.Forall₂ b.patch.Linked b.patch.cables ls) (hp : b.patch.Placed)

include hls hp

/-- Routing takes cabled jacks, and no others, off the reserved buses. -/
theorem cabled_iff_not_isReserved {j : Jack} {bus : Bus} (hbus : (b.committed ls).patch.bus? j = some bus) :
    b.patch.Cabled j ↔ ¬Bus.isReserved bus := by
  constructor
  · intro hj
    obtain ⟨r, hr⟩ := exists_rate_of_cabled hls hj
    rw [bus?_committed_of_cabled hls hp.fitted hj hr, Option.some.injEq, openedBus] at hbus
    subst hbus
    exact b.counter.not_isReserved_next_add r _
  · intro hres
    by_cases hj : b.patch.Cabled j
    · exact hj
    · rw [bus?_committed_of_not_cabled hls hj, hp.bus?_eq, Option.map_eq_some_iff] at hbus
      obtain ⟨r, -, rfl⟩ := hbus
      exact absurd j.kind.idleBus_isReserved hres

/-- A jack on a reserved bus is on that of its kind. -/
theorem eq_idleBus_of_isReserved {j : Jack} {bus : Bus} (hbus : (b.committed ls).patch.bus? j = some bus)
    (hres : bus.isReserved) : bus = j.kind.idleBus := by
  have hnot : ¬b.patch.Cabled j := fun h => (cabled_iff_not_isReserved hls hp hbus).1 h hres
  rw [bus?_committed_of_not_cabled hls hnot, hp.bus?_eq, Option.map_eq_some_iff] at hbus
  obtain ⟨r, -, h⟩ := hbus
  exact h.symm

/-- Jacks on one bus are in one net, unless the bus is reserved. -/
theorem sameNet_of_bus?_eq {j k : Jack} {r : Rate} {bus : Bus} (hjr : b.patch.rate? j = some r)
    (hkr : b.patch.rate? k = some r) (hj : (b.committed ls).patch.bus? j = some bus)
    (hk : (b.committed ls).patch.bus? k = some bus) (hres : ¬Bus.isReserved bus) : b.patch.SameNet j k := by
  have hjc := (cabled_iff_not_isReserved hls hp hj).2 hres
  have hkc := (cabled_iff_not_isReserved hls hp hk).2 hres
  exact (bus?_committed_eq_iff hls hp.fitted hjc hkc hjr hkr).1 (hj.trans hk.symm)

/-- An outlet and an inlet never share a reserved bus. -/
theorem not_isReserved_of_shared {o i : Jack} {bus : Bus} (ho : o.kind = .outlet) (hi : i.kind = .inlet)
    (hob : (b.committed ls).patch.bus? o = some bus) (hib : (b.committed ls).patch.bus? i = some bus) :
    ¬Bus.isReserved bus := by
  intro hres
  have := (eq_idleBus_of_isReserved hls hp hob hres).symm.trans (eq_idleBus_of_isReserved hls hp hib hres)
  rw [ho, hi] at this
  cases this

variable (hs : b.patch.Sound)

include hs

theorem exists_shared_iff_flows {o i : Jack} {r : Rate} (ho : o.kind = .outlet) (hi : i.kind = .inlet)
    (hor : b.patch.rate? o = some r) (hir : b.patch.rate? i = some r) :
    (∃ bus, (b.committed ls).patch.bus? o = some bus ∧ (b.committed ls).patch.bus? i = some bus) ↔
      b.patch.Flows o i := by
  constructor
  · intro hx
    obtain ⟨bus, hob, hib⟩ := hx
    have hres := not_isReserved_of_shared hls hp ho hi hob hib
    rcases (hs.sameNet_outlet_iff ho).1 (sameNet_of_bus?_eq hls hp hor hir hob hib hres) with rfl | hflow
    · cases ho.symm.trans hi
    · exact hflow
  · intro hflow
    obtain ⟨hoc, hic⟩ := hflow.cabled
    have hbus := bus?_committed_of_cabled hls hp.fitted hoc hor
    have hshare := (bus?_committed_eq_iff hls hp.fitted hoc hic hor hir).2 hflow.sameNet
    exact ⟨_, hbus, hshare ▸ hbus⟩

/-- No two outlets write to one bus that is not reserved. -/
theorem eq_of_shared_outlets {o o' : Jack} {r : Rate} {bus : Bus} (ho : o.kind = .outlet) (ho' : o'.kind = .outlet)
    (hor : b.patch.rate? o = some r) (hor' : b.patch.rate? o' = some r) (hob : (b.committed ls).patch.bus? o = some bus)
    (hob' : (b.committed ls).patch.bus? o' = some bus) (hres : ¬Bus.isReserved bus) : o = o' := by
  rcases (hs.sameNet_outlet_iff ho).1 (sameNet_of_bus?_eq hls hp hor hor' hob hob' hres) with heq | hflow
  · exact heq.symm
  · cases ho'.symm.trans hflow.kind

end

/-- Routing a patch read from bytes keeps its signal flow, and gives each bus of a rate one
    writer at most. -/
theorem share_bus_iff_flows {catalog : Catalog} {bytes : List UInt8} {p : Patch} {routed : Routed}
    (hbytes : (Patch.ofBytes catalog bytes).value = .ok p) (h : p.connect {} = .ok routed) :
    (∀ o i r, o.kind = .outlet → i.kind = .inlet → p.rate? o = some r → p.rate? i = some r →
      ((∃ b, routed.patch.bus? o = some b ∧ routed.patch.bus? i = some b) ↔ p.Flows o i)) ∧
    ∀ o o' r b, o.kind = .outlet → o'.kind = .outlet → p.rate? o = some r → p.rate? o' = some r →
      routed.patch.bus? o = some b → routed.patch.bus? o' = some b → ¬Bus.isReserved b → o = o' := by
  have hp := placed_ofBytes hbytes
  obtain ⟨ls, hs, hls, hrouted⟩ := exists_linked_of_connect h
  rw [hrouted]
  constructor
  · intro o i r ho hi hor hir
    exact exists_shared_iff_flows hls hp hs ho hi hor hir
  · intro o o' r bus ho ho' hor hor' hob hob' hres
    exact eq_of_shared_outlets hls hp hs ho ho' hor hor' hob hob' hres

def mixers : Catalog := ⟨[⟨7, "Mixer", [.audio], [.audio], 0⟩], by decide⟩

/-- Three mixers; the cable between the inlets of the last two stands before the one that drives it. -/
def bridgedMixers : Patch where
  modules := [.place mixers .voice 7 1, .place mixers .voice 7 2, .place mixers .voice 7 3]
  cables := [⟨.voice, .inToIn, .red, 2, 0, 3, 0⟩, ⟨.voice, .outToIn, .red, 1, 0, 2, 0⟩]

def bridgedMixersFile : List UInt8 :=
  Container.build [.modules .voice [(7, 1), (7, 2), (7, 3)],
    .cables .voice [⟨.inToIn, .red, 2, 0, 3, 0⟩, ⟨.outToIn, .red, 1, 0, 2, 0⟩]]

theorem share_bus_iff_flows_bridgedMixers :
    (Patch.ofBytes mixers bridgedMixersFile).value = .ok bridgedMixers ∧
    (∃ routed, bridgedMixers.connect {} = .ok routed) ∧
    bridgedMixers.Flows ⟨0, .outlet, 0⟩ ⟨2, .inlet, 0⟩ ∧ ¬bridgedMixers.Flows ⟨1, .outlet, 0⟩ ⟨2, .inlet, 0⟩ := by
  have hbytes : (Patch.ofBytes mixers bridgedMixersFile).value = .ok bridgedMixers := by decide +kernel
  obtain ⟨routed, hrouted, h0, h1, h2⟩ : ∃ routed, bridgedMixers.connect {} = .ok routed ∧
      routed.patch.bus? ⟨0, .outlet, 0⟩ = some 2 ∧ routed.patch.bus? ⟨1, .outlet, 0⟩ = some 1 ∧
      routed.patch.bus? ⟨2, .inlet, 0⟩ = some 2 := ⟨_, rfl, rfl, rfl, rfl⟩
  have hflows := (share_bus_iff_flows hbytes hrouted).1
  refine ⟨hbytes, ⟨routed, hrouted⟩, (hflows _ _ .audio rfl rfl rfl rfl).1 ⟨2, h0, h2⟩, fun h => ?_⟩
  obtain ⟨b, hb1, hb2⟩ := (hflows _ _ .audio rfl rfl rfl rfl).2 h
  cases h1.symm.trans hb1
  cases h2.symm.trans hb2

end Routing

end Patchbay
