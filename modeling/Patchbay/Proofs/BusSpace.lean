/-
  Patchbay.Proofs.BusSpace — the buses of a document lie in the spaces it declares.

  A counter that starts new has room for the reserved buses and for those it hands out, so a
  space reaches just past the last bus of its rate:
  - `lt_next_of_bus?`: a bus in use is one of its space.
  - `exists_cabled_inlet_of_lt_next`: every other bus of a space is that of a cabled inlet,
    since a cable that leaves a jack brings an inlet into its net.
  - `buses_lie_in_space`: the document.
-/

import Patchbay.Proofs.Compilation

namespace Patchbay

namespace Routing

open Patch

section

variable {b : Bench} {ls : List Link} (hls : List.Forall₂ b.patch.Linked b.patch.cables ls) (hp : b.patch.Placed)

include hls hp

/-- A bus in use is below the next one of its rate. -/
theorem lt_next_of_bus? {j : Jack} {bus : Bus} (hbus : (b.committed ls).patch.bus? j = some bus) :
    ∃ r, b.patch.rate? j = some r ∧ bus < (b.committed ls).counter.next r := by
  have hfit := hp.fitted
  have hsome : (b.patch.rate? j).isSome := by
    rw [← rate?_of_withoutBuses (withoutBuses_committed b ls), ← (fitted_committed hfit ls).isSome_bus?_eq, hbus]
    rfl
  obtain ⟨r, hr⟩ := Option.isSome_iff_exists.1 hsome
  refine ⟨r, hr, ?_⟩
  by_cases hj : b.patch.Cabled j
  · exact (mem_Ico_of_bus?_committed hls hj hr hbus).2
  · rw [next_committed]
    have hres : bus.isReserved := by
      by_contra hres
      exact hj ((cabled_iff_not_isReserved hls hp hbus).2 hres)
    calc bus < Bus.firstFree := of_decide_eq_true hres
      _ ≤ b.counter.next r := Nat.le_add_right _ _
      _ ≤ _ := Nat.le_add_right _ _

/-- Every number handed out is the bus of an inlet that a cable enters or leaves. -/
theorem exists_cabled_inlet_of_lt_next {r : Rate} {bus : Bus} (hle : b.counter.next r ≤ bus)
    (hlt : bus < (b.committed ls).counter.next r) :
    ∃ i, i.kind = .inlet ∧ b.patch.Cabled i ∧ b.patch.rate? i = some r ∧ (b.committed ls).patch.bus? i = some bus := by
  obtain ⟨j, hj, hr, hbus⟩ := exists_cabled_of_lt_next hls hp.fitted hle hlt
  obtain ⟨c, hc, hend⟩ := id hj
  rcases hend with hleaves | henters
  · -- The jack may be an outlet; the inlet that its cable enters is on the same bus.
    obtain ⟨k, hk⟩ := List.mem_iff_getElem?.1 hc
    obtain ⟨l, -, hlinked⟩ := link_of_cable hls hk
    have hnet : b.patch.SameNet j l.dest := .rel _ _ ⟨c, hc, hleaves, hlinked.enters⟩
    have hcabled : b.patch.Cabled l.dest := ⟨c, hc, Or.inr hlinked.enters⟩
    have hrate : b.patch.rate? l.dest = some r := (rate?_eq_of_sameNet hls hnet).symm.trans hr
    refine ⟨l.dest, hlinked.enters.kind, hcabled, hrate, ?_⟩
    rw [← (bus?_committed_eq_iff hls hp.fitted hj hcabled hr hrate).2 hnet]
    exact hbus
  · exact ⟨j, henters.kind, hj, hr, hbus⟩

end

end Routing

/-- A document declares spaces that hold the reserved buses and every bus its calls pass, and clears
    all of them. No inlet is on bus 1 and no outlet on bus 0, and each further bus is that of a cabled
    inlet. -/
theorem buses_lie_in_space {catalog : Catalog} {bytes : List UInt8} {p : Patch} {source : Template.Source}
    {o : DocumentOptions} {c : Compiled} (hp : (Patch.ofBytes catalog bytes).value = .ok p)
    (hc : (p.compile catalog source o).value = .ok c) :
    ∃ space : Rate → Nat,
      c.text = Document.assembled o space (c.types.map (Document.definition c.templates))
        (c.patch.modules.map fun m =>
          Document.callOf m.typeId (c.patch.paramValues m.area m.id ++ m.inletBuses ++ m.outletBuses)) ∧
      (∀ r, 2 ≤ space r) ∧
      (∀ j bus, c.patch.bus? j = some bus → (∃ r, c.patch.rate? j = some r ∧ bus < space r) ∧
        (j.kind = .inlet → bus ≠ 1) ∧ (j.kind = .outlet → bus ≠ 0)) ∧
      ∀ r bus, 2 ≤ bus → bus < space r → ∃ i, i.kind = .inlet ∧ p.Cabled i ∧ c.patch.rate? i = some r ∧
        c.patch.bus? i = some bus := by
  obtain ⟨h⟩ := Patch.exists_compilation hc
  have hplaced := Patch.placed_ofBytes hp
  obtain ⟨ls, -, hls, hrouted⟩ := Routing.exists_linked_of_connect h.connect_eq
  have hrate (j : Jack) : c.patch.rate? j = p.rate? j := Patch.rate?_of_withoutBuses h.withoutBuses_eq j
  have hpatch : c.patch = (Routing.Bench.committed { counter := {}, patch := p } ls).patch := by
    rw [h.patch_eq, hrouted]
  have hspace (r : Rate) : h.routed.counter.spaceSize r =
      (Routing.Bench.committed { counter := {}, patch := p } ls).counter.next r := by
    rw [BusCounter.spaceSize_eq_next, hrouted]
  have hfirst (r : Rate) : BusCounter.next {} r = 2 := by cases r <;> rfl
  refine ⟨h.routed.counter.spaceSize, ?_, fun r => ?_, fun j bus hbus => ?_, fun r bus hle hlt => ?_⟩
  · rw [h.text_eq, Document.render_eq_assembled]
  · rw [hspace, Routing.next_committed, hfirst]
    exact Nat.le_add_right 2 _
  · rw [hpatch] at hbus
    obtain ⟨r, hr, hlt⟩ := Routing.lt_next_of_bus? hls hplaced hbus
    have hidle (hres : bus.isReserved) := Routing.eq_idleBus_of_isReserved hls hplaced hbus hres
    refine ⟨⟨r, (hrate j).trans hr, by rw [hspace]; exact hlt⟩, fun hkind heq => ?_, fun hkind heq => ?_⟩
    · subst heq
      rw [hkind] at hidle
      cases hidle rfl
    · subst heq
      rw [hkind] at hidle
      cases hidle rfl
  · rw [hspace] at hlt
    obtain ⟨i, hkind, hcabled, hr, hbus⟩ :=
      Routing.exists_cabled_inlet_of_lt_next hls hplaced ((hfirst r).trans_le hle) hlt
    exact ⟨i, hkind, hcabled, (hrate i).trans hr, by rw [hpatch]; exact hbus⟩

open Routing in
theorem buses_lie_in_space_bridgedMixers :
    (Patch.ofBytes mixers bridgedMixersFile).value = .ok bridgedMixers ∧
    ∃ c, (bridgedMixers.compile mixers (.texts []) {}).value = .ok c ∧ c.patch.bus? ⟨0, .outlet, 0⟩ = some 2 ∧
      ∃ space : Rate → Nat, (∃ definitions calls, c.text = Document.assembled {} space definitions calls) ∧
        ∃ r, c.patch.rate? ⟨0, .outlet, 0⟩ = some r ∧ 2 < space r := by
  have hbytes : (Patch.ofBytes mixers bridgedMixersFile).value = .ok bridgedMixers := by decide +kernel
  have hsome : ((bridgedMixers.compile mixers (.texts []) {}).value.toOption.bind fun c =>
      c.patch.bus? ⟨0, .outlet, 0⟩) = some 2 := by decide +kernel
  obtain ⟨c, hc, hbus⟩ := Option.bind_eq_some_iff.1 hsome
  have hc := eq_ok_of_toOption_eq_some hc
  obtain ⟨space, htext, -, hbuses, -⟩ := buses_lie_in_space hbytes hc
  exact ⟨hbytes, c, hc, hbus, space, ⟨_, _, htext⟩, (hbuses _ _ hbus).1⟩

end Patchbay
