/-
  Patchbay.Proofs.ListOrder — what the order of modules and of cables does to routing.

  The order of the modules shows in the order of the types that are listed, and nowhere else.
  The order of the cables shows in which fault is found first, and in the numbers: whether there
  is a fault hangs on the cables as they are two by two, nets on the cables as a set, and a bus
  stands for a net, so two orders differ by an exchange of buses.
  - `route_relocated`, `perm_usedTypes`: modules in another order.
  - `sound_iff_pairwise`, `sound_permuted_iff`: cables in another order are as sound.
  - `image_bus?_committed`, `exists_bijOn_of_eq_iff_eq`: the exchange.
  - `route_permuted`: both orders.
-/

import Patchbay.Proofs.Relocation

namespace Patchbay

namespace Patch

/-! ## Types of modules in another order -/

def NamesAgree (p : Patch) : Prop := ∀ m ∈ p.modules, ∀ n ∈ p.modules, m.typeId = n.typeId → m.typeName = n.typeName

variable {p : Patch}

/-- Where names agree, the types that are listed are those of the modules, whichever comes first. -/
theorem NamesAgree.mem_usedTypes_iff (h : p.NamesAgree) {u : UsedType} :
    u ∈ p.usedTypes ↔ ∃ m ∈ p.modules, u = ⟨m.typeId, m.typeName⟩ := by
  refine ⟨exists_module_of_mem_usedTypes, fun hx => ?_⟩
  obtain ⟨m, hm, rfl⟩ := hx
  obtain ⟨v, hv, hvm⟩ := exists_usedType_of_mem hm
  obtain ⟨n, hn, rfl⟩ := exists_module_of_mem_usedTypes hv
  have hname : n.typeName = m.typeName := h n hn m hm hvm
  simp only at hvm
  rwa [hvm, hname] at hv

variable {ms : List PatchModule} (h : ms.Perm p.modules)

include h

theorem NamesAgree.of_perm (hnames : p.NamesAgree) : NamesAgree { p with modules := ms } :=
  fun m hm n hn hmn => hnames m (h.mem_iff.1 hm) n (h.mem_iff.1 hn) hmn

theorem perm_typeIds :
    ((usedTypes { p with modules := ms }).map UsedType.typeId).Perm (p.usedTypes.map UsedType.typeId) := by
  refine (List.perm_ext_iff_of_nodup (nodup_usedTypes _) (nodup_usedTypes _)).2 fun k => ?_
  rw [(firstSeen_usedTypes _).1, (firstSeen_usedTypes p).1]
  exact (h.map PatchModule.typeId).mem_iff

theorem perm_usedTypes (hnames : p.NamesAgree) : (usedTypes { p with modules := ms }).Perm p.usedTypes := by
  refine (List.perm_ext_iff_of_nodup (nodup_usedTypes _).of_map (nodup_usedTypes _).of_map).2 fun u => ?_
  rw [(hnames.of_perm h).mem_usedTypes_iff, hnames.mem_usedTypes_iff]
  simp only [h.mem_iff]

end Patch

namespace Routing

open Patch

/-! ## Modules in another order -/

/-- Routing on two benches comes out alike, address by address: it fails with one error or succeeds
    on both, the same modules hold the same buses, and the counters are left alike. Each lists the
    types of its own modules, as they come first. -/
structure SameByAddress (b b' : Bench) : Prop where
  error_iff : ∀ e, b'.route.1 = .error e ↔ b.route.1 = .error e
  types : ∀ types, b.route.1 = .ok types → ∃ types', b'.route.1 = .ok types' ∧
    FirstSeen (b.patch.modules.map PatchModule.typeId) (types.map UsedType.typeId) ∧
    FirstSeen (b'.patch.modules.map PatchModule.typeId) (types'.map UsedType.typeId) ∧
    (types'.map UsedType.typeId).Perm (types.map UsedType.typeId) ∧ (b.patch.NamesAgree → types'.Perm types)
  findModule?_eq : ∀ id area, b'.route.2.patch.findModule? id area = b.route.2.patch.findModule? id area
  counter_eq : b'.route.2.counter = b.route.2.counter

/-- What becomes of a patch whose modules stand elsewhere is the same, elsewhere. -/
theorem route_relocated {σ : Nat → Nat} {p q : Patch} (h : p.Relocated σ q) (c : BusCounter) :
    (∀ e, (Bench.route { counter := c, patch := q }).1 = .error e ↔
      (Bench.route { counter := c, patch := p }).1 = .error e) ∧
    (Bench.route { counter := c, patch := p }).2.patch.Relocated σ (Bench.route { counter := c, patch := q }).2.patch ∧
    (Bench.route { counter := c, patch := q }).2.counter = (Bench.route { counter := c, patch := p }).2.counter := by
  have hlinks := links_cables_relocated h
  rw [route_eq, route_eq]
  simp only [hlinks]
  cases links p [] 0 p.cables with
  | error e => exact ⟨fun f => Iff.rfl, h, rfl⟩
  | ok ls =>
    refine ⟨fun e => ⟨fun he => ?_, fun he => ?_⟩, relocated_committed h c ls, counter_committed_relocated h c ls⟩
    · cases he
    · cases he

theorem sameByAddress_of_perm (c : BusCounter) {p : Patch} (hnodup : (p.modules.map PatchModule.address).Nodup)
    {ms : List PatchModule} (h : ms.Perm p.modules) :
    SameByAddress { counter := c, patch := p } { counter := c, patch := { p with modules := ms } } := by
  obtain ⟨σ, hσ⟩ := exists_relocated hnodup h
  obtain ⟨herror, hpatch, hcounter⟩ := route_relocated hσ c
  refine ⟨herror, fun types htypes => ?_, hpatch.findModule?_eq, hcounter⟩
  have hown : types = p.usedTypes := types_of_route htypes
  subst hown
  cases hroute : (Bench.route { counter := c, patch := { p with modules := ms } }).1 with
  | error e =>
    rw [(herror e).1 hroute] at htypes
    cases htypes
  | ok types' =>
    have hown' : types' = usedTypes { p with modules := ms } := types_of_route hroute
    subst hown'
    exact ⟨_, rfl, firstSeen_usedTypes p, firstSeen_usedTypes _, perm_typeIds h, perm_usedTypes h⟩

end Routing

/-! ## Cables in another order -/

namespace Patch

variable {p : Patch}

/-- Only whether an inlet is free hangs on the other cables, and on the number of a cable. -/
theorem passes_iff_of_ne {k : CableCheck} (hk : k ≠ .inletFree) (cs : List Cable) (i : Nat) (c : Cable) :
    Passes { p with cables := cs } i c k ↔ p.Passes 0 c k := by
  cases k with
  | inletFree => exact absurd rfl hk
  | _ => exact Iff.rfl

/-- Cables are sound iff each passes the checks that are made on it alone, and no two of them
    enter one inlet. -/
theorem sound_iff_pairwise : p.Sound ↔ (∀ c ∈ p.cables, ∀ k, k ≠ .inletFree → p.Passes 0 c k) ∧
    p.cables.Pairwise fun d c => ∀ j, p.Enters d j → ¬p.Enters c j := by
  constructor
  · intro hs
    constructor
    · intro c hc k hk
      obtain ⟨i, hi⟩ := List.mem_iff_getElem?.1 hc
      exact (passes_iff_of_ne hk p.cables i c).1 (hs i c hi k)
    · rw [List.pairwise_iff_getElem]
      intro h i hh hi hlt j hd hc
      exact hs i _ (List.getElem?_eq_getElem hi) .inletFree h hlt _ (List.getElem?_eq_getElem hh) j hc hd
  · intro hx i c hc k
    obtain ⟨halone, hpairs⟩ := hx
    by_cases hk : k = .inletFree
    · subst hk
      -- The pair is stated with the earlier cable first.
      intro h hlt d hd j hcj hdj
      obtain ⟨hi, rfl⟩ := List.getElem?_eq_some_iff.1 hc
      obtain ⟨hh, rfl⟩ := List.getElem?_eq_some_iff.1 hd
      exact List.pairwise_iff_getElem.1 hpairs h i hh hi hlt j hdj hcj
    · exact (passes_iff_of_ne hk p.cables i c).2 (halone c (List.mem_of_getElem? hc) k hk)

section

variable {cs : List Cable} (h : cs.Perm p.cables)

include h

theorem sound_permuted_iff : Sound { p with cables := cs } ↔ p.Sound := by
  rw [sound_iff_pairwise, sound_iff_pairwise]
  refine and_congr ?_ (h.pairwise_iff fun hdc j hc hd => hdc j hd hc)
  constructor
  · intro hs c hc k hk
    exact (passes_iff_of_ne hk cs 0 c).1 (hs c (h.mem_iff.2 hc) k hk)
  · intro hs c hc k hk
    exact (passes_iff_of_ne hk cs 0 c).2 (hs c (h.mem_iff.1 hc) k hk)

theorem cabled_permuted_iff {j : Jack} : Cabled { p with cables := cs } j ↔ p.Cabled j := by
  constructor
  · intro hx
    obtain ⟨c, hc, hj⟩ := hx
    exact ⟨c, h.mem_iff.1 hc, hj⟩
  · intro hx
    obtain ⟨c, hc, hj⟩ := hx
    exact ⟨c, h.mem_iff.2 hc, hj⟩

theorem sameNet_permuted_iff {j k : Jack} : SameNet { p with cables := cs } j k ↔ p.SameNet j k := by
  have hwired : Wired { p with cables := cs } = p.Wired := by
    funext a b
    refine propext ⟨fun hx => ?_, fun hx => ?_⟩
    · obtain ⟨c, hc, hends⟩ := hx
      exact ⟨c, h.mem_iff.1 hc, hends⟩
    · obtain ⟨c, hc, hends⟩ := hx
      exact ⟨c, h.mem_iff.2 hc, hends⟩
  rw [SameNet, SameNet, hwired]

theorem netsOfRate_permuted (r : Rate) : netsOfRate { p with cables := cs } r = p.netsOfRate r := by
  have hnet : net { p with cables := cs } = p.net := by
    funext j
    ext k
    exact sameNet_permuted_iff h
  ext N
  simp only [netsOfRate, Set.mem_ofPred_eq, cabled_permuted_iff h, hnet]
  rfl

end

end Patch

/-- Two labelings of one set that tell the same elements apart differ by a bijection of labels. -/
theorem exists_bijOn_of_eq_iff_eq {α : Type} {S : Set α} {A B : Set Nat} {g h : α → Option Nat}
    (hg : g '' S = some '' A) (hh : h '' S = some '' B) (hsame : ∀ a ∈ S, ∀ b ∈ S, g a = g b ↔ h a = h b) :
    ∃ f : Nat → Nat, Set.BijOn f A B ∧ ∀ a ∈ S, ∀ n, g a = some n → h a = some (f n) := by
  have hold : ∀ n ∈ A, ∃ a ∈ S, g a = some n := fun n hn => hg.ge ⟨n, hn, rfl⟩
  have hnew : ∀ m ∈ B, ∃ a ∈ S, h a = some m := fun m hm => hh.ge ⟨m, hm, rfl⟩
  have hlabel : ∀ n ∈ A, ∃ m ∈ B, ∀ a ∈ S, g a = some n → h a = some m := by
    intro n hn
    obtain ⟨a, ha, hga⟩ := hold n hn
    obtain ⟨m, hm, hha⟩ := hh.le ⟨a, ha, rfl⟩
    exact ⟨m, hm, fun b hb hgb => ((hsame b hb a ha).1 (hgb.trans hga.symm)).trans hha.symm⟩
  -- A label of the first kind goes to the one label that its elements have of the second.
  choose! f hfB hf using hlabel
  refine ⟨f, ⟨hfB, fun n hn m hm he => ?_, fun m hm => ?_⟩, fun a ha n hga => ?_⟩
  · obtain ⟨a, ha, hga⟩ := hold n hn
    obtain ⟨b, hb, hgb⟩ := hold m hm
    have heq : h a = h b := by rw [hf n hn a ha hga, hf m hm b hb hgb, he]
    rw [← (hsame a ha b hb)] at heq
    exact Option.some.inj (hga.symm.trans (heq.trans hgb))
  · obtain ⟨a, ha, hha⟩ := hnew m hm
    obtain ⟨n, hn, hga⟩ := hg.le ⟨a, ha, rfl⟩
    exact ⟨n, hn, Option.some.inj ((hf n hn a ha hga.symm).symm.trans hha)⟩
  · obtain ⟨m, hm, hgm⟩ := hg.le ⟨a, ha, rfl⟩
    rw [hga, Option.some.injEq] at hgm
    exact hf n (hgm ▸ hm) a ha hga

namespace Routing

open Patch

/-- The buses of the cabled jacks of a rate are all that were handed out of it. -/
theorem image_bus?_committed {b : Bench} {ls : List Link} (hls : List.Forall₂ b.patch.Linked b.patch.cables ls)
    (hfit : b.patch.Fitted) (r : Rate) :
    (b.committed ls).patch.bus? '' {j | b.patch.Cabled j ∧ b.patch.rate? j = some r} =
      some '' Set.Ico (b.counter.next r) ((b.committed ls).counter.next r) := by
  ext bus
  constructor
  · intro hx
    obtain ⟨j, ⟨hj, hr⟩, rfl⟩ := hx
    have hbus := bus?_committed_of_cabled hls hfit hj hr
    exact ⟨_, mem_Ico_of_bus?_committed hls hj hr hbus, hbus.symm⟩
  · intro hx
    obtain ⟨n, ⟨hle, hlt⟩, rfl⟩ := hx
    obtain ⟨j, hj, hr, hbus⟩ := exists_cabled_of_lt_next hls hfit hle hlt
    exact ⟨j, ⟨hj, hr⟩, hbus⟩

/-- Where the same jacks are cabled, rated and joined, the buses of a rate differ by an exchange. -/
theorem exists_exchange (b b' : Bench) {ls ls' : List Link} (hls : List.Forall₂ b.patch.Linked b.patch.cables ls)
    (hls' : List.Forall₂ b'.patch.Linked b'.patch.cables ls') (hfit : b.patch.Fitted) (hfit' : b'.patch.Fitted)
    (hcabled : ∀ j, b'.patch.Cabled j ↔ b.patch.Cabled j) (hrate : ∀ j, b'.patch.rate? j = b.patch.rate? j)
    (hnet : ∀ j k, b'.patch.SameNet j k ↔ b.patch.SameNet j k) (r : Rate) :
    ∃ f : Bus → Bus, Set.BijOn f (Set.Ico (b.counter.next r) ((b.committed ls).counter.next r))
        (Set.Ico (b'.counter.next r) ((b'.committed ls').counter.next r)) ∧
      ∀ j, b.patch.Cabled j → b.patch.rate? j = some r →
        ∃ bus, (b.committed ls).patch.bus? j = some bus ∧ (b'.committed ls').patch.bus? j = some (f bus) := by
  have himage := image_bus?_committed hls' hfit' r
  simp only [hcabled, hrate] at himage
  have hsame : ∀ j ∈ {j | b.patch.Cabled j ∧ b.patch.rate? j = some r},
      ∀ k ∈ {j | b.patch.Cabled j ∧ b.patch.rate? j = some r},
      (b.committed ls).patch.bus? j = (b.committed ls).patch.bus? k ↔
        (b'.committed ls').patch.bus? j = (b'.committed ls').patch.bus? k := by
    intro j hj k hk
    rw [bus?_committed_eq_iff hls hfit hj.1 hk.1 hj.2 hk.2, ← hnet]
    exact (bus?_committed_eq_iff hls' hfit' ((hcabled j).2 hj.1) ((hcabled k).2 hk.1) ((hrate j).trans hj.2)
      ((hrate k).trans hk.2)).symm
  obtain ⟨f, hf, hmap⟩ := exists_bijOn_of_eq_iff_eq (image_bus?_committed hls hfit r) himage hsame
  refine ⟨f, hf, fun j hj hr => ?_⟩
  have hbus := bus?_committed_of_cabled hls hfit hj hr
  exact ⟨_, hbus, hmap j ⟨hj, hr⟩ _ hbus⟩

/-- Routing on two benches comes out alike but for the numbers: it succeeds on both or on neither,
    and on success the buses of a rate that it handed out on the one are exchanged for those on
    the other. Jacks without cables are on the same buses, and so is the highest of each rate. -/
structure SameUpToNumbers (b b' : Bench) : Prop where
  ok_iff : (∃ types, b'.route.1 = .ok types) ↔ ∃ types, b.route.1 = .ok types
  types_eq : ∀ types types', b.route.1 = .ok types → b'.route.1 = .ok types' → types' = types
  exchange : ∀ types, b.route.1 = .ok types → ∀ r, ∃ f : Bus → Bus,
    Set.BijOn f (Set.Ico (b.counter.next r) (b.route.2.counter.next r))
      (Set.Ico (b'.counter.next r) (b'.route.2.counter.next r)) ∧
    ∀ j, b.patch.Cabled j → b.patch.rate? j = some r →
      ∃ bus, b.route.2.patch.bus? j = some bus ∧ b'.route.2.patch.bus? j = some (f bus)
  uncabled : ∀ types, b.route.1 = .ok types → ∀ j, ¬b.patch.Cabled j →
    b'.route.2.patch.bus? j = b.route.2.patch.bus? j
  highest_eq : ∀ types, b.route.1 = .ok types → ∀ r, b'.route.2.counter.highest r = b.route.2.counter.highest r

theorem sameUpToNumbers_of_perm (c : BusCounter) {p : Patch} (hfit : p.Fitted) {cs : List Cable}
    (h : cs.Perm p.cables) :
    SameUpToNumbers { counter := c, patch := p } { counter := c, patch := { p with cables := cs } } := by
  have hok : (∃ types, (Bench.route { counter := c, patch := { p with cables := cs } }).1 = .ok types) ↔
      ∃ types, (Bench.route { counter := c, patch := p }).1 = .ok types := by
    rw [exists_types_iff_sound, exists_types_iff_sound]
    exact sound_permuted_iff h
  have hboth {types : List UsedType} (htypes : (Bench.route { counter := c, patch := p }).1 = .ok types) :
      ∃ ls ls', List.Forall₂ p.Linked p.cables ls ∧ List.Forall₂ (Linked { p with cables := cs }) cs ls' ∧
        (Bench.route { counter := c, patch := p }).2 = Bench.committed { counter := c, patch := p } ls ∧
        (Bench.route { counter := c, patch := { p with cables := cs } }).2 =
          Bench.committed { counter := c, patch := { p with cables := cs } } ls' := by
    obtain ⟨ls, hls, hbench⟩ := exists_linked_of_route htypes
    obtain ⟨types', htypes'⟩ := hok.2 ⟨types, htypes⟩
    obtain ⟨ls', hls', hbench'⟩ := exists_linked_of_route htypes'
    exact ⟨ls, ls', hls, hls', hbench, hbench'⟩
  refine ⟨hok, fun types types' htypes htypes' => ?_, fun types htypes r => ?_, fun types htypes j hj => ?_,
    fun types htypes r => ?_⟩
  · rw [types_of_route htypes, types_of_route htypes']
    rfl
  · obtain ⟨ls, ls', hls, hls', hbench, hbench'⟩ := hboth htypes
    have hexchange := exists_exchange { counter := c, patch := p } { counter := c, patch := { p with cables := cs } }
      hls hls' hfit hfit (fun j => cabled_permuted_iff h) (fun j => rfl) (fun j k => sameNet_permuted_iff h) r
    rwa [← hbench, ← hbench'] at hexchange
  · obtain ⟨ls, ls', hls, hls', hbench, hbench'⟩ := hboth htypes
    rw [hbench, hbench', bus?_committed_of_not_cabled hls hj,
      bus?_committed_of_not_cabled hls' fun hj' => hj ((cabled_permuted_iff h).1 hj')]
    rfl
  · obtain ⟨ls, ls', hls, hls', hbench, hbench'⟩ := hboth htypes
    rw [BusCounter.highest, BusCounter.highest, hbench, hbench', next_committed, next_committed, opened_length hls,
      opened_length hls', netsOfRate_permuted h]

/-- Routing hangs on the order of the modules only in the order of the types that it lists, and on
    the order of the cables only in its numbers and in which fault it finds. -/
theorem route_permuted (c : BusCounter) {p : Patch} (hfit : p.Fitted)
    (hnodup : (p.modules.map PatchModule.address).Nodup) :
    (∀ ms : List PatchModule, ms.Perm p.modules →
      SameByAddress { counter := c, patch := p } { counter := c, patch := { p with modules := ms } }) ∧
    ∀ cs : List Cable, cs.Perm p.cables →
      SameUpToNumbers { counter := c, patch := p } { counter := c, patch := { p with cables := cs } } :=
  ⟨fun _ h => sameByAddress_of_perm c hnodup h, fun _ h => sameUpToNumbers_of_perm c hfit h⟩

def sourceToSink : Patch where
  modules := [
    { typeId := 1, typeName := some "Source", id := 1, area := .voice, inletRates := [], outletRates := [.audio]
      inletBuses := [], outletBuses := [1] },
    { typeId := 2, typeName := some "Sink", id := 2, area := .voice, inletRates := [.audio], outletRates := []
      inletBuses := [0], outletBuses := [] }]
  cables := [⟨.voice, .outToIn, .red, 1, 0, 2, 0⟩]

/-- The two types of a patch come in the order of its two modules. -/
theorem route_reversed_sourceToSink :
    sourceToSink.Fitted ∧ (sourceToSink.modules.map PatchModule.address).Nodup ∧
      sourceToSink.modules.reverse.Perm sourceToSink.modules ∧
      (Bench.route { counter := {}, patch := sourceToSink }).1 = .ok [⟨1, some "Source"⟩, ⟨2, some "Sink"⟩] ∧
      (Bench.route { counter := {}, patch := { sourceToSink with modules := sourceToSink.modules.reverse } }).1 =
        .ok [⟨2, some "Sink"⟩, ⟨1, some "Source"⟩] ∧
      (Bench.route { counter := {}, patch := { sourceToSink with modules := sourceToSink.modules.reverse } }).1 ≠
        (Bench.route { counter := {}, patch := sourceToSink }).1 := by
  refine ⟨?_, by decide, List.reverse_perm _, rfl, rfl, by decide⟩
  intro m hm kind
  revert m
  cases kind <;> decide

def bridgeSecond : List Cable :=
  [⟨.voice, .outToIn, .red, 3, 0, 1, 1⟩, ⟨.voice, .inToIn, .red, 2, 0, 3, 0⟩, ⟨.voice, .outToIn, .red, 1, 0, 2, 0⟩]

theorem route_permuted_bridgeFirst :
    bridgeFirst.Fitted ∧ (bridgeFirst.modules.map PatchModule.address).Nodup ∧
      bridgeFirst.modules.reverse.Perm bridgeFirst.modules ∧
      (∃ types, (Bench.route { counter := {}, patch := { bridgeFirst with modules := bridgeFirst.modules.reverse } }).1
        = .ok types) ∧
      bridgeSecond.Perm bridgeFirst.cables ∧
      ∃ f : Bus → Bus, Set.BijOn f (Set.Ico 2 4) (Set.Ico 2 4) ∧ f 2 = 3 := by
  have hnodup : (bridgeFirst.modules.map PatchModule.address).Nodup := by decide
  have hcables : bridgeSecond.Perm bridgeFirst.cables := by decide
  have hok : (Bench.route { counter := {}, patch := bridgeFirst }).1 = .ok [⟨7, some "Mixer"⟩] := rfl
  obtain ⟨hmodules, hpermuted⟩ := route_permuted {} fitted_bridgeFirst hnodup
  obtain ⟨types, htypes, -⟩ := (hmodules _ (List.reverse_perm _)).types _ hok
  obtain ⟨f, hf, hmap⟩ := (hpermuted _ hcables).exchange _ hok .audio
  obtain ⟨bus, hbus, hbus'⟩ := hmap ⟨0, .outlet, 0⟩ cabled_bridgeFirst rfl
  obtain rfl : 2 = bus := Option.some.inj hbus
  exact ⟨fitted_bridgeFirst, hnodup, List.reverse_perm _, ⟨types, htypes⟩, hcables, f, hf, (Option.some.inj hbus').symm⟩

end Routing

end Patchbay
