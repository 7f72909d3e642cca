/-
  Patchbay.Proofs.Relocation — routing a patch whose modules stand in another order.

  Routing knows a jack by the position of its module, and positions only tell modules apart:
  where addresses are unique, every step does on the one patch what it does on the other, each
  jack in the place of the one that it is there.
  - `find_map`, `union_map`: nets under an injective renaming.
  - `links_relocated`, `number_moved`: the links of the patch and their numbers.
  - `bus?_committed_relocated`, `relocated_committed`: so every address has the same module after routing.
-/

import Patchbay.Proofs.DecodedPatch
import Patchbay.Proofs.Succession

namespace Patchbay

open Function (Bijective Injective)

namespace Routing

/-! ## Renaming -/

namespace Nets

variable {α β : Type} [DecidableEq α] [DecidableEq β] {f : α → β}

def map (f : α → β) (n : Nets α) : Nets β := ⟨n.merges.map (Prod.map f f), n.members.map f⟩

theorem find_map (hf : Injective f) (n : Nets α) (a : α) : (n.map f).find (f a) = f (n.find a) := by
  obtain ⟨merges, members⟩ := n
  simp only [find, map]
  induction merges with
  | nil => rfl
  | cons m merges ih =>
    simp only [List.map_cons, List.foldr_cons, ih, follow, Prod.map, hf.eq_iff]
    split <;> rfl

theorem mention_map (hf : Injective f) (members : List α) (a : α) :
    mention (members.map f) (f a) = (mention members a).map f := by
  simp only [mention, List.mem_map_of_injective hf]
  split <;> rfl

theorem union_map (hf : Injective f) (n : Nets α) (a b : α) : (n.map f).union (f a) (f b) = (n.union a b).map f := by
  simp only [union, find_map hf]
  simp only [map, mention_map hf, List.map_cons, Prod.map]

end Nets

theorem lookup_map {α β γ : Type} [DecidableEq α] [DecidableEq β] {f : α → β} (hf : Injective f) (l : List (α × γ))
    (a : α) : (l.map (Prod.map f id)).lookup (f a) = l.lookup a := by
  induction l with
  | nil => rfl
  | cons e l ih =>
    obtain ⟨b, c⟩ := e
    simp only [List.map_cons, Prod.map, List.lookup_cons, ih, beq_eq_decide, hf.eq_iff]
    rfl

end Routing

/-! ## Positions -/

section

variable {α : Type} [DecidableEq α] {l l' : List α}

/-- Where a list in another order has the element at a position; positions past the end stay. -/
def placeIn (h : l.Perm l') (k : Nat) : Nat := if hk : k < l.length then h.idxBij ⟨k, hk⟩ else k

theorem placeIn_of_lt (h : l.Perm l') {k : Nat} (hk : k < l.length) : placeIn h k = h.idxBij ⟨k, hk⟩ := dif_pos hk

theorem placeIn_of_not_lt (h : l.Perm l') {k : Nat} (hk : ¬k < l.length) : placeIn h k = k := dif_neg hk

theorem placeIn_lt_iff (h : l.Perm l') {k : Nat} : placeIn h k < l'.length ↔ k < l.length := by
  by_cases hk : k < l.length
  · rw [placeIn_of_lt h hk]
    exact ⟨fun _ => hk, fun _ => (h.idxBij ⟨k, hk⟩).isLt⟩
  · rw [placeIn_of_not_lt h hk, h.length_eq]

theorem bijective_placeIn (h : l.Perm l') : Bijective (placeIn h) := by
  constructor
  · intro k i hki
    have hlt : k < l.length ↔ i < l.length := by rw [← placeIn_lt_iff h, hki, placeIn_lt_iff h]
    by_cases hk : k < l.length
    · have hi := hlt.1 hk
      rw [placeIn_of_lt h hk, placeIn_of_lt h hi] at hki
      exact Fin.mk.inj_iff.1 (h.idxBij_injective (Fin.ext hki))
    · have hi : ¬i < l.length := fun hi => hk (hlt.2 hi)
      rwa [placeIn_of_not_lt h hk, placeIn_of_not_lt h hi] at hki
  · intro i
    by_cases hi : i < l'.length
    · obtain ⟨⟨k, hk⟩, heq⟩ := h.idxBij_surjective ⟨i, hi⟩
      refine ⟨k, ?_⟩
      rw [placeIn_of_lt h hk, heq]
    · exact ⟨i, placeIn_of_not_lt h (h.length_eq ▸ hi)⟩

theorem getElem?_placeIn (h : l.Perm l') (k : Nat) : l'[placeIn h k]? = l[k]? := by
  by_cases hk : k < l.length
  · have hlt := (h.idxBij ⟨k, hk⟩).isLt
    rw [placeIn_of_lt h hk, List.getElem?_eq_getElem hlt, List.getElem?_eq_getElem hk, h.getElem_idxBij_eq_getElem]
  · have hk' : ¬k < l'.length := h.length_eq ▸ hk
    rw [placeIn_of_not_lt h hk, List.getElem?_eq_none (Nat.le_of_not_lt hk),
      List.getElem?_eq_none (Nat.le_of_not_lt hk')]

end

/-! ## Patches in another order -/

def Jack.moved (σ : Nat → Nat) (j : Jack) : Jack := { j with position := σ j.position }

theorem Jack.moved_injective {σ : Nat → Nat} (hσ : Injective σ) : Injective (Jack.moved σ) := by
  rintro ⟨k, kind, index⟩ ⟨k', kind', index'⟩ h
  simp only [Jack.moved, Jack.mk.injEq] at h
  obtain ⟨hk, rfl, rfl⟩ := h
  rw [hσ hk]

/-- The modules of one patch stand in the other at the positions that `σ` gives, and no two of
    them have one address. -/
structure Patch.Relocated (σ : Nat → Nat) (p q : Patch) : Prop where
  bijective : Bijective σ
  getElem?_eq : ∀ k, q.modules[σ k]? = p.modules[k]?
  cables_eq : q.cables = p.cables
  nodup_source : (p.modules.map PatchModule.address).Nodup
  nodup_dest : (q.modules.map PatchModule.address).Nodup

namespace Patch

theorem exists_relocated {p : Patch} (hnodup : (p.modules.map PatchModule.address).Nodup) {ms : List PatchModule}
    (h : ms.Perm p.modules) : ∃ σ, p.Relocated σ { p with modules := ms } := by
  exact ⟨placeIn h.symm, bijective_placeIn h.symm, getElem?_placeIn h.symm, rfl, hnodup,
    (h.map PatchModule.address).nodup_iff.2 hnodup⟩

/-- Where addresses are unique, the first module of an address is the one that has it. -/
theorem firstAt_iff {p : Patch} (hnodup : (p.modules.map PatchModule.address).Nodup) {area : Area} {id k : Nat} :
    p.FirstAt area id k ↔ ∃ m, p.modules[k]? = some m ∧ m.area = area ∧ m.id = id := by
  refine ⟨fun h => h.1, fun h => ⟨h, fun i hi n hn hna => ?_⟩⟩
  obtain ⟨m, hm, hma⟩ := h
  have haddress : (p.modules.map PatchModule.address)[i]? = (p.modules.map PatchModule.address)[k]? := by
    rw [List.getElem?_map, List.getElem?_map, hn, hm, Option.map_some, Option.map_some]
    exact congrArg some (Prod.ext (hna.1.trans hma.1.symm) (hna.2.trans hma.2.symm))
  have hlen : i < (p.modules.map PatchModule.address).length := by
    rw [List.length_map]
    exact (List.getElem?_eq_some_iff.1 hn).1
  exact Nat.ne_of_lt hi ((List.getElem?_inj hlen hnodup).1 haddress)

namespace Relocated

variable {σ : Nat → Nat} {p q : Patch} (h : p.Relocated σ q)

include h

theorem mem_modules_iff {m : PatchModule} : m ∈ q.modules ↔ m ∈ p.modules := by
  constructor
  · intro hm
    obtain ⟨i, hi⟩ := List.mem_iff_getElem?.1 hm
    obtain ⟨k, rfl⟩ := h.bijective.surjective i
    exact List.mem_of_getElem? ((h.getElem?_eq k).symm.trans hi)
  · intro hm
    obtain ⟨k, hk⟩ := List.mem_iff_getElem?.1 hm
    exact List.mem_of_getElem? ((h.getElem?_eq k).trans hk)

/-- Every address has the same module in both patches. -/
theorem findModule?_eq (id : Nat) (area : Area) : q.findModule? id area = p.findModule? id area := by
  refine Option.ext fun m => ?_
  rw [findModule?_eq_some_iff h.nodup_dest, findModule?_eq_some_iff h.nodup_source, h.mem_modules_iff]

theorem bus?_moved (j : Jack) : q.bus? (j.moved σ) = p.bus? j := by
  simp only [bus?, Jack.moved, h.getElem?_eq]

theorem firstAt_moved {area : Area} {id k : Nat} (hk : p.FirstAt area id k) : q.FirstAt area id (σ k) := by
  rw [firstAt_iff h.nodup_dest, h.getElem?_eq]
  exact hk.1

theorem exists_firstAt_of_relocated {area : Area} {id k : Nat} (hk : q.FirstAt area id k) :
    ∃ i, p.FirstAt area id i := by
  obtain ⟨⟨m, hm, hma⟩, -⟩ := hk
  obtain ⟨i, hi⟩ := List.mem_iff_getElem?.1 (h.mem_modules_iff.1 (List.mem_of_getElem? hm))
  exact ⟨i, (firstAt_iff h.nodup_source).2 ⟨m, hi, hma⟩⟩

end Relocated

end Patch

namespace Routing

open Patch

/-! ## Links and numbers -/

def Link.moved (σ : Nat → Nat) (l : Link) : Link := ⟨l.source.moved σ, l.dest.moved σ, l.rate⟩

def Numbering.moved (σ : Nat → Nat) (n : Numbering) : Numbering :=
  { n with buses := n.buses.map (Prod.map (Jack.moved σ) id) }

section

variable {σ : Nat → Nat} {p q : Patch}

theorem moduleAt_relocated (h : p.Relocated σ q) (cable : Nat) (area : Area) (id : Nat) :
    moduleAt q cable area id = (moduleAt p cable area id).map fun found => (found.1, σ found.2) := by
  by_cases hp : ∃ k, p.FirstAt area id k
  · obtain ⟨k, hk⟩ := hp
    obtain ⟨m, hm, hfound⟩ := moduleAt_eq_ok cable hk
    obtain ⟨n, hn, hfound'⟩ := moduleAt_eq_ok cable (h.firstAt_moved hk)
    rw [h.getElem?_eq, hm, Option.some.injEq] at hn
    subst hn
    rw [hfound, hfound']
    rfl
  · -- Neither patch has a module there, and the fault does not name a position.
    have hq : ¬∃ k, q.FirstAt area id k := by
      intro hx
      obtain ⟨k, hk⟩ := hx
      exact hp (h.exists_firstAt_of_relocated hk)
    rw [moduleAt_eq_error hp, moduleAt_eq_error hq]
    rfl

theorem jackOf_moved (cable : Nat) (m : PatchModule) (k : Nat) (kind : JackKind) (index : Nat) :
    jackOf cable (m, σ k) kind index = (jackOf cable (m, k) kind index).map (Prod.map (Jack.moved σ) id) := by
  unfold jackOf
  cases (m.rates kind)[index]? <;> rfl

theorem link_relocated (h : p.Relocated σ q) (fed : List (Jack × Nat)) (cable : Nat) (c : Cable) :
    link q (fed.map (Prod.map (Jack.moved σ) id)) cable c = (link p fed cable c).map (Link.moved σ) := by
  simp only [link, moduleAt_relocated h]
  cases moduleAt p cable c.area c.moduleFrom with
  | error e => rfl
  | ok source =>
    cases moduleAt p cable c.area c.moduleTo with
    | error e => rfl
    | ok dest =>
      obtain ⟨m, k⟩ := source
      obtain ⟨n, i⟩ := dest
      simp only [Except.map, bind, Except.bind, jackOf_moved]
      cases jackOf cable (m, k) c.kind.source c.jackFrom with
      | error e => rfl
      | ok s =>
        cases jackOf cable (n, i) .inlet c.jackTo with
        | error e => rfl
        | ok d =>
          obtain ⟨s, r⟩ := s
          obtain ⟨d, t⟩ := d
          simp only [Prod.map, id, lookup_map (Jack.moved_injective h.bijective.injective)]
          by_cases hrt : r ≠ t
          · rw [if_pos hrt, if_pos hrt]
          · rw [if_neg hrt, if_neg hrt]
            cases fed.lookup d <;> rfl

theorem links_relocated (h : p.Relocated σ q) (fed : List (Jack × Nat)) (cable : Nat) (cs : List Cable) :
    links q (fed.map (Prod.map (Jack.moved σ) id)) cable cs = (links p fed cable cs).map (List.map (Link.moved σ)) := by
  -- What is fed grows along the cables, on both sides by the same jacks.
  induction cs generalizing fed cable with
  | nil => rfl
  | cons c cs ih =>
    simp only [links, link_relocated h]
    cases link p fed cable c with
    | error e => rfl
    | ok l =>
      have hrest := ih ((l.dest, cable) :: fed) (cable + 1)
      simp only [List.map_cons, Prod.map, id] at hrest
      simp only [Except.map, bind, Except.bind, Link.moved, hrest]
      cases links p ((l.dest, cable) :: fed) (cable + 1) cs <;> rfl

theorem links_cables_relocated (h : p.Relocated σ q) :
    links q [] 0 q.cables = (links p [] 0 p.cables).map (List.map (Link.moved σ)) := by
  rw [h.cables_eq]
  exact links_relocated h [] 0 p.cables

variable (hσ : Injective σ)

include hσ

theorem netsOf_moved (ls : List Link) : netsOf (ls.map (Link.moved σ)) = (netsOf ls).map (Jack.moved σ) := by
  rw [netsOf, List.foldl_map]
  show ls.foldl (fun (n : Nets Jack) l => n.union (l.moved σ).source (l.moved σ).dest) (Nets.map (Jack.moved σ) {}) =
    Nets.map (Jack.moved σ) (ls.foldl (fun n l => n.union l.source l.dest) {})
  refine List.foldl_hom (Nets.map (Jack.moved σ)) fun n l => ?_
  exact Nets.union_map (Jack.moved_injective hσ) n l.source l.dest

theorem add_moved (nets : Nets Jack) (n : Numbering) (numbered : Link × Nat) :
    (n.moved σ).add (nets.map (Jack.moved σ)) (Prod.map (Link.moved σ) id numbered) =
      (n.add nets numbered).moved σ := by
  obtain ⟨l, i⟩ := numbered
  have hf := Jack.moved_injective hσ
  simp only [Numbering.add, Prod.map, Link.moved, Numbering.moved, Nets.find_map hf, lookup_map hf]
  cases n.buses.lookup (nets.find l.dest) <;> rfl

theorem number_moved (c : BusCounter) (nets : Nets Jack) (ls : List Link) :
    number c (nets.map (Jack.moved σ)) (ls.map (Link.moved σ)) = (number c nets ls).moved σ := by
  rw [number, List.zipIdx_map, List.foldl_map]
  show ls.zipIdx.foldl
      (fun (n : Numbering) numbered => n.add (nets.map (Jack.moved σ)) (Prod.map (Link.moved σ) id numbered))
      (Numbering.moved σ { counter := c }) =
    (ls.zipIdx.foldl (Numbering.add nets) { counter := c }).moved σ
  refine List.foldl_hom (Numbering.moved σ) fun n numbered => ?_
  exact add_moved hσ nets n numbered

end

/-! ## After routing -/

section

variable {σ : Nat → Nat} {p q : Patch} (h : p.Relocated σ q) (c : BusCounter)

include h

theorem bus?_committed_relocated (ls : List Link) (j : Jack) :
    (Bench.committed { counter := c, patch := q } (ls.map (Link.moved σ))).patch.bus? (j.moved σ) =
      (Bench.committed { counter := c, patch := p } ls).patch.bus? j := by
  have hf := Jack.moved_injective h.bijective.injective
  have hmem : j.moved σ ∈ ((netsOf ls).map (Jack.moved σ)).members ↔ j ∈ (netsOf ls).members :=
    List.mem_map_of_injective hf
  rw [bus?_committed, bus?_committed, h.bus?_moved, netsOf_moved h.bijective.injective,
    number_moved h.bijective.injective]
  simp only [hmem, Nets.find_map hf, Numbering.moved, lookup_map hf]

theorem counter_committed_relocated (ls : List Link) :
    (Bench.committed { counter := c, patch := q } (ls.map (Link.moved σ))).counter =
      (Bench.committed { counter := c, patch := p } ls).counter := by
  simp only [Bench.committed, netsOf_moved h.bijective.injective, number_moved h.bijective.injective]
  rfl

end

/-- Routing leaves the modules of the one patch where those of the other are. -/
theorem relocated_committed {σ : Nat → Nat} {p q : Patch} (h : p.Relocated σ q) (c : BusCounter) (ls : List Link) :
    (Bench.committed { counter := c, patch := p } ls).patch.Relocated σ
      (Bench.committed { counter := c, patch := q } (ls.map (Link.moved σ))).patch := by
  have hp := withoutBuses_committed { counter := c, patch := p } ls
  have hq := withoutBuses_committed { counter := c, patch := q } (ls.map (Link.moved σ))
  refine ⟨h.bijective, fun k => ?_, ?_, ?_, ?_⟩
  · refine getElem?_eq_of_bus?_eq ?_ fun kind index => bus?_committed_relocated h c ls ⟨k, kind, index⟩
    rw [getElem?_of_withoutBuses hq, getElem?_of_withoutBuses hp, h.getElem?_eq]
  · rw [cables_of_withoutBuses hq, cables_of_withoutBuses hp, h.cables_eq]
  · rw [map_address_of_withoutBuses hp]
    exact h.nodup_source
  · rw [map_address_of_withoutBuses hq]
    exact h.nodup_dest

end Routing

end Patchbay
