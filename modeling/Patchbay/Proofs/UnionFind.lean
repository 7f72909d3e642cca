/-
  Patchbay.Proofs.UnionFind — how far it is up, and what any run of unions leaves.

  A table of parents keeps no rank and no size, so nothing stored in it says when going up ends.
  What bounds the way is the table itself: all that is passed on it has a distance of its own to
  the end, so no way has more steps than the table has entries.
  - `LeadsIn.le_card`, `find?_eq_climb`: going up ends within that many steps, or never.
  - `Mirrors.exists_unionAll`: one union after the other leaves what `Nets` makes of them.
  - `unions_make_classes`: after any unions from nothing, going up ends for everything, and at one
    root for just what the unions connect.
-/

import Patchbay.Proofs.Forest
import Patchbay.Proofs.Nets

namespace Patchbay.Routing

namespace Nets

variable {α : Type} [DecidableEq α]

theorem nodup_mention {members : List α} (h : members.Nodup) (a : α) : (mention members a).Nodup := by
  unfold mention
  split
  · exact h
  · next ha => exact List.nodup_cons.2 ⟨ha, h⟩

/-- The members are listed once each, however often they are joined. -/
theorem nodup_members_joinAll {n : Nets α} (h : n.members.Nodup) (pairs : List (α × α)) :
    (n.joinAll pairs).members.Nodup := by
  induction pairs generalizing n with
  | nil => exact h
  | cons e pairs ih =>
    have hunion : (n.union e.1 e.2).members.Nodup := nodup_mention (nodup_mention h e.1) e.2
    exact ih hunion

end Nets

namespace Forest

variable {α : Type} [DecidableEq α]

/-! ## Going up by steps -/

def up? (f : Forest α) (a : α) : Option α := (f.parents.lookup a).filter fun up => up ≠ a

/-- Where going up ends, if it does within so many steps. -/
def climb (f : Forest α) : Nat → α → Option α
  | 0, a => if f.up? a = none then some a else none
  | n + 1, a =>
    match f.up? a with
    | none => some a
    | some up => f.climb n up

inductive LeadsIn (f : Forest α) : Nat → α → α → Prop
  | root {a : α} : f.up? a = none → LeadsIn f 0 a a
  | up {n : Nat} {a up r : α} : f.up? a = some up → LeadsIn f n up r → LeadsIn f (n + 1) a r

section

variable {f : Forest α} {a r s : α} {n m : Nat}

theorem up?_eq_some_iff {up : α} : f.up? a = some up ↔ f.parents.lookup a = some up ∧ up ≠ a := by
  simp [up?, Option.filter_eq_some_iff]

theorem up?_eq_none_iff : f.up? a = none ↔ f.IsRoot a := by
  simp [up?, Option.filter_eq_none_iff, IsRoot]

theorem leads_iff_exists : f.Leads a r ↔ ∃ n, f.LeadsIn n a r := by
  constructor
  · intro h
    induction h with
    | root hroot => exact ⟨0, .root (up?_eq_none_iff.2 hroot)⟩
    | up hup hne _ ih =>
      obtain ⟨n, hn⟩ := ih
      exact ⟨n + 1, .up (up?_eq_some_iff.2 ⟨hup, hne⟩) hn⟩
  · rintro ⟨n, h⟩
    induction h with
    | root hroot => exact .root (up?_eq_none_iff.1 hroot)
    | up hup _ ih =>
      obtain ⟨hlookup, hne⟩ := up?_eq_some_iff.1 hup
      exact .up hlookup hne ih

/-- The distance to the end is one number. -/
theorem LeadsIn.steps_unique (h : f.LeadsIn n a r) (h' : f.LeadsIn m a s) : n = m := by
  induction h generalizing m with
  | root hroot =>
    cases h' with
    | root => rfl
    | up hup => cases hroot.symm.trans hup
  | up hup _ ih =>
    cases h' with
    | root hroot => cases hroot.symm.trans hup
    | up hup' h' =>
      cases hup.symm.trans hup'
      rw [ih h']

/-- What is passed on the way up: as many entries of the table as there are steps. -/
theorem LeadsIn.exists_passed (h : f.LeadsIn n a r) :
    ∃ passed ⊆ f.parents.keys, passed.card = n ∧ ∀ b ∈ passed, ∃ m ≤ n, f.LeadsIn m b r := by
  induction h with
  | root => exact ⟨∅, Finset.empty_subset _, rfl, fun b hb => absurd hb (Finset.notMem_empty b)⟩
  | @up n a up r hup hrest ih =>
    obtain ⟨passed, hkeys, hcard, hdist⟩ := ih
    have hway : f.LeadsIn (n + 1) a r := .up hup hrest
    have hkey : a ∈ f.parents.keys :=
      Finmap.mem_keys.2 (Finmap.mem_of_lookup_eq_some (up?_eq_some_iff.1 hup).1)
    -- Whatever is passed later is nearer to the end, so it is not passed twice.
    have hnew : a ∉ passed := by
      intro ha
      obtain ⟨m, hm, hleads⟩ := hdist a ha
      have := hway.steps_unique hleads
      omega
    refine ⟨insert a passed, Finset.insert_subset hkey hkeys, ?_, fun b hb => ?_⟩
    · rw [Finset.card_insert_of_notMem hnew, hcard]
    · obtain rfl | hb := Finset.mem_insert.1 hb
      · exact ⟨n + 1, Nat.le_refl _, hway⟩
      · obtain ⟨m, hm, hleads⟩ := hdist b hb
        exact ⟨m, Nat.le_succ_of_le hm, hleads⟩

theorem LeadsIn.le_card (h : f.LeadsIn n a r) : n ≤ f.parents.keys.card := by
  obtain ⟨passed, hkeys, rfl, -⟩ := h.exists_passed
  exact Finset.card_le_card hkeys

theorem climb_eq_some_iff : f.climb n a = some r ↔ ∃ m ≤ n, f.LeadsIn m a r := by
  constructor
  · intro h
    induction n generalizing a with
    | zero =>
      rw [climb] at h
      split at h
      · next hroot =>
        cases h
        exact ⟨0, Nat.le_refl _, .root hroot⟩
      · cases h
    | succ n ih =>
      rw [climb] at h
      split at h
      · next hroot =>
        cases h
        exact ⟨0, Nat.zero_le _, .root hroot⟩
      · next up hup =>
        obtain ⟨m, hm, hleads⟩ := ih h
        exact ⟨m + 1, Nat.succ_le_succ hm, .up hup hleads⟩
  · rintro ⟨m, hm, h⟩
    induction h generalizing n with
    | root hroot => cases n <;> simp [climb, hroot]
    | @up m a up r hup _ ih =>
      obtain ⟨k, rfl⟩ : ∃ k, n = k + 1 := ⟨n - 1, by omega⟩
      rw [climb, hup]
      exact ih (Nat.le_of_succ_le_succ hm)

end

/-- Going up ends within as many steps as the table has entries, or it never ends. -/
theorem find?_eq_climb (f : Forest α) (a : α) : f.find? a = f.climb f.parents.keys.card a := by
  refine Option.ext fun r => ?_
  rw [find?_eq_some_iff, leads_iff_exists, climb_eq_some_iff]
  constructor
  · rintro ⟨n, h⟩
    exact ⟨n, h.le_card, h⟩
  · rintro ⟨n, -, h⟩
    exact ⟨n, h⟩

/-- In a table that no unions made, going up may have no end. -/
example : (((empty : Forest Nat).point 1 2).point 2 1).climb 2 1 = none := by decide

/-! ## One union after the other -/

/-- The unions of all pairs; `none` if going up in one of them never ends. -/
noncomputable def unionAll? (f : Forest α) (pairs : List (α × α)) : Option (Forest α) :=
  pairs.foldlM (fun f e => f.union? e.1 e.2) f

theorem Mirrors.exists_unionAll {f : Forest α} {n : Nets α} (h : f.Mirrors n) (pairs : List (α × α)) :
    ∃ g, f.unionAll? pairs = some g ∧ g.Mirrors (n.joinAll pairs) := by
  induction pairs generalizing f n with
  | nil => exact ⟨f, rfl, h⟩
  | cons e pairs ih =>
    obtain ⟨g, hg, hmirrors⟩ := h.exists_union e.1 e.2
    obtain ⟨last, hlast, hall⟩ := ih hmirrors
    refine ⟨last, ?_, hall⟩
    rw [unionAll?, List.foldlM_cons, hg]
    exact hlast

theorem Mirrors.find?_eq_iff {f : Forest α} {n : Nets α} (h : f.Mirrors n) (a b : α) :
    f.find? a = f.find? b ↔ n.find a = n.find b := by
  rw [h.find?_eq, h.find?_eq, Option.some.injEq]

/-- A root is its own. -/
theorem find?_of_find? {f : Forest α} {a r : α} (h : f.find? a = some r) : f.find? r = some r :=
  find?_eq_some_iff.2 (.root (find?_eq_some_iff.1 h).isRoot)

/-- Any unions from nothing go through. In what they leave, going up from anything ends, within
    as many steps as there are entries, at what is its own root. Two elements go by one root iff
    the united pairs connect them, what no pair mentions goes by itself, and the entries are what
    the pairs mention. `Nets` finds the same, and lists the entries once each. -/
theorem unions_make_classes (pairs : List (α × α)) :
    ∃ f, (empty : Forest α).unionAll? pairs = some f ∧
      (∀ a, ∃ r, f.climb f.parents.keys.card a = some r ∧ f.find? a = some r ∧ f.find? r = some r) ∧
      (∀ a b, f.find? a = f.find? b ↔ Relation.EqvGen (fun c d => (c, d) ∈ pairs) a b) ∧
      (∀ a, (∀ e ∈ pairs, a ≠ e.1 ∧ a ≠ e.2) → f.find? a = some a) ∧
      (∀ a, a ∈ f.parents ↔ ∃ e ∈ pairs, a = e.1 ∨ a = e.2) ∧
      (∀ a, f.find? a = some ((Nets.joinAll {} pairs).find a)) ∧
      (∀ a, a ∈ (Nets.joinAll {} pairs).members ↔ a ∈ f.parents) ∧ (Nets.joinAll {} pairs).members.Nodup := by
  obtain ⟨f, hf, h⟩ := (mirrors_empty (α := α)).exists_unionAll pairs
  have hmentioned (a : α) : a ∈ f.parents ↔ ∃ e ∈ pairs, a = e.1 ∨ a = e.2 := by
    rw [h.mem_iff, Nets.mem_members_joinAll]
    exact ⟨fun ha => ha.elim (fun hnone => absurd hnone List.not_mem_nil) id, Or.inr⟩
  refine ⟨f, hf, fun a => ?_, fun a b => ?_, fun a ha => ?_, hmentioned, h.find?_eq, fun a => (h.mem_iff a).symm,
    Nets.nodup_members_joinAll List.nodup_nil pairs⟩
  · have hfound := h.find?_eq a
    exact ⟨_, (find?_eq_climb f a).symm.trans hfound, hfound, find?_of_find? hfound⟩
  · rw [h.find?_eq_iff, Nets.find_joinAll_empty_eq_iff]
  · have hnew : a ∉ f.parents := by
      intro hmem
      obtain ⟨e, he, hor⟩ := (hmentioned a).1 hmem
      exact hor.elim (ha e he).1 (ha e he).2
    rw [h.find?_eq, h.find_eq_of_notMem hnew]

end Forest

end Patchbay.Routing
