/-
  Patchbay.Proofs.Forest — nets kept as parent pointers.

  A forest is a table in which everything that was joined has a parent, and a representative is
  its own. To find a representative is to go from parent to parent. Nothing in a table says that
  this ends, so `find?` is `none` where it does not.
  - `find?_eq_some_iff`: what is found is where going up ends.
  - `Leads.point`: putting one representative under another redirects what went by it.
  - `Mirrors.exists_union`: from nothing, unions end, and a forest finds what `Nets` finds.
-/

import Mathlib.Data.Finmap
import Patchbay.Routing.Nets

namespace Patchbay.Routing

structure Forest (α : Type) where
  /-- The parent of everything that was joined to something. -/
  parents : Finmap fun _ : α => α

namespace Forest

variable {α : Type} [DecidableEq α]

def empty : Forest α := ⟨∅⟩

def IsRoot (f : Forest α) (a : α) : Prop := ∀ up, f.parents.lookup a = some up → up = a

/-- Going up from parent to parent ends at a root. -/
inductive Leads (f : Forest α) : α → α → Prop
  | root {a : α} : f.IsRoot a → Leads f a a
  | up {a up r : α} : f.parents.lookup a = some up → up ≠ a → Leads f up r → Leads f a r

open Classical in
/-- Where going up ends; `none` if it never does. -/
noncomputable def find? (f : Forest α) (a : α) : Option α := if h : ∃ r, f.Leads a r then some h.choose else none

def point (f : Forest α) (a up : α) : Forest α := ⟨f.parents.insert a up⟩

/-- What has no parent yet becomes its own. -/
def mention (f : Forest α) (a : α) : Forest α := if a ∈ f.parents then f else f.point a a

noncomputable def union? (f : Forest α) (a b : α) : Option (Forest α) := do
  let f := (f.mention a).mention b
  let kept ← f.find? a
  let gone ← f.find? b
  return if kept = gone then f else f.point gone kept

/-! ## Going up -/

variable {f : Forest α} {a b r s : α}

/-- There is one way up. -/
theorem Leads.unique (h : f.Leads a r) (h' : f.Leads a s) : r = s := by
  induction h with
  | root hroot =>
    cases h' with
    | root => rfl
    | up hup hne => exact absurd (hroot _ hup) hne
  | up hup hne _ ih =>
    cases h' with
    | root hroot => exact absurd (hroot _ hup) hne
    | up hup' _ h' =>
      cases hup.symm.trans hup'
      exact ih h'

theorem find?_eq_some_iff : f.find? a = some r ↔ f.Leads a r := by
  unfold find?
  split
  · next h =>
    rw [Option.some.injEq]
    exact ⟨fun he => he ▸ h.choose_spec, fun hr => h.choose_spec.unique hr⟩
  · next h => exact ⟨fun he => absurd he.symm (Option.some_ne_none r), fun hr => absurd ⟨r, hr⟩ h⟩

theorem Leads.isRoot (h : f.Leads a r) : f.IsRoot r := by
  induction h with
  | root hroot => exact hroot
  | up _ _ _ ih => exact ih

/-! ## Changes -/

theorem lookup_point (f : Forest α) (a up b : α) :
    (f.point a up).parents.lookup b = if b = a then some up else f.parents.lookup b := by
  by_cases h : b = a
  · rw [if_pos h, h, point, Finmap.lookup_insert]
  · rw [if_neg h, point, Finmap.lookup_insert_of_ne _ h]

theorem mem_parents_point (f : Forest α) (a up b : α) : b ∈ (f.point a up).parents ↔ b = a ∨ b ∈ f.parents :=
  Finmap.mem_insert

theorem mem_parents_mention : b ∈ (f.mention a).parents ↔ b = a ∨ b ∈ f.parents := by
  unfold mention
  split
  · next ha => exact ⟨Or.inr, fun h => h.elim (fun e => e ▸ ha) id⟩
  · exact mem_parents_point ..

/-- To be mentioned changes nothing of what is found. -/
theorem Leads.mention (h : f.Leads b r) (a : α) : (f.mention a).Leads b r := by
  unfold Forest.mention
  split
  · exact h
  next ha =>
  induction h with
  | @root b hroot =>
    refine .root fun up hup => ?_
    rw [lookup_point] at hup
    split at hup
    · next he => rw [he, Option.some.inj hup]
    · exact hroot up hup
  | @up b up r hup hne _ ih =>
    have he : b ≠ a := fun e => ha (e ▸ Finmap.mem_of_lookup_eq_some hup)
    exact .up (by rw [lookup_point, if_neg he, hup]) hne ih

/-- One root under another takes with it whatever went by it. -/
theorem Leads.point {kept gone : α} (hkept : f.IsRoot kept) (hgone : f.IsRoot gone) (hne : kept ≠ gone)
    (h : f.Leads a r) : (f.point gone kept).Leads a (if r = gone then kept else r) := by
  have hroot {b : α} (hb : f.IsRoot b) (hbg : b ≠ gone) : (f.point gone kept).Leads b b :=
    .root fun up hup => hb up (by rwa [lookup_point, if_neg hbg] at hup)
  induction h with
  | @root b hb =>
    by_cases hbg : b = gone
    · rw [if_pos hbg]
      exact .up (by rw [lookup_point, if_pos hbg]) (hbg ▸ hne) (hroot hkept hne)
    · rw [if_neg hbg]
      exact hroot hb hbg
  | @up b up r hup hup_ne _ ih =>
    -- What has a parent above it is no root, so it is not the one that was moved.
    have hbg : b ≠ gone := fun e => hup_ne (by subst e; exact hgone up hup)
    exact .up (by rw [lookup_point, if_neg hbg, hup]) hup_ne ih

/-! ## Forests and nets -/

/-- A forest finds what nets find and mentions what they do, its representatives included. -/
structure Mirrors (f : Forest α) (n : Nets α) : Prop where
  find?_eq : ∀ a, f.find? a = some (n.find a)
  mem_iff : ∀ a, a ∈ f.parents ↔ a ∈ n.members
  closed : ∀ a ∈ f.parents, n.find a ∈ f.parents

theorem mirrors_empty : Mirrors (empty : Forest α) {} where
  find?_eq a := find?_eq_some_iff.2 (.root fun up h => by cases h)
  mem_iff a := iff_of_false Finmap.notMem_empty List.not_mem_nil
  closed a h := absurd h Finmap.notMem_empty

namespace Mirrors

variable {n : Nets α} (h : f.Mirrors n)

include h

/-- What was never mentioned goes by itself. -/
theorem find_eq_of_notMem (ha : a ∉ f.parents) : n.find a = a := by
  have hroot : f.IsRoot a := fun up hup => absurd (Finmap.mem_of_lookup_eq_some hup) ha
  exact (find?_eq_some_iff.1 (h.find?_eq a)).unique (.root hroot)

theorem closed_of_mentions {g : Forest α} (hg : ∀ c ∈ f.parents, c ∈ g.parents) {c : α} (hc : c ∈ g.parents) :
    n.find c ∈ g.parents := by
  by_cases hf : c ∈ f.parents
  · exact hg _ (h.closed c hf)
  · rwa [h.find_eq_of_notMem hf]

/-- A union ends, and what it leaves finds what the united nets find. -/
theorem exists_union (a b : α) : ∃ g, f.union? a b = some g ∧ g.Mirrors (n.union a b) := by
  obtain ⟨g, hg⟩ : ∃ g, g = (f.mention a).mention b := ⟨_, rfl⟩
  have hleads (c : α) : g.Leads c (n.find c) := by
    rw [hg]
    exact ((find?_eq_some_iff.1 (h.find?_eq c)).mention a).mention b
  have hfind (c : α) : g.find? c = some (n.find c) := find?_eq_some_iff.2 (hleads c)
  have hmentions (c : α) : c ∈ g.parents ↔ c = b ∨ c = a ∨ c ∈ f.parents := by
    rw [hg, mem_parents_mention, mem_parents_mention]
  have hmem (c : α) : c ∈ g.parents ↔ c ∈ (n.union a b).members := by
    rw [hmentions, h.mem_iff, Nets.mem_members_union]
  have hclosed (c : α) (hc : c ∈ g.parents) : n.find c ∈ g.parents :=
    h.closed_of_mentions (fun d hd => (hmentions d).2 (Or.inr (Or.inr hd))) hc
  have ha : n.find a ∈ g.parents := hclosed a ((hmentions a).2 (Or.inr (Or.inl rfl)))
  have hb : n.find b ∈ g.parents := hclosed b ((hmentions b).2 (Or.inl rfl))
  have hunited (c : α) (hc : c ∈ g.parents) : (n.union a b).find c ∈ g.parents := by
    rw [Nets.find_union]
    split
    · exact ha
    · exact hclosed c hc
  by_cases he : n.find a = n.find b
  · refine ⟨g, ?_, ⟨fun c => ?_, hmem, hunited⟩⟩
    · simp [Forest.union?, ← hg, hfind, he]
    · rw [hfind, Nets.find_union]
      split
      · next hc => rw [hc, he]
      · rfl
  · -- The representative that is put under the other is in the table already.
    have hpoint (c : α) : c ∈ (g.point (n.find b) (n.find a)).parents ↔ c ∈ g.parents := by
      rw [mem_parents_point]
      exact ⟨fun hc => hc.elim (fun e => e ▸ hb) id, Or.inr⟩
    refine ⟨g.point (n.find b) (n.find a), ?_, ⟨fun c => ?_, fun c => ?_, fun c hc => ?_⟩⟩
    · simp [Forest.union?, ← hg, hfind, he]
    · rw [find?_eq_some_iff, Nets.find_union]
      exact (hleads c).point (hleads a).isRoot (hleads b).isRoot he
    · rw [hpoint, hmem]
    · exact (hpoint _).2 (hunited c ((hpoint c).1 hc))

end Mirrors

end Forest

end Patchbay.Routing
