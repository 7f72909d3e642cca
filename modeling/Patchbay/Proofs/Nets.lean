/-
  Patchbay.Proofs.Nets — nets are the classes of what was joined.

  - `find_union_eq_iff`: one union joins the nets of its two elements and no others.
  - `find_joinAll_eq_iff`: after any unions, from any nets, two elements have one
    representative iff the old nets and the united pairs connect them.
  - `mem_members_joinAll`: the members are what the united pairs mention.
-/

import Mathlib.Logic.Relation
import Patchbay.Routing.Nets

namespace Patchbay.Routing.Nets

open Relation (EqvGen)

variable {α : Type} [DecidableEq α]

def joinAll (n : Nets α) (pairs : List (α × α)) : Nets α := pairs.foldl (fun n e => n.union e.1 e.2) n

@[simp] theorem joinAll_nil (n : Nets α) : n.joinAll [] = n := rfl

@[simp] theorem joinAll_cons (n : Nets α) (e : α × α) (pairs : List (α × α)) :
    n.joinAll (e :: pairs) = (n.union e.1 e.2).joinAll pairs := rfl

/-! ## One union -/

theorem find_union_eq_iff (n : Nets α) (a b c d : α) :
    (n.union a b).find c = (n.union a b).find d ↔
      n.find c = n.find d ∨ (n.find c = n.find a ∧ n.find d = n.find b) ∨
        (n.find c = n.find b ∧ n.find d = n.find a) := by
  rw [find_union, find_union]
  by_cases hc : n.find c = n.find b
  · by_cases hd : n.find d = n.find b
    · simp [hc, hd]
    · rw [if_pos hc, if_neg hd]
      constructor
      · intro h; exact Or.inr (Or.inr ⟨hc, h.symm⟩)
      · intro hx
        rcases hx with h | ⟨_, h⟩ | ⟨_, h⟩
        · exact absurd (h.symm.trans hc) hd
        · exact absurd h hd
        · exact h.symm
  · by_cases hd : n.find d = n.find b
    · rw [if_neg hc, if_pos hd]
      constructor
      · intro h; exact Or.inr (Or.inl ⟨h, hd⟩)
      · intro hx
        rcases hx with h | ⟨h, _⟩ | ⟨h, _⟩
        · exact absurd (h.trans hd) hc
        · exact h
        · exact absurd h hc
    · rw [if_neg hc, if_neg hd]
      simp [hc, hd]

theorem find_union_of_find_eq (n : Nets α) (a b : α) {c d : α} (h : n.find c = n.find d) :
    (n.union a b).find c = (n.union a b).find d :=
  (find_union_eq_iff n a b c d).2 (Or.inl h)

theorem find_union_self (n : Nets α) (a b : α) : (n.union a b).find a = (n.union a b).find b :=
  (find_union_eq_iff n a b a b).2 (Or.inr (Or.inl ⟨rfl, rfl⟩))

/-! ## Many unions -/

/-- What connects two elements at once: an old net, or a pair to be united. -/
def Tied (n : Nets α) (pairs : List (α × α)) (a b : α) : Prop := n.find a = n.find b ∨ (a, b) ∈ pairs

/-- Having one representative is an equivalence. -/
theorem find_eq_equivalence (n : Nets α) : Equivalence fun a b => n.find a = n.find b :=
  ⟨fun _ => rfl, Eq.symm, Eq.trans⟩

/-- Uniting the first pair beforehand leaves the same connections. -/
theorem eqvGen_tied_cons (n : Nets α) (e : α × α) (pairs : List (α × α)) (c d : α) :
    EqvGen (Tied (n.union e.1 e.2) pairs) c d ↔ EqvGen (Tied n (e :: pairs)) c d := by
  obtain ⟨a, b⟩ := e
  have hab : EqvGen (Tied n ((a, b) :: pairs)) a b := .rel _ _ (Or.inr List.mem_cons_self)
  have old {x y : α} (h : n.find x = n.find y) : EqvGen (Tied n ((a, b) :: pairs)) x y := .rel _ _ (Or.inl h)
  constructor
  · refine EqvGen.eqvGen_le (fun x y h => ?_) c d
    rcases h with h | h
    · rcases (find_union_eq_iff n a b x y).1 h with h | ⟨hx, hy⟩ | ⟨hx, hy⟩
      · exact old h
      · exact .trans _ _ _ (old hx) (.trans _ _ _ hab (old hy.symm))
      · exact .trans _ _ _ (old hx) (.trans _ _ _ (.symm _ _ hab) (old hy.symm))
    · exact .rel _ _ (Or.inr (List.mem_cons_of_mem _ h))
  · refine EqvGen.mono (fun x y h => ?_) c d
    rcases h with h | h
    · exact Or.inl (find_union_of_find_eq n a b h)
    · rcases List.mem_cons.1 h with h | h
      · cases h; exact Or.inl (find_union_self n a b)
      · exact Or.inr h

theorem find_joinAll_eq_iff (n : Nets α) (pairs : List (α × α)) (c d : α) :
    (n.joinAll pairs).find c = (n.joinAll pairs).find d ↔ EqvGen (Tied n pairs) c d := by
  induction pairs generalizing n with
  | nil =>
    have hn : Tied n [] = fun a b => n.find a = n.find b := by funext a b; simp [Tied]
    rw [hn, (find_eq_equivalence n).eqvGen_iff, joinAll_nil]
  | cons e pairs ih => rw [joinAll_cons, ih, eqvGen_tied_cons]

/-- Nets made from nothing are the classes of the equivalence closure of the united pairs. -/
theorem find_joinAll_empty_eq_iff (pairs : List (α × α)) (c d : α) :
    (({} : Nets α).joinAll pairs).find c = (({} : Nets α).joinAll pairs).find d ↔
      EqvGen (fun a b => (a, b) ∈ pairs) c d := by
  rw [find_joinAll_eq_iff]
  constructor
  · refine EqvGen.eqvGen_le (fun x y h => ?_) c d
    rcases h with h | h
    · cases (h : x = y); exact .refl x
    · exact .rel _ _ h
  · exact EqvGen.mono (fun _ _ h => Or.inr h) c d

theorem mem_members_joinAll (n : Nets α) (pairs : List (α × α)) (c : α) :
    c ∈ (n.joinAll pairs).members ↔ c ∈ n.members ∨ ∃ e ∈ pairs, c = e.1 ∨ c = e.2 := by
  induction pairs generalizing n with
  | nil => simp
  | cons e pairs ih =>
    rw [joinAll_cons, ih, mem_members_union]
    simp only [List.mem_cons, exists_eq_or_imp]
    constructor
    · intro hx
      rcases hx with (h | h | h) | h
      · exact Or.inr (Or.inl (Or.inr h))
      · exact Or.inr (Or.inl (Or.inl h))
      · exact Or.inl h
      · exact Or.inr (Or.inr h)
    · intro hx
      rcases hx with h | (h | h) | h
      · exact Or.inl (Or.inr (Or.inr h))
      · exact Or.inl (Or.inr (Or.inl h))
      · exact Or.inl (Or.inl h)
      · exact Or.inr h

end Patchbay.Routing.Nets
