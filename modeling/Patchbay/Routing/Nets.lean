/-
  Patchbay.Routing.Nets — what has been joined, and by which member a net goes.

  Joining two elements makes the net of the second go by the representative of the first's.
  That is one step `(kept, gone)`, after which whatever went by `gone` goes by `kept`, and an
  element's representative is found by taking the steps in the order they were made. An
  element no step moves goes by itself.
-/

namespace Patchbay.Routing

structure Nets (α : Type) where
  /-- Representatives kept and gone, newest first. -/
  merges : List (α × α) := []
  /-- Every element that was joined to some element, once. -/
  members : List α := []
  deriving Repr

namespace Nets

variable {α : Type} [DecidableEq α]

/-- One step: who goes by `m.2` goes by `m.1` from then on. -/
def follow (m : α × α) (a : α) : α := if a = m.2 then m.1 else a

def find (n : Nets α) (a : α) : α := n.merges.foldr follow a

def mention (members : List α) (a : α) : List α := if a ∈ members then members else a :: members

def union (n : Nets α) (a b : α) : Nets α where
  merges := (n.find a, n.find b) :: n.merges
  members := mention (mention n.members a) b

/-- After a union, what went by the second representative goes by the first. -/
theorem find_union (n : Nets α) (a b c : α) :
    (n.union a b).find c = if n.find c = n.find b then n.find a else n.find c := rfl

theorem mem_mention {members : List α} {a b : α} : b ∈ mention members a ↔ b = a ∨ b ∈ members := by
  unfold mention
  split
  · next h => exact ⟨Or.inr, fun o => o.elim (fun e => e ▸ h) id⟩
  · simp

theorem mem_members_union (n : Nets α) (a b c : α) :
    c ∈ (n.union a b).members ↔ c = b ∨ c = a ∨ c ∈ n.members := by
  simp [union, mem_mention]

end Nets

end Patchbay.Routing
