/-
  Patchbay.Bus — bus numbers and the counter that hands them out.

  Buses are numbered apart in the audio and the control space. The two lowest numbers of
  each are reserved: inlets without a cable read bus 0, which nothing writes, and outlets
  without a cable write bus 1, which nothing reads.
-/

import Patchbay.Rate

namespace Patchbay

abbrev Bus := Nat

namespace Bus

/-- Read by inlets that no cable reaches. -/
def silent : Bus := 0

/-- Written by outlets that no cable leaves. -/
def discard : Bus := 1

/-- The first number a counter hands out. -/
def firstFree : Bus := 2

def isReserved (b : Bus) : Bool := b < firstFree

end Bus

/-- How many buses of each rate were handed out. -/
structure BusCounter where
  audio : Nat := 0
  control : Nat := 0
  deriving DecidableEq, Repr

namespace BusCounter

def handedOut (c : BusCounter) : Rate → Nat
  | .audio => c.audio
  | .control => c.control

/-- The next free bus. -/
def next (c : BusCounter) (r : Rate) : Bus := Bus.firstFree + c.handedOut r

/-- The counter after its next bus of rate `r` is handed out. -/
def advance (c : BusCounter) : Rate → BusCounter
  | .audio => { c with audio := c.audio + 1 }
  | .control => { c with control := c.control + 1 }

def alloc (c : BusCounter) (r : Rate) : Bus × BusCounter := (c.next r, c.advance r)

/-- Highest bus in use, reserved ones included. -/
def highest (c : BusCounter) (r : Rate) : Bus := c.next r - 1

/-- Number of buses the space of rate `r` must provide. -/
def spaceSize (c : BusCounter) (r : Rate) : Nat := c.highest r + 1

@[simp] theorem handedOut_new (r : Rate) : handedOut {} r = 0 := by cases r <;> rfl

theorem handedOut_advance (c : BusCounter) (r s : Rate) :
    (c.advance r).handedOut s = c.handedOut s + if r = s then 1 else 0 := by
  cases r <;> cases s <;> rfl

theorem next_advance (c : BusCounter) (r s : Rate) : (c.advance r).next s = c.next s + if r = s then 1 else 0 := by
  simp only [next, handedOut_advance, Nat.add_assoc]

/-- No counter hands out a reserved bus. -/
theorem not_isReserved_next_add (c : BusCounter) (r : Rate) (n : Nat) : ¬Bus.isReserved (c.next r + n) := by
  have hle : Bus.firstFree ≤ c.next r + n := Nat.le_trans (Nat.le_add_right _ _) (Nat.le_add_right _ _)
  simpa [Bus.isReserved] using hle

theorem spaceSize_eq_next (c : BusCounter) (r : Rate) : c.spaceSize r = c.next r := by
  simp only [spaceSize, highest, next, Bus.firstFree]; omega

end BusCounter

end Patchbay
