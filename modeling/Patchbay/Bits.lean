/-
  Patchbay.Bits — bit strings, most significant bit first.

  A byte list is read as the bit string `ofBytes`, each byte contributing its eight bits
  from the highest down. A `Reader` holds the bits that are left and how many it has
  passed; a read or skip that finds too few bits fails and there is then no new reader, so
  the caller goes on from the old one. A `Field` is a value with a width; `pack` writes
  fields one after the other and fills the last byte with zeros.
-/

namespace Patchbay.Bits

/-! ## Numbers and bytes as bits -/

/-- The `width` low bits of `value`, highest first. -/
def ofNat : Nat → Nat → List Bool
  | 0, _ => []
  | width + 1, value => value.testBit width :: ofNat width value

/-- The number a bit string spells, highest bit first. -/
def toNat (bits : List Bool) : Nat := bits.foldl (fun n b => 2 * n + b.toNat) 0

def ofBytes (bytes : List UInt8) : List Bool := bytes.flatMap (fun b => ofNat 8 b.toNat)

/-- Eight bits to a byte; a last group of fewer is filled with zeros on the right. -/
def toBytes (bits : List Bool) : List UInt8 :=
  if bits.isEmpty then []
  else
    let group := bits.take 8
    UInt8.ofNat (toNat (group ++ List.replicate (8 - group.length) false)) :: toBytes (bits.drop 8)
termination_by bits.length
decreasing_by
  cases bits with
  | nil => simp at *
  | cons b bits => simp only [List.length_drop, List.length_cons]; omega

/-! ## Fields -/

structure Field where
  width : Nat
  value : Nat
  deriving DecidableEq, Repr

/-- Bits of the value above the width are lost. -/
def Field.bits (f : Field) : List Bool := ofNat f.width f.value

def pack (fields : List Field) : List UInt8 := toBytes (fields.flatMap Field.bits)

/-! ## Reader -/

/-- Cut off the first `n` elements, or nothing when there are fewer. -/
def split? {α : Type} : Nat → List α → Option (List α × List α)
  | 0, l => some ([], l)
  | _ + 1, [] => none
  | n + 1, a :: l => (split? n l).map fun (front, rest) => (a :: front, rest)

structure Reader where
  /-- Number of bits passed. -/
  position : Nat
  rest : List Bool
  deriving DecidableEq, Repr

namespace Reader

def ofBytes (bytes : List UInt8) : Reader := ⟨0, Bits.ofBytes bytes⟩

def read? (r : Reader) (width : Nat) : Option (Nat × Reader) :=
  (split? width r.rest).map fun (bits, rest) => (toNat bits, ⟨r.position + width, rest⟩)

def skip? (r : Reader) (width : Nat) : Option Reader :=
  (split? width r.rest).map fun (_, rest) => ⟨r.position + width, rest⟩

def remaining (r : Reader) : Nat := r.rest.length

/-- Whole bytes touched; a byte read in part counts. -/
def bytesConsumed (r : Reader) : Nat := (r.position + 7) / 8

end Reader

/-! ## The cut -/

theorem split?_eq {α : Type} (n : Nat) (l : List α) :
    split? n l = if n ≤ l.length then some (l.take n, l.drop n) else none := by
  induction n generalizing l with
  | zero => simp [split?]
  | succ n ih =>
    cases l with
    | nil => simp [split?]
    | cons a l =>
      rw [split?, ih]
      by_cases h : n ≤ l.length <;> simp [h]

theorem length_ofNat (width value : Nat) : (ofNat width value).length = width := by
  induction width with
  | zero => rfl
  | succ width ih => simp [ofNat, ih]

end Patchbay.Bits
