/-
  Patchbay.Proofs.BitStrings — numbers and bytes spelled in bits, and read back.

  - `toNat_ofNat`, `ofNat_toNat`: spelling a number keeps it modulo a power of two, and
    spelling the number of a bit string gives the string.
  - `ofBytes_toBytes`: the bits of packed bytes are the packed bits and fewer than eight zeros.
  - `getElem?_ofBytes`: where a bit stands in its byte.
  - `ofBytes_injective`, `exists_ofBytes_eq`: bytes are told by their bits, and any whole number
    of eights of bits is that of some bytes.
  - `read?_eq`, `skip?_eq`: a reader, by the bits that are left.
-/

import Mathlib.Algebra.Group.Nat.Defs
import Mathlib.Logic.Function.Defs
import Patchbay.Bits

namespace Patchbay.Bits

/-! ## Numbers -/

theorem foldl_bits (n : Nat) (bits : List Bool) :
    bits.foldl (fun n b => 2 * n + b.toNat) n = n * 2 ^ bits.length + toNat bits := by
  induction bits generalizing n with
  | nil => simp [toNat]
  | cons b bits ih =>
    simp only [toNat, List.foldl_cons, List.length_cons, Nat.mul_zero, Nat.zero_add]
    rw [ih, ih b.toNat, Nat.pow_succ']
    grind

theorem toNat_cons (b : Bool) (bits : List Bool) : toNat (b :: bits) = b.toNat * 2 ^ bits.length + toNat bits := by
  rw [toNat, List.foldl_cons, Nat.mul_zero, Nat.zero_add, foldl_bits]

theorem toNat_append (xs ys : List Bool) : toNat (xs ++ ys) = toNat xs * 2 ^ ys.length + toNat ys := by
  have hxs : xs.foldl (fun n b => 2 * n + b.toNat) 0 = toNat xs := rfl
  rw [toNat, List.foldl_append, hxs, foldl_bits]

theorem toNat_replicate_false (n : Nat) : toNat (List.replicate n false) = 0 := by
  induction n with
  | zero => rfl
  | succ n ih => rw [List.replicate_succ, toNat_cons, ih, Bool.toNat_false, Nat.zero_mul]

theorem toNat_lt (bits : List Bool) : toNat bits < 2 ^ bits.length := by
  induction bits with
  | nil => exact Nat.one_pos
  | cons b bits ih =>
    rw [toNat_cons, List.length_cons, Nat.pow_succ]
    cases b <;> simp <;> omega

/-- The number that the low bits of `value` spell. -/
theorem toNat_ofNat (width value : Nat) : toNat (ofNat width value) = value % 2 ^ width := by
  induction width with
  | zero => simp [ofNat, toNat, Nat.mod_one]
  | succ width ih =>
    rw [ofNat, toNat_cons, length_ofNat, ih, Nat.toNat_testBit, Nat.mod_pow_succ, Nat.mul_comm, Nat.add_comm]

theorem ofNat_congr {width a b : Nat} (h : ∀ i < width, a.testBit i = b.testBit i) : ofNat width a = ofNat width b := by
  induction width with
  | zero => rfl
  | succ width ih => rw [ofNat, ofNat, h width (Nat.lt_succ_self _), ih fun i hi => h i (Nat.lt_succ_of_lt hi)]

theorem ofNat_toNat (bits : List Bool) : ofNat bits.length (toNat bits) = bits := by
  induction bits with
  | nil => rfl
  | cons b bits ih =>
    have hlow : ofNat bits.length (toNat (b :: bits)) = ofNat bits.length (toNat bits) :=
      ofNat_congr fun i hi => by
        rw [toNat_cons, Nat.mul_comm, Nat.testBit_two_pow_mul_add _ (toNat_lt bits), if_pos hi]
    have hhigh : (toNat (b :: bits)).testBit bits.length = b := by
      rw [toNat_cons, Nat.mul_comm, Nat.testBit_two_pow_mul_add _ (toNat_lt bits), if_neg (Nat.lt_irrefl _),
        Nat.sub_self]
      cases b <;> rfl
    rw [List.length_cons, ofNat, hhigh, hlow, ih]

/-! ## Bytes -/

theorem length_ofBytes (bytes : List UInt8) : (ofBytes bytes).length = 8 * bytes.length := by
  induction bytes with
  | nil => rfl
  | cons b bytes ih =>
    rw [ofBytes, List.flatMap_cons, List.length_append, length_ofNat, List.length_cons]
    rw [ofBytes] at ih
    omega

theorem ofBytes_cons_ofNat {group : List Bool} (h : group.length = 8) (bytes : List UInt8) :
    ofBytes (UInt8.ofNat (toNat group) :: bytes) = group ++ ofBytes bytes := by
  have hlt : toNat group < 256 := by
    have := toNat_lt group
    rwa [h] at this
  have hbits : ofNat 8 (toNat group) = group := h ▸ ofNat_toNat group
  rw [ofBytes, List.flatMap_cons, UInt8.toNat_ofNat_of_lt' hlt, hbits, ofBytes]

/-- The bits of packed bytes: what was packed, and zeros up to a whole byte. -/
theorem ofBytes_toBytes (bits : List Bool) : ∃ k < 8, ofBytes (toBytes bits) = bits ++ List.replicate k false := by
  induction bits using toBytes.induct with
  | case1 bits hempty =>
    rw [List.isEmpty_iff] at hempty
    subst hempty
    exact ⟨0, by decide, by simp [toBytes, ofBytes]⟩
  | case2 bits hne ih =>
    obtain ⟨k, hk, ih⟩ := ih
    have hgroup : (bits.take 8 ++ List.replicate (8 - (bits.take 8).length) false).length = 8 := by
      simp only [List.length_append, List.length_take, List.length_replicate]; omega
    rw [toBytes, if_neg hne, ofBytes_cons_ofNat hgroup, ih]
    by_cases hlen : bits.length ≤ 8
    · -- The last group: what follows is empty, and the zeros are those of the group.
      have hrest : bits.drop 8 = [] := List.drop_eq_nil_of_le hlen
      have hpos : 0 < bits.length := List.length_pos_iff.2 fun e => hne (by simp [e])
      have hk0 : k = 0 := by
        rw [hrest, toBytes] at ih
        simpa [ofBytes] using ih.symm
      refine ⟨8 - bits.length, by omega, ?_⟩
      rw [hrest, List.take_of_length_le hlen, hk0]
      simp
    · have hfull : (bits.take 8).length = 8 := by simp only [List.length_take]; omega
      refine ⟨k, hk, ?_⟩
      rw [hfull, Nat.sub_self, List.replicate_zero, List.append_nil, ← List.append_assoc, List.take_append_drop]

theorem length_toBytes (bits : List Bool) : (toBytes bits).length = (bits.length + 7) / 8 := by
  obtain ⟨k, hk, h⟩ := ofBytes_toBytes bits
  have hlen := congrArg List.length h
  rw [length_ofBytes, List.length_append, List.length_replicate] at hlen
  omega

/-! ## Single bits -/

theorem getElem?_ofNat {width i : Nat} (h : i < width) (value : Nat) :
    (ofNat width value)[i]? = some (value.testBit (width - 1 - i)) := by
  induction width generalizing i with
  | zero => omega
  | succ width ih =>
    rw [ofNat]
    cases i with
    | zero => simp
    | succ i =>
      have hplace : width + 1 - 1 - (i + 1) = width - 1 - i := by omega
      rw [List.getElem?_cons_succ, ih (Nat.lt_of_succ_lt_succ h), hplace]

/-- A bit stands in the byte of its eight, the first of them highest. -/
theorem getElem?_ofBytes (bytes : List UInt8) (i : Nat) :
    (ofBytes bytes)[i]? = bytes[i / 8]?.map fun b => b.toNat.testBit (7 - i % 8) := by
  induction bytes generalizing i with
  | nil => simp [ofBytes]
  | cons b bytes ih =>
    have hcons : ofBytes (b :: bytes) = ofNat 8 b.toNat ++ ofBytes bytes := List.flatMap_cons
    rw [hcons]
    by_cases hi : i < 8
    · have hdiv : i / 8 = 0 := Nat.div_eq_of_lt hi
      have hmod : i % 8 = i := Nat.mod_eq_of_lt hi
      rw [List.getElem?_append_left (by rwa [length_ofNat]), getElem?_ofNat hi, hdiv, hmod]
      rfl
    · have hdiv : i / 8 = (i - 8) / 8 + 1 := by omega
      have hmod : i % 8 = (i - 8) % 8 := by omega
      rw [List.getElem?_append_right (by rw [length_ofNat]; omega), length_ofNat, ih, hdiv, hmod,
        List.getElem?_cons_succ]

/-! ## Bytes from their bits -/

theorem ofBytes_append (xs ys : List UInt8) : ofBytes (xs ++ ys) = ofBytes xs ++ ofBytes ys := List.flatMap_append

theorem ofBytes_concat (bytes : List UInt8) (last : UInt8) :
    ofBytes (bytes ++ [last]) = ofBytes bytes ++ ofNat 8 last.toNat := by
  have hlast : ofBytes [last] = ofNat 8 last.toNat := List.append_nil _
  rw [ofBytes_append, hlast]

theorem ofBytes_flatMap {α : Type} (l : List α) (f : α → List UInt8) :
    ofBytes (l.flatMap f) = l.flatMap fun a => ofBytes (f a) := List.flatMap_assoc

theorem ofBytes_injective : Function.Injective ofBytes := by
  intro xs ys h
  induction xs generalizing ys with
  | nil =>
    have hlen := congrArg List.length h
    rw [length_ofBytes, length_ofBytes, List.length_nil] at hlen
    exact (List.length_eq_zero_iff.1 (by omega)).symm
  | cons x xs ih =>
    cases ys with
    | nil =>
      have hlen := congrArg List.length h
      rw [length_ofBytes, length_ofBytes, List.length_nil, List.length_cons] at hlen
      omega
    | cons y ys =>
      rw [ofBytes, List.flatMap_cons, ofBytes, List.flatMap_cons] at h
      obtain ⟨hfirst, hrest⟩ := List.append_inj h (by rw [length_ofNat, length_ofNat])
      have hvalue := congrArg toNat hfirst
      rw [toNat_ofNat, toNat_ofNat, Nat.mod_eq_of_lt x.toNat_lt, Nat.mod_eq_of_lt y.toNat_lt] at hvalue
      rw [UInt8.toNat.inj hvalue, ih hrest]

/-- Bits that fill whole bytes are those of some bytes. -/
theorem exists_ofBytes_eq {bits : List Bool} {n : Nat} (h : bits.length = 8 * n) :
    ∃ bytes, bytes.length = n ∧ ofBytes bytes = bits := by
  obtain ⟨k, hk, hbits⟩ := ofBytes_toBytes bits
  have hlen := congrArg List.length hbits
  rw [length_ofBytes, List.length_append, List.length_replicate, h] at hlen
  obtain rfl : k = 0 := by omega
  exact ⟨toBytes bits, by omega, by simpa using hbits⟩

/-! ## Readers -/

namespace Reader

theorem read?_eq (r : Reader) (width : Nat) :
    r.read? width = if width ≤ r.rest.length
      then some (toNat (r.rest.take width), ⟨r.position + width, r.rest.drop width⟩) else none := by
  rw [read?, split?_eq]
  split <;> rfl

theorem skip?_eq (r : Reader) (width : Nat) :
    r.skip? width = if width ≤ r.rest.length then some ⟨r.position + width, r.rest.drop width⟩ else none := by
  rw [skip?, split?_eq]
  split <;> rfl

end Reader

end Patchbay.Bits
