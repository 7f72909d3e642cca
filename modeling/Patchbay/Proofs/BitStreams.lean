/-
  Patchbay.Proofs.BitStreams — bits put into bytes and taken out of them, in machine words.

  `pack` and `Reader` have their bits in lists. Here they are moved as words are: a writer sets one
  bit after the other in the last of its bytes, and a reader takes each out of its byte by a shift
  and shifts it into a word of 32 bits. A reader is asked for fields and to pass over others, and
  goes on where it was when there is too little left.
  - `Writer.Holds.writeAll`, `Writer.Holds.eq_toBytes`: the bytes written are those of `pack`.
  - `Answered`: what a bit string answers to a sequence of requests, by its slices.
  - `Positions.exists_answered`: both readers give these answers, and keep their position.
  - `streams_share_bits`: writing and reading are of one bit string.
-/

import Mathlib.Data.List.ModifyLast
import Patchbay.Proofs.Positions

namespace Patchbay.Bits

/-! ## Fields of words -/

abbrev Width := { width : Nat // 1 ≤ width ∧ width ≤ 32 }

structure WordField where
  width : Width
  value : UInt32

namespace WordField

def field (f : WordField) : Field := ⟨f.width, f.value.toNat⟩

def bits (f : WordField) : List Bool := f.field.bits

end WordField

/-! ## Single bits of words -/

theorem shiftRight_and_one (n i : Nat) : n >>> i &&& 1 = (n.testBit i).toNat := by
  rw [Nat.and_one_is_mod, Nat.toNat_testBit, Nat.shiftRight_eq_div_pow]

theorem toNat_toUInt8 (b : Bool) : b.toUInt8.toNat = b.toNat := by cases b <;> rfl

theorem toNat_toUInt32 (b : Bool) : b.toUInt32.toNat = b.toNat := by cases b <;> rfl

/-- A bit of a word, as a byte. -/
theorem bit_of_word (value : UInt32) {i : Nat} (h : i < 32) :
    ((value >>> UInt32.ofNat i) &&& 1).toUInt8 = (value.toNat.testBit i).toUInt8 := by
  have hplace : (UInt32.ofNat i).toNat % 32 = i := by
    rw [UInt32.toNat_ofNat']
    omega
  have hbit : (value.toNat.testBit i).toNat < 2 ^ 8 := by
    cases value.toNat.testBit i <;> decide
  apply UInt8.toNat.inj
  rw [UInt32.toNat_toUInt8, UInt32.toNat_and, UInt32.toNat_shiftRight, hplace, UInt32.toNat_one, shiftRight_and_one,
    Nat.mod_eq_of_lt hbit, toNat_toUInt8]

/-- A bit of a byte, as a word. -/
theorem bit_of_byte (byte : UInt8) {i : Nat} (h : i < 8) :
    ((byte >>> UInt8.ofNat i) &&& 1).toUInt32 = (byte.toNat.testBit i).toUInt32 := by
  have hplace : (UInt8.ofNat i).toNat % 8 = i := by
    rw [UInt8.toNat_ofNat']
    omega
  apply UInt32.toNat.inj
  rw [UInt8.toNat_toUInt32, UInt8.toNat_and, UInt8.toNat_shiftRight, hplace, UInt8.toNat_one, shiftRight_and_one,
    toNat_toUInt32]

/-- A bit shifted into a word that has room for it. -/
theorem toNat_shiftIn {value : UInt32} (h : value.toNat < 2 ^ 31) (b : Bool) :
    (value <<< 1 ||| b.toUInt32).toNat = 2 * value.toNat + b.toNat := by
  have hb : b.toNat < 2 ^ 1 := by cases b <;> decide
  have hone : (1 : UInt32).toNat % 32 = 1 := rfl
  rw [UInt32.toNat_or, UInt32.toNat_shiftLeft, hone, toNat_toUInt32, Nat.shiftLeft_eq, Nat.mod_eq_of_lt (by omega),
    Nat.mul_comm, ← Nat.pow_one 2, ← Nat.two_pow_add_eq_or_of_lt hb]

/-! ## Writing -/

/-- Bytes of which the last may still have bits to be set. -/
structure Writer where
  bytes : List UInt8 := []
  /-- Number of bits written. -/
  position : Nat := 0

namespace Writer

def put (w : Writer) (bit : UInt8) : Writer where
  bytes := (if w.position % 8 = 0 then w.bytes ++ [0] else w.bytes).modifyLast
    (· ||| bit <<< UInt8.ofNat (7 - w.position % 8))
  position := w.position + 1

def write (value : UInt32) : Nat → Writer → Writer
  | 0, w => w
  | i + 1, w => write value i (w.put ((value >>> UInt32.ofNat i) &&& 1).toUInt8)

def writeAll (w : Writer) (fields : List WordField) : Writer := fields.foldl (fun w f => write f.value f.width w) w

/-- The bytes are the bits written and less than a byte of zeros. -/
structure Holds (w : Writer) (bits : List Bool) : Prop where
  position_eq : w.position = bits.length
  padded : ∃ k < 8, ofBytes w.bytes = bits ++ List.replicate k false

theorem holds_empty : Holds {} [] := ⟨rfl, 0, by decide, rfl⟩

end Writer

/-- A bit set in a byte behind those that are set, where there were zeros. -/
theorem ofNat_setBit {last : UInt8} {front : List Bool} {m : Nat} (hlen : front.length + (m + 1) = 8)
    (h : ofNat 8 last.toNat = front ++ List.replicate (m + 1) false) (b : Bool) :
    ofNat 8 (last ||| b.toUInt8 <<< UInt8.ofNat m).toNat = front ++ b :: List.replicate m false := by
  have hplace : (UInt8.ofNat m).toNat % 8 = m := by
    rw [UInt8.toNat_ofNat']
    omega
  have hlast : last.toNat = 2 ^ (m + 1) * toNat front := by
    have hvalue := congrArg toNat h
    rwa [toNat_ofNat, Nat.mod_eq_of_lt last.toNat_lt, toNat_append, toNat_replicate_false, List.length_replicate,
      Nat.add_zero, Nat.mul_comm] at hvalue
  have hbit : b.toNat <<< m < 2 ^ (m + 1) := by
    have hpos : 0 < 2 ^ m := Nat.two_pow_pos m
    rw [Nat.shiftLeft_eq, Nat.pow_succ]
    cases b
    · rw [Bool.toNat_false]
      omega
    · rw [Bool.toNat_true]
      omega
  have hbyte : b.toNat <<< m < 2 ^ 8 := Nat.lt_of_lt_of_le hbit (Nat.pow_le_pow_right (by decide) (by omega))
  have hvalue : (last ||| b.toUInt8 <<< UInt8.ofNat m).toNat = toNat (front ++ b :: List.replicate m false) := by
    calc (last ||| b.toUInt8 <<< UInt8.ofNat m).toNat
        = last.toNat ||| b.toNat <<< m := by
          rw [UInt8.toNat_or, UInt8.toNat_shiftLeft, hplace, toNat_toUInt8, Nat.mod_eq_of_lt hbyte]
      _ = 2 ^ (m + 1) * toNat front + b.toNat <<< m := by
          rw [hlast, Nat.two_pow_add_eq_or_of_lt hbit]
      _ = toNat (front ++ b :: List.replicate m false) := by
          rw [toNat_append, toNat_cons, toNat_replicate_false, List.length_cons, List.length_replicate,
            Nat.shiftLeft_eq, Nat.mul_comm (2 ^ (m + 1)), Nat.add_zero (b.toNat * 2 ^ m)]
  have hspelled := ofNat_toNat (front ++ b :: List.replicate m false)
  rwa [List.length_append, List.length_cons, List.length_replicate, hlen, ← hvalue] at hspelled

namespace Writer

variable {w : Writer} {bits : List Bool}

/-- The byte that the next bit goes to: it holds the last bits that fill no whole byte. -/
theorem Holds.exists_open (h : w.Holds bits) :
    ∃ init last front m, (if w.position % 8 = 0 then w.bytes ++ [0] else w.bytes) = init ++ [last] ∧
      bits = ofBytes init ++ front ∧ front.length + (m + 1) = 8 ∧ w.position % 8 = front.length ∧
      ofNat 8 last.toNat = front ++ List.replicate (m + 1) false := by
  obtain ⟨hposition, k, hk, hbits⟩ := h
  have hlen : 8 * w.bytes.length = bits.length + k := by
    have hcount := congrArg List.length hbits
    rwa [length_ofBytes, List.length_append, List.length_replicate] at hcount
  split
  · next hfull =>
    obtain rfl : k = 0 := by omega
    rw [List.replicate_zero, List.append_nil] at hbits
    exact ⟨w.bytes, 0, [], 7, rfl, by rw [hbits, List.append_nil], rfl, hfull, by decide⟩
  · next hopen =>
    obtain hnone | ⟨init, last, hlast⟩ := List.eq_nil_or_concat w.bytes
    · rw [hnone, List.length_nil] at hlen
      omega
    obtain ⟨m, rfl⟩ : ∃ m, k = m + 1 := ⟨k - 1, by omega⟩
    rw [hlast, List.length_concat] at hlen
    rw [hlast, List.concat_eq_append, ofBytes_concat] at hbits
    have hsplit : ofBytes init ++ ofNat 8 last.toNat =
        bits.take (8 * init.length) ++ (bits.drop (8 * init.length) ++ List.replicate (m + 1) false) := by
      rw [hbits, ← List.append_assoc, List.take_append_drop]
    have hwhole : (ofBytes init).length = (bits.take (8 * init.length)).length := by
      rw [length_ofBytes, List.length_take]
      omega
    obtain ⟨hinit, hrest⟩ := List.append_inj hsplit hwhole
    refine ⟨init, last, bits.drop (8 * init.length), m, by rw [hlast, List.concat_eq_append], ?_, ?_, ?_, hrest⟩
    · rw [hinit, List.take_append_drop]
    · rw [List.length_drop]
      omega
    · rw [List.length_drop]
      omega

theorem Holds.put (h : w.Holds bits) (b : Bool) : (w.put b.toUInt8).Holds (bits ++ [b]) := by
  obtain ⟨init, last, front, m, hbytes, hbits, hlen, hposition, hopen⟩ := h.exists_open
  have hplace : 7 - w.position % 8 = m := by omega
  refine ⟨?_, m, by omega, ?_⟩
  · rw [Writer.put, h.position_eq, List.length_append]
    rfl
  · rw [Writer.put, hbytes, hplace, List.modifyLast_concat, ofBytes_concat, ofNat_setBit hlen hopen, hbits]
    simp only [List.append_assoc, List.singleton_append]

theorem Holds.write (h : w.Holds bits) (value : UInt32) {n : Nat} (hn : n ≤ 32) :
    (write value n w).Holds (bits ++ ofNat n value.toNat) := by
  induction n generalizing w bits with
  | zero =>
    rw [ofNat, List.append_nil]
    exact h
  | succ i ih =>
    have hput := h.put (value.toNat.testBit i)
    rw [← bit_of_word value hn] at hput
    have hrest := ih hput (Nat.le_of_succ_le hn)
    rwa [List.append_assoc, List.singleton_append] at hrest

theorem Holds.writeAll (h : w.Holds bits) (fields : List WordField) :
    (w.writeAll fields).Holds (bits ++ fields.flatMap WordField.bits) := by
  induction fields generalizing w bits with
  | nil =>
    rw [List.flatMap_nil, List.append_nil]
    exact h
  | cons f fields ih =>
    have hrest := ih (h.write f.value f.width.2.2)
    rwa [List.append_assoc] at hrest

/-- Bytes that hold a bit string are the packed string: only one number of zeros fills it up. -/
theorem Holds.eq_toBytes (h : w.Holds bits) : w.bytes = toBytes bits := by
  obtain ⟨-, k, hk, hbits⟩ := h
  obtain ⟨k', hk', hpacked⟩ := ofBytes_toBytes bits
  have hlen := congrArg List.length hbits
  have hlen' := congrArg List.length hpacked
  rw [length_ofBytes, List.length_append, List.length_replicate] at hlen hlen'
  obtain rfl : k = k' := by omega
  exact ofBytes_injective (hbits.trans hpacked.symm)

end Writer

def written (fields : List WordField) : List UInt8 := (({} : Writer).writeAll fields).bytes

theorem written_eq_pack (fields : List WordField) : written fields = pack (fields.map WordField.field) := by
  have h : written fields = toBytes (fields.flatMap WordField.bits) := (Writer.holds_empty.writeAll fields).eq_toBytes
  rw [h, pack, List.flatMap_map]
  rfl

/-! ## Requests -/

inductive Request
  /-- A field of so many bits. -/
  | read (width : Width)
  /-- To pass over so many bits. -/
  | skip (width : Nat)

inductive Answer
  | value (n : Nat)
  | passed
  /-- There are too few bits left. -/
  | refused
  deriving DecidableEq, Repr

namespace Request

def width : Request → Nat
  | read width => width
  | skip width => width

def answer : Request → List Bool → Answer
  | read _, bits => .value (toNat bits)
  | skip _, _ => .passed

end Request

/-- What a bit string answers, from one position in it to another: a request gets the next bits,
    or there are too few of them and it is refused where it stands. -/
inductive Answered (bits : List Bool) : Nat → List Request → List Answer → Nat → Prop
  | done (position : Nat) : Answered bits position [] [] position
  | granted {position : Nat} {q : Request} {asked : List Request} {answers : List Answer} {last : Nat}
      {front slice back : List Bool} :
      bits = front ++ slice ++ back → front.length = position → slice.length = q.width →
      Answered bits (position + q.width) asked answers last →
      Answered bits position (q :: asked) (q.answer slice :: answers) last
  | refused {position : Nat} {q : Request} {asked : List Request} {answers : List Answer} {last : Nat} :
      bits.length < position + q.width → Answered bits position asked answers last →
      Answered bits position (q :: asked) (.refused :: answers) last

namespace Answered

variable {bits : List Bool} {position last last' : Nat} {asked : List Request} {answers answers' : List Answer}

/-- A bit string has one answer. -/
theorem unique (h : Answered bits position asked answers last) (h' : Answered bits position asked answers' last') :
    answers = answers' ∧ last = last' := by
  induction h generalizing answers' last' with
  | done =>
    cases h'
    exact ⟨rfl, rfl⟩
  | granted hbits hfront hslice _ ih =>
    cases h' with
    | granted hbits' hfront' hslice' h' =>
      have hsame := hbits.symm.trans hbits'
      rw [List.append_assoc, List.append_assoc] at hsame
      obtain ⟨-, hrest⟩ := List.append_inj hsame (hfront.trans hfront'.symm)
      obtain ⟨rfl, -⟩ := List.append_inj hrest (hslice.trans hslice'.symm)
      obtain ⟨rfl, rfl⟩ := ih h'
      exact ⟨rfl, rfl⟩
    | refused hshort =>
      rw [hbits, List.length_append, List.length_append] at hshort
      omega
  | refused hshort _ ih =>
    cases h' with
    | granted hbits' hfront' hslice' =>
      rw [hbits', List.length_append, List.length_append] at hshort
      omega
    | refused _ h' =>
      obtain ⟨rfl, rfl⟩ := ih h'
      exact ⟨rfl, rfl⟩

/-- The next bits are those that are cut off behind the position. -/
theorem granted_of_le {q : Request} (hfits : position + q.width ≤ bits.length)
    (h : Answered bits (position + q.width) asked answers last) :
    Answered bits position (q :: asked) (q.answer ((bits.drop position).take q.width) :: answers) last := by
  have hcut : bits = bits.take position ++ (bits.drop position).take q.width ++ (bits.drop position).drop q.width := by
    rw [List.append_assoc, List.take_append_drop, List.take_append_drop]
  refine .granted hcut ?_ ?_ h
  · rw [List.length_take]
    omega
  · rw [List.length_take, List.length_drop]
    omega

/-- Fields asked for with the widths they were written with are answered with their values. -/
theorem of_fields (fields : List WordField) (front back : List Bool) :
    Answered (front ++ (fields.flatMap WordField.bits ++ back)) front.length (fields.map fun f => .read f.width)
      (fields.map fun f => .value (f.value.toNat % 2 ^ f.width.1))
      (front.length + (fields.flatMap WordField.bits).length) := by
  induction fields generalizing front with
  | nil => exact .done _
  | cons f fields ih =>
    have hlen : f.bits.length = f.width := length_ofNat _ _
    have hvalue : (Request.read f.width).answer f.bits = .value (f.value.toNat % 2 ^ f.width.1) :=
      congrArg Answer.value (toNat_ofNat _ _)
    have hstart : (front ++ f.bits).length = front.length + f.width := by rw [List.length_append, hlen]
    have hend : (front ++ f.bits).length + (fields.flatMap WordField.bits).length =
        front.length + (f.bits ++ fields.flatMap WordField.bits).length := by
      rw [List.length_append, List.length_append, Nat.add_assoc]
    have hrest := ih (front ++ f.bits)
    rw [hend, hstart, List.append_assoc] at hrest
    rw [List.map_cons, List.map_cons, ← hvalue, List.flatMap_cons, List.append_assoc]
    exact .granted (List.append_assoc ..).symm rfl hlen hrest

end Answered

namespace Reader

def ask (r : Reader) : Request → Answer × Reader
  | .read width =>
    match r.read? width with
    | some (value, r) => (.value value, r)
    | none => (.refused, r)
  | .skip width =>
    match r.skip? width with
    | some r => (.passed, r)
    | none => (.refused, r)

def askAll (r : Reader) : List Request → List Answer × Reader
  | [] => ([], r)
  | q :: asked =>
    let (answer, r) := r.ask q
    let (answers, r) := r.askAll asked
    (answer :: answers, r)

variable {r : Reader} {q : Request}

theorem ask_granted (h : q.width ≤ r.rest.length) :
    r.ask q = (q.answer (r.rest.take q.width), ⟨r.position + q.width, r.rest.drop q.width⟩) := by
  cases q with
  | read width =>
    rw [Request.width] at h
    simp only [ask, read?_eq, if_pos h, Request.answer, Request.width]
  | skip width =>
    rw [Request.width] at h
    simp only [ask, skip?_eq, if_pos h, Request.answer, Request.width]

theorem ask_refused (h : r.rest.length < q.width) : r.ask q = (.refused, r) := by
  cases q with
  | read width =>
    rw [Request.width] at h
    simp only [ask, read?_eq, if_neg (Nat.not_le_of_lt h)]
  | skip width =>
    rw [Request.width] at h
    simp only [ask, skip?_eq, if_neg (Nat.not_le_of_lt h)]

theorem askAll_cons {r' last : Reader} {answer : Answer} {asked : List Request} {answers : List Answer}
    (h : r.ask q = (answer, r')) (hrest : r'.askAll asked = (answers, last)) :
    r.askAll (q :: asked) = (answer :: answers, last) := by
  simp only [askAll, h, hrest]

end Reader

end Patchbay.Bits

namespace Patchbay.Container.Positions

open Bits

/-! ## Reading -/

namespace Cursor

def wordBit (c : Cursor) : Option UInt32 := do
  let byte ← c.payload[c.position / 8]?
  let place ← minus 7 (c.position % 8)
  return ((byte >>> UInt8.ofNat place) &&& 1).toUInt32

def word : Nat → UInt32 → Cursor → Option (UInt32 × Cursor)
  | 0, value, c => some (value, c)
  | n + 1, value, c => do
    let bit ← c.wordBit
    word n (value <<< 1 ||| bit) (c.advance 1)

def consumed (c : Cursor) : Nat := (c.position + 7) / 8

/-- A request that is refused leaves the cursor where it is. -/
def ask (c : Cursor) : Request → Option (Answer × Cursor)
  | .read width => do
    let remaining ← c.remaining
    if remaining < width then return (.refused, c)
    let (value, c) ← c.word width 0
    return (.value value.toNat, c)
  | .skip width => do
    let remaining ← c.remaining
    if remaining < width then return (.refused, c)
    return (.passed, c.advance width)

def askAll (c : Cursor) : List Request → Option (List Answer × Cursor)
  | [] => some ([], c)
  | q :: asked => do
    let (answer, c) ← c.ask q
    let (answers, c) ← c.askAll asked
    return (answer :: answers, c)

theorem wordBit_eq (c : Cursor) : c.wordBit = c.bit.map Bool.toUInt32 := by
  rw [wordBit, bit]
  cases c.payload[c.position / 8]? with
  | none => rfl
  | some byte =>
    cases hplace : minus 7 (c.position % 8) with
    | none => rfl
    | some place =>
      have hlt : place < 8 := by
        unfold minus at hplace
        split at hplace
        · cases hplace
          omega
        · cases hplace
      exact congrArg some (bit_of_byte byte hlt)

/-- A word that has room for the bits holds the number that they spell. -/
theorem word_of_bits {n v : Nat} {c c' : Cursor} {value : UInt32} (hn : n ≤ 32) (hroom : value.toNat < 2 ^ (32 - n))
    (h : c.bits n value.toNat = some (v, c')) : ∃ result, c.word n value = some (result, c') ∧ result.toNat = v := by
  induction n generalizing c value with
  | zero =>
    cases h
    exact ⟨value, rfl, rfl⟩
  | succ n ih =>
    obtain ⟨b, hb, hrest⟩ := Option.bind_eq_some_iff.1 h
    have hbit : c.wordBit = some b.toUInt32 := by
      rw [wordBit_eq, hb]
      rfl
    have hshort : value.toNat < 2 ^ 31 := Nat.lt_of_lt_of_le hroom (Nat.pow_le_pow_right (by decide) (by omega))
    have hshifted := toNat_shiftIn hshort b
    have hroom' : (value <<< 1 ||| b.toUInt32).toNat < 2 ^ (32 - n) := by
      have hpow : 2 ^ (32 - n) = 2 * 2 ^ (32 - (n + 1)) := by
        rw [← Nat.pow_succ']
        congr 1
        omega
      have := Bool.toNat_le b
      omega
    rw [← hshifted] at hrest
    obtain ⟨result, hword, hresult⟩ := ih (Nat.le_of_succ_le hn) hroom' hrest
    refine ⟨result, ?_, hresult⟩
    rw [word, hbit, Option.bind_eq_bind, Option.bind_some, hword]

variable {c : Cursor} {q : Request}

theorem ask_granted (hwithin : c.Within) (h : q.width ≤ c.reader.rest.length) :
    c.ask q = some (q.answer (c.reader.rest.take q.width), c.advance q.width) := by
  have hremaining := remaining_eq hwithin
  cases q with
  | read width =>
    rw [Request.width] at h
    have hroom : (0 : UInt32).toNat < 2 ^ (32 - width.1) := Nat.two_pow_pos _
    obtain ⟨result, hword, hresult⟩ := word_of_bits width.2.2 hroom (bits_eq h 0)
    simp only [ask, hremaining, hword, Option.bind_eq_bind, Option.bind_some, if_neg (Nat.not_lt_of_le h), hresult]
    rfl
  | skip width =>
    rw [Request.width] at h
    simp only [ask, hremaining, Option.bind_eq_bind, Option.bind_some, if_neg (Nat.not_lt_of_le h)]
    rfl

theorem ask_refused (hwithin : c.Within) (h : c.reader.rest.length < q.width) : c.ask q = some (.refused, c) := by
  have hremaining := remaining_eq hwithin
  cases q with
  | read width =>
    rw [Request.width] at h
    simp only [ask, hremaining, Option.bind_eq_bind, Option.bind_some, if_pos h]
    rfl
  | skip width =>
    rw [Request.width] at h
    simp only [ask, hremaining, Option.bind_eq_bind, Option.bind_some, if_pos h]
    rfl

theorem askAll_cons {c' last : Cursor} {answer : Answer} {asked : List Request} {answers : List Answer}
    (h : c.ask q = some (answer, c')) (hrest : c'.askAll asked = some (answers, last)) :
    c.askAll (q :: asked) = some (answer :: answers, last) := by
  simp only [askAll, h, hrest, Option.bind_eq_bind, Option.bind_some]
  rfl

end Cursor

/-- Asked the same, both readers give the answers of the bit string, and stand then at the same
    position in it. -/
theorem exists_answered {c : Cursor} (hwithin : c.Within) (asked : List Request) :
    ∃ answers last, Answered (ofBytes c.payload) c.position asked answers last ∧
      c.askAll asked = some (answers, ⟨c.payload, last⟩) ∧
      c.reader.askAll asked = (answers, (Cursor.mk c.payload last).reader) ∧ last ≤ 8 * c.payload.length := by
  induction asked generalizing c with
  | nil => exact ⟨[], c.position, .done _, rfl, rfl, hwithin⟩
  | cons q asked ih =>
    have hlen := c.length_rest
    have hbits := length_ofBytes c.payload
    by_cases h : q.width ≤ c.reader.rest.length
    · have hfits : c.position + q.width ≤ 8 * c.payload.length := by
        unfold Cursor.Within at hwithin
        omega
      obtain ⟨answers, last, hanswered, hcursor, hreader, hlast⟩ := ih (c := c.advance q.width) hfits
      rw [Cursor.reader_advance] at hreader
      refine ⟨_, last, hanswered.granted_of_le (by rwa [hbits]), ?_, ?_, hlast⟩
      · exact Cursor.askAll_cons (Cursor.ask_granted hwithin h) hcursor
      · exact Reader.askAll_cons (Reader.ask_granted h) hreader
    · have hshort : c.reader.rest.length < q.width := Nat.lt_of_not_le h
      obtain ⟨answers, last, hanswered, hcursor, hreader, hlast⟩ := ih hwithin
      refine ⟨_, last, .refused (by omega) hanswered, ?_, ?_, hlast⟩
      · exact Cursor.askAll_cons (Cursor.ask_refused hwithin hshort) hcursor
      · exact Reader.askAll_cons (Reader.ask_refused hshort) hreader

end Patchbay.Container.Positions

namespace Patchbay.Bits

open Container.Positions

/-! ## One bit string -/

structure Told (data : List UInt8) (asked : List Request) (answers : List Answer) (last : Nat) : Prop where
  /-- The answers are those of the bits of the bytes. -/
  answered : Answered (ofBytes data) 0 asked answers last
  words : Cursor.askAll ⟨data, 0⟩ asked = some (answers, ⟨data, last⟩)
  lists : (Reader.ofBytes data).askAll asked = (answers, Cursor.reader ⟨data, last⟩)
  last_le : last ≤ 8 * data.length
  remaining_words : Cursor.remaining ⟨data, last⟩ = some (8 * data.length - last)
  remaining_lists : (Cursor.reader ⟨data, last⟩).remaining = 8 * data.length - last
  /-- The fewest bytes that reach up to the position. -/
  consumed_words : ∀ n, Cursor.consumed ⟨data, last⟩ ≤ n ↔ last ≤ 8 * n
  consumed_lists : (Cursor.reader ⟨data, last⟩).bytesConsumed = Cursor.consumed ⟨data, last⟩

theorem exists_told (data : List UInt8) (asked : List Request) : ∃ answers last, Told data asked answers last := by
  have hwithin : (Cursor.mk data 0).Within := Nat.zero_le _
  obtain ⟨answers, last, hanswered, hwords, hlists, hlast⟩ := exists_answered hwithin asked
  have hremaining : Cursor.remaining ⟨data, last⟩ = some (8 * data.length - last) := by
    rw [Cursor.remaining, minus, if_pos hlast]
  have hconsumed (n : Nat) : Cursor.consumed ⟨data, last⟩ ≤ n ↔ last ≤ 8 * n := by
    show (last + 7) / 8 ≤ n ↔ last ≤ 8 * n
    omega
  exact ⟨answers, last, hanswered, hwords, hlists, hlast, hremaining, Cursor.length_rest _, hconsumed, rfl⟩

/-- What is refused leaves its bits to the next request. -/
example :
    (Cursor.askAll ⟨[0xff], 0⟩ [.read ⟨6, by decide⟩, .read ⟨3, by decide⟩, .skip 2, .skip 1]).map Prod.fst =
      some [.value 63, .refused, .passed, .refused] := by decide

/-- Writing and reading are of one bit string. Any requests on any bytes are answered by slices of
    their bits. The bytes written from fields are those of `pack`: the low bits of the values and
    less than a byte of zeros. Requests on them are answered by slices of these bits, and those for
    the fields that were written by their values, each modulo two to its width. -/
theorem streams_share_bits :
    (∀ (data : List UInt8) (asked : List Request), ∃ answers last, Told data asked answers last) ∧
    ∀ fields : List WordField, written fields = pack (fields.map WordField.field) ∧
      (∃ k < 8, ofBytes (written fields) = fields.flatMap WordField.bits ++ List.replicate k false ∧
        ∀ asked, ∃ answers last, Told (written fields) asked answers last ∧
          Answered (fields.flatMap WordField.bits ++ List.replicate k false) 0 asked answers last) ∧
      Told (written fields) (fields.map fun f => .read f.width)
        (fields.map fun f => .value (f.value.toNat % 2 ^ f.width.1)) (fields.flatMap WordField.bits).length := by
  refine ⟨exists_told, fun fields => ?_⟩
  obtain ⟨k, hk, hbits⟩ := (Writer.holds_empty.writeAll fields).padded
  rw [List.nil_append] at hbits
  refine ⟨written_eq_pack fields, ⟨k, hk, hbits, fun asked => ?_⟩, ?_⟩
  · obtain ⟨answers, last, h⟩ := exists_told (written fields) asked
    exact ⟨answers, last, h, hbits ▸ h.answered⟩
  · obtain ⟨answers, last, h⟩ := exists_told (written fields) (fields.map fun f => .read f.width)
    have hfields := Answered.of_fields fields [] (List.replicate k false)
    rw [List.nil_append, ← hbits, List.length_nil, Nat.zero_add] at hfields
    obtain ⟨rfl, rfl⟩ := hfields.unique h.answered
    exact h

end Patchbay.Bits
