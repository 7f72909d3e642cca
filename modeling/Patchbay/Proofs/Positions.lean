/-
  Patchbay.Proofs.Positions — decoding by positions, with every step that could fail checked.

  The decoder of `Patchbay.Container` takes lists of bytes and bits apart. Here it is written
  over positions in the file and in a payload: bytes are taken by index, payloads by their
  bounds, and lengths are subtracted. An index or a bound outside of its list, or a difference
  below zero, makes the whole result `none`.
  - `mirrors_field`, `mirrors_skip`, `Mirrors.bind`: reading fields by position, step for step.
  - `walk_of_cut`: the walk over the sections.
  - `decode_eq`: no step fails, and the result is that of `Patch.ofBytes`.
-/

import Mathlib.Data.List.TakeWhile
import Patchbay.Proofs.Acceptance

namespace Patchbay.Container.Positions

open Bits

/-! ## Checked steps -/

def minus (a b : Nat) : Option Nat := if b ≤ a then some (a - b) else none

def slice (bytes : List UInt8) (start stop : Nat) : Option (List UInt8) :=
  if start ≤ stop ∧ stop ≤ bytes.length then some ((bytes.take stop).drop start) else none

/-! ## Fields of a payload -/

structure Cursor where
  payload : List UInt8
  position : Nat

namespace Cursor

def remaining (c : Cursor) : Option Nat := minus (8 * c.payload.length) c.position

def advance (c : Cursor) (width : Nat) : Cursor := { c with position := c.position + width }

def bit (c : Cursor) : Option Bool := do
  let byte ← c.payload[c.position / 8]?
  let place ← minus 7 (c.position % 8)
  return byte.toNat.testBit place

/-- As many bits as counted, behind those that `value` spells. -/
def bits : Nat → Nat → Cursor → Option (Nat × Cursor)
  | 0, value, c => some (value, c)
  | n + 1, value, c => do
    let b ← c.bit
    bits n (2 * value + b.toNat) (c.advance 1)

end Cursor

abbrev Checked := StateT Cursor (ExceptT RecordFault Option)

def field (width : Nat) : Checked Nat := fun c => ExceptT.mk do
  let remaining ← c.remaining
  if remaining < width then return .error .short
  return .ok (← c.bits width 0)

def skip (width : Nat) : Checked Unit := fun c => ExceptT.mk do
  let remaining ← c.remaining
  if remaining < width then return .error .short
  return .ok ((), c.advance width)

def coded {α : Type} (width : Nat) (ofCode : Nat → Except UnknownCode α) : Checked α := do
  let code ← field width
  match ofCode code with
  | .ok a => pure a
  | .error e => throw (.badCode e)

def times {α : Type} : Nat → Checked α → Checked (List α)
  | 0, _ => pure []
  | n + 1, item => do
    let a ← item
    let rest ← times n item
    return a :: rest

def collect {α : Type} : Nat → Checked α → Cursor → Option (List α × Except RecordFault Cursor)
  | 0, _, c => some ([], .ok c)
  | n + 1, item, c => do
    match ← (item c).run with
    | .error fault => return ([], .error fault)
    | .ok (a, c) =>
      let (rest, ending) ← collect n item c
      return (a :: rest, ending)

/-! ## Records -/

def description : Checked Description := do
  let activeVariation ← field 8
  let voices ← field 5
  let mono ← field 1
  skip 2
  return ⟨activeVariation, voices, mono = 1⟩

def moduleRecord : Checked (Nat × Nat) := do
  let typeId ← field 8
  let id ← field 8
  skip 30
  let modes ← field 4
  skip (modes * 6)
  return (typeId, id)

def cableRecord (area : Area) : Checked Cable := do
  let color ← coded 3 CableColor.ofCode
  let moduleFrom ← field 8
  let jackFrom ← field 6
  let kind ← coded 1 CableKind.ofCode
  let moduleTo ← field 8
  let jackTo ← field 6
  return ⟨area, kind, color, moduleFrom, jackFrom, moduleTo, jackTo⟩

def variationRecord (area : Area) (moduleId declared : Nat) : Checked (List Nat) := do
  skip 8
  let stored ← field 7
  if stored ≠ declared then throw (.parameterCount area moduleId declared stored)
  times stored (field 7)

def parameterRecord (area : Area) (variations : Nat) : Checked (Option ParameterBlock) := do
  let moduleId ← field 8
  let declared ← field 7
  let values ← times variations (variationRecord area moduleId declared)
  return values.head?.map fun first => ⟨area, moduleId, declared, first⟩

structure Opening where
  record : Record
  count : Nat
  item : Checked (List Record)

def descriptionOpening : Checked Opening := do
  let d ← description
  return ⟨.description d, 0, pure []⟩

def moduleListOpening (span : Span) : Checked Opening := do
  let area ← coded 2 Area.ofCode
  let count ← field 8
  return ⟨.moduleList area count, count, do
    let (typeId, id) ← moduleRecord
    return [.placed area typeId id span]⟩

def cableListOpening : Checked Opening := do
  let area ← coded 2 Area.ofCode
  skip 12
  let count ← field 10
  return ⟨.cableList area count, count, do
    let c ← cableRecord area
    return [.cable c]⟩

def parametersOpening : Checked Opening := do
  let area ← coded 2 Area.ofCode
  let modules ← field 8
  let variations ← field 8
  return ⟨.parameterList area modules variations, modules, do
    let block ← parameterRecord area variations
    return block.toList.map .parameters⟩

def opening? (s : Section) : Option (Checked Opening) :=
  if s.kind = descriptionKind then some descriptionOpening
  else if s.kind = moduleListKind then some (moduleListOpening s.span)
  else if s.kind = cableListKind then some cableListOpening
  else if s.kind = parametersKind then some parametersOpening
  else none

def ending (s : Section) : Except RecordFault Cursor → Option Corruption
  | .error fault => some (s.locate fault)
  | .ok c =>
    let consumed := (c.position + 7) / 8
    if consumed ≠ s.payload.length then some (.sectionLength s.kind s.offset s.payload.length consumed) else none

def records (s : Section) : Option (List Record × Option Corruption) :=
  match opening? s with
  | none => some ([.skipped s.kind s.payload.length], none)
  | some opening => do
    match ← (opening ⟨s.payload, 0⟩).run with
    | .error fault => return ([], some (s.locate fault))
    | .ok (o, c) =>
      let (items, last) ← collect o.count o.item c
      return (o.record :: items.flatten, ending s last)

/-! ## The file -/

def header (bytes : List UInt8) : Option (Except FormatFault Nat) :=
  if !magic.isPrefixOf bytes then some (.error .badPreamble)
  else
    match bytes.findIdx? (· = 0) with
    | none => some (.error .unterminatedPreamble)
    | some terminator =>
      match slice bytes (terminator + 1) (terminator + 3) with
      | none => some (.error .missingHeader)
      | some codes => do
        let version ← codes[0]?
        if version ≠ formatVersion then return .error (.unsupportedVersion version)
        let fileType ← codes[1]?
        if fileType ≠ patchFileType then return .error (.unsupportedFileType fileType)
        return .ok (terminator + 3)

/-- The records of the sections from `position` on, up to the first fault. -/
def walk (bytes : List UInt8) (position : Nat) : Option (List Record × Option Corruption) :=
  match _h : minus bytes.length position with
  | none => none
  | some remaining =>
    if remaining = 2 then some ([], none)
    else if remaining < 2 then some ([], some .missingTrailer)
    else if _hlong : remaining < 2 + Section.headerSize then some ([], some (.truncatedHeader position))
    else do
      let kind ← bytes[position]?
      let high ← bytes[position + 1]?
      let low ← bytes[position + 2]?
      let declared := lengthOf high low
      let start := position + Section.headerSize
      let beforeTrailer ← minus bytes.length 2
      let available ← minus beforeTrailer start
      if available < declared then return ([], some (.sectionOverrun kind position declared available))
      let payload ← slice bytes start (start + declared)
      match ← records ⟨kind, position, payload⟩ with
      | (read, some fault) => return (read, some fault)
      | (read, none) =>
        let (later, fault) ← walk bytes (start + declared)
        return (read ++ later, fault)
termination_by bytes.length - position
decreasing_by
  unfold minus at _h
  split at _h
  · simp only [Section.headerSize] at *
    cases _h
    omega
  · cases _h

def decode (catalog : Catalog) (bytes : List UInt8) : Option (Except PatchError Patch) := do
  match ← header bytes with
  | .error fault => return .error (.format fault)
  | .ok position =>
    let (read, fault) ← walk bytes position
    let (kept, repeated) := untilRepeated [] read
    match repeated.or fault with
    | some fault => return .error (.corrupt fault)
    | none => return .ok (Patch.ofRecords catalog kept)

/-! ## Reading by position is reading -/

namespace Cursor

def reader (c : Cursor) : Reader := ⟨c.position, (ofBytes c.payload).drop c.position⟩

def Within (c : Cursor) : Prop := c.position ≤ 8 * c.payload.length

theorem length_rest (c : Cursor) : c.reader.rest.length = 8 * c.payload.length - c.position := by
  rw [reader, List.length_drop, length_ofBytes]

theorem remaining_eq {c : Cursor} (h : c.Within) : c.remaining = some c.reader.rest.length := by
  unfold Within at h
  rw [remaining, minus, if_pos h, length_rest]

theorem reader_advance (c : Cursor) (width : Nat) :
    (c.advance width).reader = ⟨c.position + width, c.reader.rest.drop width⟩ := by
  simp only [reader, advance, List.drop_drop]

theorem bit_eq {c : Cursor} (h : c.position < 8 * c.payload.length) : c.bit = c.reader.rest[0]? := by
  have hplace : c.position % 8 ≤ 7 := by omega
  have hbyte : c.position / 8 < c.payload.length := by omega
  rw [bit, reader, List.getElem?_drop, Nat.add_zero, getElem?_ofBytes, List.getElem?_eq_getElem hbyte, minus,
    if_pos hplace]
  rfl

/-- Bits that are there are read, none of them from outside the payload. -/
theorem bits_eq {n : Nat} {c : Cursor} (h : n ≤ c.reader.rest.length) (value : Nat) :
    c.bits n value = some ((c.reader.rest.take n).foldl (fun n b => 2 * n + b.toNat) value, c.advance n) := by
  induction n generalizing c value with
  | zero => rfl
  | succ n ih =>
    have hlen := c.length_rest
    obtain ⟨b, rest, hrest⟩ := List.exists_cons_of_length_pos (Nat.lt_of_lt_of_le n.succ_pos h)
    have hnext : (c.advance 1).reader.rest = rest := by rw [reader_advance, hrest]; rfl
    have hbit : c.bit = some b := by rw [bit_eq (by omega), hrest]; rfl
    have hadvance : (c.advance 1).advance n = c.advance (n + 1) := by
      simp only [advance, Nat.add_assoc, Nat.add_comm 1 n]
    rw [hrest, List.length_cons] at h
    rw [bits, hbit, Option.bind_eq_bind, Option.bind_some, ih (by rw [hnext]; omega), hnext, hadvance, hrest]
    rfl

end Cursor

/-- Outcomes of a reader by position and of a reader: no step failed, the values are related, and
    the position lies within the payload. -/
inductive Mirrored {α β : Type} (R : α → β → Prop) :
    Option (Except RecordFault (α × Cursor)) → Except RecordFault (β × Reader) → Prop
  | ok {a : α} {b : β} {c : Cursor} : R a b → c.Within → Mirrored R (some (.ok (a, c))) (.ok (b, c.reader))
  | error (fault : RecordFault) : Mirrored R (some (.error fault)) (.error fault)

/-- From every position within a payload the two readers have mirrored outcomes. -/
def Mirrors {α β : Type} (R : α → β → Prop) (m : Checked α) (n : Fields β) : Prop :=
  ∀ c : Cursor, c.Within → Mirrored R (m c) (n c.reader)

section

variable {α β γ δ : Type} {R : α → β → Prop} {S : γ → δ → Prop}

theorem mirrors_pure {a : α} {b : β} (h : R a b) : Mirrors R (pure a) (pure b) := fun _ hc => .ok h hc

theorem mirrors_throw (fault : RecordFault) : Mirrors R (throw fault) (throw fault) := fun _ _ => .error fault

theorem Mirrors.bind {m : Checked α} {n : Fields β} {f : α → Checked γ} {g : β → Fields δ} (h : Mirrors R m n)
    (hf : ∀ a b, R a b → Mirrors S (f a) (g b)) : Mirrors S (m >>= f) (n >>= g) := by
  intro c hc
  show Mirrored S (Option.bind (m c) _) (Except.bind (n c.reader) _)
  have hmn := h c hc
  generalize m c = outcome at hmn ⊢
  generalize n c.reader = outcome' at hmn ⊢
  cases hmn with
  | ok hab hc' => exact hf _ _ hab _ hc'
  | error fault => exact .error fault

/-- After a value that both have read. -/
theorem Mirrors.andThen {m : Checked α} {n : Fields α} {f : α → Checked γ} {g : α → Fields δ} (h : Mirrors Eq m n)
    (hf : ∀ a, Mirrors S (f a) (g a)) : Mirrors S (m >>= f) (n >>= g) :=
  h.bind fun a _ hab => hab ▸ hf a

end

/-- Where the bits are there the position moves on, else it does not. -/
theorem within_advance {c : Cursor} {width : Nat} (hc : c.Within) (h : width ≤ c.reader.rest.length) :
    (c.advance width).Within := by
  have hlen := c.length_rest
  simp only [Cursor.Within, Cursor.advance] at hc ⊢
  omega

/-- Both pass `width` bits, if they are there, and answer alike by them. -/
theorem mirrors_of_answers {α : Type} {width : Nat} {answer : List Bool → α} {n : Fields α}
    (hn : Fields.Answers width answer n) (passed : Cursor → Option (α × Cursor))
    (hpassed : ∀ c, width ≤ c.reader.rest.length →
      passed c = some (answer (c.reader.rest.take width), c.advance width)) :
    Mirrors Eq (fun c => ExceptT.mk do
      let remaining ← c.remaining
      if remaining < width then return .error .short
      return .ok (← passed c)) n := by
  intro c hc
  rw [hn]
  simp only [Cursor.remaining_eq hc, Option.bind_eq_bind, Option.bind_some]
  by_cases hwidth : width ≤ c.reader.rest.length
  · rw [if_pos hwidth, if_neg (Nat.not_lt.2 hwidth), hpassed c hwidth]
    have h := Mirrored.ok (R := Eq) (rfl : answer (c.reader.rest.take width) = _) (within_advance hc hwidth)
    rwa [Cursor.reader_advance] at h
  · rw [if_neg hwidth, if_pos (Nat.not_le.1 hwidth)]
    exact .error .short

theorem mirrors_field (width : Nat) : Mirrors Eq (field width) (Fields.field width) :=
  mirrors_of_answers (Fields.answers_field width) (Cursor.bits width 0) fun _ h => Cursor.bits_eq h 0

theorem mirrors_skip (width : Nat) : Mirrors Eq (skip width) (Fields.skip width) :=
  mirrors_of_answers (Fields.answers_skip width) (fun c => some ((), c.advance width)) fun _ _ => rfl

theorem mirrors_coded {α : Type} (width : Nat) (ofCode : Nat → Except UnknownCode α) :
    Mirrors Eq (coded width ofCode) (Fields.coded width ofCode) := by
  refine (mirrors_field width).andThen fun code => ?_
  cases ofCode code with
  | ok a => exact mirrors_pure rfl
  | error e => exact mirrors_throw _

theorem mirrors_times {α : Type} {m : Checked α} {n : Fields α} (h : Mirrors Eq m n) (count : Nat) :
    Mirrors Eq (times count m) (Fields.times count n) := by
  induction count with
  | zero => exact mirrors_pure rfl
  | succ count ih => exact h.andThen fun a => ih.andThen fun rest => mirrors_pure rfl

/-- Up to `count` items: the same are read, and they end alike. -/
theorem collect_eq {α : Type} {m : Checked α} {n : Fields α} (h : Mirrors Eq m n) (count : Nat) {c : Cursor}
    (hc : c.Within) : ∃ last, collect count m c = some ((Fields.collect count n c.reader).1, last) ∧
      (Fields.collect count n c.reader).2 = last.map Cursor.reader ∧ ∀ c', last = .ok c' → c'.Within := by
  induction count generalizing c with
  | zero => exact ⟨.ok c, rfl, rfl, by rintro _ ⟨⟩; exact hc⟩
  | succ count ih =>
    unfold collect Fields.collect
    have hmn := h c hc
    unfold ExceptT.run
    generalize m c = outcome at hmn ⊢
    generalize n c.reader = outcome' at hmn ⊢
    cases hmn with
    | ok hab hc' =>
      subst hab
      obtain ⟨last, hlast, hending, hwithin⟩ := ih hc'
      refine ⟨last, ?_, hending, hwithin⟩
      simp only [Option.bind_eq_bind, Option.bind_some, hlast]
      rfl
    | error fault => exact ⟨.error fault, rfl, rfl, by rintro _ ⟨⟩⟩

/-! ## Records -/

theorem mirrors_description : Mirrors Eq description Container.description :=
  (mirrors_field 8).andThen fun _ => (mirrors_field 5).andThen fun _ => (mirrors_field 1).andThen fun _ =>
    (mirrors_skip 2).andThen fun _ => mirrors_pure rfl

theorem mirrors_moduleRecord : Mirrors Eq moduleRecord Container.moduleRecord :=
  (mirrors_field 8).andThen fun _ => (mirrors_field 8).andThen fun _ => (mirrors_skip 30).andThen fun _ =>
    (mirrors_field 4).andThen fun modes => (mirrors_skip (modes * 6)).andThen fun _ => mirrors_pure rfl

theorem mirrors_cableRecord (area : Area) : Mirrors Eq (cableRecord area) (Container.cableRecord area) :=
  (mirrors_coded 3 CableColor.ofCode).andThen fun _ => (mirrors_field 8).andThen fun _ =>
    (mirrors_field 6).andThen fun _ => (mirrors_coded 1 CableKind.ofCode).andThen fun _ =>
    (mirrors_field 8).andThen fun _ => (mirrors_field 6).andThen fun _ => mirrors_pure rfl

theorem mirrors_variationRecord (area : Area) (moduleId declared : Nat) :
    Mirrors Eq (variationRecord area moduleId declared) (Container.variationRecord area moduleId declared) := by
  refine (mirrors_skip 8).andThen fun _ => (mirrors_field 7).andThen fun stored => ?_
  by_cases h : stored ≠ declared
  · simp only [if_pos h]
    exact (mirrors_throw _).andThen fun _ => mirrors_times (mirrors_field 7) stored
  · simp only [if_neg h]
    exact mirrors_times (mirrors_field 7) stored

theorem mirrors_parameterRecord (area : Area) (variations : Nat) :
    Mirrors Eq (parameterRecord area variations) (Container.parameterRecord area variations) :=
  (mirrors_field 8).andThen fun moduleId => (mirrors_field 7).andThen fun declared =>
    (mirrors_times (mirrors_variationRecord area moduleId declared) variations).andThen fun _ => mirrors_pure rfl

/-! ## Sections -/

structure SameOpening (o : Opening) (p : Container.Opening) : Prop where
  record : o.record = p.record
  count : o.count = p.count
  item : Mirrors Eq o.item p.item

theorem mirrors_descriptionOpening : Mirrors SameOpening descriptionOpening Section.descriptionOpening :=
  mirrors_description.andThen fun _ => mirrors_pure ⟨rfl, rfl, mirrors_pure rfl⟩

theorem mirrors_moduleListOpening (span : Span) :
    Mirrors SameOpening (moduleListOpening span) (Section.moduleListOpening span) :=
  (mirrors_coded 2 Area.ofCode).andThen fun _ => (mirrors_field 8).andThen fun _ =>
    mirrors_pure ⟨rfl, rfl, mirrors_moduleRecord.andThen fun _ => mirrors_pure rfl⟩

theorem mirrors_cableListOpening : Mirrors SameOpening cableListOpening Section.cableListOpening :=
  (mirrors_coded 2 Area.ofCode).andThen fun area => (mirrors_skip 12).andThen fun _ =>
    (mirrors_field 10).andThen fun _ =>
    mirrors_pure ⟨rfl, rfl, (mirrors_cableRecord area).andThen fun _ => mirrors_pure rfl⟩

theorem mirrors_parametersOpening : Mirrors SameOpening parametersOpening Section.parametersOpening :=
  (mirrors_coded 2 Area.ofCode).andThen fun area => (mirrors_field 8).andThen fun _ =>
    (mirrors_field 8).andThen fun variations =>
    mirrors_pure ⟨rfl, rfl, (mirrors_parameterRecord area variations).andThen fun _ => mirrors_pure rfl⟩

/-- A section is looked into by position iff it is looked into, and then its opening is read alike. -/
theorem opening?_cases (s : Section) : (opening? s = none ∧ s.opening? = none) ∨
    ∃ m n, opening? s = some m ∧ s.opening? = some n ∧ Mirrors SameOpening m n := by
  unfold opening? Section.opening?
  split
  · exact .inr ⟨_, _, rfl, rfl, mirrors_descriptionOpening⟩
  split
  · exact .inr ⟨_, _, rfl, rfl, mirrors_moduleListOpening s.span⟩
  split
  · exact .inr ⟨_, _, rfl, rfl, mirrors_cableListOpening⟩
  split
  · exact .inr ⟨_, _, rfl, rfl, mirrors_parametersOpening⟩
  · exact .inl ⟨rfl, rfl⟩

theorem records_eq (s : Section) : records s = some s.records := by
  unfold records Section.records
  obtain ⟨hm, hn⟩ | ⟨m, n, hm, hn, hmirrors⟩ := opening?_cases s
  · rw [hm, hn]
  · have hstart : (⟨s.payload, 0⟩ : Cursor).Within := Nat.zero_le _
    have hread : (⟨s.payload, 0⟩ : Cursor).reader = Reader.ofBytes s.payload := rfl
    have hopening := hmirrors _ hstart
    rw [hread] at hopening
    simp only [hm, hn, ExceptT.run]
    generalize m ⟨s.payload, 0⟩ = outcome at hopening ⊢
    generalize n (Reader.ofBytes s.payload) = outcome' at hopening ⊢
    cases hopening with
    | @ok _ p c hsame hc =>
      obtain ⟨last, hlast, hending, -⟩ := collect_eq hsame.item p.count hc
      simp only [Option.bind_eq_bind, Option.bind_some, hsame.count, hsame.record, hlast, hending]
      cases last <;> rfl
    | error fault => rfl

/-! ## The file -/

/-- A slice of what was put together. -/
theorem slice_append {start stop : Nat} {front middle rest : List UInt8} (hstart : start = front.length)
    (hstop : stop = front.length + middle.length) : slice (front ++ (middle ++ rest)) start stop = some middle := by
  subst hstart hstop
  rw [slice, if_pos ⟨Nat.le_add_right _ _, by simp only [List.length_append]; omega⟩, ← List.append_assoc,
    ← List.length_append, List.take_left, List.drop_left]

theorem slice_eq_none {bytes : List UInt8} {start stop : Nat} (h : bytes.length < stop) :
    slice bytes start stop = none :=
  if_neg fun hslice => Nat.not_le.2 h hslice.2

theorem findIdx?_zero {text : List UInt8} (h : 0 ∉ text) (rest : List UInt8) :
    (text ++ 0 :: rest).findIdx? (· = 0) = some text.length := by
  have htext : text.findIdx? (· = 0) = none :=
    List.findIdx?_eq_none_iff.2 fun b hb => decide_eq_false fun e => h (e ▸ hb)
  rw [List.findIdx?_append, htext, List.findIdx?_cons]
  simp

theorem header_eq (bytes : List UInt8) : header bytes = some ((Container.header bytes).map Prod.fst) := by
  unfold header Container.header
  by_cases hmagic : (!magic.isPrefixOf bytes) = true
  · rw [if_pos hmagic, if_pos hmagic]
    rfl
  rw [if_neg hmagic, if_neg hmagic]
  by_cases hzero : 0 ∈ bytes
  · obtain ⟨text, rest, rfl, htext⟩ := List.eq_append_cons_of_mem hzero
    obtain ⟨htake, hdrop⟩ := takeWhile_ne_zero htext rest
    rw [findIdx?_zero htext, htake, hdrop]
    match rest with
    | [] =>
      have hslice : slice (text ++ [0]) (text.length + 1) (text.length + 3) = none := slice_eq_none (by simp)
      simp only [hslice]
      rfl
    | [version] =>
      have hslice : slice (text ++ [0, version]) (text.length + 1) (text.length + 3) = none := slice_eq_none (by simp)
      simp only [hslice]
      rfl
    | version :: fileType :: body =>
      have hslice : slice (text ++ [0] ++ ([version, fileType] ++ body)) (text.length + 1) (text.length + 3) =
          some [version, fileType] := slice_append (by simp) (by simp)
      rw [List.append_assoc] at hslice
      simp only [List.cons_append, List.nil_append] at hslice
      simp only [hslice, List.getElem?_cons_zero, List.getElem?_cons_succ, Option.bind_eq_bind, Option.bind_some]
      by_cases hversion : version = formatVersion
      · by_cases htype : fileType = patchFileType
        · simp only [hversion, htype, ne_eq, not_true, if_false]
          rfl
        · simp only [hversion, htype, ne_eq, not_true, not_false_eq_true, if_false, if_true]
          rfl
      · simp only [hversion, ne_eq, not_false_eq_true, if_true]
        rfl
  · have hnone : bytes.findIdx? (· = 0) = none :=
      List.findIdx?_eq_none_iff.2 fun b hb => decide_eq_false fun e => hzero (e ▸ hb)
    have hdrop : bytes.dropWhile (· ≠ 0) = [] :=
      List.dropWhile_eq_nil_iff.2 fun b hb => decide_eq_true fun e => hzero (e ▸ hb)
    simp only [hnone, hdrop]
    rfl

theorem minus_append (front rest : List UInt8) : minus (front ++ rest).length front.length = some rest.length := by
  rw [List.length_append, minus, if_pos (Nat.le_add_right _ _), Nat.add_sub_cancel_left]

/-- Less than a section and a trailer. -/
theorem walk_of_short (front : List UInt8) {rest : List UInt8} (h : rest.length < 2 + Section.headerSize) :
    walk (front ++ rest) front.length = some ([], if rest.length = 2 then none
      else if rest.length < 2 then some .missingTrailer else some (.truncatedHeader front.length)) := by
  rw [walk]
  split
  · next hnone => cases (minus_append front rest).symm.trans hnone
  · next remaining hremaining =>
    obtain rfl := Option.some.inj ((minus_append front rest).symm.trans hremaining)
    by_cases htrailer : rest.length = 2
    · rw [if_pos htrailer, if_pos htrailer]
    · by_cases hmissing : rest.length < 2
      · rw [if_neg htrailer, if_neg htrailer, if_pos hmissing, if_pos hmissing]
      · rw [if_neg htrailer, if_neg htrailer, if_neg hmissing, if_neg hmissing, dif_pos h]

/-- The heading of a section, and two bytes or more. -/
theorem walk_of_heading (front : List UInt8) (kind high low : UInt8) {body : List UInt8} (h : 2 ≤ body.length) :
    walk (front ++ kind :: high :: low :: body) front.length =
      if body.length - 2 < lengthOf high low then
        some ([], some (.sectionOverrun kind front.length (lengthOf high low) (body.length - 2)))
      else match (⟨kind, front.length, body.take (lengthOf high low)⟩ : Section).records with
        | (read, some fault) => some (read, some fault)
        | (read, none) =>
          (walk (front ++ kind :: high :: low :: body) (front.length + Section.headerSize + lengthOf high low)).map
            fun (later, fault) => (read ++ later, fault) := by
  have hlength : (front ++ kind :: high :: low :: body).length = front.length + (3 + body.length) := by
    simp only [List.length_append, List.length_cons]; omega
  have hlong : ¬(kind :: high :: low :: body).length < 2 + Section.headerSize := by
    simp only [List.length_cons, Section.headerSize]; omega
  have hkind : (front ++ kind :: high :: low :: body)[front.length]? = some kind := by simp
  have hhigh : (front ++ kind :: high :: low :: body)[front.length + 1]? = some high := by simp
  have hlow : (front ++ kind :: high :: low :: body)[front.length + 2]? = some low := by simp
  have hbefore : minus (front ++ kind :: high :: low :: body).length 2 =
      some (front.length + 3 + (body.length - 2)) := by
    rw [hlength, minus, if_pos (by omega)]
    congr 1
    omega
  have havailable : minus (front.length + 3 + (body.length - 2)) (front.length + Section.headerSize) =
      some (body.length - 2) := by
    rw [Section.headerSize, minus, if_pos (by omega), Nat.add_sub_cancel_left]
  rw [walk]
  split
  · next hnone => cases (minus_append front _).symm.trans hnone
  · next remaining hremaining =>
    obtain rfl := Option.some.inj ((minus_append front _).symm.trans hremaining)
    rw [if_neg (by simp only [List.length_cons]; omega), if_neg (by simp only [List.length_cons]; omega), dif_neg hlong]
    simp only [Option.bind_eq_bind, hkind, hhigh, hlow, hbefore, havailable, Option.bind_some]
    by_cases hoverrun : body.length - 2 < lengthOf high low
    · rw [if_pos hoverrun, if_pos hoverrun]
      rfl
    · rw [if_neg hoverrun, if_neg hoverrun]
      have hslice : slice
          (front ++ [kind, high, low] ++ (body.take (lengthOf high low) ++ body.drop (lengthOf high low)))
          (front.length + Section.headerSize) (front.length + Section.headerSize + lengthOf high low) =
          some (body.take (lengthOf high low)) := by
        refine slice_append (by simp [Section.headerSize]) ?_
        simp only [List.length_append, List.length_cons, List.length_nil, List.length_take, Section.headerSize]
        omega
      rw [List.take_append_drop, List.append_assoc] at hslice
      simp only [List.cons_append, List.nil_append] at hslice
      simp only [hslice, Option.bind_some, records_eq]
      split
      · rfl
      · rw [Option.map_eq_bind]
        rfl

/-- After any bytes, the sections in the rest are walked over as they are cut and read. -/
theorem walk_of_cut {front rest : List UInt8} {framing : Framing} (h : Cut front.length rest framing) :
    walk (front ++ rest) front.length = some (scan framing.fault framing.sections) := by
  generalize hoffset : front.length = offset at h
  induction h generalizing front with
  | missing hlen =>
    subst hoffset
    rw [walk_of_short front (by rw [Section.headerSize]; omega), if_neg (by omega), if_pos hlen]
    rfl
  | trailer hlen =>
    subst hoffset
    rw [walk_of_short front (by rw [Section.headerSize]; omega), if_pos hlen]
    rfl
  | truncated hlong hlen =>
    subst hoffset
    rw [walk_of_short front hlen, if_neg (by omega), if_neg (by omega)]
    rfl
  | overrun hbody hdeclared =>
    subst hoffset
    rw [walk_of_heading front _ _ _ hbody, if_pos hdeclared]
    rfl
  | @whole _ kind high low payload rest later hlen hrest _ ih =>
    subst hoffset
    have hlength : (payload ++ rest).length = payload.length + rest.length := List.length_append
    have hstop : (front ++ kind :: high :: low :: payload).length =
        front.length + Section.headerSize + payload.length := by
      simp only [List.length_append, List.length_cons, Section.headerSize]
      omega
    have hlater := ih hstop
    rw [List.append_assoc] at hlater
    rw [walk_of_heading front _ _ _ (by omega), if_neg (by omega), ← hlen, List.take_left]
    simp only [List.cons_append] at hlater
    simp only [scan, hlater]
    rcases (⟨kind, front.length, payload⟩ : Section).records with ⟨read, _ | fault⟩ <;> rfl

/-- Nothing that decoding by position does can fail, and it decodes what `Patch.ofBytes` does. -/
theorem decode_eq (catalog : Catalog) (bytes : List UInt8) :
    decode catalog bytes = some (Patch.ofBytes catalog bytes).value := by
  unfold decode Patch.ofBytes
  rw [header_eq]
  rcases hheader : Container.header bytes with fault | ⟨offset, body⟩
  · rfl
  · obtain ⟨text, -, -, rfl, hoffset⟩ := exists_text_of_header hheader
    have hlen : offset = (text ++ [0, formatVersion, patchFileType]).length := by simp [hoffset]
    have hwalk := walk_of_cut (cut_frame (text ++ [0, formatVersion, patchFileType]).length body)
    rw [← hlen] at hwalk
    show Option.bind (walk (text ++ [0, formatVersion, patchFileType] ++ body) offset) _ = _
    rw [hwalk, Option.bind_some]
    simp only
    generalize scan _ _ = outcome
    cases (untilRepeated [] outcome.1).2.or outcome.2 <;> rfl

end Patchbay.Container.Positions
