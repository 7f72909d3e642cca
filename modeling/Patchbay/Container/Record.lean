/-
  Patchbay.Container.Record — the records in a section's payload.

  A payload is a bit string of fields. Sections of kind 0x21, 0x4a, 0x52 and 0x4d hold a
  description, a module list, a cable list and parameters; other kinds are not looked into.
  A list opens with its area and counts and goes on with that many records. The fields that
  are passed over are listed where a record is read. A section's records must fill its
  payload up to the last byte.
-/

import Patchbay.Bits
import Patchbay.Container.Framing
import Patchbay.Event

namespace Patchbay.Container

/-! ## Reading fields -/

/-- What can be wrong with a record, wherever it stands. -/
inductive RecordFault where
  | short
  | badCode (code : UnknownCode)
  | parameterCount (area : Area) (moduleId declared stored : Nat)
  deriving DecidableEq, Repr

abbrev Fields := StateT Bits.Reader (Except RecordFault)

namespace Fields

def field (width : Nat) : Fields Nat := fun r =>
  match r.read? width with
  | some found => .ok found
  | none => .error .short

def skip (width : Nat) : Fields Unit := fun r =>
  match r.skip? width with
  | some r => .ok ((), r)
  | none => .error .short

/-- A field that stands for something. -/
def coded {α : Type} (width : Nat) (ofCode : Nat → Except UnknownCode α) : Fields α := do
  let code ← field width
  match ofCode code with
  | .ok a => pure a
  | .error e => throw (.badCode e)

def times {α : Type} : Nat → Fields α → Fields (List α)
  | 0, _ => pure []
  | n + 1, item => do
    let a ← item
    let rest ← times n item
    return a :: rest

/-- Up to `n` items: those read, and the reader after the last or the fault that ended them. -/
def collect {α : Type} : Nat → Fields α → Bits.Reader → List α × Except RecordFault Bits.Reader
  | 0, _, r => ([], .ok r)
  | n + 1, item, r =>
    match item r with
    | .error fault => ([], .error fault)
    | .ok (a, r) =>
      let (rest, ending) := collect n item r
      (a :: rest, ending)

end Fields

/-! ## Records -/

inductive Record where
  | description (d : Description)
  | moduleList (area : Area) (count : Nat)
  /-- A module, with the bytes of its section. -/
  | placed (area : Area) (typeId id : Nat) (span : Span)
  | cableList (area : Area) (count : Nat)
  | cable (c : Cable)
  | parameterList (area : Area) (modules variations : Nat)
  | parameters (b : ParameterBlock)
  /-- A section that was not looked into. -/
  | skipped (kind : UInt8) (length : Nat)
  deriving DecidableEq, Repr

open Fields

/-- Active variation, voices, mono; two bits are passed over. -/
def description : Fields Description := do
  let activeVariation ← field 8
  let voices ← field 5
  let mono ← field 1
  skip 2
  return ⟨activeVariation, voices, mono = 1⟩

/-- Type and id of a module. Passed over are position, color, uprate, leds and reserved bits,
    thirty in all, and six bits for each mode. -/
def moduleRecord : Fields (Nat × Nat) := do
  let typeId ← field 8
  let id ← field 8
  skip 30
  let modes ← field 4
  skip (modes * 6)
  return (typeId, id)

def cableRecord (area : Area) : Fields Cable := do
  let color ← coded 3 CableColor.ofCode
  let moduleFrom ← field 8
  let jackFrom ← field 6
  let kind ← coded 1 CableKind.ofCode
  let moduleTo ← field 8
  let jackTo ← field 6
  return ⟨area, kind, color, moduleFrom, jackFrom, moduleTo, jackTo⟩

/-- The values of one variation, as many as its module declares; its number is passed over. -/
def variationRecord (area : Area) (moduleId declared : Nat) : Fields (List Nat) := do
  skip 8
  let stored ← field 7
  if stored ≠ declared then throw (.parameterCount area moduleId declared stored)
  times stored (field 7)

/-- The parameters of one module. Of its variations the first is kept; without one there is no
    block. -/
def parameterRecord (area : Area) (variations : Nat) : Fields (Option ParameterBlock) := do
  let moduleId ← field 8
  let declared ← field 7
  let values ← times variations (variationRecord area moduleId declared)
  return values.head?.map fun first => ⟨area, moduleId, declared, first⟩

/-! ## Sections -/

/-- How a section opens: its opening record, how many records follow, and how each is read. -/
structure Opening where
  record : Record
  count : Nat
  item : Fields (List Record)

def descriptionKind : UInt8 := 0x21

def moduleListKind : UInt8 := 0x4a

def cableListKind : UInt8 := 0x52

def parametersKind : UInt8 := 0x4d

namespace Section

def span (s : Section) : Span := ⟨s.offset, s.stop⟩

def descriptionOpening : Fields Opening := do
  let d ← description
  return ⟨.description d, 0, pure []⟩

def moduleListOpening (span : Span) : Fields Opening := do
  let area ← coded 2 Area.ofCode
  let count ← field 8
  return ⟨.moduleList area count, count, do
    let (typeId, id) ← moduleRecord
    return [.placed area typeId id span]⟩

def cableListOpening : Fields Opening := do
  let area ← coded 2 Area.ofCode
  skip 12
  let count ← field 10
  return ⟨.cableList area count, count, do
    let c ← cableRecord area
    return [.cable c]⟩

def parametersOpening : Fields Opening := do
  let area ← coded 2 Area.ofCode
  let modules ← field 8
  let variations ← field 8
  return ⟨.parameterList area modules variations, modules, do
    let block ← parameterRecord area variations
    return block.toList.map .parameters⟩

/-- The way to read a section of a known kind. -/
def opening? (s : Section) : Option (Fields Opening) :=
  if s.kind = descriptionKind then some descriptionOpening
  else if s.kind = moduleListKind then some (moduleListOpening s.span)
  else if s.kind = cableListKind then some cableListOpening
  else if s.kind = parametersKind then some parametersOpening
  else none

/-- A fault at its place in the file. -/
def locate (s : Section) : RecordFault → Corruption
  | .short => .truncated s.kind s.offset
  | .badCode code => .invalidCode s.kind s.offset code
  | .parameterCount area moduleId declared stored => .parameterCount area moduleId declared stored

/-- The fault of a section whose records ended so. -/
def ending (s : Section) : Except RecordFault Bits.Reader → Option Corruption
  | .error fault => some (s.locate fault)
  | .ok r =>
    if r.bytesConsumed ≠ s.payload.length then
      some (.sectionLength s.kind s.offset s.payload.length r.bytesConsumed)
    else none

/-- The complete records of a section, and the fault that ends them. -/
def records (s : Section) : List Record × Option Corruption :=
  match s.opening? with
  | none => ([.skipped s.kind s.payload.length], none)
  | some opening =>
    match opening (Bits.Reader.ofBytes s.payload) with
    | .error fault => ([], some (s.locate fault))
    | .ok (o, r) =>
      let (items, last) := collect o.count o.item r
      (o.record :: items.flatten, s.ending last)

end Section

end Patchbay.Container
