/-
  Patchbay.Container.Builder — patch files from their contents.

  Each call of the builder is one section, and sections keep their order. A value too wide
  for its field loses its high bits, a payload too long for its length loses the high bits of
  the length; fields that decoding passes over are zero.
-/

import Patchbay.Container.Record

namespace Patchbay.Container

open Bits

/-- The text a built file starts with. -/
def preamble : List UInt8 :=
  asciiBytes "Version=Nord Modular G2 File Format 1\r\nType=Patch\r\nVersion=23\r\nInfo=BUILD 320\r\n"

/-- A parameter block as written: the declared count need not be that of the values. -/
structure StoredBlock where
  moduleId : Nat
  declared : Nat
  values : List Nat
  deriving DecidableEq, Repr

/-- A cable as written, without its area. -/
structure StoredCable where
  kind : CableKind
  color : CableColor
  moduleFrom : Nat
  jackFrom : Nat
  moduleTo : Nat
  jackTo : Nat
  deriving DecidableEq, Repr

/-- One section of a file to be built. -/
inductive Part where
  | description (activeVariation voices : Nat) (mono : Bool)
  /-- Modules as pairs of type and id. -/
  | modules (area : Area) (entries : List (Nat × Nat))
  | cables (area : Area) (entries : List StoredCable)
  /-- Parameters, one variation to a module. -/
  | parameters (area : Area) (blocks : List StoredBlock)
  | raw (kind : UInt8) (payload : List UInt8)
  deriving DecidableEq, Repr

/-! ## Fields -/

def descriptionFields (activeVariation voices : Nat) (mono : Bool) : List Field :=
  [⟨8, activeVariation⟩, ⟨5, voices⟩, ⟨1, mono.toNat⟩, ⟨2, 0⟩]

/-- Type and id, then position, color, uprate, leds, reserved bits and mode count, all zero. -/
def moduleFields (typeId id : Nat) : List Field :=
  [⟨8, typeId⟩, ⟨8, id⟩, ⟨7, 0⟩, ⟨7, 0⟩, ⟨8, 0⟩, ⟨1, 0⟩, ⟨1, 0⟩, ⟨6, 0⟩, ⟨4, 0⟩]

def moduleListFields (area : Area) (modules : List (Nat × Nat)) : List Field :=
  ⟨2, area.code⟩ :: ⟨8, modules.length⟩ :: modules.flatMap fun (typeId, id) => moduleFields typeId id

def cableFields (c : StoredCable) : List Field :=
  [⟨3, c.color.code⟩, ⟨8, c.moduleFrom⟩, ⟨6, c.jackFrom⟩, ⟨1, c.kind.code⟩, ⟨8, c.moduleTo⟩, ⟨6, c.jackTo⟩]

def cableListFields (area : Area) (cables : List StoredCable) : List Field :=
  ⟨2, area.code⟩ :: ⟨12, 0⟩ :: ⟨10, cables.length⟩ :: cables.flatMap cableFields

def blockFields (b : StoredBlock) : List Field :=
  [⟨8, b.moduleId⟩, ⟨7, b.declared⟩, ⟨8, 0⟩, ⟨7, b.values.length⟩] ++ b.values.map fun v => ⟨7, v⟩

def parameterFields (area : Area) (blocks : List StoredBlock) : List Field :=
  ⟨2, area.code⟩ :: ⟨8, blocks.length⟩ :: ⟨8, 1⟩ :: blocks.flatMap blockFields

/-! ## Bytes -/

namespace Part

def kind : Part → UInt8
  | .description .. => descriptionKind
  | .modules .. => moduleListKind
  | .cables .. => cableListKind
  | .parameters .. => parametersKind
  | .raw kind _ => kind

def payload : Part → List UInt8
  | .description activeVariation voices mono => pack (descriptionFields activeVariation voices mono)
  | .modules area entries => pack (moduleListFields area entries)
  | .cables area entries => pack (cableListFields area entries)
  | .parameters area blocks => pack (parameterFields area blocks)
  | .raw _ bytes => bytes

def bytes (p : Part) : List UInt8 :=
  let payload := p.payload
  p.kind :: UInt8.ofNat (payload.length / 256) :: UInt8.ofNat payload.length :: payload

end Part

/-- A whole file, with a trailer of zeros. -/
def build (parts : List Part) : List UInt8 :=
  preamble ++ [0, formatVersion, patchFileType] ++ parts.flatMap Part.bytes ++ [0, 0]

end Patchbay.Container
