/-
  Patchbay.Container.Framing — a patch file cut into its sections.

  A file is a text preamble ended by a zero byte, a version byte and a file type byte,
  sections, and a trailer of two bytes that is not looked at. A section is a kind byte, the
  length of its payload as two bytes, high byte first, and the payload. Cutting yields the
  complete sections and, if the file does not end in two bytes after the last of them, the
  fault there.
-/

import Patchbay.Container.Fault

namespace Patchbay.Container

/-! ## Header -/

def asciiBytes (text : String) : List UInt8 := text.toList.map fun c => UInt8.ofNat c.toNat

/-- How the preamble starts. -/
def magic : List UInt8 := asciiBytes "Version=Nord Modular G2 File Format"

def formatVersion : UInt8 := 0x17

def patchFileType : UInt8 := 0x00

/-- The offset of the first section and the bytes from there on. -/
def header (bytes : List UInt8) : Except FormatFault (Nat × List UInt8) :=
  if !magic.isPrefixOf bytes then .error .badPreamble
  else
    match bytes.dropWhile (· ≠ 0) with
    | [] => .error .unterminatedPreamble
    | _ :: version :: fileType :: body =>
      if version ≠ formatVersion then .error (.unsupportedVersion version)
      else if fileType ≠ patchFileType then .error (.unsupportedFileType fileType)
      else .ok ((bytes.takeWhile (· ≠ 0)).length + 3, body)
    | _ => .error .missingHeader

/-! ## Sections -/

structure Section where
  kind : UInt8
  /-- Where the section starts in the file. -/
  offset : Nat
  payload : List UInt8
  deriving DecidableEq, Repr

namespace Section

def headerSize : Nat := 3

/-- The offset after the section. -/
def stop (s : Section) : Nat := s.offset + headerSize + s.payload.length

end Section

/-- Complete sections in file order, and what ends them too early. -/
structure Framing where
  sections : List Section
  fault : Option Corruption
  deriving DecidableEq, Repr

/-- Two bytes as a length, high byte first. -/
def lengthOf (high low : UInt8) : Nat := high.toNat * 256 + low.toNat

/-- Cut the bytes from `offset` on. A section must leave two bytes for the trailer. -/
def frame (offset : Nat) (bytes : List UInt8) : Framing :=
  match bytes with
  | [] | [_] => ⟨[], some .missingTrailer⟩
  | [_, _] => ⟨[], none⟩
  | [_, _, _] | [_, _, _, _] => ⟨[], some (.truncatedHeader offset)⟩
  | kind :: high :: low :: body =>
    let declared := lengthOf high low
    match _h : body.drop declared with
    | first :: second :: rest =>
      let later := frame (offset + Section.headerSize + declared) (first :: second :: rest)
      ⟨⟨kind, offset, body.take declared⟩ :: later.sections, later.fault⟩
    | _ => ⟨[], some (.sectionOverrun kind offset declared (body.length - 2))⟩
termination_by bytes.length
decreasing_by
  have := congrArg List.length _h
  simp only [List.length_drop, List.length_cons] at this ⊢
  omega

end Patchbay.Container
