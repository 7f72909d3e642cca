/-
  Patchbay.Container.Fault — why bytes are no patch.

  A format fault says that a file is not a patch at all, a corruption that it is one with
  damaged sections or records. Offsets count from the start of the file.
-/

import Patchbay.Disk
import Patchbay.Patch.Code
import Patchbay.Text.Numeral

namespace Patchbay

inductive FormatFault where
  | badExtension (path : Path)
  | badPreamble
  | unterminatedPreamble
  | missingHeader
  | unsupportedVersion (version : UInt8)
  | unsupportedFileType (fileType : UInt8)
  deriving DecidableEq, Repr

def FormatFault.message : FormatFault → String
  | .badExtension path => s!"{path}: patch file should have extension '.pch2'"
  | .badPreamble => "not a G2 patch: missing 'Version=Nord Modular G2 File Format' preamble"
  | .unterminatedPreamble => "text preamble is not terminated"
  | .missingHeader => "binary header is missing"
  | .unsupportedVersion version => s!"unsupported format version 0x{Text.hexByte version}"
  | .unsupportedFileType fileType => s!"unsupported file type {fileType.toNat}: only patches can be converted"

inductive Corruption where
  | truncatedHeader (offset : Nat)
  | sectionOverrun (kind : UInt8) (offset declared available : Nat)
  | sectionLength (kind : UInt8) (offset declared consumed : Nat)
  | truncated (kind : UInt8) (offset : Nat)
  | parameterCount (area : Area) (moduleId declared stored : Nat)
  | duplicateModule (area : Area) (id : Nat)
  | invalidCode (kind : UInt8) (offset : Nat) (code : UnknownCode)
  | missingTrailer
  deriving DecidableEq, Repr

namespace Corruption

/-- A section as messages name it. -/
def place (kind : UInt8) (offset : Nat) : String := s!"section 0x{Text.hexByte kind} at byte {offset}"

def message : Corruption → String
  | .truncatedHeader offset => s!"section header at byte {offset} is truncated"
  | .sectionOverrun kind offset declared available =>
    s!"{place kind offset} declares {declared} bytes but only {available} remain"
  | .sectionLength kind offset declared consumed =>
    s!"{place kind offset} declares {declared} bytes but its records use {consumed}"
  | .truncated kind offset => s!"{place kind offset} ends inside a record"
  | .parameterCount area moduleId declared stored =>
    s!"{area} module {moduleId} declares {declared} parameters but stores {stored}"
  | .duplicateModule area id => s!"{area} module id {id} is declared twice"
  | .invalidCode kind offset code => s!"{place kind offset}: {code.message}"
  | .missingTrailer => "checksum trailer is missing"

end Corruption

/-- Why there is no patch to be had from a file. -/
inductive PatchError where
  | unreadable (path : Path) (fault : IoFault)
  | format (fault : FormatFault)
  | corrupt (fault : Corruption)
  deriving DecidableEq, Repr

def PatchError.message : PatchError → String
  | .unreadable path fault => s!"{path}: {fault.message}"
  | .format fault => fault.message
  | .corrupt fault => fault.message

end Patchbay
