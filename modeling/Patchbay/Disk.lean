/-
  Patchbay.Disk — what a run can read.
-/

import Patchbay.Disk.Path

namespace Patchbay

/-- Why a file could not be read or written. -/
inductive IoFault where
  | notFound
  | notADirectory
  | isADirectory
  | nameTooLong
  | nulInPath
  | invalidText
  | other (text : String)
  deriving DecidableEq, Repr

def IoFault.message : IoFault → String
  | .notFound => "No such file or directory (os error 2)"
  | .notADirectory => "Not a directory (os error 20)"
  | .isADirectory => "Is a directory (os error 21)"
  | .nameTooLong => "File name too long (os error 36)"
  | .nulInPath => "file name contained an unexpected NUL byte"
  | .invalidText => "stream did not contain valid UTF-8"
  | .other text => text

/-- The files of a machine as a run finds them. -/
structure Disk where
  read : Path → Except IoFault (List UInt8)
  isFile : Path → Bool

namespace Disk

def decodeText (bytes : List UInt8) : Except IoFault String :=
  match String.fromUTF8? ⟨bytes.toArray⟩ with
  | some text => .ok text
  | none => .error .invalidText

def readText (d : Disk) (p : Path) : Except IoFault String := do
  let bytes ← d.read p
  decodeText bytes

end Disk

end Patchbay
