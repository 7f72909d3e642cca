/-
  Patchbay.Disk.FileTree — a tree of files and directories held in memory.

  Places in the tree are lists of names from the root. A directory is there if it is listed
  or lies on the way to something that is. A path is walked part by part from the working
  directory, or from the root when it starts with a slash; `..` leads to the directory
  above, and every part but the last must be a directory. Paths and names that are too long
  are refused as a machine refuses them.
-/

import Patchbay.Disk

namespace Patchbay

structure FileTree where
  /-- The working directory. -/
  home : List String := []
  directories : List (List String) := []
  files : List (List String × List UInt8) := []
  deriving Repr

namespace FileTree

def bytesAt? (t : FileTree) (place : List String) : Option (List UInt8) := t.files.lookup place

def isDirectory (t : FileTree) (place : List String) : Bool :=
  place.isPrefixOf t.home || t.directories.any place.isPrefixOf ||
    t.files.any fun f => f.1 ≠ place && place.isPrefixOf f.1

/-! ## Walking -/

/-- Names have at most this many bytes. -/
def nameLimit : Nat := 255

/-- Paths have fewer bytes than this. -/
def pathLimit : Nat := 4096

/-- Why a path is refused before it is walked. -/
def refusal? (p : Path) : Option IoFault :=
  if p.text.toList.contains '\x00' then some .nulInPath
  else if p.text = "" then some .notFound
  else if pathLimit ≤ p.text.utf8ByteSize then some .nameTooLong
  else none

/-- What a walk ends at. -/
inductive Spot where
  | directory
  | file (place : List String) (bytes : List UInt8)
  /-- A name not taken, in a directory that is there. -/
  | vacant (place : List String)
  deriving DecidableEq, Repr

def walk (t : FileTree) (place : List String) : List String → Except IoFault Spot
  | [] => .ok .directory
  | part :: rest =>
    if part = "" || part = "." then walk t place rest
    else if part = ".." then walk t place.dropLast rest
    else if nameLimit < part.utf8ByteSize then .error .nameTooLong
    else
      let next := place ++ [part]
      if t.isDirectory next then walk t next rest
      else
        match t.bytesAt? next with
        | some bytes => if rest.isEmpty then .ok (.file next bytes) else .error .notADirectory
        | none => if rest.isEmpty then .ok (.vacant next) else .error .notFound

def origin (t : FileTree) (p : Path) : List String := if p.isAbsolute then [] else t.home

/-! ## Reading and writing -/

def read (t : FileTree) (p : Path) : Except IoFault (List UInt8) :=
  match refusal? p with
  | some fault => .error fault
  | none =>
    match walk t (t.origin p) p.parts with
    | .ok (.file _ bytes) => .ok bytes
    | .ok .directory => .error .isADirectory
    | .ok (.vacant _) => .error .notFound
    | .error e => .error e

def isFile (t : FileTree) (p : Path) : Bool := (t.read p).isOk

def disk (t : FileTree) : Disk := ⟨t.read, t.isFile⟩

/-- The tree with `bytes` at `place`, in front of what was there. -/
def put (t : FileTree) (place : List String) (bytes : List UInt8) : FileTree :=
  { t with files := (place, bytes) :: t.files.filter fun f => f.1 ≠ place }

/-- Create or replace a file. A path with a slash at its end names no file. -/
def write (t : FileTree) (p : Path) (bytes : List UInt8) : Except IoFault FileTree :=
  match refusal? p with
  | some fault => .error fault
  | none =>
    let parts := (p.parts.reverse.dropWhile (· = "")).reverse
    match walk t (t.origin p) parts with
    | .error e => .error e
    | .ok .directory => .error .isADirectory
    | .ok (.file place _) | .ok (.vacant place) =>
      if p.text.toList.getLast? = some '/' then .error .isADirectory else .ok (t.put place bytes)

end FileTree

end Patchbay
