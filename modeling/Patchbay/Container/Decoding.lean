/-
  Patchbay.Container.Decoding — patches from bytes.

  The records of all sections are read in file order up to the first fault. The patch is
  what the records say: the last description, and modules, cables and parameter blocks in
  order. It stands only if no fault came and no module id was declared twice in an area; a
  second declaration counts as soon as its record is read, so it wins over a later fault.
-/

import Patchbay.Container.Record

namespace Patchbay

namespace Container

/-- The records of all sections up to the first fault; `last` is the fault after them. -/
def scan (last : Option Corruption) : List Section → List Record × Option Corruption
  | [] => ([], last)
  | s :: ss =>
    match s.records with
    | (records, some fault) => (records, some fault)
    | (records, none) =>
      let (later, fault) := scan last ss
      (records ++ later, fault)

/-- The records before the first module that is declared a second time, and that fault. -/
def untilRepeated (seen : List (Area × Nat)) : List Record → List Record × Option Corruption
  | [] => ([], none)
  | .placed area typeId id span :: rest =>
    if (area, id) ∈ seen then ([], some (.duplicateModule area id))
    else
      let (kept, fault) := untilRepeated ((area, id) :: seen) rest
      (.placed area typeId id span :: kept, fault)
  | r :: rest =>
    let (kept, fault) := untilRepeated seen rest
    (r :: kept, fault)

/-! ## What a record contributes -/

/-- The finding on a module of a type the catalog lacks. -/
def unknownModule (area : Area) (typeId id : Nat) (span : Span) : Diagnostic where
  code := some Diagnostic.unknownModuleCode
  severity := .warning
  span := some span
  message := s!"{area} module {id} has unknown type {typeId}"
  hint := some "the module keeps no jacks; cables to it cannot be routed"

namespace Record

def description? : Record → Option Description
  | .description d => some d
  | _ => none

def placedModule? (catalog : Catalog) : Record → Option PatchModule
  | .placed area typeId id _ => some (.place catalog area typeId id)
  | _ => none

def cable? : Record → Option Cable
  | .cable c => some c
  | _ => none

def parameters? : Record → Option ParameterBlock
  | .parameters b => some b
  | _ => none

def diagnostic? (catalog : Catalog) : Record → Option Diagnostic
  | .placed area typeId id span =>
    if (catalog.lookup typeId).isSome then none else some (unknownModule area typeId id span)
  | _ => none

def event? (catalog : Catalog) : Record → Option Event
  | .description _ | .cable _ | .parameters _ => none
  | .moduleList area count => some (.moduleList area count)
  | .placed area typeId id _ =>
    if (catalog.lookup typeId).isSome then none else some (.unknownModuleType area id typeId)
  | .cableList area count => some (.cableList area count)
  | .parameterList area modules variations => some (.parameterList area modules variations)
  | .skipped kind length => some (.skippedSection kind length)

end Record

end Container

namespace Patch

open Container

def ofRecords (catalog : Catalog) (records : List Record) : Patch where
  description := (records.filterMap Record.description?).getLast?.getD {}
  modules := records.filterMap (Record.placedModule? catalog)
  cables := records.filterMap Record.cable?
  params := records.filterMap Record.parameters?
  diagnostics := records.filterMap (Record.diagnostic? catalog)

/-- The patch in a file's bytes. -/
def ofBytes (catalog : Catalog) (bytes : List UInt8) : Logged (Except PatchError Patch) :=
  match header bytes with
  | .error fault => ⟨[], .error (.format fault)⟩
  | .ok (offset, body) =>
    let framing := frame offset body
    let (records, fault) := scan framing.fault framing.sections
    let (kept, repeated) := untilRepeated [] records
    ⟨kept.filterMap (Record.event? catalog),
      match repeated.or fault with
      | some fault => .error (.corrupt fault)
      | none => .ok (ofRecords catalog kept)⟩

/-! ## Files -/

def isPatchPath (p : Path) : Bool := p.hasExtension "pch2"

/-- The bytes of a patch file; other files are refused by their names. -/
def readBytes (disk : Disk) (p : Path) : Logged (Except PatchError (List UInt8)) :=
  if !isPatchPath p then ⟨[], .error (.format (.badExtension p))⟩
  else
    match disk.read p with
    | .error fault => ⟨[], .error (.unreadable p fault)⟩
    | .ok bytes => ⟨[.readPatch p bytes.length], .ok bytes⟩

def read (catalog : Catalog) (disk : Disk) (p : Path) : Logged (Except PatchError Patch) := do
  match ← readBytes disk p with
  | .error e => return .error e
  | .ok bytes => ofBytes catalog bytes

end Patch

end Patchbay
