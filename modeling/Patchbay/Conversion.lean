/-
  Patchbay.Conversion — from a patch file to a document.

  Compiling a patch routes its cables, loads the templates of its types, checks those that
  were loaded and renders the document. A converted file is a compiled patch with the name
  and digest of its input, which stand in comments before the document. Types without a
  template and invalid templates are reported, they do not stop a conversion.
-/

import Patchbay.Container.Decoding
import Patchbay.Disk.FileTree
import Patchbay.Document
import Patchbay.Routing
import Patchbay.Sha256

namespace Patchbay

/-! ## Errors -/

inductive ConversionError where
  | patch (e : PatchError)
  | routing (e : RoutingError)
  | template (e : TemplateError)
  | write (path : Path) (fault : IoFault)
  deriving DecidableEq, Repr

namespace ConversionError

def message : ConversionError → String
  | .patch e => e.message
  | .routing e => s!"routing failed: {e.message}"
  | .template e => e.message
  | .write path fault => s!"{path}: cannot write output: {fault.message}"

/-- Whether the files of the machine are to blame, not the patch or its templates. -/
def isIo : ConversionError → Bool
  | .patch (.unreadable ..) | .template (.unreadable ..) | .write .. => true
  | _ => false

end ConversionError

/-! ## Provenance -/

/-- The version in the comments before a document. -/
def version : String := "0.2.0"

/-- What a document was made from. -/
structure Provenance where
  digest : List UInt8
  deriving DecidableEq, Repr

namespace Provenance

def ofBytes (bytes : List UInt8) : Provenance := ⟨Sha256.digest bytes⟩

def hex (p : Provenance) : String := Text.hexBytes p.digest

def header (p : Provenance) (name : String) : String :=
  s!"; generated by g2csd {version}\n; source: {name}\n; source sha256: {p.hex}\n"

end Provenance

/-! ## Compiling -/

structure Compiled where
  patch : Patch
  types : List UsedType
  templates : TemplateSet
  /-- One for each loaded template, in the order of the types. -/
  validations : List Validation
  text : String
  deriving Repr

namespace Compiled

def missing (c : Compiled) : List Nat := c.templates.missing

def invalid (c : Compiled) : List Validation := c.validations.filter fun v => !v.isValid

def hasInvalid (c : Compiled) : Bool := !c.invalid.isEmpty

end Compiled

/-- The findings for the templates of types that have one. -/
def TemplateSet.validations (s : TemplateSet) (catalog : Catalog) (types : List UsedType) : List Validation :=
  (types.filterMap fun t => s.get? t.typeId).map (Template.validate catalog)

def Validation.events (v : Validation) : List Event := v.mismatches.map (Event.invalidTemplate v.typeId)

def Patch.compile (p : Patch) (catalog : Catalog) (source : Template.Source) (o : DocumentOptions) :
    Logged (Except ConversionError Compiled) := do
  match p.connect {} with
  | .error e => return .error (.routing e)
  | .ok routed =>
    Logged.noteAll routed.events
    match ← TemplateSet.load source routed.types with
    | .error e => return .error (.template e)
    | .ok templates =>
      let validations := templates.validations catalog routed.types
      Logged.noteAll (validations.flatMap Validation.events)
      Logged.noteAll (Document.warnings routed.patch templates)
      let text := Document.render routed.patch routed.counter routed.types templates o
      return .ok ⟨routed.patch, routed.types, templates, validations, text⟩

/-! ## Files -/

/-- A converted file, not written yet. -/
structure Conversion where
  input : Path
  provenance : Provenance
  compiled : Compiled
  deriving Repr

namespace Conversion

/-- The document under its comments. -/
def document (c : Conversion) : String := c.provenance.header (c.input.fileName?.getD "") ++ c.compiled.text

def prepare (catalog : Catalog) (disk : Disk) (input : Path) (source : Template.Source) (o : DocumentOptions) :
    Logged (Except ConversionError Conversion) := do
  match ← Patch.readBytes disk input with
  | .error e => return .error (.patch e)
  | .ok bytes =>
    match ← Patch.ofBytes catalog bytes with
    | .error e => return .error (.patch e)
    | .ok p =>
      match ← p.compile catalog source o with
      | .error e => return .error e
      | .ok compiled => return .ok ⟨input, .ofBytes bytes, compiled⟩

/-- Where a document goes unless another place is named: beside its input. -/
def outputPath (input : Path) : Path := ⟨input.text ++ ".csd"⟩

/-- What is noted once the document is written. -/
def writtenEvent (c : Conversion) (output : Path) : Event :=
  .wroteDocument c.input output c.compiled.patch.modules.length c.compiled.patch.cables.length

/-- Write the document into a file tree. -/
def write (c : Conversion) (tree : FileTree) (output : Path) : Logged (Except ConversionError FileTree) :=
  match tree.write output c.document.toUTF8.toList with
  | .error fault => ⟨[], .error (.write output fault)⟩
  | .ok tree => ⟨[c.writtenEvent output], .ok tree⟩

/-- Convert a file of a tree, into `output` or beside the input; the tree after that, and
    where the document went. -/
def convertFile (catalog : Catalog) (tree : FileTree) (input : Path) (source : Template.Source)
    (o : DocumentOptions) (output : Option Path) : Logged (Except ConversionError (FileTree × Path)) := do
  match ← prepare catalog tree.disk input source o with
  | .error e => return .error e
  | .ok c =>
    let output := output.getD (outputPath input)
    return (← c.write tree output).map fun tree => (tree, output)

end Conversion

end Patchbay
