/-
  Patchbay.Command.Run — what a run prints, writes and exits with.

  A run only reads until it is done, except that it may end in writing one file. It is then
  given as the file, its text and the outcome for either result of the writing. A document
  is written only if every type has a template, unless that is allowed, and, if templates
  are to be strict, every template is valid. Exit code 2 blames the files of the machine or
  the arguments, 1 the patch or its templates.

  The program comes with templates of its own, in a directory `shipped` of the machine it was
  built on. They are read like any others, when a run needs them.
-/

import Patchbay.Catalog.Builtin
import Patchbay.Catalog.Reading
import Patchbay.Command.Arguments
import Patchbay.Conversion
import Patchbay.Json.Pretty
import Patchbay.Patch.Json
import Patchbay.Report.PatchTables
import Patchbay.Report.TemplateCheck

namespace Patchbay.Command

/-! ## Outcomes -/

/-- What goes to the error stream: an event or a message of one or more lines. -/
inductive Notice where
  | event (e : Event)
  | text (s : String)
  deriving DecidableEq, Repr

/-- Events below a warning are shown on demand. -/
def Notice.isShown (verbose : Bool) : Notice → Bool
  | .event e => verbose || e.isWarning
  | .text _ => true

def Notice.render : Notice → String
  | .event e => e.line
  | .text s => s

structure Outcome where
  code : Nat
  output : String := ""
  notices : List Notice := []
  deriving DecidableEq, Repr

inductive Run where
  | finished (o : Outcome)
  | write (path : Path) (text : String) (after : Except IoFault Unit → Outcome)

namespace Outcome

def note (before : List Notice) (o : Outcome) : Outcome := { o with notices := before ++ o.notices }

def shown (verbose : Bool) (o : Outcome) : Outcome := { o with notices := o.notices.filter (Notice.isShown verbose) }

/-- A run that ends with an error. -/
def fail (code : Nat) (message : String) : Outcome := { code, notices := [.text s!"g2csd: error: {message}"] }

end Outcome

namespace Run

def mapOutcome (f : Outcome → Outcome) : Run → Run
  | .finished o => .finished (f o)
  | .write path text after => .write path text fun result => f (after result)

/-- Put events in front of what a run notes. -/
def logged (l : Logged Run) : Run := l.value.mapOutcome (Outcome.note (l.events.map .event))

def fail (code : Nat) (message : String) : Run := .finished (.fail code message)

def failWith (e : ConversionError) : Run := fail (if e.isIo then 2 else 1) e.message

/-- A run that needs the plain argument. -/
def withArgument (o : Options) (what : String) (next : String → Run) : Run :=
  match o.argument with
  | some a => next a
  | none => fail 2 s!"expected {what} argument"

/-- Carry a run out on a file tree. -/
def onTree (tree : FileTree) : Run → Outcome × FileTree
  | .finished o => (o, tree)
  | .write path text after =>
    match tree.write path text.toUTF8.toList with
    | .ok tree => (after (.ok ()), tree)
    | .error fault => (after (.error fault), tree)

end Run

/-! ## Reports -/

def typeIdOf? (argument : String) : Option Nat := (Text.natural? argument.toList).filter (· < numberLimit)

def check (catalog : Catalog) (source : Template.Source) (argument : String) : Run :=
  match typeIdOf? argument with
  | none => .fail 2 s!"--check-udo expects an integer type id, got '{argument}'"
  | some typeId =>
    Run.logged do
      let (text, valid) ← Report.checkReport catalog source typeId
      return .finished { code := if valid then 0 else 1, output := text }

def status (catalog : Catalog) (source : Template.Source) (output : Option Path) : Run :=
  Run.logged do
    let text ← Report.statusPage catalog source
    match output with
    | none => return .finished { code := 0, output := text }
    | some path => return .write path text fun
      | .ok () => { code := 0 }
      | .error fault => .fail 2 s!"{path}: {fault.message}"

/-- Print something of the patch in a file. -/
def printPatch (catalog : Catalog) (disk : Disk) (input : Path) (render : Patch → String) : Run :=
  Run.logged do
    match ← Patch.read catalog disk input with
    | .error e => return .failWith (.patch e)
    | .ok p => return .finished { code := 0, output := render p }

def tablesText (input : Path) (p : Patch) : String :=
  let name := input.fileName?.getD ""
  s!"Patch file: {name}\n\n" ++ Report.patchTables p

/-! ## Converting -/

/-- The types without a template, and what can be done. -/
def missingNotices (c : Compiled) : List Notice :=
  let missing := c.types.filter fun t => c.missing.contains t.typeId
  let names := missing.map fun t =>
    match t.name with
    | some name => s!"{name} ({t.typeId})"
    | none => s!"type {t.typeId}"
  let unknown := c.patch.unknownTypes
  [.text "g2csd: error: the patch contains modules that have no template yet:",
    .text ("g2csd:   " ++ ", ".intercalate names)] ++
  (if unknown.isEmpty then []
    else [.text ("g2csd: not in the module catalog: " ++ ", ".intercalate (unknown.map toString))]) ++
  [.text "g2csd: pass --allow-unimplemented to convert anyway"]

def invalidNotices (c : Compiled) : List Notice :=
  c.invalid.flatMap fun v => v.diagnostics.map fun d => .text s!"g2csd: template {v.typeId}.txt: {d.text}"

def diagnosticNotices (p : Patch) : List Notice := p.diagnostics.map fun d => .text s!"g2csd: {d.text}"

/-- Write the document of a converted file. -/
def writeDocument (c : Conversion) (output : Path) : Run :=
  .write output c.document fun
    | .ok () => { code := 0, notices := [.event (c.writtenEvent output)] }
    | .error fault => .fail 2 (ConversionError.write output fault).message

/-- Write the document if nothing forbids it. -/
def release (o : Options) (c : Conversion) : Run :=
  if !c.compiled.missing.isEmpty && !o.allowUnimplemented then
    .finished { code := 1, notices := missingNotices c.compiled }
  else if c.compiled.hasInvalid && o.strict then
    .finished { code := 1, notices := invalidNotices c.compiled }
  else
    let output := o.output.getD (Conversion.outputPath c.input)
    (writeDocument c output).mapOutcome fun done =>
      let farewell : List Notice := if done.code = 0 && o.verbose then [.text s!"g2csd: wrote {output}"] else []
      { done with notices := invalidNotices c.compiled ++ done.notices ++ farewell }

def documentOptions (o : Options) : DocumentOptions := ⟨o.sampleRate, o.ksmps, o.nchnls, o.duration⟩

def convert (catalog : Catalog) (disk : Disk) (source : Template.Source) (o : Options) (input : Path) : Run :=
  Run.logged do
    match ← Conversion.prepare catalog disk input source (documentOptions o) with
    | .error e => return .failWith e
    | .ok c => return (release o c).mapOutcome (Outcome.note (diagnosticNotices c.compiled.patch))

/-! ## Whole -/

def catalogOf (disk : Disk) (o : Options) : Except CatalogError Catalog :=
  match o.catalog with
  | some path => Catalog.load disk path
  | none => .ok .builtin

/-- The directory of a run's templates. -/
def templateRoot (shipped : Path) (o : Options) : Path := o.templates.getD shipped

/-- A run with its catalog and templates at hand. -/
def perform (catalog : Catalog) (disk : Disk) (source : Template.Source) (o : Options) : Run :=
  if o.check then Run.withArgument o "a module type id" (check catalog source)
  else
    match if o.print then .tables else o.emit with
    | .status => status catalog source o.output
    | .tables => Run.withArgument o "a patch file" fun a => printPatch catalog disk ⟨a⟩ (tablesText ⟨a⟩)
    | .graph => Run.withArgument o "a patch file" fun a =>
      printPatch catalog disk ⟨a⟩ fun p => p.toJson.pretty 0 ++ "\n"
    | .document => Run.withArgument o "a patch file" fun a => convert catalog disk source o ⟨a⟩

def run (disk : Disk) (shipped : Path) (o : Options) : Run :=
  let whole := match catalogOf disk o with
    | .error e => Run.fail 2 e.message
    | .ok catalog =>
      let root := templateRoot shipped o
      (perform catalog disk (.directory disk root) o).mapOutcome
        (Outcome.note [.event (.loadedCatalog catalog.types.length root)])
  whole.mapOutcome (Outcome.shown o.verbose)

/-- The files a run may read. Module types in a patch are below 256; other types are asked for
    only if the catalog has them. -/
def mayRead (disk : Disk) (shipped : Path) (o : Options) : List Path :=
  let known := match catalogOf disk o with
    | .ok catalog => catalog.types.map ModuleType.id
    | .error _ => []
  o.argument.toList.map (⟨·⟩) ++ (List.range 256 ++ known).map (Template.Source.pathFor (templateRoot shipped o))

end Patchbay.Command
