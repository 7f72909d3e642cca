/-
  Patchbay.Document — the Csound document of a routed patch.

  The document declares the bus spaces, defines one opcode for each used type, and has one
  instrument that calls each module's opcode in patch order and then clears the buses, so
  that nothing of one control period is heard in the next. A type without a template leaves a
  comment where its definition would be.
-/

import Patchbay.Template.Set

namespace Patchbay

structure DocumentOptions where
  sampleRate : Nat := 96000
  ksmps : Nat := 16
  nchnls : Nat := 2
  /-- Seconds the instrument plays. -/
  duration : Nat := 3600
  deriving DecidableEq, Repr

namespace Document

/-! ## Parts -/

def settings (o : DocumentOptions) : String :=
  s!"sr = {o.sampleRate}\nksmps = {o.ksmps}\nnchnls = {o.nchnls}\n0dbfs = 1\n\n"

/-- The numbers of buses of both spaces. -/
def busSpace (counter : BusCounter) : String :=
  s!"zakinit {counter.spaceSize .audio}, {counter.spaceSize .control}\n\n"

/-- The definition of a type's opcode, or a comment that there is none. -/
def definition (templates : TemplateSet) (type : UsedType) : String :=
  (match templates.get? type.typeId with
  | some t => t.definition type.name
  | none =>
    let name := type.name.getD "?"
    s!"; {name} (type {type.typeId}): no template for {Template.opcodeName type.typeId}\n") ++ "\n"

/-- The call of a module's opcode. -/
def callLine (p : Patch) (m : PatchModule) : String := Template.call m (p.paramValues m.area m.id) ++ "\n"

def clearing (counter : BusCounter) : String :=
  s!"zacl 0, {counter.highest .audio}\nzkcl 0, {counter.highest .control}\n"

/-- One line that plays the instrument. -/
def score (o : DocumentOptions) : String := s!"i 1 0 {o.duration}\n"

/-! ## Whole -/

def render (p : Patch) (counter : BusCounter) (types : List UsedType) (templates : TemplateSet)
    (o : DocumentOptions) : String :=
  "<CsoundSynthesizer>\n<CsInstruments>\n" ++
  settings o ++
  busSpace counter ++
  String.join (types.map (definition templates)) ++
  "instr 1\n" ++
  String.join (p.modules.map (callLine p)) ++
  clearing counter ++
  "endin\n</CsInstruments>\n<CsScore>\n" ++
  score o ++
  "</CsScore>\n</CsoundSynthesizer>\n"

/-- A warning for a module whose stored parameters do not fill its template's slots. -/
def parameterWarning? (p : Patch) (templates : TemplateSet) (m : PatchModule) : Option Event :=
  match templates.get? m.typeId with
  | none => none
  | some t =>
    let expected := t.slots.count .args
    let stored := (p.paramValues m.area m.id).length
    if expected = stored then none else some (.parameterCount m.area m.id expected stored)

/-- The warnings that go with a document. -/
def warnings (p : Patch) (templates : TemplateSet) : List Event := p.modules.filterMap (parameterWarning? p templates)

end Document

end Patchbay
