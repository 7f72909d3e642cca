/-
  Patchbay.Template.Set — the templates of a patch.

  Loading asks a source for the template of each used type. Types without one are noted as
  missing, in the order of the types; any other error ends the loading.
-/

import Patchbay.Template.Source

namespace Patchbay

structure TemplateSet where
  /-- At most one for a type. -/
  templates : List Template := []
  /-- The types that had no template when they were asked for. -/
  missing : List Nat := []
  deriving Repr

namespace TemplateSet

def get? (s : TemplateSet) (typeId : Nat) : Option Template := s.templates.find? (·.typeId == typeId)

/-- Put a template in, in place of one of its type. -/
def insert (s : TemplateSet) (t : Template) : TemplateSet :=
  { s with templates := t :: s.templates.filter fun u => u.typeId ≠ t.typeId }

def size (s : TemplateSet) : Nat := s.templates.length

def isEmpty (s : TemplateSet) : Bool := s.templates.isEmpty

/-- Load the templates of more types. -/
def loadInto (source : Template.Source) (s : TemplateSet) : List Nat → Logged (Except TemplateError TemplateSet)
  | [] => return .ok s
  | typeId :: rest => do
    match ← source.load typeId with
    | .ok t => loadInto source (s.insert t) rest
    | .error (.notFound _) =>
      Logged.note (.noTemplate typeId)
      loadInto source { s with missing := s.missing ++ [typeId] } rest
    | .error e => return .error e

def load (source : Template.Source) (types : List UsedType) : Logged (Except TemplateError TemplateSet) :=
  loadInto source {} (types.map UsedType.typeId)

end TemplateSet

end Patchbay
