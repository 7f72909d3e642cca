/-
  Patchbay.Template — the opcode definition of one module type.

  A template's text declares the slots of its opcode on directive lines, which start with
  `;@` after any blanks; the other lines are the body. Each group of slots is declared at
  most once, and a group that is not declared stays `none`. The opcode takes the parameter
  values, then the inlet buses, then the outlet buses.
-/

import Patchbay.Disk
import Patchbay.Patch
import Patchbay.Template.Directive
import Patchbay.Text.Blank
import Patchbay.Text.Lines

namespace Patchbay

inductive TemplateError where
  | notFound (typeId : Nat)
  | unreadable (path : Path) (fault : IoFault)
  | malformed (origin : String) (line : Nat) (fault : DirectiveFault)
  deriving DecidableEq, Repr

def TemplateError.message : TemplateError → String
  | .notFound typeId => s!"no template for module type {typeId}"
  | .unreadable path fault => s!"{path}: {fault.message}"
  | .malformed origin line fault => s!"{origin}:{line}: {fault.message}"

/-! ## Slots -/

structure Slots where
  args : Option (List ArgRate) := none
  inlets : Option (List Rate) := none
  outlets : Option (List Rate) := none
  deriving DecidableEq, Repr

namespace Slots

/-- Declare a group that is not declared yet. -/
def declare (s : Slots) : Directive → Except DirectiveFault Slots
  | .args rates => if s.args.isSome then .error (.duplicate .args) else .ok { s with args := some rates }
  | .inlets rates => if s.inlets.isSome then .error (.duplicate .inlets) else .ok { s with inlets := some rates }
  | .outlets rates => if s.outlets.isSome then .error (.duplicate .outlets) else .ok { s with outlets := some rates }

/-- Number of slots in a group, zero when it is not declared. -/
def count (s : Slots) : SlotKind → Nat
  | .args => (s.args.getD []).length
  | .inlets => (s.inlets.getD []).length
  | .outlets => (s.outlets.getD []).length

end Slots

/-! ## Reading -/

structure Template where
  typeId : Nat
  slots : Slots
  body : String
  origin : String
  deriving DecidableEq, Repr

namespace Template

/-- What follows the marker of a directive line; a body line has none. -/
def directiveText? (line : List Char) : Option (List Char) :=
  match Text.trimStart line with
  | ';' :: '@' :: rest => some rest
  | _ => none

/-- The slots declared by lines of which the first has number `number`, added to `s`; or the
    number of the first line at fault. -/
def declareLines (number : Nat) (s : Slots) : List (List Char) → Except (Nat × DirectiveFault) Slots
  | [] => .ok s
  | line :: lines =>
    match directiveText? line with
    | none => declareLines (number + 1) s lines
    | some rest =>
      match Directive.ofText rest >>= s.declare with
      | .error fault => .error (number, fault)
      | .ok s => declareLines (number + 1) s lines

def isBlankLine (line : List Char) : Bool := line.all Text.isBlank

/-- The lines that are no directives, without the blank ones at the end. -/
def bodyLines (lines : List (List Char)) : List (List Char) :=
  ((lines.filter fun l => (directiveText? l).isNone).reverse.dropWhile isBlankLine).reverse

def parse (typeId : Nat) (text origin : String) : Except TemplateError Template :=
  let lines := Text.lines text.toList
  match declareLines 1 {} lines with
  | .error (line, fault) => .error (.malformed origin line fault)
  | .ok slots => .ok ⟨typeId, slots, "\n".intercalate ((bodyLines lines).map String.ofList), origin⟩

/-! ## Definition -/

def opcodeName (typeId : Nat) : String := s!"Mod{typeId}"

/-- The opcode's inputs: a rate letter per parameter, then an `i` per bus; `0` for no inputs. -/
def signature (t : Template) : String :=
  let letters := (t.slots.args.getD []).map ArgRate.letter ++
    List.replicate (t.slots.count .inlets + t.slots.count .outlets) 'i'
  if letters.isEmpty then "0" else String.ofList letters

/-- The definition, under a comment with the type's name. -/
def definition (t : Template) (name : Option String) : String :=
  let title := name.getD "?"
  s!"; {title} (type {t.typeId})\n" ++
  s!"opcode {opcodeName t.typeId}, 0, {t.signature}\n" ++
  (if t.body = "" then "" else t.body ++ "\n") ++
  "endop\n"

/-! ## Calls -/

/-- The arguments of a module's call: parameter values, inlet buses, outlet buses. -/
def callArguments (m : PatchModule) (params : List Nat) : List Nat := params ++ m.inletBuses ++ m.outletBuses

/-- The call of a module's opcode. -/
def call (m : PatchModule) (params : List Nat) : String :=
  let arguments := callArguments m params
  if arguments.isEmpty then opcodeName m.typeId
  else opcodeName m.typeId ++ " " ++ ", ".intercalate (arguments.map toString)

end Template

end Patchbay
