/-
  Patchbay.Diagnostic — findings that a caller may choose to tolerate.
-/

namespace Patchbay

inductive Severity where
  | error
  | warning
  deriving DecidableEq, Repr

def Severity.label : Severity → String
  | .error => "error"
  | .warning => "warning"

/-- The bytes of a patch file from `start` up to but not including `stop`. -/
structure Span where
  start : Nat
  stop : Nat
  deriving DecidableEq, Repr

structure Diagnostic where
  code : Option String := none
  severity : Severity
  span : Option Span := none
  message : String
  hint : Option String := none
  deriving DecidableEq, Repr

namespace Diagnostic

/-- A module is of a type the catalog lacks. -/
def unknownModuleCode : String := "W0100"

/-- A template is for a type the catalog lacks. -/
def unknownTypeCode : String := "E0200"

/-- A template does not declare a group of slots. -/
def missingDirectiveCode : String := "E0201"

/-- A template declares more or fewer slots than the catalog. -/
def slotCountCode : String := "E0202"

/-- A template declares a slot of another rate than the catalog. -/
def slotRateCode : String := "E0203"

/-- The finding on one line, a hint on a second. -/
def text (d : Diagnostic) : String :=
  let code := match d.code with
    | some c => s!"[{c}]"
    | none => ""
  let span := match d.span with
    | some s => s!" (bytes {s.start}..{s.stop})"
    | none => ""
  let hint := match d.hint with
    | some h => s!"\n  hint: {h}"
    | none => ""
  d.severity.label ++ code ++ ": " ++ d.message ++ span ++ hint

end Diagnostic

end Patchbay
