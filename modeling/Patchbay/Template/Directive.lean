/-
  Patchbay.Template.Directive — the lines of a template that declare its slots.

  A directive is a keyword and the rates of a group of slots: `args` takes the rates `k` and
  `i`, `ins` and `outs` take `a` and `k`. Spaces, tabs and commas separate. A word is a
  letter or underscore and all letters, digits and underscores after it; any other
  character is a lexeme by itself, so it is neither keyword nor rate.
-/

import Patchbay.Rate

namespace Patchbay

/-- The rate of a parameter slot. -/
inductive ArgRate where
  | control
  | init
  deriving DecidableEq, Repr

/-- The rate letter of Csound. -/
def ArgRate.letter : ArgRate → Char
  | .control => 'k'
  | .init => 'i'

/-- The groups of slots a template declares. -/
inductive SlotKind where
  | args
  | inlets
  | outlets
  deriving DecidableEq, Repr

/-- The keyword of the group's directive. -/
def SlotKind.keyword : SlotKind → String
  | .args => "args"
  | .inlets => "ins"
  | .outlets => "outs"

instance : ToString SlotKind := ⟨SlotKind.keyword⟩

inductive Directive where
  | args (rates : List ArgRate)
  | inlets (rates : List Rate)
  | outlets (rates : List Rate)
  deriving DecidableEq, Repr

inductive DirectiveFault where
  | empty
  | unknownKeyword (lexeme : String)
  | notParameterRate (lexeme : String)
  | notJackRate (lexeme : String)
  | duplicate (kind : SlotKind)
  deriving DecidableEq, Repr

def DirectiveFault.message : DirectiveFault → String
  | .empty => "empty directive"
  | .unknownKeyword lexeme => s!"unknown directive '{lexeme}'"
  | .notParameterRate lexeme => s!"'{lexeme}' is not a parameter rate (expected k or i)"
  | .notJackRate lexeme => s!"'{lexeme}' is not a jack rate (expected a or k)"
  | .duplicate kind => s!"duplicate '{kind}' directive"

namespace Directive

/-! ## Lexemes -/

def isSeparator (c : Char) : Bool := c = ' ' || c = '\t' || c = ','

def isWordStart (c : Char) : Bool := c.isAlpha || c = '_'

def isWordRest (c : Char) : Bool := c.isAlphanum || c = '_'

def lexemes (cs : List Char) : List String :=
  match cs with
  | [] => []
  | c :: rest =>
    if isSeparator c then lexemes rest
    else if isWordStart c then
      String.ofList (c :: rest.takeWhile isWordRest) :: lexemes (rest.dropWhile isWordRest)
    else c.toString :: lexemes rest
termination_by cs.length
decreasing_by
  · simp
  · exact Nat.lt_succ_of_le (List.dropWhile_sublist _).length_le
  · simp

/-! ## Reading -/

def argRate (lexeme : String) : Except DirectiveFault ArgRate :=
  if lexeme = "k" then .ok .control
  else if lexeme = "i" then .ok .init
  else .error (.notParameterRate lexeme)

def jackRate (lexeme : String) : Except DirectiveFault Rate :=
  if lexeme = "a" then .ok .audio
  else if lexeme = "k" then .ok .control
  else .error (.notJackRate lexeme)

def ofLexemes : List String → Except DirectiveFault Directive
  | [] => .error .empty
  | keyword :: rates =>
    if keyword = SlotKind.args.keyword then (rates.mapM argRate).map .args
    else if keyword = SlotKind.inlets.keyword then (rates.mapM jackRate).map .inlets
    else if keyword = SlotKind.outlets.keyword then (rates.mapM jackRate).map .outlets
    else .error (.unknownKeyword keyword)

/-- The directive spelled by what follows a line's marker. -/
def ofText (cs : List Char) : Except DirectiveFault Directive := ofLexemes (lexemes cs)

def kind : Directive → SlotKind
  | .args _ => .args
  | .inlets _ => .inlets
  | .outlets _ => .outlets

end Directive

end Patchbay
