/-
  Patchbay.Json.Value — JSON values, and reading them from a text.

  The members of an object stay a list, repeated keys included; what a repeated key means
  is for the reader of the value to say. Reading is one pass over the tokens with a stack
  of the arrays and objects still open, so there is no bound on nesting.
-/

import Patchbay.Json.Token

namespace Patchbay.Json

inductive Value where
  | null
  | bool (b : Bool)
  | number (literal : String)
  | string (text : Option String)
  | array (items : List Value)
  | object (members : List (Option String × Value))

/-! ## Open arrays and objects -/

/-- An array or object that a value is about to enter, with what came before, newest first. -/
inductive Frame where
  | array (done : List Value)
  | object (done : List (Option String × Value)) (key : Option String)

inductive Expect where
  /-- A value. -/
  | value
  /-- A value, or the end of the array just opened. -/
  | firstItem
  /-- A key, or the end of the object just opened. -/
  | firstKey
  /-- A key, after a comma. -/
  | nextKey (done : List (Option String × Value))
  | colon (done : List (Option String × Value)) (key : Option String)
  /-- A comma, the end of the innermost frame or of the text: `v` is complete. -/
  | after (v : Value)

structure State where
  frames : List Frame
  expect : Expect

/-- The first token of a value. -/
def State.enter? (frames : List Frame) : Token → Option State
  | .openArray => some ⟨frames, .firstItem⟩
  | .openObject => some ⟨frames, .firstKey⟩
  | .null => some ⟨frames, .after .null⟩
  | .bool b => some ⟨frames, .after (.bool b)⟩
  | .number literal => some ⟨frames, .after (.number literal)⟩
  | .string text => some ⟨frames, .after (.string text)⟩
  | _ => none

def State.step? : State → Token → Option State
  | ⟨frames, .value⟩, t => State.enter? frames t
  | ⟨frames, .firstItem⟩, .closeArray => some ⟨frames, .after (.array [])⟩
  | ⟨frames, .firstItem⟩, t => State.enter? (.array [] :: frames) t
  | ⟨frames, .firstKey⟩, .closeObject => some ⟨frames, .after (.object [])⟩
  | ⟨frames, .firstKey⟩, .string key => some ⟨frames, .colon [] key⟩
  | ⟨frames, .nextKey done⟩, .string key => some ⟨frames, .colon done key⟩
  | ⟨frames, .colon done key⟩, .colon => some ⟨.object done key :: frames, .value⟩
  | ⟨.array done :: frames, .after v⟩, .comma => some ⟨.array (v :: done) :: frames, .value⟩
  | ⟨.array done :: frames, .after v⟩, .closeArray => some ⟨frames, .after (.array (v :: done).reverse)⟩
  | ⟨.object done key :: frames, .after v⟩, .comma => some ⟨frames, .nextKey ((key, v) :: done)⟩
  | ⟨.object done key :: frames, .after v⟩, .closeObject =>
    some ⟨frames, .after (.object ((key, v) :: done).reverse)⟩
  | _, _ => none

/-- The value, when nothing is open. -/
def State.value? : State → Option Value
  | ⟨[], .after v⟩ => some v
  | _ => none

namespace Value

def ofTokens? (ts : List Token) : Option Value := (ts.foldlM State.step? ⟨[], .value⟩).bind State.value?

/-- The value a text spells, blanks around it allowed. -/
def ofText? (text : String) : Option Value := (tokens? text.toList).bind ofTokens?

/-! ## Views -/

/-- A number written with digits alone. -/
def natural? : Value → Option Nat
  | .number literal => Text.digits? literal.toList
  | _ => none

def text? : Value → Option String
  | .string text => text
  | _ => none

def items? : Value → Option (List Value)
  | .array items => some items
  | _ => none

/-- A natural number as a value. -/
def ofNat (n : Nat) : Value := .number (toString n)

def ofString (s : String) : Value := .string (some s)

end Value

end Patchbay.Json
