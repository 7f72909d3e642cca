/-
  Patchbay.Json.Pretty — JSON values on indented lines.

  Each item and member stands on a line of its own, two spaces deeper than the value it
  belongs to; an array or object with nothing in it is written in one piece. Strings are
  quoted with the short escapes where there is one and `\u00xx` for the other control
  characters; all other characters stand for themselves.
-/

import Patchbay.Json.Value

namespace Patchbay.Json

def escape (c : Char) : List Char :=
  if c = '"' then ['\\', '"']
  else if c = '\\' then ['\\', '\\']
  else if c = '\x08' then ['\\', 'b']
  else if c = '\x0c' then ['\\', 'f']
  else if c = '\n' then ['\\', 'n']
  else if c = '\r' then ['\\', 'r']
  else if c = '\t' then ['\\', 't']
  else if c.toNat < 0x20 then ['\\', 'u', '0', '0', Text.hexDigit (c.toNat / 16), Text.hexDigit (c.toNat % 16)]
  else [c]

def quote (s : String) : String := "\"" ++ String.ofList (s.toList.flatMap escape) ++ "\""

def indentation (depth : Nat) : String := String.ofList (List.replicate (2 * depth) ' ')

mutual

/-- A value as it stands `depth` levels deep; its first line is not indented. -/
def Value.pretty (depth : Nat) : Value → String
  | .null => "null"
  | .bool b => toString b
  | .number literal => literal
  | .string text => quote (text.getD "")
  | .array items =>
    if items.isEmpty then "[]"
    else "[\n" ++ ",\n".intercalate (prettyItems (depth + 1) items) ++ "\n" ++ indentation depth ++ "]"
  | .object members =>
    if members.isEmpty then "\x7b\x7d"
    else "\x7b\n" ++ ",\n".intercalate (prettyMembers (depth + 1) members) ++ "\n" ++ indentation depth ++ "\x7d"

def prettyItems (depth : Nat) : List Value → List String
  | [] => []
  | v :: vs => (indentation depth ++ v.pretty depth) :: prettyItems depth vs

def prettyMembers (depth : Nat) : List (Option String × Value) → List String
  | [] => []
  | (k, v) :: ms => (indentation depth ++ quote (k.getD "") ++ ": " ++ v.pretty depth) :: prettyMembers depth ms

end

end Patchbay.Json
