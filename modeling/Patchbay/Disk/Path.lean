/-
  Patchbay.Disk.Path — paths as written.

  A path is kept as its text, which is also how it is shown. Its parts are separated by
  slashes; empty parts and single dots are passed over when a name is looked for.
-/

import Patchbay.Text.Split

namespace Patchbay

structure Path where
  text : String
  deriving DecidableEq, Repr

instance : ToString Path where
  toString p := p.text

namespace Path

def isAbsolute (p : Path) : Bool := p.text.toList.head? == some '/'

def parts (p : Path) : List String := (Text.splitAt '/' p.text.toList).map String.ofList

/-- The last part that names something; a path that ends in `..` has none. -/
def fileName? (p : Path) : Option String :=
  match (p.parts.filter fun s => s ≠ "" && s ≠ ".").getLast? with
  | some ".." => none
  | name => name

/-- What follows the last dot of a name. A dot that starts the name does not count. -/
def extension? (p : Path) : Option String :=
  match p.fileName? with
  | none => none
  | some name =>
    let backwards := name.toList.reverse
    match backwards.dropWhile (· ≠ '.') with
    | _ :: _ :: _ => some (String.ofList (backwards.takeWhile (· ≠ '.')).reverse)
    | _ => none

/-- Letters of either case agree, ASCII only. -/
def hasExtension (p : Path) (extension : String) : Bool :=
  match p.extension? with
  | some e => e.toList.map Char.toLower == extension.toList.map Char.toLower
  | none => false

/-- A name below the directory `p`; the empty path is the current directory. -/
def join (p : Path) (name : String) : Path :=
  if p.text = "" then ⟨name⟩
  else if p.text.toList.getLast? = some '/' then ⟨p.text ++ name⟩
  else ⟨p.text ++ "/" ++ name⟩

end Path

end Patchbay
