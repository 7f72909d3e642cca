/-
  Patchbay.Rate — signal rates of jacks. Each rate has a bus space of its own.
-/

namespace Patchbay

inductive Rate where
  | audio
  | control
  deriving DecidableEq, Repr, BEq, ReflBEq, LawfulBEq

/-- The rate letter of Csound. -/
def Rate.letter : Rate → Char
  | .audio => 'a'
  | .control => 'k'

def Rate.ofLetter? : Char → Option Rate
  | 'a' => some .audio
  | 'k' => some .control
  | _ => none

instance : ToString Rate where
  toString r := r.letter.toString

theorem Rate.ofLetter?_letter (r : Rate) : ofLetter? r.letter = some r := by cases r <;> rfl

end Patchbay
