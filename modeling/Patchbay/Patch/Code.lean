/-
  Patchbay.Patch.Code — areas, cable kinds and cable colors, and the numbers that stand for
  them in a patch file.
-/

namespace Patchbay

/-! ## Numbers that stand for nothing -/

inductive CodeField where
  | area
  | cableKind
  | cableColor
  deriving DecidableEq, Repr

def CodeField.label : CodeField → String
  | .area => "area"
  | .cableKind => "cable type"
  | .cableColor => "cable color"

structure UnknownCode where
  field : CodeField
  code : Nat
  deriving DecidableEq, Repr

def UnknownCode.message (e : UnknownCode) : String := s!"unknown {e.field.label} code {e.code}"

/-! ## Areas -/

/-- The two regions of a patch; cables do not cross between them. -/
inductive Area where
  | fx
  | voice
  deriving DecidableEq, Repr

namespace Area

def code : Area → Nat
  | .fx => 0
  | .voice => 1

def ofCode : Nat → Except UnknownCode Area
  | 0 => .ok .fx
  | 1 => .ok .voice
  | n => .error ⟨.area, n⟩

def label : Area → String
  | .fx => "FX"
  | .voice => "Voice"

/-- The name in JSON output. -/
def name : Area → String
  | .fx => "Fx"
  | .voice => "Voice"

instance : ToString Area := ⟨label⟩

theorem ofCode_code (a : Area) : ofCode a.code = .ok a := by cases a <;> rfl

theorem code_lt (a : Area) : a.code < 4 := by cases a <;> decide

end Area

/-! ## Cable kinds -/

inductive CableKind where
  /-- Joins two inlets. -/
  | inToIn
  /-- Runs from an outlet to an inlet. -/
  | outToIn
  deriving DecidableEq, Repr

namespace CableKind

def code : CableKind → Nat
  | .inToIn => 0
  | .outToIn => 1

def ofCode : Nat → Except UnknownCode CableKind
  | 0 => .ok .inToIn
  | 1 => .ok .outToIn
  | n => .error ⟨.cableKind, n⟩

def label : CableKind → String
  | .inToIn => "in-in"
  | .outToIn => "out-in"

/-- The name in JSON output. -/
def name : CableKind → String
  | .inToIn => "InToIn"
  | .outToIn => "OutToIn"

instance : ToString CableKind := ⟨label⟩

theorem ofCode_code (k : CableKind) : ofCode k.code = .ok k := by cases k <;> rfl

theorem code_lt (k : CableKind) : k.code < 2 := by cases k <;> decide

end CableKind

/-! ## Cable colors -/

/-- The color of a cable in the editor. It says nothing about the signal. -/
inductive CableColor where
  | red
  | blue
  | yellow
  | orange
  | green
  | purple
  | white
  deriving DecidableEq, Repr

namespace CableColor

def code : CableColor → Nat
  | .red => 0
  | .blue => 1
  | .yellow => 2
  | .orange => 3
  | .green => 4
  | .purple => 5
  | .white => 6

def ofCode : Nat → Except UnknownCode CableColor
  | 0 => .ok .red
  | 1 => .ok .blue
  | 2 => .ok .yellow
  | 3 => .ok .orange
  | 4 => .ok .green
  | 5 => .ok .purple
  | 6 => .ok .white
  | n => .error ⟨.cableColor, n⟩

def label : CableColor → String
  | .red => "red"
  | .blue => "blue"
  | .yellow => "yellow"
  | .orange => "orange"
  | .green => "green"
  | .purple => "purple"
  | .white => "white"

/-- The name in JSON output. -/
def name : CableColor → String
  | .red => "Red"
  | .blue => "Blue"
  | .yellow => "Yellow"
  | .orange => "Orange"
  | .green => "Green"
  | .purple => "Purple"
  | .white => "White"

instance : ToString CableColor := ⟨label⟩

theorem ofCode_code (c : CableColor) : ofCode c.code = .ok c := by cases c <;> rfl

theorem code_lt (c : CableColor) : c.code < 8 := by cases c <;> decide

end CableColor

end Patchbay
