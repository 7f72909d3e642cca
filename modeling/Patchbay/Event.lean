/-
  Patchbay.Event — what a run notes on its way, and results that carry such notes.
-/

import Patchbay.Template.Validation

namespace Patchbay

inductive Level where
  | debug
  | info
  | warn
  deriving DecidableEq, Repr

def Level.label : Level → String
  | .debug => "DEBUG"
  | .info => "INFO"
  | .warn => "WARN"

inductive Event where
  | loadedCatalog (types : Nat) (templates : Path)
  | readPatch (path : Path) (bytes : Nat)
  | moduleList (area : Area) (count : Nat)
  | unknownModuleType (area : Area) (id typeId : Nat)
  | cableList (area : Area) (count : Nat)
  | parameterList (area : Area) (modules variations : Nat)
  | skippedSection (kind : UInt8) (length : Nat)
  | allocatedBus (cable : Nat) (bus : Bus) (rate : Rate)
  | loadedTemplate (path : Path)
  | noTemplate (typeId : Nat)
  | invalidTemplate (typeId : Nat) (mismatch : Mismatch)
  | parameterCount (area : Area) (moduleId expected stored : Nat)
  | wroteDocument (input output : Path) (modules cables : Nat)
  deriving DecidableEq, Repr

namespace Event

def level : Event → Level
  | .unknownModuleType .. | .noTemplate .. | .invalidTemplate .. | .parameterCount .. => .warn
  | .wroteDocument .. => .info
  | _ => .debug

def message : Event → String
  | .loadedCatalog types templates => s!"loaded catalog types={types} templates={templates}"
  | .readPatch path bytes => s!"read patch file path={path} bytes={bytes}"
  | .moduleList area count => s!"module list area={area} count={count}"
  | .unknownModuleType area id typeId => s!"unknown module type area={area} id={id} type_id={typeId}"
  | .cableList area count => s!"cable list area={area} count={count}"
  | .parameterList area modules variations => s!"parameters area={area} modules={modules} variations={variations}"
  | .skippedSection kind length => s!"skipping section kind={kind.toNat} len={length}"
  | .allocatedBus cable bus rate => s!"allocated bus cable={cable} bus={bus} rate={rate}"
  | .loadedTemplate path => s!"loaded template path={path}"
  | .noTemplate typeId => s!"no template for module type type_id={typeId}"
  | .invalidTemplate typeId mismatch => s!"invalid template: {mismatch.message} type_id={typeId}"
  | .parameterCount area moduleId expected stored =>
    "parameter count differs from the template's args " ++
      s!"area={area} module={moduleId} expected={expected} stored={stored}"
  | .wroteDocument input output modules cables =>
    s!"wrote csd input={input} output={output} modules={modules} cables={cables}"

def line (e : Event) : String := e.level.label ++ " " ++ e.message

def isWarning (e : Event) : Bool := e.level = .warn

end Event

/-- A result with the events noted on the way to it, oldest first. -/
structure Logged (α : Type) where
  events : List Event
  value : α
  deriving Repr

namespace Logged

protected def pure {α : Type} (a : α) : Logged α := ⟨[], a⟩

protected def bind {α β : Type} (l : Logged α) (f : α → Logged β) : Logged β :=
  ⟨l.events ++ (f l.value).events, (f l.value).value⟩

instance : Monad Logged where
  pure := Logged.pure
  bind := Logged.bind

def note (e : Event) : Logged Unit := ⟨[e], ()⟩

def noteAll (es : List Event) : Logged Unit := ⟨es, ()⟩

@[simp] theorem events_pure {α : Type} (a : α) : (pure a : Logged α).events = [] := rfl

@[simp] theorem value_pure {α : Type} (a : α) : (pure a : Logged α).value = a := rfl

@[simp] theorem events_bind {α β : Type} (l : Logged α) (f : α → Logged β) :
    (l >>= f).events = l.events ++ (f l.value).events := rfl

@[simp] theorem value_bind {α β : Type} (l : Logged α) (f : α → Logged β) :
    (l >>= f).value = (f l.value).value := rfl

end Logged

end Patchbay
