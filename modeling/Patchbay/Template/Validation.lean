/-
  Patchbay.Template.Validation — a template's slots against the catalog.

  A template is valid if the catalog has its type and each declared group agrees with it:
  inlets and outlets in number and rates, parameters in number. All differences are
  reported, inlets first, then outlets, then parameters.
-/

import Patchbay.Template

namespace Patchbay

inductive Mismatch where
  | unknownType (typeId : Nat)
  | missingDirective (kind : SlotKind)
  | slotCount (kind : SlotKind) (expected found : Nat)
  | slotRate (kind : SlotKind) (index : Nat) (expected found : Rate)
  deriving DecidableEq, Repr

namespace Mismatch

def message : Mismatch → String
  | .unknownType typeId => s!"module type {typeId} is not in the catalog"
  | .missingDirective kind => s!"missing ';@ {kind}' directive"
  | .slotCount kind expected found => s!"'{kind}' declares {found} slots, module has {expected}"
  | .slotRate kind index expected found =>
    s!"'{kind}' slot {index} is {found}-rate, module jack is {expected}-rate"

def code : Mismatch → String
  | .unknownType _ => Diagnostic.unknownTypeCode
  | .missingDirective _ => Diagnostic.missingDirectiveCode
  | .slotCount .. => Diagnostic.slotCountCode
  | .slotRate .. => Diagnostic.slotRateCode

def diagnostic (m : Mismatch) : Diagnostic := { code := some m.code, severity := .error, message := m.message }

end Mismatch

/-- The differences found for one template. -/
structure Validation where
  typeId : Nat
  mismatches : List Mismatch
  deriving DecidableEq, Repr

namespace Validation

def isValid (v : Validation) : Bool := v.mismatches.isEmpty

def diagnostics (v : Validation) : List Diagnostic := v.mismatches.map Mismatch.diagnostic

/-- The places, from `index` on, where two rate lists differ. -/
def rateMismatches (kind : SlotKind) (index : Nat) : List Rate → List Rate → List Mismatch
  | found :: declared, expected :: wanted =>
    let rest := rateMismatches kind (index + 1) declared wanted
    if found = expected then rest else .slotRate kind index expected found :: rest
  | _, _ => []

/-- Rates are compared only between lists of one length. -/
def jackMismatches (kind : SlotKind) (declared : Option (List Rate)) (wanted : List Rate) : List Mismatch :=
  match declared with
  | none => [.missingDirective kind]
  | some declared =>
    if declared.length ≠ wanted.length then [.slotCount kind wanted.length declared.length]
    else rateMismatches kind 0 declared wanted

def argMismatches (declared : Option (List ArgRate)) (wanted : Nat) : List Mismatch :=
  match declared with
  | none => [.missingDirective .args]
  | some declared => if declared.length ≠ wanted then [.slotCount .args wanted declared.length] else []

end Validation

def Template.validate (catalog : Catalog) (t : Template) : Validation :=
  match catalog.lookup t.typeId with
  | none => ⟨t.typeId, [.unknownType t.typeId]⟩
  | some m =>
    ⟨t.typeId,
      Validation.jackMismatches .inlets t.slots.inlets m.inlets ++
      Validation.jackMismatches .outlets t.slots.outlets m.outlets ++
      Validation.argMismatches t.slots.args m.params⟩

end Patchbay
