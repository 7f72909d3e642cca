/-
  Patchbay.Routing.Jack — the jacks of a patch, their rates and their buses.

  A jack is known by the position of its module in the patch, its kind and its index there.
  `rate?` and `bus?` are the patch as seen jack by jack. A bus is put into the place of one
  jack; where there is no such place nothing changes.
-/

import Patchbay.Patch

namespace Patchbay

inductive JackKind where
  | inlet
  | outlet
  deriving DecidableEq, Repr

def JackKind.label : JackKind → String
  | .inlet => "inlet"
  | .outlet => "outlet"

instance : ToString JackKind := ⟨JackKind.label⟩

/-- A jack of the module at a position in the patch's module list. -/
structure Jack where
  position : Nat
  kind : JackKind
  index : Nat
  deriving DecidableEq, Repr

def CableKind.source : CableKind → JackKind
  | .inToIn => .inlet
  | .outToIn => .outlet

/-! ## Modules by kind of jack -/

namespace PatchModule

def rates (m : PatchModule) : JackKind → List Rate
  | .inlet => m.inletRates
  | .outlet => m.outletRates

def buses (m : PatchModule) : JackKind → List Bus
  | .inlet => m.inletBuses
  | .outlet => m.outletBuses

def setBus (m : PatchModule) (kind : JackKind) (index : Nat) (bus : Bus) : PatchModule :=
  match kind with
  | .inlet => { m with inletBuses := m.inletBuses.set index bus }
  | .outlet => { m with outletBuses := m.outletBuses.set index bus }

/-- The module without its buses. -/
def withoutBuses (m : PatchModule) : PatchModule := { m with inletBuses := [], outletBuses := [] }

theorem buses_setBus (m : PatchModule) (kind kind' : JackKind) (index : Nat) (bus : Bus) :
    (m.setBus kind index bus).buses kind' = if kind' = kind then (m.buses kind').set index bus else m.buses kind' := by
  cases kind <;> cases kind' <;> rfl

theorem length_buses_setBus (m : PatchModule) (kind kind' : JackKind) (index : Nat) (bus : Bus) :
    ((m.setBus kind index bus).buses kind').length = (m.buses kind').length := by
  rw [buses_setBus]
  split <;> simp

@[simp] theorem rates_setBus (m : PatchModule) (kind : JackKind) (index : Nat) (bus : Bus) :
    (m.setBus kind index bus).rates = m.rates := by
  funext kind'; cases kind <;> cases kind' <;> rfl

@[simp] theorem withoutBuses_setBus (m : PatchModule) (kind : JackKind) (index : Nat) (bus : Bus) :
    (m.setBus kind index bus).withoutBuses = m.withoutBuses := by cases kind <;> rfl

theorem eq_of_buses_eq {m n : PatchModule} (h : m.withoutBuses = n.withoutBuses)
    (hbuses : ∀ kind, m.buses kind = n.buses kind) : m = n := by
  have hparts (m : PatchModule) :
      m = { m.withoutBuses with inletBuses := m.buses .inlet, outletBuses := m.buses .outlet } := rfl
  rw [hparts m, hparts n, h, hbuses, hbuses]

end PatchModule

/-! ## Patches by jack -/

namespace Patch

def rate? (p : Patch) (j : Jack) : Option Rate := p.modules[j.position]?.bind fun m => (m.rates j.kind)[j.index]?

def bus? (p : Patch) (j : Jack) : Option Bus := p.modules[j.position]?.bind fun m => (m.buses j.kind)[j.index]?

def setBus (p : Patch) (j : Jack) (bus : Bus) : Patch :=
  { p with modules := p.modules.modify j.position (·.setBus j.kind j.index bus) }

/-- The patch without the buses of its modules. -/
def withoutBuses (p : Patch) : Patch := { p with modules := p.modules.map PatchModule.withoutBuses }

/-- Every module has a bus for each of its jacks. -/
def Fitted (p : Patch) : Prop := ∀ m ∈ p.modules, ∀ kind, (m.buses kind).length = (m.rates kind).length

theorem getElem?_modules_setBus (p : Patch) (j : Jack) (bus : Bus) (i : Nat) :
    (p.setBus j bus).modules[i]? =
      if i = j.position then p.modules[i]?.map (·.setBus j.kind j.index bus) else p.modules[i]? := by
  simp only [setBus, List.getElem?_modify]
  by_cases h : i = j.position
  · simp only [h, if_true]; rfl
  · rw [if_neg h]
    simp only [if_neg (Ne.symm h)]
    exact id_map _

/-- A bus is put into a jack's own place only. -/
theorem bus?_setBus (p : Patch) (j k : Jack) (bus : Bus) :
    (p.setBus j bus).bus? k = if k = j then (p.bus? j).map fun _ => bus else p.bus? k := by
  simp only [bus?, getElem?_modules_setBus]
  by_cases h : k.position = j.position
  · rw [if_pos h, h]
    cases p.modules[j.position]? with
    | none => simp
    | some m =>
      simp only [Option.map_some, Option.bind_some, PatchModule.buses_setBus]
      by_cases hk : k.kind = j.kind
      · rw [if_pos hk, List.getElem?_set]
        by_cases hi : j.index = k.index
        · have e : k = j := by cases j; cases k; simp_all
          subst e
          simp only [if_true]
          split
          · next hlt => simp [hlt]
          · next hlt => simp [List.getElem?_eq_none (Nat.le_of_not_lt hlt)]
        · rw [if_neg hi, if_neg fun e : k = j => hi (e ▸ rfl)]
      · rw [if_neg hk, if_neg fun e : k = j => hk (e ▸ rfl)]
  · rw [if_neg h, if_neg fun e : k = j => h (e ▸ rfl)]

@[simp] theorem withoutBuses_setBus (p : Patch) (j : Jack) (bus : Bus) :
    (p.setBus j bus).withoutBuses = p.withoutBuses := by
  have h : (p.setBus j bus).modules.map PatchModule.withoutBuses = p.modules.map PatchModule.withoutBuses := by
    apply List.ext_getElem?
    intro i
    rw [List.getElem?_map, List.getElem?_map, getElem?_modules_setBus]
    by_cases e : i = j.position
    · rw [if_pos e]; cases p.modules[i]? <;> simp
    · rw [if_neg e]
  simp only [withoutBuses, h]
  rfl

theorem Fitted.setBus {p : Patch} (h : p.Fitted) (j : Jack) (bus : Bus) : (p.setBus j bus).Fitted := by
  intro m hm kind
  obtain ⟨i, hi⟩ := List.mem_iff_getElem?.1 hm
  rw [getElem?_modules_setBus] at hi
  split at hi
  · obtain ⟨m', hm', rfl⟩ := Option.map_eq_some_iff.1 hi
    rw [PatchModule.length_buses_setBus, PatchModule.rates_setBus]
    exact h m' (List.mem_of_getElem? hm') kind
  · exact h m (List.mem_of_getElem? hi) kind

/-- A fitted patch has a bus exactly where it has a rate. -/
theorem Fitted.isSome_bus?_eq {p : Patch} (h : p.Fitted) (j : Jack) : (p.bus? j).isSome = (p.rate? j).isSome := by
  unfold bus? rate?
  cases hm : p.modules[j.position]? with
  | none => rfl
  | some m =>
    have hlen := h m (List.mem_of_getElem? hm) j.kind
    rw [Bool.eq_iff_iff]
    simp [hlen]

end Patch

end Patchbay
