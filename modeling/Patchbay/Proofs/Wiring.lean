/-
  Patchbay.Proofs.Wiring — what the cables of a patch say, apart from routing.

  A cable has two ends. Each names a jack by the first module that has the cable's area and
  the end's module id, wherever in the list that module is. `Wired` relates the jack a cable
  leaves to the one it enters; nets are the classes of its equivalence closure, and signal
  flows along it from an outlet. `Linked` ties a cable to the link that routing makes of it.
-/

import Mathlib.Logic.Relation
import Patchbay.Routing

namespace Patchbay

structure CableEnd where
  area : Area
  moduleId : Nat
  kind : JackKind
  index : Nat

namespace Cable

def sourceEnd (c : Cable) : CableEnd := ⟨c.area, c.moduleFrom, c.kind.source, c.jackFrom⟩

def destEnd (c : Cable) : CableEnd := ⟨c.area, c.moduleTo, .inlet, c.jackTo⟩

end Cable

namespace Patch

variable (p : Patch)

/-! ## Ends of cables -/

/-- The first module with an area and an id is at a position. -/
def FirstAt (area : Area) (id k : Nat) : Prop :=
  (∃ m, p.modules[k]? = some m ∧ m.area = area ∧ m.id = id) ∧
    ∀ i < k, ∀ m, p.modules[i]? = some m → ¬(m.area = area ∧ m.id = id)

/-- The jack that an end names; its module need not have one of that index. -/
def Names (e : CableEnd) (j : Jack) : Prop :=
  p.FirstAt e.area e.moduleId j.position ∧ j.kind = e.kind ∧ j.index = e.index

def Leaves (c : Cable) (j : Jack) : Prop := p.Names c.sourceEnd j

def Enters (c : Cable) (j : Jack) : Prop := p.Names c.destEnd j

variable {p}

theorem FirstAt.unique {area : Area} {id k l : Nat} (hk : p.FirstAt area id k) (hl : p.FirstAt area id l) : k = l := by
  obtain ⟨⟨m, hm, hma⟩, hkl⟩ := hk
  obtain ⟨⟨n, hn, hna⟩, hlk⟩ := hl
  rcases Nat.lt_trichotomy k l with h | h | h
  · exact absurd hma (hlk k h m hm)
  · exact h
  · exact absurd hna (hkl l h n hn)

theorem Names.unique {e : CableEnd} {j k : Jack} (hj : p.Names e j) (hk : p.Names e k) : j = k := by
  obtain ⟨hj, hjk, hji⟩ := hj
  obtain ⟨hk, hkk, hki⟩ := hk
  cases j; cases k
  cases hj.unique hk
  simp_all

theorem Enters.kind {c : Cable} {j : Jack} (h : p.Enters c j) : j.kind = .inlet := h.2.1

theorem Leaves.kind {c : Cable} {j : Jack} (h : p.Leaves c j) : j.kind = c.kind.source := h.2.1

variable (p)

/-! ## Nets and flow -/

def Wired (a b : Jack) : Prop := ∃ c ∈ p.cables, p.Leaves c a ∧ p.Enters c b

def Cabled (j : Jack) : Prop := ∃ c ∈ p.cables, p.Leaves c j ∨ p.Enters c j

def SameNet : Jack → Jack → Prop := Relation.EqvGen p.Wired

/-- A chain of cables from an outlet to an inlet: the first runs from the outlet to an
    inlet, and each later one from the inlet that the one before it enters. -/
inductive Flows : Jack → Jack → Prop
  | first {o i : Jack} (c : Cable) : c ∈ p.cables → c.kind = .outToIn → p.Leaves c o → p.Enters c i → Flows o i
  | later {o i k : Jack} (c : Cable) : Flows o i → c ∈ p.cables → c.kind = .inToIn → p.Leaves c i → p.Enters c k →
      Flows o k

/-! ## Links -/

structure Linked (c : Cable) (l : Routing.Link) : Prop where
  leaves : p.Leaves c l.source
  enters : p.Enters c l.dest
  sourceRate : p.rate? l.source = some l.rate
  destRate : p.rate? l.dest = some l.rate

end Patch

end Patchbay
