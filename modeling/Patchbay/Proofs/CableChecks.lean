/-
  Patchbay.Proofs.CableChecks — which cables can be routed, and what is said of one that cannot.

  A cable is put to six checks, and `Passes` says what each asks of it, in terms of the patch
  alone. `FirstFault` is the report on the first check that the first bad cable fails.
  - `link_spec`, `links_spec`: a cable, and a list of cables, becomes links or is faulted so.
  - `route_ok_iff_sound_else_first_fault`: routing succeeds iff every cable passes every
    check; its error is otherwise that report, and the bench is as it was before.
-/

import Mathlib.Data.List.Forall2
import Patchbay.Proofs.Wiring

namespace Patchbay

/-! ## Checks -/

/-- The checks of a cable, in the order in which they count. -/
inductive CableCheck where
  | sourceModule
  | destModule
  | sourceJack
  | destJack
  | rate
  | inletFree
  deriving DecidableEq, Repr

def CableCheck.rank : CableCheck → Nat
  | .sourceModule => 0
  | .destModule => 1
  | .sourceJack => 2
  | .destJack => 3
  | .rate => 4
  | .inletFree => 5

theorem CableCheck.rank_injective {k l : CableCheck} (h : k.rank = l.rank) : k = l := by
  cases k <;> cases l <;> first | rfl | cases h

namespace Patch

variable (p : Patch)

def Passes (i : Nat) (c : Cable) : CableCheck → Prop
  | .sourceModule => ∃ k, p.FirstAt c.area c.moduleFrom k
  | .destModule => ∃ k, p.FirstAt c.area c.moduleTo k
  | .sourceJack => ∃ j r, p.Leaves c j ∧ p.rate? j = some r
  | .destJack => ∃ j r, p.Enters c j ∧ p.rate? j = some r
  | .rate => ∃ j k r, p.Leaves c j ∧ p.Enters c k ∧ p.rate? j = some r ∧ p.rate? k = some r
  | .inletFree => ∀ h < i, ∀ d, p.cables[h]? = some d → ∀ j, p.Enters c j → ¬p.Enters d j

inductive Blames (i : Nat) (c : Cable) : CableCheck → RoutingError → Prop
  | sourceModule : Blames i c .sourceModule (.unknownModule i c.area c.moduleFrom)
  | destModule : Blames i c .destModule (.unknownModule i c.area c.moduleTo)
  | sourceJack {k : Nat} {m : PatchModule} : p.FirstAt c.area c.moduleFrom k → p.modules[k]? = some m →
      Blames i c .sourceJack (.unknownJack i c.area c.moduleFrom m.displayName c.kind.source c.jackFrom)
  | destJack {k : Nat} {m : PatchModule} : p.FirstAt c.area c.moduleTo k → p.modules[k]? = some m →
      Blames i c .destJack (.unknownJack i c.area c.moduleTo m.displayName .inlet c.jackTo)
  | rate {j k : Jack} {r s : Rate} : p.Leaves c j → p.Enters c k → p.rate? j = some r → p.rate? k = some s →
      Blames i c .rate (.rateMismatch i c.area c.moduleFrom c.kind.source c.jackFrom r c.moduleTo c.jackTo s)
  /-- `first` is the one cable before `i` that enters the same inlet. -/
  | inletFree {j : Jack} {first : Nat} : p.Enters c j →
      (∀ h, (h < i ∧ ∃ d, p.cables[h]? = some d ∧ p.Enters d j) ↔ h = first) →
      Blames i c .inletFree (.inletConnectedTwice i c.area c.moduleTo c.jackTo first)

/-- The first check that the cable of number `i` fails, and the report on it. -/
def Faulted (i : Nat) (c : Cable) (e : RoutingError) : Prop :=
  ∃ k, (∀ l : CableCheck, l.rank < k.rank → p.Passes i c l) ∧ ¬p.Passes i c k ∧ p.Blames i c k e

def SoundBelow (n : Nat) : Prop := ∀ i < n, ∀ c, p.cables[i]? = some c → ∀ k, p.Passes i c k

def Sound : Prop := ∀ i c, p.cables[i]? = some c → ∀ k, p.Passes i c k

/-- The first bad cable, and the report on it. -/
def FirstFault (e : RoutingError) : Prop := ∃ i c, p.cables[i]? = some c ∧ p.SoundBelow i ∧ p.Faulted i c e

variable {p}

theorem Blames.unique {i : Nat} {c : Cable} {k : CableCheck} {e f : RoutingError} (he : p.Blames i c k e)
    (hf : p.Blames i c k f) : e = f := by
  cases he with
  | sourceModule => cases hf; rfl
  | destModule => cases hf; rfl
  | sourceJack hk hm =>
    cases hf with | sourceJack hk' hm' =>
    cases hk.unique hk'
    cases hm.symm.trans hm'
    rfl
  | destJack hk hm =>
    cases hf with | destJack hk' hm' =>
    cases hk.unique hk'
    cases hm.symm.trans hm'
    rfl
  | rate hj hk hr hs =>
    cases hf with | rate hj' hk' hr' hs' =>
    cases Names.unique hj hj'
    cases Names.unique hk hk'
    cases hr.symm.trans hr'
    cases hs.symm.trans hs'
    rfl
  | inletFree hj hfirst =>
    cases hf with | inletFree hj' hfirst' =>
    cases Names.unique hj hj'
    rw [(hfirst' _).1 ((hfirst _).2 rfl)]

/-- A cable has one first failing check and one report on it. -/
theorem Faulted.unique {i : Nat} {c : Cable} {e f : RoutingError} (he : p.Faulted i c e) (hf : p.Faulted i c f) :
    e = f := by
  obtain ⟨k, hk, hnk, he⟩ := he
  obtain ⟨l, hl, hnl, hf⟩ := hf
  rcases Nat.lt_trichotomy k.rank l.rank with h | h | h
  · exact absurd (hl k h) hnk
  · cases CableCheck.rank_injective h
    exact he.unique hf
  · exact absurd (hk l h) hnl

theorem FirstFault.unique {e f : RoutingError} (he : p.FirstFault e) (hf : p.FirstFault f) : e = f := by
  obtain ⟨i, c, hc, hi, hfe⟩ := he
  obtain ⟨j, d, hd, hj, hff⟩ := hf
  rcases Nat.lt_trichotomy i j with h | h | h
  · obtain ⟨k, -, hn, -⟩ := hfe
    exact absurd (hj i h c hc k) hn
  · subst h
    cases hc.symm.trans hd
    exact hfe.unique hff
  · obtain ⟨k, -, hn, -⟩ := hff
    exact absurd (hi j h d hd k) hn

theorem FirstFault.not_sound {e : RoutingError} (h : p.FirstFault e) : ¬p.Sound := by
  obtain ⟨i, c, hc, -, k, -, hn, -⟩ := h
  exact fun hs => hn (hs i c hc k)

theorem SoundBelow.succ {i : Nat} {c : Cable} (hi : p.SoundBelow i) (hc : p.cables[i]? = some c)
    (h : ∀ k, p.Passes i c k) : p.SoundBelow (i + 1) := by
  intro j hj d hd k
  rcases Nat.lt_succ_iff_lt_or_eq.1 hj with hj | rfl
  · exact hi j hj d hd k
  · cases hc.symm.trans hd
    exact h k

theorem SoundBelow.sound {i : Nat} (hi : p.SoundBelow i) (hlen : p.cables.length ≤ i) : p.Sound := by
  intro j c hc
  obtain ⟨hj, -⟩ := List.getElem?_eq_some_iff.1 hc
  exact hi j (Nat.lt_of_lt_of_le hj hlen) c hc

end Patch

namespace Routing

open Patch

variable {p : Patch}

/-! ## Modules and jacks -/

theorem moduleAt_eq_ok (cable : Nat) {area : Area} {id k : Nat} (h : p.FirstAt area id k) :
    ∃ m, p.modules[k]? = some m ∧ moduleAt p cable area id = .ok (m, k) := by
  obtain ⟨⟨m, hm, harea, hid⟩, hfirst⟩ := h
  refine ⟨m, hm, ?_⟩
  have hfind : p.modules.zipIdx.find? (fun found => found.1.id == id && found.1.area == area) = some (m, k) := by
    rw [List.find?_eq_some_iff_getElem]
    obtain ⟨hk, hget⟩ := List.getElem?_eq_some_iff.1 hm
    refine ⟨by simp [harea, hid], k, by simpa using hk, by simp [hget], fun i hi => ?_⟩
    have hi' : i < p.modules.length := by omega
    have hne := hfirst i hi p.modules[i] (List.getElem?_eq_getElem hi')
    simp only [List.getElem_zipIdx, Bool.not_eq_true', Bool.and_eq_false_iff, beq_eq_false_iff_ne]
    by_cases h' : p.modules[i].id = id
    · right; intro ha; exact hne ⟨ha, h'⟩
    · left; exact h'
  simp only [moduleAt, hfind]

theorem moduleAt_eq_error {cable : Nat} {area : Area} {id : Nat} (h : ¬∃ k, p.FirstAt area id k) :
    moduleAt p cable area id = .error (.unknownModule cable area id) := by
  rcases hfind : p.modules.zipIdx.find? (fun found => found.1.id == id && found.1.area == area) with _ | ⟨m, k⟩
  · simp only [moduleAt, hfind]
  · rw [List.find?_eq_some_iff_getElem] at hfind
    obtain ⟨hm, i, hi, hget, hfirst⟩ := hfind
    simp only [List.length_zipIdx] at hi
    simp only [List.getElem_zipIdx, Prod.mk.injEq] at hget
    refine absurd ⟨i, ⟨m, ?_, by simp_all⟩, fun i' hi' m' hm' hmm => ?_⟩ h
    · rw [← hget.1]; exact List.getElem?_eq_getElem hi
    · have := hfirst i' hi'
      rw [List.getElem?_eq_getElem (by omega), Option.some.injEq] at hm'
      simp [hm', hmm] at this

theorem jackOf_eq {cable : Nat} {m : PatchModule} {k : Nat} (hm : p.modules[k]? = some m) (kind : JackKind)
    (index : Nat) :
    jackOf cable (m, k) kind index =
      match p.rate? ⟨k, kind, index⟩ with
      | some rate => .ok (⟨k, kind, index⟩, rate)
      | none => .error (.unknownJack cable m.area m.id m.displayName kind index) := by
  have hrate : p.rate? ⟨k, kind, index⟩ = (m.rates kind)[index]? := by rw [rate?, hm, Option.bind_some]
  cases hr : (m.rates kind)[index]? <;> simp only [jackOf, hrate, hr]

/-! ## One cable -/

/-- `fed` lists the inlets that the cables of numbers below `i` enter. -/
def FedBy (p : Patch) (i : Nat) (fed : List (Jack × Nat)) : Prop :=
  ∀ j h, fed.lookup j = some h ↔ h < i ∧ ∃ d, p.cables[h]? = some d ∧ p.Enters d j

section

variable {i : Nat} {c : Cable} {fed : List (Jack × Nat)}

theorem link_without_source (h : ¬p.Passes i c .sourceModule) :
    link p fed i c = .error (.unknownModule i c.area c.moduleFrom) := by
  simp only [link, moduleAt_eq_error h]
  rfl

theorem link_without_dest {k : Nat} (hk : p.FirstAt c.area c.moduleFrom k) (h : ¬p.Passes i c .destModule) :
    link p fed i c = .error (.unknownModule i c.area c.moduleTo) := by
  obtain ⟨m, -, hm⟩ := moduleAt_eq_ok i hk
  simp only [link, hm, moduleAt_eq_error h]
  rfl

/-- Once both modules are found, a link hangs on the rates of the two jacks and on `fed`. -/
theorem link_of_modules (i : Nat) (fed : List (Jack × Nat)) {s d : Jack} (hs : p.Leaves c s) (hd : p.Enters c d) :
    ∃ m n, p.modules[s.position]? = some m ∧ p.modules[d.position]? = some n ∧ link p fed i c =
      match p.rate? s, p.rate? d with
      | none, _ => .error (.unknownJack i c.area c.moduleFrom m.displayName c.kind.source c.jackFrom)
      | some _, none => .error (.unknownJack i c.area c.moduleTo n.displayName .inlet c.jackTo)
      | some r, some t =>
        if r ≠ t then .error (.rateMismatch i c.area c.moduleFrom c.kind.source c.jackFrom r c.moduleTo c.jackTo t)
        else match fed.lookup d with
          | some first => .error (.inletConnectedTwice i c.area c.moduleTo c.jackTo first)
          | none => .ok ⟨s, d, t⟩ := by
  obtain ⟨ks, sk, si⟩ := s
  obtain ⟨kd, dk, di⟩ := d
  obtain ⟨hsf, hsk, hsi⟩ := hs
  obtain ⟨hdf, hdk, hdi⟩ := hd
  simp only [Cable.sourceEnd, Cable.destEnd] at hsf hsk hsi hdf hdk hdi
  subst hsk hsi hdk hdi
  obtain ⟨m, hmk, hm⟩ := moduleAt_eq_ok i hsf
  obtain ⟨n, hnk, hn⟩ := moduleAt_eq_ok i hdf
  refine ⟨m, n, hmk, hnk, ?_⟩
  have hma : m.area = c.area ∧ m.id = c.moduleFrom := by
    obtain ⟨⟨m', hm', ha⟩, -⟩ := hsf
    cases hmk.symm.trans hm'; exact ha
  have hna : n.area = c.area ∧ n.id = c.moduleTo := by
    obtain ⟨⟨n', hn', ha⟩, -⟩ := hdf
    cases hnk.symm.trans hn'; exact ha
  simp only [link, hm, hn, bind, Except.bind, jackOf_eq hmk, jackOf_eq hnk, hma, hna]
  rcases p.rate? ⟨ks, c.kind.source, c.jackFrom⟩ with _ | r
  · rfl
  · rcases p.rate? ⟨kd, .inlet, c.jackTo⟩ with _ | t
    · rfl
    · cases hf : fed.lookup ⟨kd, .inlet, c.jackTo⟩ <;> simp only [hf]

/-- A check that passes goes to those that passed before it. -/
theorem passes_succ {k : CableCheck} (hb : ∀ l : CableCheck, l.rank < k.rank → p.Passes i c l) (hk : p.Passes i c k) :
    ∀ l : CableCheck, l.rank < k.rank + 1 → p.Passes i c l := by
  intro l hl
  rcases Nat.lt_succ_iff_lt_or_eq.1 hl with h | h
  · exact hb l h
  · cases CableCheck.rank_injective h
    exact hk

/-- A cable that passes all checks becomes its link, and any other is faulted. -/
theorem link_spec (hfed : FedBy p i fed) :
    (∃ l, link p fed i c = .ok l ∧ (∀ k, p.Passes i c k) ∧ p.Linked c l) ∨
      ∃ e, link p fed i c = .error e ∧ p.Faulted i c e := by
  have below0 : ∀ l : CableCheck, l.rank < CableCheck.sourceModule.rank → p.Passes i c l :=
    fun l hl => absurd hl (Nat.not_lt_zero _)
  by_cases hsm : ¬p.Passes i c .sourceModule
  · exact Or.inr ⟨_, link_without_source hsm, .sourceModule, below0, hsm, .sourceModule⟩
  rw [Classical.not_not] at hsm
  have below1 : ∀ l : CableCheck, l.rank < CableCheck.destModule.rank → p.Passes i c l := passes_succ below0 hsm
  obtain ⟨ks, hks⟩ := hsm
  by_cases hdm : ¬p.Passes i c .destModule
  · exact Or.inr ⟨_, link_without_dest hks hdm, .destModule, below1, hdm, .destModule⟩
  rw [Classical.not_not] at hdm
  have below2 : ∀ l : CableCheck, l.rank < CableCheck.sourceJack.rank → p.Passes i c l := passes_succ below1 hdm
  obtain ⟨kd, hkd⟩ := hdm
  -- From here on both ends name a jack, and the two jacks decide.
  obtain ⟨s, hs⟩ : ∃ s, p.Leaves c s := ⟨⟨ks, _, _⟩, hks, rfl, rfl⟩
  obtain ⟨d, hd⟩ : ∃ d, p.Enters c d := ⟨⟨kd, _, _⟩, hkd, rfl, rfl⟩
  obtain ⟨m, n, hm, hn, heq⟩ := link_of_modules i fed hs hd
  rw [heq]
  rcases hr : p.rate? s with _ | r
  · have hsj : ¬p.Passes i c .sourceJack := by
      intro hx
      obtain ⟨j, r, hj, hjr⟩ := hx
      cases Names.unique hs hj
      cases hr.symm.trans hjr
    exact Or.inr ⟨_, rfl, .sourceJack, below2, hsj, .sourceJack hs.1 hm⟩
  have below3 : ∀ l : CableCheck, l.rank < CableCheck.destJack.rank → p.Passes i c l :=
    passes_succ below2 ⟨s, r, hs, hr⟩
  rcases ht : p.rate? d with _ | t
  · have hdj : ¬p.Passes i c .destJack := by
      intro hx
      obtain ⟨j, r, hj, hjr⟩ := hx
      cases Names.unique hd hj
      cases ht.symm.trans hjr
    exact Or.inr ⟨_, rfl, .destJack, below3, hdj, .destJack hd.1 hn⟩
  have below4 : ∀ l : CableCheck, l.rank < CableCheck.rate.rank → p.Passes i c l := passes_succ below3 ⟨d, t, hd, ht⟩
  by_cases hrt : r ≠ t
  · have hra : ¬p.Passes i c .rate := by
      intro hx
      obtain ⟨j, k, q, hj, hk, hjq, hkq⟩ := hx
      cases Names.unique hs hj
      cases Names.unique hd hk
      exact hrt (Option.some.inj (hr.symm.trans (hjq.trans (hkq.symm.trans ht))))
    exact Or.inr ⟨_, if_pos hrt, .rate, below4, hra, .rate hs hd hr ht⟩
  rw [Classical.not_not] at hrt
  subst hrt
  have below5 : ∀ l : CableCheck, l.rank < CableCheck.inletFree.rank → p.Passes i c l :=
    passes_succ below4 ⟨s, d, r, hs, hd, hr, ht⟩
  rcases hf : fed.lookup d with _ | first
  · have hfree : p.Passes i c .inletFree := by
      intro h hlt b hb j hj hjb
      cases Names.unique hd hj
      cases hf.symm.trans ((hfed d h).2 ⟨hlt, b, hb, hjb⟩)
    refine Or.inl ⟨⟨s, d, r⟩, by simp, fun k => passes_succ below5 hfree k ?_, ⟨hs, hd, hr, ht⟩⟩
    cases k <;> decide
  · obtain ⟨hlt, b, hb, hdb⟩ := (hfed d first).1 hf
    have hfree : ¬p.Passes i c .inletFree := fun h => h first hlt b hb d hd hdb
    refine Or.inr ⟨.inletConnectedTwice i c.area c.moduleTo c.jackTo first, by simp, .inletFree, below5, hfree,
      .inletFree hd fun h => ?_⟩
    rw [← hfed d h, hf, Option.some.injEq]
    exact eq_comm

end

/-! ## All cables -/

theorem FedBy.cons {i : Nat} {c : Cable} {d : Jack} {fed : List (Jack × Nat)} (hfed : FedBy p i fed)
    (hc : p.cables[i]? = some c) (hd : p.Enters c d) (hfree : p.Passes i c .inletFree) :
    FedBy p (i + 1) ((d, i) :: fed) := by
  intro j h
  by_cases hj : j = d
  · subst hj
    rw [List.lookup_cons_self, Option.some.injEq]
    constructor
    · intro hx
      subst hx
      exact ⟨Nat.lt_succ_self _, c, hc, hd⟩
    · intro hx
      obtain ⟨hlt, b, hb, hjb⟩ := hx
      rcases Nat.lt_succ_iff_lt_or_eq.1 hlt with hlt | rfl
      · exact absurd hjb (hfree h hlt b hb j hd)
      · rfl
  · have hne : (j == d) = false := by simpa using hj
    rw [List.lookup_cons, hne]
    refine (hfed j h).trans ⟨fun ⟨hlt, hb⟩ => ⟨Nat.lt_succ_of_lt hlt, hb⟩, ?_⟩
    intro hx
    obtain ⟨hlt, b, hb, hjb⟩ := hx
    rcases Nat.lt_succ_iff_lt_or_eq.1 hlt with hlt | rfl
    · exact ⟨hlt, b, hb, hjb⟩
    · cases hc.symm.trans hb
      exact absurd (Names.unique hjb hd) hj

/-- The cables from number `i` on, once those before it are sound. -/
theorem links_spec {i : Nat} {cs : List Cable} {fed : List (Jack × Nat)} (hcs : p.cables.drop i = cs)
    (hsound : p.SoundBelow i) (hfed : FedBy p i fed) :
    (∃ ls, links p fed i cs = .ok ls ∧ p.Sound ∧ List.Forall₂ p.Linked cs ls) ∨
      ∃ e, links p fed i cs = .error e ∧ p.FirstFault e := by
  induction cs generalizing i fed with
  | nil => exact Or.inl ⟨[], rfl, hsound.sound (List.drop_eq_nil_iff.1 hcs), .nil⟩
  | cons c cs ih =>
    have hc : p.cables[i]? = some c := by
      have := congrArg (fun l => l[0]?) hcs
      simpa using this
    have hrest : p.cables.drop (i + 1) = cs := by rw [← List.tail_drop, hcs]; rfl
    rcases link_spec (c := c) hfed with ⟨l, hl, hpass, hlinked⟩ | ⟨e, he, hfault⟩
    · rcases ih hrest (hsound.succ hc hpass) (hfed.cons hc hlinked.enters (hpass .inletFree)) with
        ⟨ls, hls, hall, hlinks⟩ | ⟨e, he, hfirst⟩
      · refine Or.inl ⟨l :: ls, ?_, hall, .cons hlinked hlinks⟩
        simp only [links, hl, hls, bind, Except.bind, pure, Except.pure]
      · refine Or.inr ⟨e, ?_, hfirst⟩
        simp only [links, hl, he, bind, Except.bind]
    · refine Or.inr ⟨e, ?_, i, c, hc, hsound, hfault⟩
      simp only [links, he, bind, Except.bind]

theorem links_cables (p : Patch) :
    (∃ ls, links p [] 0 p.cables = .ok ls ∧ p.Sound ∧ List.Forall₂ p.Linked p.cables ls) ∨
      ∃ e, links p [] 0 p.cables = .error e ∧ p.FirstFault e :=
  links_spec rfl (fun i hi => absurd hi (Nat.not_lt_zero i)) fun j h => by simp

/-- Where routing succeeds, the cables are sound, and their links are what it commits. -/
theorem linked_of_links_eq_ok {p : Patch} {ls : List Link} (h : links p [] 0 p.cables = .ok ls) :
    p.Sound ∧ List.Forall₂ p.Linked p.cables ls := by
  rcases links_cables p with ⟨ls', hok, hs, hls⟩ | ⟨e, he, -⟩
  · cases h.symm.trans hok
    exact ⟨hs, hls⟩
  · cases h.symm.trans he

theorem exists_linked_of_connect {counter : BusCounter} {p : Patch} {routed : Routed}
    (h : p.connect counter = .ok routed) : ∃ ls, p.Sound ∧ List.Forall₂ p.Linked p.cables ls ∧
      routed.toBench = Bench.committed { counter, patch := p } ls := by
  obtain ⟨ls, hok, hrouted⟩ := Patch.exists_links_of_connect h
  obtain ⟨hs, hls⟩ := linked_of_links_eq_ok hok
  exact ⟨ls, hs, hls, hrouted⟩

/-- Routing succeeds iff all cables are sound. It fails with the report on the first fault,
    and then leaves the patch, the counter and what was noted as they were. -/
theorem route_ok_iff_sound_else_first_fault (b : Bench) :
    ((∃ types after, b.route = (.ok types, after)) ↔ b.patch.Sound) ∧
      ∀ e after, b.route = (.error e, after) ↔ b.patch.FirstFault e ∧ after = b := by
  rw [route_eq]
  rcases links_cables b.patch with ⟨ls, hls, hsound, -⟩ | ⟨e, he, hfirst⟩
  · rw [hls]
    refine ⟨⟨fun _ => hsound, fun _ => ⟨_, _, rfl⟩⟩, fun e after => ⟨fun h => ?_, fun h => ?_⟩⟩
    · cases h
    · exact absurd hsound h.1.not_sound
  · rw [he]
    refine ⟨⟨fun ⟨_, _, h⟩ => ?_, fun h => ?_⟩, fun f after => ⟨fun h => ?_, fun h => ?_⟩⟩
    · cases h
    · exact absurd h hfirst.not_sound
    · cases h; exact ⟨hfirst, rfl⟩
    · rw [h.2, h.1.unique hfirst]

end Routing

end Patchbay
