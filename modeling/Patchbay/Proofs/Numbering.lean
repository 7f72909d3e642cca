/-
  Patchbay.Proofs.Numbering — how the nets of a list of links are numbered, and what is written.

  A link opens its net if no link before it is in the same one. `Numbered k` is the invariant of
  the numbering loop after `k` links: each counter has moved on by the nets of its rate opened
  so far, and each net seen so far has the number that was next when it was opened.
  - `numbered_add`, `numbered_number`: one link keeps the invariant, and so do all links.
  - `bus?_committed`, `withoutBuses_committed`: cabled jacks get the buses of their nets, and
    nothing else in the patch changes.
-/

import Mathlib.Data.Nat.Count
import Patchbay.Proofs.Nets
import Patchbay.Routing

namespace Patchbay.Routing

/-! ## Opening links -/

/-- The link of number `i` has rate `r`, and no link before it is in its net. -/
def Opens (nets : Nets Jack) (ls : List Link) (r : Rate) (i : Nat) : Prop :=
  ∃ l, ls[i]? = some l ∧ l.rate = r ∧ ∀ h < i, ∀ m, ls[h]? = some m → nets.find m.dest ≠ nets.find l.dest

noncomputable instance (nets : Nets Jack) (ls : List Link) (r : Rate) : DecidablePred (Opens nets ls r) :=
  Classical.decPred _

/-- How many nets of a rate are opened by the first `k` links. -/
noncomputable def opened (nets : Nets Jack) (ls : List Link) (r : Rate) (k : Nat) : Nat := Nat.count (Opens nets ls r) k

section

variable {nets : Nets Jack} {ls : List Link} {c : BusCounter}

@[simp] theorem opened_zero (r : Rate) : opened nets ls r 0 = 0 := Nat.count_zero _

theorem opened_succ (r : Rate) (k : Nat) :
    opened nets ls r (k + 1) = opened nets ls r k + if Opens nets ls r k then 1 else 0 := Nat.count_succ _ _

/-- A link opens a net of its own rate only. -/
theorem opens_iff_rate_eq {k : Nat} {l : Link} (hl : ls[k]? = some l) (h : Opens nets ls l.rate k) (r : Rate) :
    Opens nets ls r k ↔ l.rate = r := by
  constructor
  · intro hx
    obtain ⟨m, hm, hr, -⟩ := hx
    cases hl.symm.trans hm; exact hr
  · intro hx
    subst hx
    exact h

/-- Every number below the count of opened nets is the count at one of them. -/
theorem exists_opens_of_lt_opened {r : Rate} {k m : Nat} (h : m < opened nets ls r k) :
    ∃ i < k, Opens nets ls r i ∧ opened nets ls r i = m := by
  induction k with
  | zero => rw [opened_zero] at h; exact absurd h (Nat.not_lt_zero m)
  | succ k ih =>
    by_cases hlt : m < opened nets ls r k
    · obtain ⟨i, hi, hopen⟩ := ih hlt
      exact ⟨i, Nat.lt_succ_of_lt hi, hopen⟩
    · rw [opened_succ] at h
      by_cases hk : Opens nets ls r k
      · rw [if_pos hk] at h
        exact ⟨k, Nat.lt_succ_self k, hk, by omega⟩
      · rw [if_neg hk] at h
        exact absurd h hlt

theorem opened_lt_of_opens {r : Rate} {i k : Nat} (hi : Opens nets ls r i) (h : i < k) :
    opened nets ls r i < opened nets ls r k := Nat.count_strict_mono hi h

/-- The net of every link is opened, by that link or one before it. -/
theorem exists_opens (nets : Nets Jack) {k : Nat} {l : Link} (hl : ls[k]? = some l) :
    ∃ i ≤ k, ∃ m, ls[i]? = some m ∧ nets.find m.dest = nets.find l.dest ∧ Opens nets ls m.rate i := by
  induction k using Nat.strongRecOn generalizing l with
  | ind k ih =>
    by_cases hk : ∃ h < k, ∃ m, ls[h]? = some m ∧ nets.find m.dest = nets.find l.dest
    · obtain ⟨h, hlt, m, hm, hnet⟩ := hk
      obtain ⟨i, hi, o, ho, hnet', hopen⟩ := ih h hlt hm
      exact ⟨i, by omega, o, ho, hnet'.trans hnet, hopen⟩
    · refine ⟨k, Nat.le_refl k, l, hl, rfl, l, hl, rfl, fun h hlt m hm hnet => ?_⟩
      exact hk ⟨h, hlt, m, hm, hnet⟩

/-- One link opens a net. -/
theorem Opens.eq_of_find_eq {i k : Nat} {r s : Rate} {l m : Link} (hi : Opens nets ls r i) (hk : Opens nets ls s k)
    (hl : ls[i]? = some l) (hm : ls[k]? = some m) (h : nets.find l.dest = nets.find m.dest) : i = k := by
  obtain ⟨l', hl', -, hi⟩ := hi
  obtain ⟨m', hm', -, hk⟩ := hk
  cases hl.symm.trans hl'
  cases hm.symm.trans hm'
  rcases Nat.lt_trichotomy i k with hlt | heq | hlt
  · exact absurd h (hk i hlt l hl)
  · exact heq
  · exact absurd h.symm (hi k hlt m hm)

/-! ## The numbering loop -/

noncomputable def openedBus (nets : Nets Jack) (ls : List Link) (c : BusCounter) (r : Rate) (i : Nat) : Bus :=
  c.next r + opened nets ls r i

structure Numbered (nets : Nets Jack) (ls : List Link) (c : BusCounter) (k : Nat) (n : Numbering) : Prop where
  counter : ∀ r, n.counter.next r = c.next r + opened nets ls r k
  buses : ∀ net b, n.buses.lookup net = some b ↔ ∃ i < k, ∃ l, ls[i]? = some l ∧ nets.find l.dest = net ∧
    Opens nets ls l.rate i ∧ b = openedBus nets ls c l.rate i

theorem numbered_zero : Numbered nets ls c 0 { counter := c } :=
  ⟨fun r => by simp, fun net b => by simp⟩

variable {k : Nat} {n : Numbering} {l : Link}

theorem opens_of_lookup_eq_none (hn : Numbered nets ls c k n) (hl : ls[k]? = some l)
    (hlook : n.buses.lookup (nets.find l.dest) = none) : Opens nets ls l.rate k := by
  refine ⟨l, hl, rfl, fun h hlt m hm hnet => ?_⟩
  obtain ⟨i, hi, o, ho, hnet', hio⟩ := exists_opens nets hm
  have := (hn.buses (nets.find l.dest) _).2 ⟨i, by omega, o, ho, hnet'.trans hnet, hio, rfl⟩
  cases hlook.symm.trans this

theorem not_opens_of_lookup_eq_some {b : Bus} (hn : Numbered nets ls c k n) (hl : ls[k]? = some l)
    (hlook : n.buses.lookup (nets.find l.dest) = some b) (r : Rate) : ¬Opens nets ls r k := by
  obtain ⟨i, hi, m, hm, hnet, -, -⟩ := (hn.buses _ b).1 hlook
  intro hx
  obtain ⟨o, ho, -, hfirst⟩ := hx
  cases hl.symm.trans ho
  exact hfirst i hi m hm hnet

/-- A link whose net has no bus yet opens it, and the net gets the next one. -/
theorem numbered_add_of_new (hn : Numbered nets ls c k n) (hl : ls[k]? = some l)
    (hlook : n.buses.lookup (nets.find l.dest) = none) : Numbered nets ls c (k + 1) (n.add nets (l, k)) := by
  have hopen := opens_of_lookup_eq_none hn hl hlook
  have hadd : n.add nets (l, k) = ⟨n.counter.advance l.rate, (nets.find l.dest, n.counter.next l.rate) :: n.buses,
      n.events ++ [.allocatedBus k (n.counter.next l.rate) l.rate]⟩ := by
    simp only [Numbering.add, hlook, BusCounter.alloc]
  rw [hadd]
  refine ⟨fun r => ?_, fun net b => ?_⟩
  · rw [BusCounter.next_advance, hn.counter, opened_succ, Nat.add_assoc]
    simp only [opens_iff_rate_eq hl hopen r]
  · rw [Nat.exists_lt_succ_right]
    by_cases hnet : net = nets.find l.dest
    · subst hnet
      rw [List.lookup_cons_self, Option.some.injEq, hn.counter]
      constructor
      · intro hx
        subst hx
        exact Or.inr ⟨l, hl, rfl, hopen, rfl⟩
      · intro hx
        rcases hx with ⟨i, hi, m, hm, hnet, hio, -⟩ | ⟨m, hm, -, -, rfl⟩
        · exact absurd (hio.eq_of_find_eq hopen hm hl hnet) (Nat.ne_of_lt hi)
        · cases hm.symm.trans hl; rfl
    · have hne : (net == nets.find l.dest) = false := by simpa using hnet
      rw [List.lookup_cons, hne, hn.buses]
      constructor
      · exact Or.inl
      · intro hx
        rcases hx with h | ⟨m, hm, hnet', -⟩
        · exact h
        · cases hm.symm.trans hl
          exact absurd hnet'.symm hnet

/-- A link whose net has a bus changes nothing. -/
theorem numbered_add_of_seen {b : Bus} (hn : Numbered nets ls c k n) (hl : ls[k]? = some l)
    (hlook : n.buses.lookup (nets.find l.dest) = some b) : Numbered nets ls c (k + 1) (n.add nets (l, k)) := by
  have hclosed := not_opens_of_lookup_eq_some hn hl hlook
  have hadd : n.add nets (l, k) = n := by simp only [Numbering.add, hlook]
  rw [hadd]
  refine ⟨fun r => ?_, fun net b => ?_⟩
  · rw [hn.counter, opened_succ, if_neg (hclosed r), Nat.add_zero]
  · rw [Nat.exists_lt_succ_right, hn.buses]
    constructor
    · exact Or.inl
    · intro hx
      rcases hx with h | ⟨m, -, -, hopen, -⟩
      · exact h
      · exact absurd hopen (hclosed m.rate)

theorem numbered_add (hn : Numbered nets ls c k n) (hl : ls[k]? = some l) :
    Numbered nets ls c (k + 1) (n.add nets (l, k)) := by
  cases hlook : n.buses.lookup (nets.find l.dest) with
  | none => exact numbered_add_of_new hn hl hlook
  | some b => exact numbered_add_of_seen hn hl hlook

theorem numbered_foldl {k : Nat} {n : Numbering} {rest : List Link} (hrest : ls.drop k = rest)
    (hn : Numbered nets ls c k n) :
    Numbered nets ls c (k + rest.length) ((rest.zipIdx k).foldl (Numbering.add nets) n) := by
  induction rest generalizing k n with
  | nil => exact hn
  | cons l rest ih =>
    have hl : ls[k]? = some l := by
      have := congrArg (fun l => l[0]?) hrest
      simpa using this
    have hrest' : ls.drop (k + 1) = rest := by rw [← List.tail_drop, hrest]; rfl
    have := ih hrest' (numbered_add hn hl)
    rwa [Nat.add_assoc, Nat.add_comm 1] at this

theorem numbered_number (nets : Nets Jack) (ls : List Link) (c : BusCounter) :
    Numbered nets ls c ls.length (number c nets ls) := by
  have h : Numbered nets ls c (0 + ls.length) (number c nets ls) := numbered_foldl rfl numbered_zero
  rwa [Nat.zero_add] at h

end

/-! ## What is written -/

/-- Buses put in one after the other: a listed jack gets its own, if it has one. -/
theorem bus?_foldl_setBus (bus : Jack → Option Bus) (jacks : List Jack) (p : Patch) (k : Jack) :
    ((jacks.filterMap fun j => (bus j).map (j, ·)).foldl (fun p a => p.setBus a.1 a.2) p).bus? k =
      (p.bus? k).map fun b => (if k ∈ jacks then bus k else none).getD b := by
  induction jacks generalizing p with
  | nil => simp
  | cons j jacks ih =>
    rcases hj : bus j with _ | b
    · rw [List.filterMap_cons_none (by rw [hj]; rfl), ih]
      by_cases hk : k = j
      · subst hk; simp [hj]
      · simp [hk]
    · rw [List.filterMap_cons_some (by rw [hj]; rfl), List.foldl_cons, ih, Patch.bus?_setBus]
      by_cases hk : k = j
      · subst hk
        cases p.bus? k with
        | none => simp
        | some old => by_cases hm : k ∈ jacks <;> simp [hj, hm]
      · simp [hk]

theorem withoutBuses_foldl_setBus (buses : List (Jack × Bus)) (p : Patch) :
    (buses.foldl (fun p a => p.setBus a.1 a.2) p).withoutBuses = p.withoutBuses := by
  induction buses generalizing p with
  | nil => rfl
  | cons a rest ih => rw [List.foldl_cons, ih, Patch.withoutBuses_setBus]

theorem fitted_foldl_setBus {p : Patch} (h : p.Fitted) (buses : List (Jack × Bus)) :
    (buses.foldl (fun p a => p.setBus a.1 a.2) p).Fitted := by
  induction buses generalizing p with
  | nil => exact h
  | cons a rest ih => exact ih (h.setBus a.1 a.2)

theorem bus?_committed (b : Bench) (ls : List Link) (k : Jack) :
    (b.committed ls).patch.bus? k = (b.patch.bus? k).map fun old =>
      (if k ∈ (netsOf ls).members then (number b.counter (netsOf ls) ls).buses.lookup ((netsOf ls).find k)
        else none).getD old :=
  bus?_foldl_setBus (fun j => (number b.counter (netsOf ls) ls).buses.lookup ((netsOf ls).find j)) _ _ k

theorem withoutBuses_committed (b : Bench) (ls : List Link) :
    (b.committed ls).patch.withoutBuses = b.patch.withoutBuses :=
  withoutBuses_foldl_setBus _ _

theorem fitted_committed {b : Bench} (h : b.patch.Fitted) (ls : List Link) : (b.committed ls).patch.Fitted :=
  fitted_foldl_setBus h _

theorem next_committed (b : Bench) (ls : List Link) (r : Rate) :
    (b.committed ls).counter.next r = b.counter.next r + opened (netsOf ls) ls r ls.length :=
  (numbered_number (netsOf ls) ls b.counter).counter r

end Patchbay.Routing
