/-
  Patchbay.Proofs.CounterWidth — counters in 32-bit words suffice for every decoded patch.

  The counters of `Patchbay.Bus` count without end. Here they are words, and what does not fit into
  a word is `none`. A file can hold any number of cables, but its fields can name only so many
  inlets, and no two cables that are routed enter one:
  - `Patch.Sound.nodup_targets`, `Patch.Sound.length_cables_le`: how many cables can be sound.
  - `total_add_le`, `total_number_le`: a link is handed out at most one bus.
  - `exists_tracks_add`, `exists_tracks_foldl`: words are exact as long as the exact numbers fit.
  - `word_counters_suffice`: decoded patches.
-/

import Patchbay.Proofs.DecodedPatch
import Patchbay.Proofs.ListOrder

namespace Patchbay

/-! ## How many cables are sound -/

def Cable.target (c : Cable) : Area × Nat × Nat := (c.area, c.moduleTo, c.jackTo)

/-- What cables can name if their modules and jacks are below bounds. -/
def inletSpace (modules jacks : Nat) : Finset (Area × Nat × Nat) :=
  {.fx, .voice} ×ˢ Finset.range modules ×ˢ Finset.range jacks

theorem card_inletSpace (modules jacks : Nat) : (inletSpace modules jacks).card = 2 * (modules * jacks) := by
  rw [inletSpace, Finset.card_product, Finset.card_product, Finset.card_range, Finset.card_range]
  rfl

theorem Cable.target_mem_inletSpace {c : Cable} {modules jacks : Nat} (hmodule : c.moduleTo < modules)
    (hjack : c.jackTo < jacks) : c.target ∈ inletSpace modules jacks := by
  have harea : c.area = .fx ∨ c.area = .voice := by cases c.area <;> simp
  simp only [inletSpace, target, Finset.mem_product, Finset.mem_range, Finset.mem_insert, Finset.mem_singleton]
  exact ⟨harea, hmodule, hjack⟩

namespace Patch

variable {p : Patch}

theorem Enters.of_target_eq {c d : Cable} (h : c.target = d.target) {j : Jack} (hj : p.Enters c j) :
    p.Enters d j := by
  obtain ⟨harea, hmodule, hjack⟩ : c.area = d.area ∧ c.moduleTo = d.moduleTo ∧ c.jackTo = d.jackTo := by
    simpa [Cable.target] using h
  have hend : c.destEnd = d.destEnd := by simp only [Cable.destEnd, harea, hmodule, hjack]
  rw [Enters, ← hend]
  exact hj

/-- No two sound cables name one inlet. -/
theorem Sound.nodup_targets (h : p.Sound) : (p.cables.map Cable.target).Nodup := by
  obtain ⟨halone, hpairs⟩ := sound_iff_pairwise.1 h
  rw [List.Nodup, List.pairwise_map]
  refine hpairs.imp_of_mem fun {d c} hd _ hfree htarget => ?_
  obtain ⟨j, r, hj, -⟩ := halone d hd .destJack (by decide)
  exact hfree j hj (hj.of_target_eq htarget)

theorem Sound.length_cables_le (h : p.Sound) {modules jacks : Nat}
    (hcables : ∀ c ∈ p.cables, c.moduleTo < modules ∧ c.jackTo < jacks) :
    p.cables.length ≤ 2 * (modules * jacks) := by
  have hsub : (p.cables.map Cable.target).toFinset ⊆ inletSpace modules jacks := by
    intro t ht
    obtain ⟨c, hc, rfl⟩ := List.mem_map.1 (List.mem_toFinset.1 ht)
    exact Cable.target_mem_inletSpace (hcables c hc).1 (hcables c hc).2
  calc p.cables.length = (p.cables.map Cable.target).length := (List.length_map _).symm
    _ = (p.cables.map Cable.target).toFinset.card := (List.toFinset_card_of_nodup h.nodup_targets).symm
    _ ≤ (inletSpace modules jacks).card := Finset.card_le_card hsub
    _ = 2 * (modules * jacks) := card_inletSpace ..

/-- The fields of a cable hold 8 bits for a module and 6 for a jack. -/
theorem Sound.length_cables_le_of_decoded {catalog : Catalog} (h : p.Sound) (hp : p.Decoded catalog) :
    p.cables.length ≤ 32768 :=
  h.length_cables_le fun c hc => (hp.cable_lt c hc).2.2

end Patch

/-! ## Words -/

/-- The numbers above the reserved ones are as many as are handed out. -/
theorem BusCounter.space_le {c : BusCounter} {r : Rate} {n : Nat} (h : c.handedOut r ≤ n) :
    c.highest r ≤ n + 1 ∧ c.spaceSize r ≤ n + 2 := by
  have hnext : c.next r ≤ n + 2 := by
    rw [next, Nat.add_comm]
    exact Nat.add_le_add_right h 2
  refine ⟨Nat.sub_le_of_le_add hnext, ?_⟩
  rw [spaceSize_eq_next]
  exact hnext

structure WordCounter where
  audio : UInt32 := 2
  control : UInt32 := 2
  deriving Repr

namespace WordCounter

def succ? (n : UInt32) : Option UInt32 := if n.toNat + 1 < UInt32.size then some (n + 1) else none

def pred? (n : UInt32) : Option UInt32 := if 1 ≤ n.toNat then some (n - 1) else none

theorem exists_succ {n : UInt32} (h : n.toNat + 1 < UInt32.size) : ∃ m, succ? n = some m ∧ m.toNat = n.toNat + 1 :=
  ⟨n + 1, if_pos h, by rw [UInt32.toNat_add]; exact Nat.mod_eq_of_lt h⟩

theorem exists_pred {n : UInt32} (h : 1 ≤ n.toNat) : ∃ m, pred? n = some m ∧ m.toNat + 1 = n.toNat := by
  refine ⟨n - 1, if_pos h, ?_⟩
  have hle : (1 : UInt32) ≤ n := UInt32.le_iff_toNat_le.2 h
  rw [UInt32.toNat_sub_of_le _ _ hle]
  exact Nat.sub_add_cancel h

def next (c : WordCounter) : Rate → UInt32
  | .audio => c.audio
  | .control => c.control

def setNext (c : WordCounter) (n : UInt32) : Rate → WordCounter
  | .audio => { c with audio := n }
  | .control => { c with control := n }

def alloc? (c : WordCounter) (r : Rate) : Option (UInt32 × WordCounter) :=
  (succ? (c.next r)).map fun n => (c.next r, c.setNext n r)

def highest? (c : WordCounter) (r : Rate) : Option UInt32 := pred? (c.next r)

def spaceSize? (c : WordCounter) (r : Rate) : Option UInt32 := (c.highest? r).bind succ?

/-- The words hold the numbers of a counter that counts without end. -/
def Tracks (w : WordCounter) (c : BusCounter) : Prop := ∀ r, (w.next r).toNat = c.next r

theorem tracks_new : Tracks {} {} := by intro r; cases r <;> rfl

variable {w : WordCounter} {c : BusCounter}

theorem next_setNext (w : WordCounter) (n : UInt32) (r s : Rate) :
    (w.setNext n r).next s = if r = s then n else w.next s := by
  cases r <;> cases s <;> rfl

theorem Tracks.exists_alloc (h : w.Tracks c) {r : Rate} (hlt : (c.advance r).next r < UInt32.size) :
    ∃ bus w', w.alloc? r = some (bus, w') ∧ bus.toNat = c.next r ∧ w'.Tracks (c.advance r) := by
  rw [BusCounter.next_advance, if_pos rfl, ← h r] at hlt
  obtain ⟨n, hn, hsucc⟩ := exists_succ hlt
  refine ⟨w.next r, w.setNext n r, ?_, h r, fun s => ?_⟩
  · rw [alloc?, hn]
    rfl
  · rw [next_setNext, BusCounter.next_advance]
    split
    · next hrs => rw [hsucc, h, hrs]
    · exact h s

/-- Words that hold exact numbers give the exact highest bus and size of a space. -/
theorem Tracks.exists_space (h : w.Tracks c) (r : Rate) :
    ∃ top size, w.highest? r = some top ∧ top.toNat = c.highest r ∧
      w.spaceSize? r = some size ∧ size.toNat = c.spaceSize r := by
  have hnext : (w.next r).toNat = 2 + c.handedOut r := h r
  obtain ⟨top, htop, hpred⟩ := exists_pred (n := w.next r) (by omega)
  have hhighest : top.toNat = c.highest r := by
    rw [BusCounter.highest, ← h r, ← hpred]
    rfl
  obtain ⟨size, hsize, hsucc⟩ := exists_succ (n := top) (hpred ▸ (w.next r).toNat_lt_size)
  refine ⟨top, size, htop, hhighest, ?_, by rw [hsucc, hhighest]; rfl⟩
  rw [spaceSize?, highest?, htop]
  exact hsize

end WordCounter

namespace Routing

structure WordNumbering where
  counter : WordCounter
  buses : List (Jack × UInt32) := []
  events : List Event := []
  deriving Repr

/-- Give the net of the link with number `cable` a bus, if it has none. -/
def WordNumbering.add? (nets : Nets Jack) (n : WordNumbering) (numbered : Link × Nat) : Option WordNumbering :=
  let (l, cable) := numbered
  let net := nets.find l.dest
  match n.buses.lookup net with
  | some _ => some n
  | none => do
    let (bus, counter) ← n.counter.alloc? l.rate
    return ⟨counter, (net, bus) :: n.buses, n.events ++ [.allocatedBus cable bus.toNat l.rate]⟩

def numberWords? (counter : WordCounter) (nets : Nets Jack) (ls : List Link) : Option WordNumbering :=
  ls.zipIdx.foldlM (WordNumbering.add? nets) { counter }

structure WordNumbering.Tracks (w : WordNumbering) (n : Numbering) : Prop where
  counter : w.counter.Tracks n.counter
  buses : n.buses = w.buses.map fun b => (b.1, b.2.toNat)
  events : n.events = w.events

theorem WordNumbering.tracks_new : WordNumbering.Tracks { counter := {} } { counter := {} } :=
  ⟨WordCounter.tracks_new, rfl, rfl⟩

/-! ## Numbering -/

section

variable {nets : Nets Jack} {w : WordNumbering} {n : Numbering}

theorem WordNumbering.Tracks.lookup (h : w.Tracks n) (net : Jack) :
    n.buses.lookup net = (w.buses.lookup net).map UInt32.toNat := by
  rw [h.buses]
  induction w.buses with
  | nil => rfl
  | cons e rest ih =>
    rw [List.map_cons, List.lookup_cons, List.lookup_cons, ih]
    split <;> rfl

theorem next_add_le (nets : Nets Jack) (n : Numbering) (a : Link × Nat) (r : Rate) :
    n.counter.next r ≤ (n.add nets a).counter.next r := by
  simp only [Numbering.add]
  split
  · exact Nat.le_refl _
  · show _ ≤ (n.counter.advance a.1.rate).next r
    rw [BusCounter.next_advance]
    exact Nat.le_add_right _ _

theorem next_foldl_le (nets : Nets Jack) (n : Numbering) (as : List (Link × Nat)) (r : Rate) :
    n.counter.next r ≤ (as.foldl (Numbering.add nets) n).counter.next r := by
  induction as generalizing n with
  | nil => exact Nat.le_refl _
  | cons a as ih => exact (next_add_le nets n a r).trans (ih _)

/-- A link is numbered in words if the number after its own fits. -/
theorem exists_tracks_add (h : w.Tracks n) (a : Link × Nat)
    (hlt : ∀ r, (n.add nets a).counter.next r < UInt32.size) :
    ∃ w', w.add? nets a = some w' ∧ w'.Tracks (n.add nets a) := by
  obtain ⟨l, cable⟩ := a
  have hlookup := h.lookup (nets.find l.dest)
  cases hbus : w.buses.lookup (nets.find l.dest) with
  | some bus =>
    rw [hbus] at hlookup
    refine ⟨w, ?_, ?_⟩
    · simp only [WordNumbering.add?, hbus]
    · simp only [Numbering.add, hlookup, Option.map_some]
      exact h
  | none =>
    rw [hbus] at hlookup
    have hadd : n.add nets (l, cable) =
        ⟨n.counter.advance l.rate, (nets.find l.dest, n.counter.next l.rate) :: n.buses,
          n.events ++ [.allocatedBus cable (n.counter.next l.rate) l.rate]⟩ := by
      simp only [Numbering.add, hlookup, Option.map_none]
      rfl
    rw [hadd] at hlt ⊢
    obtain ⟨bus, c, halloc, hnext, hc⟩ := h.counter.exists_alloc (hlt l.rate)
    refine ⟨⟨c, (nets.find l.dest, bus) :: w.buses, w.events ++ [.allocatedBus cable bus.toNat l.rate]⟩, ?_, hc,
      ?_, ?_⟩
    · simp only [WordNumbering.add?, hbus, halloc]
      rfl
    · rw [List.map_cons, hnext, ← h.buses]
    · rw [hnext, h.events]

/-- Numbering goes through in words if the numbers after it fit. -/
theorem exists_tracks_foldl (h : w.Tracks n) (as : List (Link × Nat))
    (hlt : ∀ r, (as.foldl (Numbering.add nets) n).counter.next r < UInt32.size) :
    ∃ w', as.foldlM (WordNumbering.add? nets) w = some w' ∧ w'.Tracks (as.foldl (Numbering.add nets) n) := by
  induction as generalizing w n with
  | nil => exact ⟨w, rfl, h⟩
  | cons a as ih =>
    -- Counters only move on, so what fits at the end fits after the first link.
    obtain ⟨w', hadd, h'⟩ := exists_tracks_add h a fun r => (next_foldl_le nets _ as r).trans_lt (hlt r)
    obtain ⟨w'', hrest, h''⟩ := ih h' hlt
    refine ⟨w'', ?_, h''⟩
    rw [List.foldlM_cons, hadd]
    exact hrest

end

theorem total_add_le (nets : Nets Jack) (n : Numbering) (a : Link × Nat) :
    (n.add nets a).counter.audio + (n.add nets a).counter.control ≤ n.counter.audio + n.counter.control + 1 := by
  simp only [Numbering.add]
  split
  · exact Nat.le_succ _
  · cases a.1.rate <;> simp only [BusCounter.alloc, BusCounter.advance] <;> omega

/-- At most one bus is handed out for each link. -/
theorem total_number_le (c : BusCounter) (nets : Nets Jack) (ls : List Link) :
    (number c nets ls).counter.audio + (number c nets ls).counter.control ≤ c.audio + c.control + ls.length := by
  have hfold (as : List (Link × Nat)) (n : Numbering) :
      (as.foldl (Numbering.add nets) n).counter.audio + (as.foldl (Numbering.add nets) n).counter.control ≤
        n.counter.audio + n.counter.control + as.length := by
    induction as generalizing n with
    | nil => exact Nat.le_refl _
    | cons a as ih =>
      have hstep := total_add_le nets n a
      have hrest := ih (n.add nets a)
      rw [List.foldl_cons, List.length_cons]
      omega
  simpa [number] using hfold ls.zipIdx { counter := c }

/-- What is not sound takes no bus, and what is sound has few cables. -/
theorem demand_total_le {catalog : Catalog} {p : Patch} (hp : p.Decoded catalog) :
    demand p .audio + demand p .control ≤ 32768 := by
  rcases route_cases { counter := {}, patch := p } with ⟨ls, -, hsound, hls, hroute⟩ | ⟨e, -, hroute⟩
  · rw [demand, demand, hroute]
    calc (number {} (netsOf ls) ls).counter.audio + (number {} (netsOf ls) ls).counter.control
        ≤ 0 + 0 + ls.length := total_number_le {} (netsOf ls) ls
      _ = p.cables.length := by rw [← hls.length_eq, Nat.zero_add]
      _ ≤ 32768 := hsound.length_cables_le_of_decoded hp
  · rw [demand, demand, hroute]
    exact Nat.zero_le _

/-- A decoded patch is handed out at most 32768 buses, of both rates together, however many cables
    it has, and routing refuses more cables than that. Counters and spaces fit in 32-bit words: no
    increment overflows, and the words hold what exact counting gives. -/
theorem word_counters_suffice {catalog : Catalog} {bytes : List UInt8} {p : Patch}
    (hp : (Patch.ofBytes catalog bytes).value = .ok p) :
    demand p .audio + demand p .control ≤ 32768 ∧
    (∀ r, (routeAfter [] p).2.counter.highest r ≤ 32769 ∧ (routeAfter [] p).2.counter.spaceSize r ≤ 32770) ∧
    (∀ ls, links p [] 0 p.cables = .ok ls → ∃ w, numberWords? {} (netsOf ls) ls = some w ∧
      w.Tracks (number {} (netsOf ls) ls) ∧
      ∀ r, ∃ top size, w.counter.highest? r = some top ∧ top.toNat = (routeAfter [] p).2.counter.highest r ∧
        w.counter.spaceSize? r = some size ∧ size.toNat = (routeAfter [] p).2.counter.spaceSize r) ∧
    (32768 < p.cables.length → ∃ e, (routeAfter [] p).1 = .error e) := by
  have hdecoded : p.Decoded catalog := Container.decoded_ofBytes hp
  have htotal := demand_total_le hdecoded
  have hhanded (r : Rate) : (routeAfter [] p).2.counter.handedOut r ≤ 32768 := by
    show demand p r ≤ 32768
    cases r <;> omega
  refine ⟨htotal, fun r => BusCounter.space_le (hhanded r), fun ls hls => ?_, fun hlong => ?_⟩
  · have hbench : (routeAfter [] p).2 = Bench.committed { counter := {}, patch := p } ls := by
      rw [routeAfter, route_eq]
      simp only [hls]
      rfl
    have hnext (r : Rate) : (number {} (netsOf ls) ls).counter.next r < UInt32.size := by
      have hr := hhanded r
      rw [hbench] at hr
      calc (number {} (netsOf ls) ls).counter.next r ≤ 2 + 32768 := Nat.add_le_add_left hr 2
        _ < UInt32.size := by decide
    obtain ⟨w, hw, htracks⟩ := exists_tracks_foldl WordNumbering.tracks_new ls.zipIdx hnext
    refine ⟨w, hw, htracks, fun r => ?_⟩
    rw [hbench]
    exact htracks.counter.exists_space r
  · cases hroute : (routeAfter [] p).1 with
    | error e => exact ⟨e, rfl⟩
    | ok types =>
      have hsound : p.Sound := (exists_types_iff_sound _).1 ⟨types, hroute⟩
      exact absurd (hsound.length_cables_le_of_decoded hdecoded) (Nat.not_le.2 hlong)

theorem word_counters_suffice_bridgedMixers :
    (Patch.ofBytes mixers bridgedMixersFile).value = .ok bridgedMixers ∧
    demand bridgedMixers .audio + demand bridgedMixers .control = 1 ∧
    ∃ ls w, links bridgedMixers [] 0 bridgedMixers.cables = .ok ls ∧ numberWords? {} (netsOf ls) ls = some w ∧
      w.counter.audio = 3 ∧ ∃ size, w.counter.spaceSize? .audio = some size ∧ size.toNat = 3 := by
  have hbytes : (Patch.ofBytes mixers bridgedMixersFile).value = .ok bridgedMixers := by decide +kernel
  obtain ⟨-, -, hwords, -⟩ := word_counters_suffice hbytes
  obtain ⟨w, hw, -, hspace⟩ := hwords _ rfl
  obtain ⟨_, size, -, -, hsize, heq⟩ := hspace .audio
  refine ⟨hbytes, by decide, _, w, rfl, hw, ?_, size, hsize, heq⟩
  cases hw
  rfl

end Routing

end Patchbay
