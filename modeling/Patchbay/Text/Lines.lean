/-
  Patchbay.Text.Lines — the lines of a text.

  A line ends at a line feed, or at a carriage return and line feed together; a last line
  may go without an end. A carriage return that no line feed follows belongs to its line.
-/

namespace Patchbay.Text

/-- The lines without their ends. -/
def lines : List Char → List (List Char)
  | [] => []
  | '\n' :: cs => [] :: lines cs
  | '\r' :: '\n' :: cs => [] :: lines cs
  | c :: cs =>
    match lines cs with
    | [] => [[c]]
    | l :: ls => (c :: l) :: ls

/-- A character that does not end a line stands in front of the first of the rest. -/
theorem lines_cons {c : Char} {cs : List Char} (hfeed : c ≠ '\n') (hreturn : c = '\r' → cs.head? ≠ some '\n') :
    lines (c :: cs) = match lines cs with
      | [] => [[c]]
      | l :: ls => (c :: l) :: ls := by
  rw [lines]
  · exact hfeed
  · intro rest hc hcs
    exact hreturn hc (by rw [hcs]; rfl)

theorem lines_eq_nil_iff {cs : List Char} : lines cs = [] ↔ cs = [] := by
  refine ⟨fun h => ?_, fun h => by rw [h]; rfl⟩
  unfold lines at h
  split at h
  · rfl
  · cases h
  · cases h
  · split at h <;> cases h

/-- A line feed ends a line, whatever stands before it, so the lines after it are those of the rest. -/
theorem lines_append_feed (a b : List Char) : lines (a ++ '\n' :: b) = lines (a ++ ['\n']) ++ lines b := by
  induction a with
  | nil => rfl
  | cons c cs ih =>
    by_cases hfeed : c = '\n'
    · subst hfeed
      simp only [List.cons_append, lines, ih]
    by_cases hreturn : c = '\r' → (cs ++ ['\n']).head? ≠ some '\n'
    · have hreturn' : c = '\r' → (cs ++ '\n' :: b).head? ≠ some '\n' := by cases cs <;> exact hreturn
      rw [List.cons_append, List.cons_append, lines_cons hfeed hreturn', lines_cons hfeed hreturn, ih]
      cases hlines : lines (cs ++ ['\n']) with
      | nil => simp [lines_eq_nil_iff] at hlines
      | cons l ls => rfl
    · obtain ⟨rfl, hhead⟩ := Classical.not_imp.1 hreturn
      -- The carriage return and the line feed after it end one line.
      cases cs with
      | nil => rfl
      | cons d cs =>
        obtain rfl : d = '\n' := by simpa using hhead
        simp only [List.cons_append, lines, List.cons.injEq, true_and] at ih ⊢
        exact ih

/-- What has no line feed in it and does not end in a carriage return is a line, if a line feed follows. -/
theorem lines_append_of_getLast? {l : List Char} (hfeed : '\n' ∉ l) (hreturn : l.getLast? ≠ some '\r')
    (rest : List Char) : lines (l ++ '\n' :: rest) = l :: lines rest := by
  induction l with
  | nil => rfl
  | cons c l ih =>
    have hc : c ≠ '\n' := fun h => hfeed (h ▸ List.mem_cons_self)
    have hl : '\n' ∉ l := fun h => hfeed (List.mem_cons_of_mem _ h)
    cases l with
    | nil =>
      have hc' : c ≠ '\r' := fun h => hreturn (by rw [h]; rfl)
      rw [List.cons_append, lines_cons hc fun h => absurd h hc']
      rfl
    | cons d l =>
      have hd : d ≠ '\n' := fun h => hl (h ▸ List.mem_cons_self)
      rw [List.getLast?_cons_cons] at hreturn
      have hhead : (d :: l ++ '\n' :: rest).head? ≠ some '\n' := by simpa using hd
      rw [List.cons_append, lines_cons hc fun _ => hhead, ih hl hreturn]

theorem lines_flatMap {ls : List (List Char)} (h : ∀ l ∈ ls, '\n' ∉ l ∧ l.getLast? ≠ some '\r') :
    lines (ls.flatMap (· ++ ['\n'])) = ls := by
  induction ls with
  | nil => rfl
  | cons l ls ih =>
    obtain ⟨hfeed, hreturn⟩ := h l List.mem_cons_self
    rw [List.flatMap_cons, List.append_assoc, List.singleton_append, lines_append_of_getLast? hfeed hreturn,
      ih fun k hk => h k (List.mem_cons_of_mem _ hk)]

end Patchbay.Text
