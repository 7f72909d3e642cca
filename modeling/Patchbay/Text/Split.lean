/-
  Patchbay.Text.Split — cutting a text at a separator, and joining with one.
-/

namespace Patchbay.Text

/-- The pieces between separators, empty ones included; there is always one. -/
def splitAt (separator : Char) : List Char → List (List Char)
  | [] => [[]]
  | c :: cs =>
    if c = separator then [] :: splitAt separator cs
    else
      match splitAt separator cs with
      | [] => [[c]]
      | piece :: pieces => (c :: piece) :: pieces

theorem notMem_intercalate {α : Type} {a : α} {sep : List α} (hsep : a ∉ sep) {ls : List (List α)}
    (h : ∀ l ∈ ls, a ∉ l) : a ∉ sep.intercalate ls := by
  induction ls with
  | nil => exact List.not_mem_nil
  | cons l ls ih =>
    have hl := h l List.mem_cons_self
    cases ls with
    | nil => rwa [List.intercalate_singleton]
    | cons k ls =>
      have hrest := ih fun m hm => h m (List.mem_cons_of_mem _ hm)
      rw [List.intercalate_cons_cons]
      simp only [List.mem_append, hl, hsep, hrest, or_self, not_false_eq_true]

end Patchbay.Text
