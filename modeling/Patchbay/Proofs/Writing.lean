/-
  Patchbay.Proofs.Writing — what writing a file does to a tree.

  A walk passes directories only, so all places above the one it ends at are directories
  before a file is put there, and nothing becomes one by it:
  - `exists_above_of_walk`: where a walk ends that does not end at a directory.
  - `isDirectory_put`, `bytesAt?_put`: a tree with a file more.
  - `walk_put`: the walk that led to a file's place now leads to the file.
  - `written_of_write`: a write puts one file where its path leads, and changes nothing else.
-/

import Patchbay.Disk.FileTree

namespace Patchbay

/-! ## Parts of paths -/

namespace Text

theorem splitAt_ne_nil (separator : Char) (cs : List Char) : splitAt separator cs ≠ [] := by
  cases cs with
  | nil => simp [splitAt]
  | cons c cs =>
    unfold splitAt
    split
    · simp
    · split <;> simp

/-- A text that does not end in a separator ends in a piece that is not empty. -/
theorem getLast?_splitAt {separator : Char} {cs : List Char} (hne : cs ≠ []) (hlast : cs.getLast? ≠ some separator) :
    ∃ piece, piece ≠ [] ∧ (splitAt separator cs).getLast? = some piece := by
  induction cs with
  | nil => exact absurd rfl hne
  | cons c cs ih =>
    rcases List.eq_nil_or_concat cs with rfl | ⟨front, last, hcs⟩
    · have hc : c ≠ separator := by simpa using hlast
      exact ⟨[c], by simp, by simp [splitAt, hc]⟩
    · have hcs' : cs ≠ [] := by simp [hcs]
      obtain ⟨piece, hpiece, hends⟩ := ih hcs' (by simpa [List.getLast?_cons_of_ne_nil hcs'] using hlast)
      unfold splitAt
      by_cases hc : c = separator
      · rw [if_pos hc, List.getLast?_cons_of_ne_nil (splitAt_ne_nil separator cs)]
        exact ⟨piece, hpiece, hends⟩
      · rw [if_neg hc]
        rcases hpieces : splitAt separator cs with _ | ⟨first, pieces⟩
        · exact absurd hpieces (splitAt_ne_nil separator cs)
        · cases pieces with
          | nil => exact ⟨c :: first, by simp, rfl⟩
          | cons second pieces =>
            rw [hpieces] at hends
            exact ⟨piece, hpiece, by simpa using hends⟩

end Text

/-- A path with no slash at its end has nothing empty at the end of its parts. -/
theorem Path.dropWhile_reverse_parts {p : Path} (hne : p.text ≠ "") (hlast : p.text.toList.getLast? ≠ some '/') :
    (p.parts.reverse.dropWhile (· = "")).reverse = p.parts := by
  have hne' : p.text.toList ≠ [] := fun h => hne (String.toList_eq_nil_iff.1 h)
  obtain ⟨piece, hpiece, hends⟩ := Text.getLast?_splitAt hne' hlast
  have hpart : p.parts.getLast? = some (String.ofList piece) := by
    unfold parts
    rw [List.getLast?_map, hends]
    rfl
  rw [List.getLast?_eq_head?_reverse] at hpart
  obtain ⟨rest, hrest⟩ := List.head?_eq_some_iff.1 hpart
  have hnamed : String.ofList piece ≠ "" := by simpa using hpiece
  rw [hrest, List.dropWhile_cons_of_neg (by simpa using hnamed), ← hrest, List.reverse_reverse]

namespace FileTree

variable {t : FileTree}

/-! ## Directories -/

theorem isDirectory_iff {place : List String} : t.isDirectory place ↔
    place <+: t.home ∨ (∃ d ∈ t.directories, place <+: d) ∨ ∃ f ∈ t.files, f.1 ≠ place ∧ place <+: f.1 := by
  simp [isDirectory, or_assoc]

/-- What is above a directory is one. -/
theorem isDirectory_of_isPrefix {place q : List String} (h : t.isDirectory place) (hq : q <+: place) :
    t.isDirectory q := by
  rw [isDirectory_iff] at h ⊢
  rcases h with h | ⟨d, hd, h⟩ | ⟨f, hf, hne, h⟩
  · exact Or.inl (hq.trans h)
  · exact Or.inr (Or.inl ⟨d, hd, hq.trans h⟩)
  · refine Or.inr (Or.inr ⟨f, hf, fun heq => hne ?_, hq.trans h⟩)
    subst heq
    exact hq.eq_of_length (Nat.le_antisymm hq.length_le h.length_le)

theorem isDirectory_origin (t : FileTree) (p : Path) : t.isDirectory (t.origin p) := by
  rw [isDirectory_iff]
  unfold origin
  split
  · exact Or.inl List.nil_prefix
  · exact Or.inl List.prefix_rfl

/-! ## Walks -/

/-- The place of a spot that is no directory. -/
def Spot.place? : Spot → Option (List String)
  | .directory => none
  | .file place _ | .vacant place => some place

/-- A walk that ends at no directory ends right below one. -/
theorem exists_above_of_walk {place parts : List String} {spot : Spot} {target : List String}
    (hplace : t.isDirectory place) (hw : t.walk place parts = .ok spot) (hs : spot.place? = some target) :
    ∃ above name, target = above ++ [name] ∧ t.isDirectory above ∧ ¬t.isDirectory target := by
  fun_induction walk t place parts with
  | case1 => cases hw; cases hs
  | case2 place part rest hskip ih => exact ih hplace hw
  | case3 place rest hskip ih => exact ih (isDirectory_of_isPrefix hplace (List.dropLast_prefix _)) hw
  | case5 place part rest _ _ _ next hdir ih => exact ih hdir hw
  | case6 place part rest _ _ _ next hdir bytes _ _ =>
    cases hw
    obtain rfl : place ++ [part] = target := Option.some.inj hs
    exact ⟨place, part, rfl, hplace, hdir⟩
  | case8 place part rest _ _ _ next hdir _ _ =>
    cases hw
    obtain rfl : place ++ [part] = target := Option.some.inj hs
    exact ⟨place, part, rfl, hplace, hdir⟩
  | _ => cases hw

/-! ## A file more -/

/-- Taking one place out of a list of files leaves the others. -/
theorem lookup_filter_ne {place q : List String} (h : q ≠ place) (files : List (List String × List UInt8)) :
    (files.filter fun f => f.1 ≠ place).lookup q = files.lookup q := by
  induction files with
  | nil => rfl
  | cons f files ih =>
    by_cases hf : f.1 = place
    · have hq : (q == f.1) = false := by simpa [hf] using h
      rw [List.filter_cons_of_neg (by simpa using hf), ih, List.lookup_cons, hq]
    · rw [List.filter_cons_of_pos (by simpa using hf), List.lookup_cons, List.lookup_cons, ih]

theorem bytesAt?_put (t : FileTree) (place q : List String) (bytes : List UInt8) :
    (t.put place bytes).bytesAt? q = if q = place then some bytes else t.bytesAt? q := by
  unfold bytesAt? put
  by_cases h : q = place
  · simp [h]
  · have hq : (q == place) = false := by simpa using h
    rw [if_neg h, List.lookup_cons, hq]
    exact lookup_filter_ne h t.files

/-- Right below a directory a file makes no new directory. -/
theorem isDirectory_put {above : List String} (habove : t.isDirectory above) (name : String) (bytes : List UInt8) :
    (t.put (above ++ [name]) bytes).isDirectory = t.isDirectory := by
  funext q
  rw [Bool.eq_iff_iff]
  constructor
  · intro h
    rw [isDirectory_iff] at h
    rcases h with h | h | ⟨f, hf, hne, hq⟩
    · exact isDirectory_iff.2 (Or.inl h)
    · exact isDirectory_iff.2 (Or.inr (Or.inl h))
    · rcases List.mem_cons.1 hf with rfl | hf
      · rcases List.prefix_concat_iff.1 hq with rfl | hq
        · exact absurd rfl hne
        · exact isDirectory_of_isPrefix habove hq
      · exact isDirectory_iff.2 (Or.inr (Or.inr ⟨f, (List.mem_filter.1 hf).1, hne, hq⟩))
  · intro h
    rw [isDirectory_iff] at h ⊢
    rcases h with h | h | ⟨f, hf, hne, hq⟩
    · exact Or.inl h
    · exact Or.inr (Or.inl h)
    · refine Or.inr (Or.inr ?_)
      by_cases heq : f.1 = above ++ [name]
      · exact ⟨(above ++ [name], bytes), List.mem_cons_self, heq ▸ hne, heq ▸ hq⟩
      · exact ⟨f, List.mem_cons_of_mem _ (List.mem_filter.2 ⟨hf, by simpa using heq⟩), hne, hq⟩

/-- The walk that led to a place leads to the file that is put there. -/
theorem walk_put {place parts : List String} {spot : Spot} {target : List String} {bytes : List UInt8}
    (hw : t.walk place parts = .ok spot) (hs : spot.place? = some target)
    (hdirs : (t.put target bytes).isDirectory = t.isDirectory) :
    (t.put target bytes).walk place parts = .ok (.file target bytes) := by
  -- Each step but the last asks only what is a directory, and that is as before.
  fun_induction walk t place parts with
  | case1 => cases hw; cases hs
  | case2 place part rest hskip ih => rw [walk, if_pos hskip]; exact ih hw
  | case3 place rest hskip ih => rw [walk, if_neg hskip, if_pos rfl]; exact ih hw
  | case5 place part rest hskip hup hlong next hdir ih =>
    rw [walk, if_neg hskip, if_neg hup, if_neg hlong]
    simp only [hdirs]
    rw [if_pos hdir]
    exact ih hw
  | case6 place part rest hskip hup hlong next hdir old _ hrest =>
    cases hw
    obtain rfl : place ++ [part] = target := Option.some.inj hs
    rw [walk, if_neg hskip, if_neg hup, if_neg hlong]
    simp only [hdirs, bytesAt?_put, if_true, if_pos hrest]
    exact if_neg hdir
  | case8 place part rest hskip hup hlong next hdir _ hrest =>
    cases hw
    obtain rfl : place ++ [part] = target := Option.some.inj hs
    rw [walk, if_neg hskip, if_neg hup, if_neg hlong]
    simp only [hdirs, bytesAt?_put, if_true, if_pos hrest]
    exact if_neg hdir
  | _ => cases hw

/-! ## Writing -/

/-- A tree in which one file was written: it is read back where it was written, one place
    holds it, and no other place nor any directory differs. -/
structure Written (t : FileTree) (p : Path) (bytes : List UInt8) (after : FileTree) : Prop where
  read : after.read p = .ok bytes
  home : after.home = t.home
  isDirectory : after.isDirectory = t.isDirectory
  place : ∃ place, ¬t.isDirectory place ∧ ∀ q, after.bytesAt? q = if q = place then some bytes else t.bytesAt? q

theorem exists_target_of_write {p : Path} {bytes : List UInt8} {after : FileTree} (h : t.write p bytes = .ok after) :
    refusal? p = none ∧ p.text.toList.getLast? ≠ some '/' ∧ ∃ spot target,
      t.walk (t.origin p) (p.parts.reverse.dropWhile (· = "")).reverse = .ok spot ∧ spot.place? = some target ∧
        after = t.put target bytes := by
  unfold write at h
  split at h
  · cases h
  next hrefused =>
  dsimp only at h
  split at h
  · cases h
  · cases h
  all_goals
    split at h
    · cases h
    next hwalk hlast =>
    cases h
    exact ⟨hrefused, hlast, _, _, hwalk, rfl, rfl⟩

theorem written_of_write {p : Path} {bytes : List UInt8} {after : FileTree} (h : t.write p bytes = .ok after) :
    t.Written p bytes after := by
  obtain ⟨hrefused, hlast, spot, target, hwalk, hs, rfl⟩ := exists_target_of_write h
  obtain ⟨above, name, rfl, habove, hfree⟩ := exists_above_of_walk (isDirectory_origin t p) hwalk hs
  have hdirs := isDirectory_put habove name bytes
  have hne : p.text ≠ "" := by
    intro hempty
    simp [refusal?, hempty] at hrefused
  rw [Path.dropWhile_reverse_parts hne hlast] at hwalk
  have horigin : (t.put (above ++ [name]) bytes).origin p = t.origin p := rfl
  refine ⟨?_, rfl, hdirs, above ++ [name], hfree, fun q => bytesAt?_put t _ q bytes⟩
  unfold read
  simp only [hrefused, horigin, walk_put hwalk hs hdirs]

end FileTree

end Patchbay
