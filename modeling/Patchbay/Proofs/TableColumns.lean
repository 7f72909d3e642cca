/-
  Patchbay.Proofs.TableColumns — the tables of a patch, cut back into their cells.

  Every line of a table ends in a cell that does not end in a blank, so trimming takes off no more
  than what fills up the last column, and the columns stand where their widths put them:
  - `widest_widths`: each width is the greatest length of a cell, the heading included.
  - `tableLine_cons`, `shows_tableLine`: one line, column by column.
  - `Shows.cellsOf_eq`: the cells of a line, read back by the positions of the columns.
  - `moduleCells_spec`, `cableCells_spec`: what the lines of a patch's modules and cables show.
  - `patchTables_align`: both tables of a patch.
-/

import Mathlib.Algebra.GroupWithZero.Nat
import Mathlib.Data.List.DropRight
import Mathlib.Data.List.Forall2
import Patchbay.Report.PatchTables
import Patchbay.Text.Lines
import Patchbay.Text.Numeral
import Patchbay.Text.Split

namespace Patchbay

/-! ## Trimming -/

namespace Text

theorem trimEnd_eq (cs : List Char) : trimEnd cs = cs.rdropWhile isBlank := rfl

theorem trimEnd_append_of_ne_nil {bs : List Char} (h : trimEnd bs ≠ []) (as : List Char) :
    trimEnd (as ++ bs) = as ++ trimEnd bs := by
  have hrest : bs.reverse.dropWhile isBlank ≠ [] := by simpa [trimEnd] using h
  rw [trimEnd, trimEnd, List.reverse_append, List.dropWhile_append,
    if_neg (by simpa using hrest), List.reverse_append, List.reverse_reverse]

end Text

theorem rdropWhile_append_replicate {p : Char → Bool} {b : Char} (hb : p b = true) (cs : List Char) (n : Nat) :
    (cs ++ List.replicate n b).rdropWhile p = cs.rdropWhile p := by
  induction n with
  | zero => rw [List.replicate_zero, List.append_nil]
  | succ n ih => rw [List.replicate_succ', ← List.append_assoc, List.rdropWhile_concat_pos _ _ _ hb, ih]

theorem rdropWhile_eq_self {p : Char → Bool} {cs : List Char} {d : Char} (hd : cs.getLast? = some d)
    (hp : p d = false) : cs.rdropWhile p = cs := by
  obtain ⟨front, rfl⟩ := List.getLast?_eq_some_iff.1 hd
  exact List.rdropWhile_concat_neg _ _ _ (by simp [hp])

namespace Report

/-! ## Widths -/

/-- Widths of columns: each is the greatest length of a cell that the column has in some row. -/
structure Widest (rows : List (List String)) (ws : List Nat) : Prop where
  length_eq : ∀ row ∈ rows, row.length = ws.length
  le : ∀ row ∈ rows, ∀ (j : Nat) (cell : String) (w : Nat), row[j]? = some cell → ws[j]? = some w → cell.length ≤ w
  attained : ∀ (j w : Nat), ws[j]? = some w → ∃ row ∈ rows, ∃ cell : String, row[j]? = some cell ∧ cell.length = w

variable {rows : List (List String)} {ws : List Nat} {row : List String}

theorem Widest.concat (h : Widest rows ws) (hrow : row.length = ws.length) :
    Widest (rows ++ [row]) (ws.zipWith max (row.map String.length)) := by
  have hlength : (ws.zipWith max (row.map String.length)).length = ws.length := by simp [hrow]
  have hwidth {j w : Nat} (hj : (ws.zipWith max (row.map String.length))[j]? = some w) :
      ∃ w' cell, ws[j]? = some w' ∧ row[j]? = some cell ∧ w = max w' cell.length := by
    rw [List.getElem?_zipWith_eq_some] at hj
    obtain ⟨w', n, hw', hn, rfl⟩ := hj
    rw [List.getElem?_map, Option.map_eq_some_iff] at hn
    obtain ⟨cell, hcell, rfl⟩ := hn
    exact ⟨w', cell, hw', hcell, rfl⟩
  constructor
  · intro r hr
    rw [hlength]
    rcases List.mem_append.1 hr with hr | hr
    · exact h.length_eq r hr
    · rw [List.mem_singleton.1 hr, hrow]
  · intro r hr j cell w hcell hw
    obtain ⟨w', newest, hw', hnewest, rfl⟩ := hwidth hw
    rcases List.mem_append.1 hr with hr | hr
    · exact Nat.le_trans (h.le r hr j cell w' hcell hw') (Nat.le_max_left _ _)
    · obtain rfl := List.mem_singleton.1 hr
      obtain rfl : cell = newest := Option.some.inj (hcell.symm.trans hnewest)
      exact Nat.le_max_right _ _
  · intro j w hw
    obtain ⟨w', newest, hw', hnewest, rfl⟩ := hwidth hw
    rcases Nat.le_total w' newest.length with hle | hle
    · exact ⟨row, List.mem_append_right _ (List.mem_singleton_self _), newest, hnewest, by omega⟩
    · obtain ⟨r, hr, cell, hcell, hlen⟩ := h.attained j w' hw'
      exact ⟨r, List.mem_append_left _ hr, cell, hcell, by omega⟩

theorem Widest.foldl (h : Widest rows ws) {more : List (List String)} (hmore : ∀ row ∈ more, row.length = ws.length) :
    Widest (rows ++ more) (more.foldl (fun ws row => ws.zipWith max (row.map String.length)) ws) := by
  induction more generalizing rows ws with
  | nil => rwa [List.append_nil]
  | cons row more ih =>
    have hrow := hmore row List.mem_cons_self
    have hstep := ih (h.concat hrow) fun r hr => by simp [hrow, hmore r (List.mem_cons_of_mem _ hr)]
    rwa [List.append_assoc, List.singleton_append] at hstep

theorem widest_widths {headings : List String} (hrows : ∀ row ∈ rows, row.length = headings.length) :
    Widest (headings :: rows) (widths headings rows) := by
  have hheadings : Widest [headings] (headings.map String.length) := by
    constructor
    · simp
    · intro row hrow j cell w hcell hw
      obtain rfl := List.mem_singleton.1 hrow
      simp_all
    · intro j w hw
      rw [List.getElem?_map, Option.map_eq_some_iff] at hw
      obtain ⟨cell, hcell, rfl⟩ := hw
      exact ⟨headings, List.mem_singleton_self _, cell, hcell, rfl⟩
  exact hheadings.foldl fun row hrow => by rw [hrows row hrow, List.length_map]

/-! ## Lines -/

def columnStart (ws : List Nat) (j : Nat) : Nat := ((ws.take j).map (· + 2)).sum

/-- A line has these cells in columns of these widths: each stands where its column starts, with
    nothing but spaces after it up to the next column, and the last ends the line. The line does not
    end in a blank. -/
structure Shows (ws : List Nat) (cells : List String) (line : List Char) : Prop where
  inner : ∀ j w cell, j + 1 < cells.length → ws[j]? = some w → cells[j]? = some cell →
    (line.drop (columnStart ws j)).take (w + 2) = cell.toList ++ List.replicate (w + 2 - cell.length) ' '
  last : ∀ j cell, j + 1 = cells.length → cells[j]? = some cell → line.drop (columnStart ws j) = cell.toList
  closed : ∃ d, line.getLast? = some d ∧ Text.isBlank d = false

def Closed (cells : List String) : Prop :=
  ∃ cell d, cells.getLast? = some cell ∧ cell.toList.getLast? = some d ∧ Text.isBlank d = false

theorem Closed.of_cons_cons {c c' : String} {cells : List String} (h : Closed (c :: c' :: cells)) :
    Closed (c' :: cells) := by
  obtain ⟨cell, d, hcell, hd⟩ := h
  rw [List.getLast?_cons_cons] at hcell
  exact ⟨cell, d, hcell, hd⟩

theorem tableLine_singleton {c : String} (h : Closed [c]) (w : Nat) : tableLine [w] [c] = c.toList := by
  obtain ⟨cell, d, hcell, hd, hblank⟩ := h
  obtain rfl : c = cell := Option.some.inj hcell
  show Text.trimEnd ([' ', ' '].intercalate [pad w c.toList]) = c.toList
  rw [List.intercalate_singleton, Text.trimEnd_eq, pad, rdropWhile_append_replicate (by decide),
    rdropWhile_eq_self hd hblank]

/-- A column and the space after it stand before the rest of a line. -/
theorem tableLine_cons {w w' : Nat} {c c' : String} {cells : List String}
    (hrest : tableLine (w' :: ws) (c' :: cells) ≠ []) : tableLine (w :: w' :: ws) (c :: c' :: cells) =
      pad w c.toList ++ [' ', ' '] ++ tableLine (w' :: ws) (c' :: cells) := by
  rw [tableLine, List.map_cons, List.map_cons, List.zipWith_cons_cons, List.zipWith_cons_cons,
    List.intercalate_cons_cons]
  exact Text.trimEnd_append_of_ne_nil hrest (pad w c.toList ++ [' ', ' '])

theorem length_pad {w : Nat} {c : String} (h : c.length ≤ w) : (pad w c.toList).length = w := by
  rw [pad, List.length_append, List.length_replicate, String.length_toList]
  omega

theorem pad_append_spaces {w : Nat} {c : String} (h : c.length ≤ w) :
    pad w c.toList ++ [' ', ' '] = c.toList ++ List.replicate (w + 2 - c.length) ' ' := by
  have hcount : w + 2 - c.length = w - c.length + 2 := by omega
  rw [pad, List.append_assoc, String.length_toList, hcount, List.replicate_add]
  rfl

theorem columnStart_succ (w : Nat) (ws : List Nat) (j : Nat) :
    columnStart (w :: ws) (j + 1) = w + 2 + columnStart ws j := by
  simp [columnStart]

/-- Cells that fit their columns are shown by their line. -/
theorem shows_tableLine {cells : List String} (hclosed : Closed cells)
    (hfit : List.Forall₂ (fun c w => c.length ≤ w) cells ws) : Shows ws cells (tableLine ws cells) := by
  induction hfit with
  | nil =>
    obtain ⟨cell, d, hcell, -⟩ := hclosed
    cases hcell
  | @cons c w cells ws hc hrest ih =>
    cases hrest with
    | nil =>
      obtain ⟨cell, d, hcell, hd, hblank⟩ := id hclosed
      obtain rfl : c = cell := Option.some.inj hcell
      rw [tableLine_singleton hclosed]
      constructor
      · intro j w' cell hj
        simp at hj
      · intro j cell hj hcell
        obtain rfl : j = 0 := by simpa using hj
        obtain rfl : c = cell := Option.some.inj hcell
        rfl
      · exact ⟨d, hd, hblank⟩
    | @cons c' w' cells ws hc' hrest =>
      obtain ⟨hinner, hlast, d, hd, hblank⟩ := ih hclosed.of_cons_cons
      have hne : tableLine (w' :: ws) (c' :: cells) ≠ [] := fun h => by rw [h] at hd; cases hd
      have hwidth : (pad w c.toList ++ [' ', ' ']).length = w + 2 := by
        rw [List.length_append, length_pad hc]
        rfl
      rw [tableLine_cons hne]
      constructor
      · intro j v cell hj hv hcell
        cases j with
        | zero =>
          obtain rfl : w = v := Option.some.inj hv
          obtain rfl : c = cell := Option.some.inj hcell
          rw [← pad_append_spaces hc]
          exact List.take_left' hwidth
        | succ j =>
          rw [columnStart_succ, ← List.drop_drop, List.drop_left' hwidth]
          exact hinner j v cell (by simpa using hj) hv hcell
      · intro j cell hj hcell
        cases j with
        | zero => simp at hj
        | succ j =>
          rw [columnStart_succ, ← List.drop_drop, List.drop_left' hwidth]
          exact hlast j cell (by simpa using hj) hcell
      · refine ⟨d, ?_, hblank⟩
        rw [List.getLast?_append, hd]
        rfl

/-! ## Reading back -/

def unpadded (cell : String) : String := String.ofList (cell.toList.rdropWhile (· == ' '))

/-- The cells of a line, cut out at the positions of the columns. -/
def cellsOf (ws : List Nat) (line : List Char) : List String :=
  (List.range ws.length).map fun j =>
    String.ofList (((line.drop (columnStart ws j)).take (ws.getD j 0)).rdropWhile (· == ' '))

/-- What is read back is what is shown, but for spaces at the ends of cells. -/
theorem Shows.cellsOf_eq {cells : List String} {line : List Char} (h : Shows ws cells line)
    (hfit : List.Forall₂ (fun c w => c.length ≤ w) cells ws) : cellsOf ws line = cells.map unpadded := by
  have hlength : cells.length = ws.length := hfit.length_eq
  refine List.ext_getElem (by simp [cellsOf, hlength]) fun j hj hj' => ?_
  have hjc : j < cells.length := by simpa using hj'
  have hjw : j < ws.length := hlength ▸ hjc
  have hc : cells[j].length ≤ ws[j] := List.forall₂_iff_get.1 hfit |>.2 j hjc hjw
  have hcell := List.getElem?_eq_getElem hjc
  have hwidth := List.getElem?_eq_getElem hjw
  have hwhole : cells[j].toList.take ws[j] = cells[j].toList :=
    List.take_of_length_le (by rwa [String.length_toList])
  have hcut : ((line.drop (columnStart ws j)).take ws[j]).rdropWhile (· == ' ') =
      cells[j].toList.rdropWhile (· == ' ') := by
    by_cases hend : j + 1 = cells.length
    · rw [h.last j _ hend hcell, hwhole]
    · have hinner := congrArg (List.take ws[j]) (h.inner j _ _ (by omega) hwidth hcell)
      rw [List.take_take, Nat.min_eq_left (Nat.le_add_right _ 2), List.take_append, hwhole,
        List.take_replicate] at hinner
      rw [hinner]
      exact rdropWhile_append_replicate rfl _ _
  have hget : ws.getD j 0 = ws[j] := by rw [List.getD_eq_getElem?_getD, hwidth, Option.getD_some]
  simp only [cellsOf, unpadded, List.getElem_map, List.getElem_range, hget, hcut]

theorem unpadded_eq_self {cell : String} {d : Char} (hd : cell.toList.getLast? = some d) (hspace : d ≠ ' ') :
    unpadded cell = cell := by
  rw [unpadded, rdropWhile_eq_self hd (by simpa using hspace), String.ofList_toList]

/-! ## Tables -/

def dashes (ws : List Nat) : List String := ws.map fun w => String.ofList (List.replicate w '-')

/-- The lines of a table: the headings, dashes, and a line for each row, in columns of these widths. -/
structure Tabulated (headings : List String) (rows : List (List String)) (ws : List Nat)
    (lines : List (List Char)) : Prop where
  widest : Widest (headings :: rows) ws
  shown : List.Forall₂ (Shows ws) (headings :: dashes ws :: rows) lines

theorem Widest.forall₂_le (h : Widest rows ws) (hrow : row ∈ rows) :
    List.Forall₂ (fun c w => c.length ≤ w) row ws := by
  refine List.forall₂_iff_get.2 ⟨h.length_eq row hrow, fun j hj hj' => ?_⟩
  exact h.le row hrow j _ _ (List.getElem?_eq_getElem hj) (List.getElem?_eq_getElem hj')

theorem forall₂_dashes (ws : List Nat) : List.Forall₂ (fun c w => c.length ≤ w) (dashes ws) ws := by
  unfold dashes
  rw [List.forall₂_map_left_iff, List.forall₂_same]
  intro w _
  simp

theorem notMem_tableLine {c : Char} (hc : c ≠ ' ') {cells : List String} (h : ∀ cell ∈ cells, c ∉ cell.toList)
    (ws : List Nat) : c ∉ tableLine ws cells := by
  have hspaces : c ∉ [' ', ' '] := by simpa using hc
  intro hmem
  have hraw := (List.rdropWhile_prefix _ _).subset hmem
  refine Text.notMem_intercalate hspaces (fun padded hpadded => ?_) hraw
  obtain ⟨j, hj, rfl⟩ := List.mem_iff_getElem.1 hpadded
  rw [List.getElem_zipWith, List.getElem_map, pad]
  simp [hc, h]

variable {headings : List String}

theorem closed_dashes (hwidest : Widest (headings :: rows) ws) (hclosed : Closed headings) : Closed (dashes ws) := by
  obtain ⟨cell, d, hcell, hd, -⟩ := hclosed
  have hlength := hwidest.length_eq headings List.mem_cons_self
  -- The last heading is not empty, so neither is its column.
  have hne : cell.length ≠ 0 := by
    intro hzero
    rw [String.length_eq_zero_iff.1 hzero] at hd
    cases hd
  rw [List.getLast?_eq_getElem?] at hcell
  obtain ⟨w, hw⟩ : ∃ w, ws[ws.length - 1]? = some w := by
    have hpos : 0 < ws.length := by
      rw [← hlength]
      exact List.length_pos_of_ne_nil fun h => by rw [h] at hcell; cases hcell
    exact ⟨_, List.getElem?_eq_getElem (by omega)⟩
  have hle := hwidest.le headings List.mem_cons_self _ cell w hcell (hlength ▸ hw)
  refine ⟨String.ofList (List.replicate w '-'), '-', ?_, ?_, by decide⟩
  · rw [dashes, List.getLast?_map, List.getLast?_eq_getElem?, hw, Option.map_some]
  · obtain ⟨n, rfl⟩ := Nat.exists_eq_succ_of_ne_zero (show w ≠ 0 by omega)
    rw [String.toList_ofList, List.getLast?_replicate, if_neg (Nat.succ_ne_zero n)]

/-- A table of rows that end in a character that is not blank. -/
theorem tabulated_table (headings : List String) (rows : List (List String))
    (hrows : ∀ row ∈ rows, row.length = headings.length) (hclosed : ∀ row ∈ headings :: rows, Closed row)
    (hplain : ∀ row ∈ headings :: rows, ∀ cell ∈ row, '\n' ∉ cell.toList) :
    ∃ lines, (table headings rows).toList = lines.flatMap (· ++ ['\n']) ∧
      (∀ l ∈ lines, '\n' ∉ l ∧ l.getLast? ≠ some '\r') ∧ Tabulated headings rows (widths headings rows) lines := by
  have hwidest := widest_widths hrows
  have hall : ∀ row ∈ headings :: dashes (widths headings rows) :: rows,
      row ∈ headings :: rows ∨ row = dashes (widths headings rows) := by
    intro row hrow
    rcases List.mem_cons.1 hrow with rfl | hrow
    · exact .inl List.mem_cons_self
    · exact (List.mem_cons.1 hrow).symm.imp_left (List.mem_cons_of_mem _)
  have hshown : ∀ row ∈ headings :: dashes (widths headings rows) :: rows,
      Shows (widths headings rows) row (tableLine (widths headings rows) row) := by
    intro row hrow
    rcases hall row hrow with hrow | rfl
    · exact shows_tableLine (hclosed row hrow) (hwidest.forall₂_le hrow)
    · exact shows_tableLine (closed_dashes hwidest (hclosed headings List.mem_cons_self)) (forall₂_dashes _)
  refine ⟨(headings :: dashes (widths headings rows) :: rows).map (tableLine (widths headings rows)), ?_, ?_,
    hwidest, ?_⟩
  · rw [List.flatMap_map]
    exact String.toList_ofList
  · intro l hl
    obtain ⟨row, hrow, rfl⟩ := List.mem_map.1 hl
    constructor
    · refine notMem_tableLine (by decide) (fun cell hcell => ?_) _
      rcases hall row hrow with hrow | rfl
      · exact hplain row hrow cell hcell
      · obtain ⟨w, -, rfl⟩ := List.mem_map.1 hcell
        simp
    · obtain ⟨d, hd, hblank⟩ := (hshown row hrow).closed
      rw [hd]
      rintro ⟨⟩
      cases hblank
  · exact List.forall₂_map_right_iff.2 (List.forall₂_same.2 hshown)

/-! ## Patches -/

structure PlainLabel (s : String) : Prop where
  feed : '\n' ∉ s.toList
  space : ' ' ∉ s.toList
  closed : ∃ d, s.toList.getLast? = some d ∧ Text.isBlank d = false

theorem plainLabel_area (a : Area) : PlainLabel a.label := by
  cases a <;> exact ⟨by decide, by decide, _, rfl, by decide⟩

theorem plainLabel_color (c : CableColor) : PlainLabel c.label := by
  cases c <;> exact ⟨by decide, by decide, _, rfl, by decide⟩

theorem plainLabel_kind (k : CableKind) : PlainLabel k.label := by
  cases k <;> exact ⟨by decide, by decide, _, rfl, by decide⟩

theorem unpadded_of_notMem {cell : String} (h : ' ' ∉ cell.toList) : unpadded cell = cell := by
  cases hd : cell.toList.getLast? with
  | none => rw [String.toList_eq_nil_iff.1 (List.getLast?_eq_none_iff.1 hd)]; rfl
  | some d => exact unpadded_eq_self hd fun hspace => h (hspace ▸ List.mem_of_getLast? hd)

theorem toList_numberList (ns : List Nat) :
    (numberList ns).toList = '[' :: [',', ' '].intercalate (ns.map fun n => (toString n).toList) ++ [']'] := by
  simp [numberList, String.toList_intercalate, Function.comp_def]

theorem notMem_numberList (ns : List Nat) : '\n' ∉ (numberList ns).toList := by
  have hnumbers : '\n' ∉ [',', ' '].intercalate (ns.map fun n => (toString n).toList) := by
    refine Text.notMem_intercalate (by decide) fun l hl => ?_
    obtain ⟨n, -, rfl⟩ := List.mem_map.1 hl
    exact Text.notMem_toString (by decide) n
  rw [toList_numberList, List.mem_append, List.mem_cons, not_or, not_or]
  exact ⟨⟨by decide, hnumbers⟩, by decide⟩

def PlainNames (p : Patch) : Prop := ∀ m ∈ p.modules, ∀ name, m.typeName = some name → '\n' ∉ name.toList

def moduleCells (p : Patch) (m : PatchModule) : List String :=
  [m.typeName.getD "?", toString m.id, toString m.typeId,
    "[" ++ ", ".intercalate ((p.paramValues m.area m.id).map toString) ++ "]", m.area.label]

/-- What the line of a cable shows: both ends, each by the name of the module there, its id and the
    jack, and color, kind and area. -/
def cableCells (p : Patch) (c : Cable) : List String :=
  let name (id : Nat) := ((p.findModule? id c.area).bind PatchModule.typeName).getD "?"
  let pin := match c.kind with
    | .inToIn => "in"
    | .outToIn => "out"
  [s!"{name c.moduleFrom}(id={c.moduleFrom}, {pin}={c.jackFrom})", "->",
    s!"{name c.moduleTo}(id={c.moduleTo}, in={c.jackTo})", c.color.label, c.kind.label, c.area.label]

theorem map_cells_moduleRows (p : Patch) : (moduleRows p).map ModuleRow.cells = p.modules.map (moduleCells p) := by
  rw [moduleRows, List.map_map]
  rfl

theorem map_cells_cableRows (p : Patch) : (cableRows p).map CableRow.cells = p.cables.map (cableCells p) := by
  have hname (area : Area) (id : Nat) :
      endName p area id = ((p.findModule? id area).bind PatchModule.typeName).getD "?" := by
    unfold endName
    cases p.findModule? id area <;> rfl
  rw [cableRows, List.map_map]
  refine List.map_congr_left fun c _ => ?_
  obtain ⟨area, kind, color, moduleFrom, jackFrom, moduleTo, jackTo⟩ := c
  cases kind <;> simp only [Function.comp_apply, CableRow.cells, cableRow, cableCells, hname]

variable {p : Patch}

theorem PlainNames.notMem_name (h : PlainNames p) {m : PatchModule} (hm : m ∈ p.modules) :
    '\n' ∉ (m.typeName.getD "?").toList := by
  cases hname : m.typeName with
  | none => decide
  | some name => exact h m hm name hname

theorem PlainNames.notMem_endName (h : PlainNames p) (area : Area) (id : Nat) :
    '\n' ∉ (((p.findModule? id area).bind PatchModule.typeName).getD "?").toList := by
  cases hm : p.findModule? id area with
  | none => decide
  | some m => exact h.notMem_name (List.mem_of_find?_eq_some hm)

theorem moduleCells_spec (h : PlainNames p) : ∀ m ∈ p.modules,
    Closed (moduleCells p m) ∧ (∀ cell ∈ moduleCells p m, '\n' ∉ cell.toList) ∧
      (moduleCells p m).map unpadded = (moduleCells p m).modifyHead unpadded := by
  intro m hm
  obtain ⟨hfeed, hspace, d, hd, hblank⟩ := plainLabel_area m.area
  have hnumber (n : Nat) : '\n' ∉ (toString n).toList := Text.notMem_toString (by decide) n
  have hunpadded (n : Nat) : unpadded (toString n) = toString n :=
    unpadded_of_notMem (Text.notMem_toString (by decide) n)
  have hlist : unpadded (numberList (p.paramValues m.area m.id)) = numberList (p.paramValues m.area m.id) := by
    refine unpadded_eq_self (d := ']') ?_ (by decide)
    rw [toList_numberList, List.getLast?_concat]
  rw [numberList] at hlist
  refine ⟨⟨m.area.label, d, rfl, hd, hblank⟩, ?_, ?_⟩
  · simp only [moduleCells, List.forall_mem_cons]
    exact ⟨h.notMem_name hm, hnumber _, hnumber _, notMem_numberList _, hfeed, List.forall_mem_nil _⟩
  · simp only [moduleCells, List.map_cons, List.map_nil, List.modifyHead_cons, hunpadded, hlist,
      unpadded_of_notMem hspace]

theorem cableCells_spec (h : PlainNames p) : ∀ c ∈ p.cables,
    Closed (cableCells p c) ∧ (∀ cell ∈ cableCells p c, '\n' ∉ cell.toList) ∧
      (cableCells p c).map unpadded = cableCells p c := by
  intro c _
  have htext (s : String) : toString s = s := rfl
  have hnumber (n : Nat) : '\n' ∉ (toString n).toList := Text.notMem_toString (by decide) n
  have hbracket (s : String) : unpadded (s ++ ")") = s ++ ")" := by
    refine unpadded_eq_self (d := ')') ?_ (by decide)
    rw [String.toList_append, List.getLast?_append]
    rfl
  have harrow : unpadded "->" = "->" := unpadded_of_notMem (by decide)
  have hcolor := plainLabel_color c.color
  have hkind := plainLabel_kind c.kind
  have harea := plainLabel_area c.area
  obtain ⟨d, hd, hblank⟩ := harea.closed
  refine ⟨⟨c.area.label, d, rfl, hd, hblank⟩, ?_, ?_⟩
  · simp only [cableCells, List.forall_mem_cons]
    refine ⟨?_, by decide, ?_, hcolor.feed, hkind.feed, harea.feed, List.forall_mem_nil _⟩
    · simp only [String.toList_append, List.mem_append, not_or, htext]
      exact ⟨⟨⟨⟨⟨⟨⟨h.notMem_endName _ _, by decide⟩, hnumber _⟩, by decide⟩, by cases c.kind <;> decide⟩, by decide⟩,
        hnumber _⟩, by decide⟩
    · simp only [String.toList_append, List.mem_append, not_or, htext]
      exact ⟨⟨⟨⟨⟨h.notMem_endName _ _, by decide⟩, hnumber _⟩, by decide⟩, hnumber _⟩, by decide⟩
  · simp only [cableCells, List.map_cons, List.map_nil, htext, hbracket, harrow, unpadded_of_notMem hcolor.space,
      unpadded_of_notMem hkind.space, unpadded_of_notMem harea.space]

theorem map_cellsOf_of_shows {lines : List (List Char)} (hshown : List.Forall₂ (Shows ws) rows lines)
    (hfit : ∀ row ∈ rows, List.Forall₂ (fun c w => c.length ≤ w) row ws) :
    lines.map (cellsOf ws) = rows.map (List.map unpadded) := by
  induction hshown with
  | nil => rfl
  | @cons row line rows lines hline _ ih =>
    rw [List.map_cons, List.map_cons, hline.cellsOf_eq (hfit row List.mem_cons_self),
      ih fun r hr => hfit r (List.mem_cons_of_mem _ hr)]

theorem Tabulated.map_cellsOf {lines : List (List Char)} (h : Tabulated headings rows ws lines) :
    (lines.drop 2).map (cellsOf ws) = rows.map (List.map unpadded) := by
  obtain ⟨hwidest, hshown⟩ := h
  have hrows : List.Forall₂ (Shows ws) rows (lines.drop 2) := by
    cases hshown with
    | cons _ hrest =>
      cases hrest with
      | cons _ hrows => exact hrows
  exact map_cellsOf_of_shows hrows fun row hrow => hwidest.forall₂_le (List.mem_cons_of_mem _ hrow)

/-- A table of rows of one kind, whose cells are read back as `readable`. -/
theorem tabulated_rows {α : Type} {headings : List String} {rs : List α} {cells readable : α → List String}
    (hheadings : Closed headings) (hplain : ∀ cell ∈ headings, '\n' ∉ cell.toList)
    (hlength : ∀ r, (cells r).length = headings.length) (hspec : ∀ r ∈ rs, Closed (cells r) ∧
      (∀ cell ∈ cells r, '\n' ∉ cell.toList) ∧ (cells r).map unpadded = readable r) :
    ∃ lines ws, (table headings (rs.map cells)).toList = lines.flatMap (· ++ ['\n']) ∧
      (∀ l ∈ lines, '\n' ∉ l ∧ l.getLast? ≠ some '\r') ∧ Tabulated headings (rs.map cells) ws lines ∧
      (lines.drop 2).map (cellsOf ws) = rs.map readable := by
  have hrows : ∀ row ∈ rs.map cells, row.length = headings.length ∧ Closed row ∧ ∀ cell ∈ row, '\n' ∉ cell.toList := by
    intro row hrow
    obtain ⟨r, hr, rfl⟩ := List.mem_map.1 hrow
    exact ⟨hlength r, (hspec r hr).1, (hspec r hr).2.1⟩
  obtain ⟨lines, htext, hlines, htable⟩ := tabulated_table headings (rs.map cells) (fun row hrow => (hrows row hrow).1)
    (List.forall_mem_cons.2 ⟨hheadings, fun row hrow => (hrows row hrow).2.1⟩)
    (List.forall_mem_cons.2 ⟨hplain, fun row hrow => (hrows row hrow).2.2⟩)
  refine ⟨lines, _, htext, hlines, htable, ?_⟩
  rw [htable.map_cellsOf, List.map_map]
  exact List.map_congr_left fun r hr => (hspec r hr).2.2

/-- If no name has a line feed in it, the text is two titled tables with a line for each module and
    cable, in order. In a table each column is as wide as its longest cell, every cell stands at the
    start of its column with only spaces after it up to the next, and no line ends in a blank. So the
    cells are read back from the lines by the positions of the columns, but for spaces at the end of a
    module's name. -/
theorem patchTables_align (h : PlainNames p) : ∃ moduleLines cableLines moduleWidths cableWidths,
    Text.lines (patchTables p).toList =
      "Modules".toList :: moduleLines ++ [] :: "Cables".toList :: cableLines ∧
    Tabulated ["Name", "ID", "Type", "Parameters", "Area"] (p.modules.map (moduleCells p)) moduleWidths moduleLines ∧
    Tabulated ["From", "", "To", "Color", "Type", "Area"] (p.cables.map (cableCells p)) cableWidths cableLines ∧
    (moduleLines.drop 2).map (cellsOf moduleWidths) = p.modules.map (fun m => (moduleCells p m).modifyHead unpadded) ∧
    (cableLines.drop 2).map (cellsOf cableWidths) = p.cables.map (cableCells p) := by
  have hmoduleHeadings : Closed ["Name", "ID", "Type", "Parameters", "Area"] :=
    ⟨"Area", 'a', rfl, by decide, by decide⟩
  have hcableHeadings : Closed ["From", "", "To", "Color", "Type", "Area"] := ⟨"Area", 'a', rfl, by decide, by decide⟩
  obtain ⟨moduleLines, moduleWidths, hmoduleText, hmodulePlain, hmodules, hmoduleCells⟩ :=
    tabulated_rows hmoduleHeadings (by decide) (fun _ => by rfl) (moduleCells_spec h)
  obtain ⟨cableLines, cableWidths, hcableText, hcablePlain, hcables, hcableCells⟩ :=
    tabulated_rows hcableHeadings (by decide) (fun _ => by rfl) (cableCells_spec h)
  refine ⟨moduleLines, cableLines, moduleWidths, cableWidths, ?_, hmodules, hcables, hmoduleCells, hcableCells⟩
  have hplain : ∀ l ∈ "Modules".toList :: moduleLines ++ [] :: "Cables".toList :: cableLines,
      '\n' ∉ l ∧ l.getLast? ≠ some '\r' := by
    intro l hl
    rw [List.cons_append, List.mem_cons, List.mem_append, List.mem_cons, List.mem_cons] at hl
    rcases hl with rfl | hl | rfl | rfl | hl
    · decide
    · exact hmodulePlain l hl
    · decide
    · decide
    · exact hcablePlain l hl
  have htext : (patchTables p).toList =
      ("Modules".toList :: moduleLines ++ [] :: "Cables".toList :: cableLines).flatMap (· ++ ['\n']) := by
    simp only [patchTables, map_cells_moduleRows, map_cells_cableRows, String.toList_append, hmoduleText, hcableText]
    simp
  rw [htext, Text.lines_flatMap hplain]

def spacedNames : Patch where
  modules := [⟨7, some "Größe  ", 1, .voice, [.audio], [.audio], [.silent], [.discard]⟩,
    ⟨9, some "in\rout", 2, .voice, [.audio], [], [.silent], []⟩, ⟨200, none, 3, .fx, [], [], [], []⟩]
  cables := [⟨.voice, .outToIn, .blue, 1, 0, 2, 0⟩]
  params := [⟨.voice, 1, 2, [64, 127]⟩]

theorem patchTables_align_spacedNames : PlainNames spacedNames ∧ ∃ moduleLines cableLines moduleWidths cableWidths,
    Text.lines (patchTables spacedNames).toList =
      "Modules".toList :: moduleLines ++ [] :: "Cables".toList :: cableLines ∧
    (moduleLines.drop 2).map (cellsOf moduleWidths) = [["Größe", "1", "7", "[64, 127]", "Voice"],
      ["in\rout", "2", "9", "[]", "Voice"], ["?", "3", "200", "[]", "FX"]] ∧
    (cableLines.drop 2).map (cellsOf cableWidths) =
      [["Größe  (id=1, out=0)", "->", "in\rout(id=2, in=0)", "blue", "out-in", "Voice"]] := by
  have hplain : PlainNames spacedNames := by
    intro m hm name hname
    simp only [spacedNames, List.mem_cons, List.not_mem_nil, or_false] at hm
    rcases hm with rfl | rfl | rfl
    · obtain rfl := Option.some.inj hname
      decide
    · obtain rfl := Option.some.inj hname
      decide
    · cases hname
  obtain ⟨moduleLines, cableLines, moduleWidths, cableWidths, hlines, -, -, hmodules, hcables⟩ :=
    patchTables_align hplain
  refine ⟨hplain, moduleLines, cableLines, moduleWidths, cableWidths, hlines, hmodules.trans ?_, hcables.trans ?_⟩
  · decide +kernel
  · decide +kernel

end Report

end Patchbay
