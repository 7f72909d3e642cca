/-
  Patchbay.Report.Table — texts in columns.

  A column is as wide as its longest cell, counted in characters. Cells are filled up with
  spaces to the width of their column and set two spaces apart; no line ends in a blank. A
  line of dashes stands under the headings.
-/

import Patchbay.Text.Blank

namespace Patchbay.Report

/-- The width of each column, from the headings on. -/
def widths (headings : List String) (rows : List (List String)) : List Nat :=
  rows.foldl (fun ws row => ws.zipWith max (row.map String.length)) (headings.map String.length)

def pad (width : Nat) (cell : List Char) : List Char := cell ++ List.replicate (width - cell.length) ' '

def tableLine (ws : List Nat) (cells : List String) : List Char :=
  Text.trimEnd ([' ', ' '].intercalate (List.zipWith pad ws (cells.map String.toList)))

def table (headings : List String) (rows : List (List String)) : String :=
  let ws := widths headings rows
  let dashes := ws.map fun w => String.ofList (List.replicate w '-')
  String.ofList ((headings :: dashes :: rows).flatMap fun cells => tableLine ws cells ++ ['\n'])

end Patchbay.Report
