import ChipReplay.Text.Blank
/-!
# Tables

A table is a heading and rows of cells. Every cell has a space on either side and every column
is as wide as its widest cell; nothing stands between columns, and lines do not end in blanks.
-/

namespace ChipReplay.CommandLine

/-- A table of text. -/
structure Table where
  heading : List String
  rows : List (List String)

namespace Table

/-- The greater width, column by column. -/
def widen : List Nat → List Nat → List Nat
  | m :: ms, n :: ns => max m n :: widen ms ns
  | [], ns => ns
  | ms, [] => ms

/-- The width of every column. -/
def widths (t : Table) : List Nat :=
  (t.heading :: t.rows).foldl (fun ws row => widen ws (row.map String.length)) []

/-- `cell` with blanks behind it up to `width`, and a space on either side. -/
def padCell (width : Nat) (cell : String) : String :=
  " " ++ cell ++ "".pushn ' ' (width - cell.length) ++ " "

/-- `line` without blanks at its end. -/
def trimEnd (line : String) : String :=
  String.ofList (line.toList.reverse.dropWhile Text.isBlank).reverse

/-- A row as a line. -/
def line (widths : List Nat) (row : List String) : String :=
  trimEnd (String.join (List.zipWith padCell widths row))

/-- The table's lines. -/
def lines (t : Table) : List String :=
  (t.heading :: t.rows).map (line t.widths)

end Table
end ChipReplay.CommandLine
