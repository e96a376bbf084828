import SteppedLogo.Text.Blank
import SteppedLogo.Text.Sequence
import SteppedLogo.Text.Width

namespace SteppedLogo.Text

/-- The width of a cell on a terminal, where sequences take the room of what they show. -/
def cellWidth (s : String) : Int := displayWidth (String.ofList (shown 0 s.toList))

/-- Fills a cell up to the width of its column. -/
def padCell (width : Int) (s : String) : String :=
  s ++ String.ofList (List.replicate (width - cellWidth s).toNat ' ')

structure Table where
  headers : List String
  rows : List (List String)

namespace Table

/-- A row whose first or second cell is the divider is written as the divider alone. -/
def divider : String := "\x01"

def isDivider (cells : List String) : Bool := (cells.take 2).contains divider

def columnWidth (header : String) (cells : List String) : Int :=
  cells.foldl (fun width cell => max width (cellWidth cell)) (cellWidth header + 2)

/-- The widths of the columns, which begin at the number `index`. -/
def widthsFrom (rows : List (List String)) : (index : Nat) → List String → List Int
  | _, [] => []
  | index, header :: rest =>
    columnWidth header (rows.map fun row => row.getD index "") :: widthsFrom rows (index + 1) rest

def line (cells : List String) : String :=
  "|" ++ "|".intercalate (cells.map fun cell => " " ++ cell ++ " ") ++ "|"

def row (widths : List Int) (cells : List String) : String := line (widths.zipWith padCell cells)

def ruler (widths : List Int) : String :=
  "|" ++ "|".intercalate (widths.map fun width =>
    String.ofList (List.replicate (width + 2).toNat '-')) ++ "|"

/-- Dividers have no part in the widths of the columns. -/
def lines (t : Table) : List String :=
  let content := (t.rows.filter (!isDivider ·)).map (·.map strip)
  let widths := widthsFrom content 0 t.headers
  row widths t.headers :: ruler widths :: t.rows.map fun cells =>
    if isDivider cells then line [divider] else row widths (cells.map strip)

def render (t : Table) : String := "\n".intercalate t.lines

end Table

end SteppedLogo.Text
