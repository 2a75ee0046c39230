/-!
A screen of character cells, built from panes. A pane has a border with a title, and rows inside that
are cut to its width and filled up with blanks. Panes are put together side by side or one above the
other.
-/

namespace OneBus

inductive Colour
  | cyan | green | blue | magenta | yellow | red | white | darkGray
  deriving DecidableEq

structure Style where
  colour : Option Colour := none
  bold : Bool := false
  deriving DecidableEq

structure Cell where
  char : Char := ' '
  style : Style := {}
  deriving DecidableEq

abbrev Strip := List Cell

/-- rows of one width, top first -/
abbrev Screen := List Strip

def Style.of (colour : Colour) : Style := { colour := some colour }

def styled (style : Style) (text : String) : Strip := text.toList.map fun char => { char, style }

def plain (text : String) : Strip := styled {} text

/-- cells cut or filled up to a width; the filling has the style of the row -/
def Strip.fit (strip : Strip) (width : Nat) (style : Style := {}) : Strip :=
  strip.take width ++ List.replicate (width - strip.length) ⟨' ', style⟩

/-- a row in one style up to the border of its pane -/
structure Row where
  cells : Strip
  style : Style := {}

def Row.of (style : Style) (text : String) : Row := ⟨styled style text, style⟩

structure Pane where
  title : String
  border : Style := {}
  /-- for all cells that have no colour of their own -/
  base : Style := {}
  rows : List Row := []

namespace Pane

def line (style : Style) (width : Nat) : Strip := styled style (String.ofList (.replicate width '─'))

/-- for a width and a height of at least 2 -/
def render (p : Pane) (width height : Nat) : Screen :=
  let inner := width - 2
  let edge (s : String) := styled p.border s
  let top := edge "┌" ++ (edge p.title ++ line p.border inner).take inner ++ edge "┐"
  let bottom := edge "└" ++ line p.border inner ++ edge "┘"
  let wanted := p.rows.take (height - 2) ++ List.replicate (height - 2 - p.rows.length) ⟨[], {}⟩
  let middle := wanted.map fun row => edge "│" ++ row.cells.fit inner row.style ++ edge "│"
  let patch (c : Cell) : Cell := if c.style = {} then { c with style := p.base } else c
  (top :: middle ++ [bottom]).map (·.map patch)

end Pane

namespace Screen

def beside (left right : Screen) : Screen := List.zipWith (· ++ ·) left right

def above (panes : List Screen) : Screen := panes.flatten

def texts (s : Screen) : List String := s.map fun strip => String.ofList (strip.map Cell.char)

/-- neighbouring cells of one style -/
structure Run where
  row : Nat
  column : Nat
  width : Nat
  style : Style
  deriving DecidableEq

def addCell (row : Nat) (runs : List Run) (cell : Style × Nat) : List Run :=
  match runs with
  | run :: rest =>
    if run.style = cell.1 then { run with width := run.width + 1 } :: rest
    else ⟨row, cell.2, 1, cell.1⟩ :: run :: rest
  | [] => [⟨row, cell.2, 1, cell.1⟩]

/-- the runs of a row from left to right, those without a style left out -/
def stripRuns (strip : Strip) (row : Nat) : List Run :=
  let runs := (strip.map Cell.style).zipIdx.foldl (addCell row) []
  runs.reverse.filter (·.style ≠ {})

def runs (s : Screen) : List Run := s.zipIdx.flatMap fun (strip, row) => stripRuns strip row

end Screen
end OneBus
