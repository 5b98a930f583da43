/-!
# Glyphs

Cells hold characters.  The box-drawing characters have *arms* that reach towards some of the four
sides of the cell; two cells are connected when each has an arm towards the other.  A marker stands
where lines cross until it is replaced by a junction, which has an arm towards every side where a
neighbour reaches back.
-/

namespace Tromp

/-- The sides of a cell. -/
inductive Side where
  | north
  | east
  | south
  | west
deriving DecidableEq, Repr

namespace Side

/-- All sides. -/
def all : List Side := [north, east, south, west]

/-- The side across. -/
def opposite : Side → Side
  | north => south
  | east => west
  | south => north
  | west => east

/-- The step to the next cell on a side: rows down, columns to the right. -/
def step : Side → Int × Int
  | north => (-1, 0)
  | east => (0, 1)
  | south => (1, 0)
  | west => (0, -1)

end Side

namespace Glyph

/-- An empty cell. -/
def blank : Char := ' '

/-- A line from left to right. -/
def horizontal : Char := '─'

/-- A line from top to bottom. -/
def vertical : Char := '│'

/-- A line that climbs from left to right. -/
def rising : Char := '/'

/-- A line that falls from left to right. -/
def falling : Char := '\\'

/-- The place of a crossing. -/
def marker : Char := '+'

/-- The sides that a character reaches.  Markers and slanted lines are taken to reach all. -/
def arms (c : Char) : List Side :=
  match c with
  | '─' => [.east, .west]
  | '│' => [.north, .south]
  | '┌' => [.east, .south]
  | '┐' => [.south, .west]
  | '└' => [.north, .east]
  | '┘' => [.north, .west]
  | '├' => [.north, .east, .south]
  | '┤' => [.north, .south, .west]
  | '┬' => [.east, .south, .west]
  | '┴' => [.north, .east, .west]
  | '┼' => Side.all
  | '+' => Side.all
  | '/' => Side.all
  | '\\' => Side.all
  | _ => []

/-- Whether a character reaches a side. -/
def reaches (c : Char) (s : Side) : Bool := (arms c).contains s

/-- The junction that joins some sides.  Where there is at most one, the junction is a line through
the cell, and a full crossing where there is none. -/
def junction (north east south west : Bool) : Char :=
  match north, east, south, west with
  | true, true, true, true => '┼'
  | true, false, true, true => '┤'
  | true, true, true, false => '├'
  | true, true, false, true => '┴'
  | false, true, true, true => '┬'
  | true, false, true, false => vertical
  | false, true, false, true => horizontal
  | true, true, false, false => '└'
  | true, false, false, true => '┘'
  | false, true, true, false => '┌'
  | false, false, true, true => '┐'
  | true, false, false, false => vertical
  | false, false, true, false => vertical
  | false, true, false, false => horizontal
  | false, false, false, true => horizontal
  | false, false, false, false => '┼'

/-- What a cell shows when a character is drawn over it: a marker if it shows another already. -/
def drawnOver (glyph current : Char) : Char :=
  if current = blank ∨ current = glyph then glyph else marker

/-- The step along a line of a character, if it draws lines. -/
def direction? (c : Char) : Option (Int × Int) :=
  if c = horizontal then some (0, 1)
  else if c = vertical then some (1, 0)
  else if c = falling then some (1, 1)
  else if c = rising then some (1, -1)
  else none

end Glyph

end Tromp
