/-!
# Paths

A path is its parts between slashes. As a list of names it leads down from the working
directory, or from the root, whose own name is a slash; two dots lead up again. The
directories above the working directory have two dots for names.
-/

namespace BoardPlotter

/-- The names that lead to a file or directory; none lead to the working directory. -/
abbrev Place := List String

structure Path where
  parts : List String
  deriving DecidableEq, Repr

namespace Place

/-- The last name; the working directory and the root have none. -/
def name (p : Place) : String :=
  match p.getLast? with
  | none | some "/" => ""
  | some n => n

/-- The last name is that of an entry of a directory, and does not lead up. -/
def isNamed (p : Place) : Bool := p.name != "" && p.name != ".."

/-- The place without its last name; the root stays. -/
def parent (p : Place) : Place := if p = ["/"] then p else p.dropLast

/-- The places above a place, from the top. -/
def above (p : Place) : List Place := (List.range p.length).map fun n => p.take n

/-- The places above a place and the place itself. -/
def way (p : Place) : List Place := p.above ++ [p]

/-- The working directory, a directory above it, or the root. -/
def isTop (p : Place) : Bool := p.all (· == "..") || p == ["/"]

/-- The directory above a place that has no way up behind a name. -/
def up (p : Place) : Place :=
  if p == ["/"] then p else if p.isTop then p ++ [".."] else p.dropLast

/-- The place without ways up behind a name. -/
def direct (p : Place) : Place :=
  p.foldl (fun q n => if n == ".." then q.up else q ++ [n]) []

/-- The place as text. -/
def text : Place → String
  | [] => "."
  | "/" :: names => "/" ++ "/".intercalate names
  | names => "/".intercalate names

end Place

namespace Path

/-- Empty parts and single dots lead nowhere. -/
def ofString (s : String) : Path :=
  let parts := (s.toList.splitOn '/').map String.ofList
  let names := parts.filter fun part => part != "" && part != "."
  ⟨if s.toList.head? = some '/' then "/" :: names else names⟩

/-- Where the path leads. -/
def place (p : Path) : Place := p.parts

def text (p : Path) : String := p.place.text

/-- The last part, empty where there is none. -/
def name (p : Path) : String := p.place.name

end Path

end BoardPlotter
