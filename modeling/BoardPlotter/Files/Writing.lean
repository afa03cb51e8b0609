import BoardPlotter.Files.Tree

/-!
# Whole or not at all

A file is written under another name beside its place and then moved there, so
that whoever looks sees the old content or all of the new one. When a step
fails, what was written under the other name is taken away.
-/

namespace BoardPlotter

/-- The steps of a write, each of which may fail. -/
inductive WriteStep where
  | write
  | flush
  | sync
  | close
  | rename
  deriving DecidableEq, Repr

namespace WriteStep

def all : List WriteStep := [write, flush, sync, close, rename]

/-- What a step does to the tree: `draft` is the other name. -/
def apply (draft p : Place) (content : Bytes) (t : Tree) : WriteStep → Except OsError Tree
  | write => .ok (t.put draft (.file content))
  | flush | sync | close => .ok t
  | rename => t.rename draft p

/-- Takes steps up to the first that fails, by itself or for an outer cause. -/
def run (faults : WriteStep → Option OsCause) (draft p : Place) (content : Bytes) (t : Tree) :
    List WriteStep → Tree × Option OsError
  | [] => (t, none)
  | s :: steps =>
    match faults s with
    | some cause => (t, some { cause, place := draft })
    | none =>
      match s.apply draft p content t with
      | .error e => (t, some e)
      | .ok t => run faults draft p content t steps

end WriteStep

/-- The other name of a place: in its directory, hidden, and told apart by a mark. -/
def Place.draft (p : Place) (mark : String) : Place :=
  p.parent.direct ++ [s!".{p.name}.{mark}.tmp"]

namespace Tree

/-- Writes a file whole or not at all. Directories that were made for it stay. -/
def write (faults : WriteStep → Option OsCause) (mark : String) (t : Tree) (p : Place)
    (content : Bytes) : Tree × Option OsError :=
  match t.ensure p.parent with
  | (t, some e) => (t, some e)
  | (t, none) =>
    let draft := p.draft mark
    match WriteStep.run faults draft p content (t.put draft (.file [])) WriteStep.all with
    | (t, some e) => (t.remove draft, some e)
    | (t, none) => (t, none)

/-- A mark under which there is nothing: the first of enough numbers. -/
def mark (t : Tree) (p : Place) : String :=
  let marks := (List.range (t.entries.length + 1)).map toString
  (marks.find? fun m => (t.get? (p.draft m)).isNone).getD ""

/-- Writes a file under a mark of its own, where no step fails for an outer cause. -/
def save (t : Tree) (p : Place) (content : Bytes) : Tree × Option OsError :=
  t.write (fun _ => none) ((t.ensure p.parent).1.mark p) p content

end Tree

end BoardPlotter
