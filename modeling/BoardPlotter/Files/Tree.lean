import BoardPlotter.Files.Path
import BoardPlotter.Text.Quoted

/-!
# File trees

The files and directories that can be reached from a working directory. It is always
there, and so are the directories above it and the root. A way up behind a name leads
nowhere unless that name is a directory.
-/

namespace BoardPlotter

abbrev Bytes := List UInt8

inductive Entry where
  | file (content : Bytes)
  | directory
  deriving DecidableEq, Repr

/-- Why the system refuses. -/
inductive OsCause where
  | missing
  | busy
  | taken
  | notDirectory
  | isDirectory
  | failed
  deriving DecidableEq, Repr

/-- A refusal, where it happened, and for a rename what it should have become. -/
structure OsError where
  cause : OsCause
  place : Place
  onto : Option Place := none
  deriving DecidableEq, Repr

namespace OsCause

def code : OsCause → Nat
  | missing => 2
  | failed => 5
  | busy => 16
  | taken => 17
  | notDirectory => 20
  | isDirectory => 21

def text : OsCause → String
  | missing => "No such file or directory"
  | failed => "Input/output error"
  | busy => "Device or resource busy"
  | taken => "File exists"
  | notDirectory => "Not a directory"
  | isDirectory => "Is a directory"

end OsCause

def OsError.text (e : OsError) : String :=
  s!"[Errno {e.cause.code}] {e.cause.text}: {Text.quoted e.place.text}" ++ match e.onto with
    | some p => s!" -> {Text.quoted p.text}"
    | none => ""

structure Tree where
  entries : List (Place × Entry)
  deriving DecidableEq, Repr

namespace Tree

def empty : Tree := ⟨[]⟩

/-- What is in a place that has no way up behind a name. -/
def get? (t : Tree) (p : Place) : Option Entry :=
  if p.isTop then some .directory else t.entries.lookup p

def remove (t : Tree) (p : Place) : Tree := ⟨t.entries.filter (·.1 != p)⟩

/-- Puts a file or directory in a place, whatever is there. -/
def put (t : Tree) (p : Place) (e : Entry) : Tree := ⟨(p, e) :: (t.remove p).entries⟩

/-- The place leads to a file. -/
def isFile (t : Tree) (p : Place) : Bool :=
  match t.get? p.direct with
  | some (.file _) => true
  | _ => false

/-- Why a place cannot be entered: it is a file, or missing. -/
def closed? (t : Tree) (p : Place) : Option OsCause :=
  match t.get? p.direct with
  | some .directory => none
  | some (.file _) => some .notDirectory
  | none => some .missing

/-- Why a place cannot be looked at: the first above it that cannot be entered. -/
def obstacle? (t : Tree) (p : Place) : Option OsCause := p.above.findSome? t.closed?

/-- What a place leads to. -/
def entry? (t : Tree) (p : Place) : Option Entry :=
  if (t.obstacle? p).isSome then none else t.get? p.direct

/-- The content of a file. -/
def read (t : Tree) (p : Place) : Except OsError Bytes :=
  match t.obstacle? p, t.get? p.direct with
  | some cause, _ => .error { cause, place := p }
  | none, some (.file content) => .ok content
  | none, some .directory => .error { cause := .isDirectory, place := p }
  | none, none => .error { cause := .missing, place := p }

/-- Makes the directories that are missing, from the top, up to the first place that is
taken by a file. -/
def makeDirectories (t : Tree) : List Place → Tree × Option OsError
  | [] => (t, none)
  | p :: ps =>
    match t.get? p.direct with
    | some .directory => t.makeDirectories ps
    | some (.file _) => (t, some { cause := .taken, place := p })
    | none => (t.put p.direct .directory).makeDirectories ps

/-- Makes a directory and those above it, as far as they are missing. What was made before
a failure stays. -/
def ensure (t : Tree) (p : Place) : Tree × Option OsError :=
  if t.obstacle? p = some .notDirectory then (t, some { cause := .notDirectory, place := p })
  else t.makeDirectories p.way

/-- The tree with a directory, where nothing is in the way of it. -/
def ensureDirectory (t : Tree) (p : Place) : Except OsError Tree :=
  match t.ensure p with
  | (t, none) => .ok t
  | (_, some e) => .error e

/-- Opens a file to append to it: one that is missing is made, with its directory. -/
def openToAppend (t : Tree) (p : Place) : Tree × Option OsError :=
  match t.ensure p.parent with
  | (t, some e) => (t, some e)
  | (t, none) =>
    match t.get? p.direct with
    | some .directory => (t, some { cause := .isDirectory, place := p })
    | some (.file _) => (t, none)
    | none => (t.put p.direct (.file []), none)

/-- Moves a file to a place where there is a file or nothing. -/
def rename (t : Tree) (draft p : Place) : Except OsError Tree :=
  let refused (cause : OsCause) : Except OsError Tree :=
    .error { cause, place := draft, onto := some p }
  match t.obstacle? p with
  | some cause => refused cause
  | none =>
    if !p.isNamed then refused .busy
    else
      match t.get? draft, t.get? p.direct with
      | none, _ => refused .missing
      | some _, some .directory => refused .isDirectory
      | some e, _ => .ok ((t.remove draft).put p.direct e)

end Tree

end BoardPlotter
