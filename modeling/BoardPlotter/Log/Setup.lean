import BoardPlotter.Files.Tree
import BoardPlotter.Log.Line

/-!
# Setting up the log

Records of at least some level go to handlers: the console, and a file if one is
asked for. Setting up replaces the handlers of the set-up before and keeps those
from before the first. The file is opened after the level is set and the handlers
are gone, and a file that cannot be opened leaves it at that. The fields of the
context come last.
-/

namespace BoardPlotter

inductive Handler where
  | console (format : LineFormat)
  | file (format : LineFormat) (place : Place)
  deriving DecidableEq, Repr

def Handler.format : Handler → LineFormat
  | console f | file f _ => f

/-- A log; it is configured once a set-up has returned. -/
structure Logging where
  level : Int
  handlers : List Handler
  context : Context
  configured : Bool

/-- What the log is asked to be. -/
structure LogRequest where
  level : String := "INFO"
  file : Option String := none
  json : Bool := false
  context : Value := .null

inductive LogError where
  | level (name : String)
  | system (e : OsError)
  | fields (kind : String)
  deriving DecidableEq, Repr

/-- The text of an error; fields that are no map are told by their kind. -/
def LogError.message : LogError → String
  | level name => s!"Unknown log level: {name}"
  | system e => e.text
  | fields _ => ""

namespace LogRequest

def format (r : LogRequest) : LineFormat := if r.json then .json else .human

/-- The fields that are asked for; null and what is empty asks for none. -/
def fields (r : LogRequest) : Except LogError Fields :=
  match r.context with
  | .map fields => .ok fields
  | v => if v.isPresent then .error (.fields v.kind) else .ok []

end LogRequest

namespace Logging

/-- A log that was not set up yet. -/
def initial : Logging := ⟨Severity.warning.level, [], [], false⟩

def levels : List (String × Int) :=
  Severity.all.map (fun s => (s.text, s.level)) ++
    [("FATAL", Severity.critical.level), ("WARN", Severity.warning.level), ("NOTSET", 0)]

/-- The capital of a letter of a level's name. The dotless i and the long s have
capitals in ASCII. -/
def capital (c : Char) : Char :=
  if c == 'ı' then 'I' else if c == 'ſ' then 'S' else c.toUpper

def levelOf? (name : String) : Option Int := levels.lookup (String.ofList (name.toList.map capital))

/-- Opens the file that is asked for; an empty name asks for none. -/
def openFile (t : Tree) (format : LineFormat) (file : Option String) :
    Tree × Except OsError (List Handler) :=
  match file with
  | none | some "" => (t, .ok [])
  | some name =>
    let p := (Path.ofString name).place
    match t.openToAppend p with
    | (t, some e) => (t, .error e)
    | (t, none) => (t, .ok [.file format p.direct])

/-- The handlers that a new set-up does not replace. -/
def kept (s : Logging) : List Handler := if s.configured then [] else s.handlers

/-- Sets the log up and gives the handlers that were made. -/
def setUp (s : Logging) (t : Tree) (r : LogRequest) :
    Logging × Tree × Except LogError (List Handler) :=
  match levelOf? r.level with
  | none => (s, t, .error (.level r.level))
  | some level =>
    let s := { s with level, handlers := s.kept }
    match openFile t r.format r.file with
    | (t, .error e) => (s, t, .error (.system e))
    | (t, .ok files) =>
      let made := .console r.format :: files
      let s := { s with handlers := s.handlers ++ made }
      match r.fields with
      | .error e => (s, t, .error e)
      | .ok fields => ({ s with context := s.context.push fields, configured := true }, t, .ok made)

end Logging

end BoardPlotter
