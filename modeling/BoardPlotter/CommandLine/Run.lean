import BoardPlotter.CommandLine.Arguments
import BoardPlotter.Config.Loading
import BoardPlotter.Conversion
import BoardPlotter.Files.Charset
import BoardPlotter.Svg.Loading

/-!
# Runs of the command

A run sets up the log, loads the configuration, converts the drawing, and saves
or prints the program; a dry run prints a summary instead. It changes a file
tree, and leaves what it printed, what it logged, and how it ended.
-/

namespace BoardPlotter

/-- A failure that is not reported but ends the run where it stands. -/
inductive Trouble where
  | system (e : OsError)
  | undecodable
  | malformed
  | config (e : ConfigFailure Float)
  | document (e : DocumentError)
  | conversion (e : ConversionError Float)
  | tool (e : ToolError Float)

inductive Ending where
  | exit (code : Nat)
  | broken (t : Trouble)

/-- What is left of a run. Records carry the context they were logged in. -/
structure CommandRun where
  tree : Tree
  output : String
  records : List (Notice × Context)
  ending : Ending

namespace CommandRun

def usage : String :=
  "usage: board-plotter [-h] [--config CONFIG] [--log-level \x7bDEBUG,INFO,WARNING,ERROR\x7d]\n" ++
    "                     [--log-file LOG_FILE] [--json-logs] [--dry-run] svg [out]\n"

/-- Notices as records in some context. -/
def within (c : Context) (ns : List Notice) : List (Notice × Context) := ns.map (·, c)

def refused (t : Tree) : CommandRun := ⟨t, "", [], .exit 2⟩

/-- A run that ends with an error of its own. -/
def failed (t : Tree) (records : List (Notice × Context)) (message : String) : CommandRun :=
  ⟨t, "", records ++ [(.error message, [])], .exit 1⟩

def broken (t : Tree) (records : List (Notice × Context)) (e : Trouble) : CommandRun :=
  ⟨t, "", records, .broken e⟩

/-- What a dry run prints. -/
def summary (r : Conversion Float) : String :=
  let v := r.placement.viewport
  let filled := (r.polylines.filter (·.fill)).length
  s!"Viewport:    {Double.fixed 3 v.width} x {Double.fixed 3 v.height}\n" ++
    s!"Tolerance:   {Double.general 4 r.placement.tolerance} (viewport units)\n" ++
    s!"Primitives:  {r.polylines.length} ({filled} filled)\n" ++
    s!"Fill passes: {r.passes.length}\n" ++
    s!"Operations:  {r.operations.length}\n"

/-- Converts the drawing, and goes on with the conversion. `before` was logged
already, and the context holds for what is logged meanwhile. -/
def convert (t : Tree) (c : Config Float) (a : Arguments) (context : Context)
    (before : List (Notice × Context))
    (next : Conversion Float → List (Notice × Context) → CommandRun) : CommandRun :=
  let path := Path.ofString a.svg
  let records := before ++ within context (Document.loadNotices t path)
  match Document.load t path with
  | .error .encoding => broken t records (.document .encoding)
  | .error e => failed t records e.message
  | .ok doc =>
    let records := records ++ within context (Conversion.notices c doc)
    match Conversion.ofDocument c doc with
    | .error e => broken t records (.conversion e)
    | .ok r => next r records

def dryRun (t : Tree) (c : Config Float) (a : Arguments) (before : List (Notice × Context)) :
    CommandRun :=
  convert t c a [] before fun r records => ⟨t, summary r, records, .exit 0⟩

/-- Saves the program, or prints it where no file is named. -/
def deliver (t : Tree) (context : Context) (out : Option String)
    (records : List (Notice × Context)) (program : String) : CommandRun :=
  match out with
  | none => ⟨t, program, records, .exit 0⟩
  | some out =>
    match t.saveText (Path.ofString out).place "utf-8" program with
    | (t, none) => ⟨t, "", records ++ [(.info s!"Wrote {out}", context)], .exit 0⟩
    | (t, some (.system e)) => failed t records s!"Cannot write {out}: {e.text}"
    | (t, some (.charset _)) => broken t records .undecodable

def fullRun (t : Tree) (c : Config Float) (a : Arguments) (before : List (Notice × Context)) :
    CommandRun :=
  let context : Context := Context.push [] [("svg", .text (Path.ofString a.svg).name)]
  convert t c a context before fun r records =>
    let records := records ++ within context (r.programNotices c.tool)
    match r.program c.tool with
    | .error e => broken t records (.tool e)
    | .ok program => deliver t context a.out records program

/-- Loads the configuration and runs with it. -/
def configured (t : Tree) (a : Arguments) : CommandRun :=
  let (notices, config) := Config.load t a.config
  let records := within [] notices
  match config with
  | .ok c => if a.dryRun then dryRun t c a records else fullRun t c a records
  | .error e =>
    match e, e.message? with
    | _, some message => failed t records s!"Error loading config: {message}"
    | .system e, none => broken t records (.system e)
    | .content e, none => broken t records (.config e)
    | .undecodable, none => broken t records .undecodable
    | .malformed, none | .missing _, none => broken t records .malformed

/-- Drops records below a severity. -/
def atLeast (s : Severity) (r : CommandRun) : CommandRun :=
  { r with records := r.records.filter fun x => s.level ≤ x.1.severity.level }

/-- A run with these words over a tree. -/
def ofArguments (t : Tree) (argv : List String) : CommandRun :=
  match Arguments.parse argv with
  | .refused => refused t
  | .help => ⟨t, usage, [], .exit 0⟩
  | .convert a =>
    match Logging.initial.setUp t a.logRequest with
    | (_, t, .error (.system e)) => broken t [] (.system e)
    | (_, t, .error _) => refused t
    | (_, t, .ok _) => (configured t a).atLeast a.level

end CommandRun

end BoardPlotter
