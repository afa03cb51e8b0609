import BoardPlotter.CommandLine.Lines
import Std.Time.DateTime.Timestamp

/-!
# The command

The outer layer: it reads the files that the words name, lets the run decide,
and carries out what the run left.
-/

namespace BoardPlotter.Main

/-- What the system holds in a place; what cannot be read is not there. -/
def probe (p : Place) : IO (Option Entry) := do
  try
    return some (.file (← IO.FS.readBinFile p.text).toList)
  catch e =>
    match e with
    | .inappropriateType _ 21 _ => return some .directory
    | _ => return none

/-- The tree of some places. -/
def snapshot (places : List Place) : IO Tree := do
  let mut t := Tree.empty
  for p in places do
    if let some e ← probe p then t := t.put p e
  return t

/-- Makes a directory, or a file by way of a draft beside it. -/
def carryOut (t : Tree) (change : Place × Entry) : IO Unit := do
  match change with
  | (p, .directory) => IO.FS.createDirAll p.text
  | (p, .file content) =>
    let draft := (p.draft (t.mark p)).text
    try
      IO.FS.writeBinFile draft ⟨content.toArray⟩
      IO.FS.rename draft p.text
    catch e =>
      try IO.FS.removeFile draft catch _ => pure ()
      throw e

/-- Seconds since the start of 1970. -/
def now : IO Float := do
  return Float.ofInt (← Std.Time.Timestamp.now).toNanosecondsSinceUnixEpoch.toInt / 1000000000.0

/-- Appends the lines of a run to the console and to its file. -/
def report (a : Arguments) (r : CommandRun) : IO Unit := do
  let lines := r.lines a.format (← now)
  for line in lines do
    IO.eprintln line
  match a.logFile with
  | none | some "" => pure ()
  | some name =>
    let h ← IO.FS.Handle.mk name .append
    for line in lines do
      h.putStrLn line

end BoardPlotter.Main

open BoardPlotter Main in
def main (argv : List String) : IO UInt32 := do
  match Arguments.parse argv with
  | .refused => IO.eprint CommandRun.usage; return 2
  | .help => IO.print CommandRun.usage; return 0
  | .convert a =>
    let before ← snapshot a.places
    let r := CommandRun.ofArguments before argv
    try
      for change in r.changes before do
        carryOut before change
      report a r
    catch e =>
      IO.eprintln s!"{e}"
      return 1
    IO.print r.output
    match r.ending with
    | .exit code => return code.toUInt32
    | .broken e => IO.eprintln e.message; return 1
