import BoardPlotter.Config.Reading
import BoardPlotter.Files.Tree
import BoardPlotter.Yaml.Reader

/-!
# Configuration files

A configuration is read from a file of YAML, or is the standard one where no
file is named.
-/

namespace BoardPlotter

/-- Why there is no configuration in a file. -/
inductive ConfigFileError where
  | missing (path : String)
  | system (e : OsError)
  | undecodable
  | malformed
  | content (e : ConfigFailure Float)

/-- What is said of a file that is missing or refused; other failures are told by
their kind. -/
def ConfigFileError.message? : ConfigFileError → Option String
  | missing path => some s!"Configuration file not found: {path}"
  | content (.refused e) => some e.message
  | _ => none

/-- The text of a file in UTF-8. -/
def Tree.readText (t : Tree) (p : Place) : Except OsError (Option String) := do
  let bytes ← t.read p
  return String.fromUTF8? ⟨bytes.toArray⟩

/-- The value of a file of YAML. -/
def Tree.readYaml (t : Tree) (path : Path) : Except ConfigFileError Value :=
  if (t.entry? path.place).isNone then .error (.missing path.text)
  else
    match t.readText path.place with
    | .error e => .error (.system e)
    | .ok none => .error .undecodable
    | .ok (some text) =>
      match Yaml.read? text with
      | some v => .ok v
      | none => .error .malformed

namespace Config

/-- What the standard configuration is called in messages. -/
def standardName : String := "<default>"

/-- Loads a configuration, and tells what is said meanwhile. -/
def load (t : Tree) : Option String → List Notice × Except ConfigFileError (Config Float)
  | none =>
    ([.info s!"Loading configuration from {standardName}",
      .info "Configuration loaded successfully"], .ok standard)
  | some file =>
    let path := Path.ofString file
    match t.readYaml path with
    | .error (.missing p) => ([], .error (.missing p))
    | .error e => ([.info s!"Loading configuration from {path.text}"], .error e)
    | .ok v => (readingNotices path.text v, (ofValue path.text v).mapError .content)

end Config

end BoardPlotter
