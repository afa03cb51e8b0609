import BoardPlotter.CommandLine.Run

/-!
# Lines of a run

What a run logged, as lines, and which places its words name.
-/

namespace BoardPlotter

namespace Arguments

/-- The places that a run may look at. -/
def places (a : Arguments) : List Place :=
  let files := a.svg :: (a.config.toList ++ a.out.toList ++ a.logFile.toList)
  let own := files.flatMap fun f => (Path.ofString f).place.way
  ((own.map Place.direct).filter (!·.isTop)).eraseDups

def format (a : Arguments) : LineFormat := if a.json then .json else .human

end Arguments

namespace Trouble

def message : Trouble → String
  | system e => e.text
  | undecodable => "text is not UTF-8"
  | malformed => "malformed configuration file"
  | config (.refused e) => e.message
  | config (.fault _) => "a number of the configuration is out of reach"
  | config .unmapped => "limits of curves are no map"
  | document .encoding => "unknown encoding"
  | document e => e.message
  | conversion (.board e) => e.message
  | conversion (.curve e) => e.message
  | conversion (.hatch e) => e.message
  | conversion (.fault _) => "a number of the drawing is out of reach"
  | tool e => e.message

end Trouble

namespace CommandRun

/-- The lines of the records, all of one time. -/
def lines (r : CommandRun) (format : LineFormat) (seconds : Float) : List String :=
  r.records.filterMap fun (n, context) =>
    (Record.line format context
      ⟨seconds, n.severity.level, "board-plotter", n.text, [], none⟩).toOption

/-- The directories and files that differ from an earlier tree, directories first
and from the top. -/
def changes (r : CommandRun) (before : Tree) : List (Place × Entry) :=
  let new := r.tree.entries.filter fun x => before.get? x.1 != some x.2
  let isDirectory (x : Place × Entry) : Bool := x.2 == .directory
  (new.filter isDirectory).mergeSort (fun a b => a.1.length ≤ b.1.length) ++
    new.filter fun x => !isDirectory x

end CommandRun

end BoardPlotter
