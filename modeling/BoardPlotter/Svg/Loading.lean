import BoardPlotter.Files.Tree
import BoardPlotter.Log.Notice
import BoardPlotter.Svg.Document

/-!
# Documents from files
-/

namespace BoardPlotter.Document

/-- Reads a document from a file, by which it is called. -/
def load (t : Tree) (path : Path) : Except DocumentError Document :=
  match t.read path.place with
  | .error e => .error (.unreadable path.text e.text)
  | .ok bytes => ofBytes path.text bytes

/-- What is said of a file that could be read. -/
def loadNotices (t : Tree) (path : Path) : List Notice :=
  match t.read path.place with
  | .error _ => []
  | .ok bytes => [.info s!"Loaded {path.text} ({bytes.length} bytes)"]

end BoardPlotter.Document
