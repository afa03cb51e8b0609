import BoardPlotter.Markup.Reader
import BoardPlotter.Text.Blank

/-!
# Drawings as documents

A document has a root `svg` element. Its elements are visited in document order,
leaving out the subtrees of containers that are not rendered.
-/

namespace BoardPlotter

/-- A document and what it is called in messages. -/
structure Document where
  root : Element
  source : String

/-- Why there is no document. -/
inductive DocumentError where
  | unreadable (path reason : String)
  | empty (source : String)
  | malformed (source : String)
  | root (source name : String)
  | encoding
  deriving DecidableEq, Repr

def DocumentError.message : DocumentError → String
  | unreadable path reason => s!"Cannot read {path}: {reason}"
  | empty source => s!"{source}: empty document"
  | malformed source => s!"{source}: malformed XML"
  | root source name => s!"{source}: root element is <{name}>, expected <svg>"
  | encoding => ""

namespace Document

def ofRoot (source : String) (root : Element) : Except DocumentError Document :=
  if root.name = "svg" then .ok ⟨root, source⟩ else .error (.root source root.name)

def ofText (source : String) (text : String) : Except DocumentError Document :=
  if Text.allBlank text.toList then .error (.empty source)
  else
    match Markup.ofText? text.toList with
    | some root => ofRoot source root
    | none => .error (.malformed source)

/-- Blank bytes are the white space of ASCII. -/
def isBlankByte (b : UInt8) : Bool := b == 32 || (9 ≤ b && b < 14)

def ofBytes (source : String) (bytes : List UInt8) : Except DocumentError Document :=
  if bytes.all isBlankByte then .error (.empty source)
  else
    match Markup.ofBytes bytes with
    | .ok root => ofRoot source root
    | .error .malformed => .error (.malformed source)
    | .error .unknown => .error .encoding

end Document

namespace Element

/-- Containers that are not rendered. -/
def isHidden (name : String) : Bool :=
  ["defs", "clipPath", "mask", "symbol", "marker", "pattern", "title", "desc", "metadata",
    "style", "script"].contains name

/-- Elements whose transform holds for their children. -/
def isGroup (name : String) : Bool := ["svg", "g", "a", "switch"].contains name

mutual

/-- The elements in document order with their depths. -/
def visits (depth : Nat) : Element → List (Element × Nat)
  | .mk name attributes children =>
    if name = "" ∨ isHidden name then []
    else (.mk name attributes children, depth) :: visitsOf (depth + 1) children

def visitsOf (depth : Nat) : List Element → List (Element × Nat)
  | [] => []
  | e :: es => visits depth e ++ visitsOf depth es

end

/-- Does the element bound a region to be filled? -/
def isFilled (e : Element) : Bool :=
  (e.get? "fill").any fun fill =>
    (String.ofList (Text.trim fill.toList)).toLower != "none"

end Element

end BoardPlotter
