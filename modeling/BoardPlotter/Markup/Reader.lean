import BoardPlotter.Markup.Definitions
import BoardPlotter.Markup.Element
import BoardPlotter.Markup.Encoding

/-!
# Reading documents

The tokens of a document make one tree: tags match, scopes of names are
declared, entities stand for their text. A text that is no document has no tree.
-/

namespace BoardPlotter.Markup

/-- The namespaces in force, by scope; the empty scope is the default. -/
abbrev Scopes := List (String × String)

namespace Scopes

/-- The scope of the language itself is always declared. -/
def initial : Scopes := [("xml", "xml")]

/-- The namespace of a name that has a scope. -/
def space? (scopes : Scopes) (name : RawName) : Option String :=
  match scopes.lookup name.scope with
  | some "" => none
  | s => s

/-- The scopes that an attribute declares, if it is a declaration. -/
def declared? (name : RawName) (value : String) : Option (Option (String × String)) :=
  if name.scope == "xmlns" then
    if name.local_ == "xmlns" || value == "" then none else some (some (name.local_, value))
  else if name.scope == "" && name.local_ == "xmlns" then some (some ("", value))
  else some none

end Scopes

/-- No two equal members. -/
def allDistinct {α : Type} [BEq α] : List α → Bool
  | [] => true
  | a :: as => !as.contains a && allDistinct as

/-- The attributes of a tag with their values, defaults added. -/
def attributesOf? (d : Definitions) (name : RawName) (given : List (RawName × List Piece)) :
    Option (List (RawName × String)) := do
  let rules := d.attributes.filter (·.element = name)
  let values ← given.mapM fun (key, ps) => do
    let text ← d.valueOf? ps
    let collapsed := rules.any fun a => a.attribute_ = key ∧ !a.plain
    return (key, String.ofList (if collapsed then Definitions.collapse text else text))
  let defaults := rules.filterMap fun a =>
    if values.any (·.1 = a.attribute_) then none else a.default.map (a.attribute_, ·)
  if allDistinct (values.map (·.1)) then return values ++ defaults else failure

/-- An element under construction, its children in reverse. -/
structure Frame where
  name : RawName
  scopes : Scopes
  attributes : Attributes
  children : List Element

namespace Frame

def element (f : Frame) : Element := .mk f.name.local_ f.attributes f.children.reverse

/-- The frame of a start tag. -/
def open? (d : Definitions) (scopes : Scopes) (name : RawName)
    (given : List (RawName × List Piece)) : Option Frame := do
  let attributes ← attributesOf? d name given
  let declarations ← attributes.mapM fun (key, value) => Scopes.declared? key value
  let scopes := declarations.filterMap id ++ scopes
  if name.scope != "" then let _ ← Scopes.space? scopes name
  let own := attributes.filter fun (key, _) =>
    key.scope != "xmlns" && !(key.scope == "" && key.local_ == "xmlns")
  let spaces ← own.mapM fun (key, _) =>
    if key.scope == "" then some ("", key.local_)
    else (Scopes.space? scopes key).map fun s => (s, key.local_)
  if !allDistinct spaces then failure
  let plain := own.filterMap fun (key, value) =>
    if key.scope == "" then some (key.local_, value) else none
  return ⟨name, scopes, plain, []⟩

end Frame

/-- The place of a finished element: in the innermost frame, or on the top. -/
def place (e : Element) (frames : List Frame) (roots : List Element) :
    List Frame × List Element :=
  match frames with
  | f :: fs => ({ f with children := e :: f.children } :: fs, roots)
  | [] => ([], e :: roots)

/-- The elements of tokens, inside `frames`, behind `roots` in reverse. Outside
all elements only blank text may stand, unless the tokens are a fragment. -/
def build (d : Definitions) (base : Scopes) (fragment : Bool)
    (entity : Scopes → String → Option (List Element)) :
    List Frame → List Element → List Token → Option (List Element)
  | [], roots, [] => some roots.reverse
  | _ :: _, _, [] => none
  | frames, roots, t :: ts =>
    let scopes := (frames.head?.map Frame.scopes).getD base
    let inside := fragment || !frames.isEmpty
    match t with
    | .text blank => if blank || inside then build d base fragment entity frames roots ts else none
    | .reference name => do
      if !inside then failure
      let es ← if (Definitions.named? name).isSome then some [] else entity scopes name
      let (frames, roots) := es.foldl (fun (fs, rs) e => place e fs rs) (frames, roots)
      build d base fragment entity frames roots ts
    | .startTag name given closed => do
      let f ← Frame.open? d scopes name given
      if closed then
        let (frames, roots) := place f.element frames roots
        build d base fragment entity frames roots ts
      else build d base fragment entity (f :: frames) roots ts
    | .endTag name =>
      match frames with
      | f :: fs =>
        if f.name = name then
          let (frames, roots) := place f.element fs roots
          build d base fragment entity frames roots ts
        else none
      | [] => none

/-- The elements that an entity stands for, to a depth of at most `fuel`. -/
def entityElements? (d : Definitions) : Nat → Scopes → String → Option (List Element)
  | 0, _, _ => none
  | fuel + 1, scopes, name =>
    match d.entities.lookup name with
    | some (some text) => do
      build d scopes true (entityElements? d fuel) [] [] (← Token.ofText? text)
    | _ => none

/-- What is behind comments, instructions and space. -/
def misc : Nat → List Char → Option (List Char)
  | 0, cs => some cs
  | fuel + 1, cs =>
    match dropSpace cs with
    | '<' :: '?' :: r => (instruction? r).bind (misc fuel)
    | '<' :: '!' :: '-' :: '-' :: r => (comment? r).bind (misc fuel)
    | r => some r

/-- The tree of a document whose declaration has been read. -/
def rootOf? (standalone : Bool) (cs : List Char) : Option Element := do
  let r ← misc cs.length cs
  let (d, r) ←
    match behind? "<!DOCTYPE".toList r with
    | some r => Definitions.doctype? standalone r
    | none => some (.empty, r)
  match ← build d .initial false (entityElements? d d.entities.length) [] [] (← Token.ofText? r) with
  | [root] => return root
  | _ => failure

/-- The tree of a document given as text. A mark of the byte order may precede
it, and the encoding that it declares is past. -/
def ofText? (cs : List Char) : Option Element := do
  let cs := match cs with
    | c :: r => if c.toNat = 0xfeff then r else c :: r
    | [] => []
  let (declaration, r) ← Declaration.read? (unifyLineEnds cs)
  rootOf? declaration.standalone r

/-- The tree of a document given as bytes. -/
def ofBytes (bytes : List UInt8) : Except EncodingFault Element := do
  let cs ← Encoding.textOf bytes
  match Declaration.read? (unifyLineEnds cs) with
  | some (declaration, r) =>
    match rootOf? declaration.standalone r with
    | some root => return root
    | none => throw .malformed
  | none => throw .malformed

end BoardPlotter.Markup
