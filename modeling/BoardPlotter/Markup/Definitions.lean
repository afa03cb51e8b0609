import BoardPlotter.Markup.Token

/-!
# Document type definitions

The part of a definition that the document itself holds: texts of entities and
rules for attributes. What stands outside the document is not read.
-/

namespace BoardPlotter.Markup

/-- What is declared of an attribute. The spaces of a value that is no plain
text are collapsed. -/
structure AttributeRule where
  element : RawName
  attribute_ : RawName
  plain : Bool
  default : Option String
  deriving DecidableEq, Repr

/-- An entity has its text here, or none if it stands outside. `isPartial` tells
that some declarations may not have been read. -/
structure Definitions where
  entities : List (String × Option (List Char))
  attributes : List AttributeRule
  isPartial : Bool
  deriving DecidableEq, Repr

namespace Definitions

def empty : Definitions := ⟨[], [], false⟩

/-- Characters with names of their own. -/
def named? : String → Option Char
  | "lt" => some '<'
  | "gt" => some '>'
  | "amp" => some '&'
  | "quot" => some '"'
  | "apos" => some '\''
  | _ => none

/-- The text of a quoted value, entities expanded to a depth of at most `fuel`. -/
def expand? (d : Definitions) : Nat → List Piece → Option (List Char)
  | _, [] => some []
  | fuel, .char c :: ps => (d.expand? fuel ps).map (c :: ·)
  | fuel, .reference entity :: ps => do
    let rest ← d.expand? fuel ps
    match named? entity with
    | some c => return c :: rest
    | none =>
      match fuel, d.entities.lookup entity with
      | fuel + 1, some (some text) =>
        return (← d.expand? fuel (← pieces? text.length text)) ++ rest
      | _, none => if d.isPartial then return rest else none
      | _, _ => none
termination_by fuel ps => (fuel, ps.length)

/-- The text of a quoted value; no chain of entities is longer than their number. -/
def valueOf? (d : Definitions) (ps : List Piece) : Option (List Char) :=
  d.expand? d.entities.length ps

/-- Single spaces, and none at the ends. -/
def collapse (cs : List Char) : List Char :=
  let words := (String.ofList cs).splitOn " "
  (" ".intercalate (words.filter (· != ""))).toList

/-- The text of an entity as declared: referenced characters are resolved, and
references to entities stay. -/
def entityText? : Nat → List Char → Option (List Char)
  | _, [] => some []
  | 0, _ => none
  | fuel + 1, '&' :: r => do
    let (p, rest) ← reference? r
    let later ← entityText? fuel rest
    match p with
    | .char c => return c :: later
    | .reference entity => return '&' :: entity.toList ++ ';' :: later
  | fuel + 1, c :: r => if c == '%' || !isAllowed c then none else (entityText? fuel r).map (c :: ·)

def isPublic (c : Char) : Bool :=
  c.isAlphanum || " \n-'()+,./:=?;!*#@$_%".toList.contains c

/-- A quoted identifier of something outside the document. -/
def external? (cs : List Char) : Option (List Char) :=
  match behind? "SYSTEM".toList cs with
  | some r => do
    let (id, r) ← quoted? (← space? r)
    if id.all isAllowed then return r else failure
  | none => do
    let r ← behind? "PUBLIC".toList cs
    let (id, r) ← quoted? (← space? r)
    if !id.all isPublic then failure
    let (id, r) ← quoted? (← space? r)
    if id.all isAllowed then return r else failure

/-- The end of a declaration. -/
def ended? (cs : List Char) : Option (List Char) := behind? ['>'] (dropSpace cs)

def entity? (d : Definitions) (cs : List Char) : Option (Definitions × List Char) := do
  let r ← space? cs
  let (parameter, r) :=
    match (behind? ['%'] r).bind space? with
    | some r => (true, r)
    | none => (false, r)
  let (name, r) ← name? r
  let r ← space? r
  let (text, r) ←
    match quoted? r with
    | some (value, r) => (entityText? value.length value).map fun t => (some t, r)
    | none => do
      let r ← external? r
      match (space? r).bind (behind? "NDATA".toList) with
      | none => pure (none, r)
      | some r => do
        if parameter then failure
        let (_, r) ← name? (← space? r)
        pure (none, r)
  let rest ← ended? r
  let known := parameter || (d.entities.lookup name).isSome
  return (if known then d else { d with entities := d.entities ++ [(name, text)] }, rest)

/-- An attribute type, true for plain text. -/
def attributeType? (cs : List Char) : Option (Bool × List Char) :=
  let group := fun (cs : List Char) =>
    match cs with
    | '(' :: r =>
      let body := r.takeWhile (· != ')')
      if body.all fun c => isNameChar c || isSpace c || c == '|' || c == ':' then
        behind? [')'] (r.dropWhile (· != ')'))
      else none
    | _ => none
  match behind? "CDATA".toList cs with
  | some r => some (true, r)
  | none =>
    match (behind? "NOTATION".toList cs).bind space? with
    | some r => (group r).map (false, ·)
    | none =>
      let words := ["IDREFS", "IDREF", "ID", "ENTITIES", "ENTITY", "NMTOKENS", "NMTOKEN"]
      match words.findSome? fun w => behind? w.toList cs with
      | some r => some (false, r)
      | none => (group cs).map (false, ·)

/-- A default value in quotes, or a word that there is none. -/
def attributeDefault? (d : Definitions) (plain : Bool) (cs : List Char) :
    Option (Option String × List Char) :=
  match (behind? "#REQUIRED".toList cs).or (behind? "#IMPLIED".toList cs) with
  | some r => some (none, r)
  | none => do
    let r := ((behind? "#FIXED".toList cs).bind space?).getD cs
    let (value, r) ← quoted? r
    let text ← d.valueOf? (← pieces? value.length value)
    return (some (String.ofList (if plain then text else collapse text)), r)

/-- The rules of one element, in at most `fuel` attributes. The first rule of an
attribute counts. -/
def attributeRules? (d : Definitions) (element : RawName) :
    Nat → List Char → Option (Definitions × List Char)
  | 0, _ => none
  | fuel + 1, cs =>
    match ended? cs with
    | some r => some (d, r)
    | none => do
      let (name, r) ← rawName? (← space? cs)
      let (plain, r) ← attributeType? (← space? r)
      let (default, r) ← d.attributeDefault? plain (← space? r)
      let known := d.attributes.any fun a => a.element = element ∧ a.attribute_ = name
      let rules := if known then d.attributes else d.attributes ++ [⟨element, name, plain, default⟩]
      attributeRules? { d with attributes := rules } element fuel r

def attlist? (d : Definitions) (cs : List Char) : Option (Definitions × List Char) := do
  let (element, r) ← rawName? (← space? cs)
  d.attributeRules? element (r.length + 1) r

/-- A mark of repetition, or nothing. -/
def dropRepeat : List Char → List Char
  | '?' :: r => r
  | '*' :: r => r
  | '+' :: r => r
  | r => r

/-- A model of content inside open groups, each with the separator of its parts
once that is known. A part is due, or a separator or an end. -/
def model? : Nat → List (Option Char) → Bool → List Char → Option (List Char)
  | 0, _, _, _ => none
  | fuel + 1, groups, due, cs =>
    match due, groups, dropSpace cs with
    | true, _, '(' :: r => model? fuel (none :: groups) true r
    | true, _, r => do
      let (_, r) ← rawName? r
      model? fuel groups false (dropRepeat r)
    | false, [_], ')' :: r => some (dropRepeat r)
    | false, _ :: groups, ')' :: r => model? fuel groups false (dropRepeat r)
    | false, sep :: groups, c :: r =>
      if (c == '|' || c == ',') && sep.all (· == c) then model? fuel (some c :: groups) true r
      else none
    | _, _, _ => none

/-- Text mixed with the elements of some names. -/
def mixed? : Nat → Bool → List Char → Option (List Char)
  | 0, _, _ => none
  | fuel + 1, names, cs =>
    match dropSpace cs with
    | ')' :: '*' :: r => some r
    | ')' :: r => if names then none else some r
    | '|' :: r => do
      let (_, r) ← rawName? (dropSpace r)
      mixed? fuel true r
    | _ => none

/-- What an element may hold. -/
def content? (cs : List Char) : Option (List Char) :=
  match (behind? "EMPTY".toList cs).or (behind? "ANY".toList cs) with
  | some r => some r
  | none => do
    let r ← behind? ['('] cs
    match behind? "#PCDATA".toList (dropSpace r) with
    | some r => mixed? (r.length + 1) false r
    | none => model? (r.length + 1) [none] true r

/-- A declaration of the content of an element. -/
def element? (cs : List Char) : Option (List Char) := do
  let (_, r) ← rawName? (← space? cs)
  ended? (← content? (← space? r))

def notationDecl? (cs : List Char) : Option (List Char) := do
  let (_, r) ← name? (← space? cs)
  let r ← space? r
  match external? r with
  | some r => ended? r
  | none =>
    let r ← behind? "PUBLIC".toList r
    let (id, r) ← quoted? (← space? r)
    if id.all isPublic then ended? r else none

/-- The declarations up to the closing bracket, in at most `fuel` steps. A
parameter reference ends those that count, unless the document stands alone. -/
def subset? (standalone : Bool) :
    Nat → Bool → Definitions → List Char → Option (Definitions × List Char)
  | 0, _, _, _ => none
  | fuel + 1, reading, d, cs =>
    let keep := fun (e : Definitions) => if reading then e else d
    match dropSpace cs with
    | ']' :: r => some (d, r)
    | '%' :: r => do
      let (_, r) ← name? r
      let r ← behind? [';'] r
      subset? standalone fuel (reading && standalone) { d with isPartial := !standalone } r
    | '<' :: '?' :: r => do
      subset? standalone fuel reading d (← instruction? r)
    | '<' :: '!' :: '-' :: '-' :: r => do
      subset? standalone fuel reading d (← comment? r)
    | '<' :: '!' :: r =>
      match behind? "ENTITY".toList r with
      | some r => do
        let (e, r) ← d.entity? r
        subset? standalone fuel reading (keep e) r
      | none =>
        match behind? "ATTLIST".toList r with
        | some r => do
          let (e, r) ← d.attlist? r
          subset? standalone fuel reading (keep e) r
        | none =>
          match behind? "ELEMENT".toList r with
          | some r => do subset? standalone fuel reading d (← element? r)
          | none => do
            subset? standalone fuel reading d (← notationDecl? (← behind? "NOTATION".toList r))
    | _ => none

/-- A document type behind its opening word. -/
def doctype? (standalone : Bool) (cs : List Char) : Option (Definitions × List Char) := do
  let (_, r) ← rawName? (← space? cs)
  let outside := (space? r).bind external?
  let d : Definitions := { empty with isPartial := outside.isSome && !standalone }
  match dropSpace (outside.getD r) with
  | '[' :: r =>
    let (d, r) ← subset? standalone (r.length + 1) true d r
    return (d, ← ended? r)
  | r => return (d, ← ended? r)

end Definitions

end BoardPlotter.Markup
