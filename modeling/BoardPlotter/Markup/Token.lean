import BoardPlotter.Markup.Character

/-!
# Tokens of content

Tags, text and references, as the characters of a document spell them. Comments
and processing instructions are checked and dropped. Each token takes at least
one character, so a text has no more tokens than characters.
-/

namespace BoardPlotter.Markup

/-- A name with an optional scope before a colon. -/
structure RawName where
  scope : String
  local_ : String
  deriving DecidableEq, Repr

/-- A character or an entity reference inside a quoted value. -/
inductive Piece where
  | char (c : Char)
  | reference (entity : String)
  deriving DecidableEq, Repr

inductive Token where
  | startTag (name : RawName) (attributes : List (RawName × List Piece)) (closed : Bool)
  | endTag (name : RawName)
  | text (blank : Bool)
  | reference (entity : String)
  deriving Repr

def rawName? (cs : List Char) : Option (RawName × List Char) := do
  let (first, r) ← name? cs
  match r with
  | ':' :: r =>
    let (second, r) ← name? r
    match r with
    | ':' :: _ => none
    | _ => return (⟨first, second⟩, r)
  | _ => return (⟨"", first⟩, r)

/-- The number of hexadecimal or decimal digits. -/
def number? (hex : Bool) (ds : List Char) : Option Nat :=
  if ds.isEmpty then none
  else
    ds.foldlM (fun n c =>
      if c.isDigit then some (min 0x110000 ((if hex then 16 else 10) * n + (c.toNat - 48)))
      else if hex ∧ 'a' ≤ c.toLower ∧ c.toLower ≤ 'f' then
        some (min 0x110000 (16 * n + (c.toLower.toNat - 87)))
      else none) 0

/-- A character by its number. -/
def charOf? (n : Nat) : Option Char :=
  if n.isValidChar ∧ n ≠ 0 ∧ isAllowed (Char.ofNat n) then some (Char.ofNat n) else none

/-- A reference behind its ampersand. -/
def reference? (cs : List Char) : Option (Piece × List Char) :=
  match cs with
  | '#' :: r => do
    let (hex, r) := match r with
      | 'x' :: r => (true, r)
      | r => (false, r)
    let c ← (number? hex (r.takeWhile (· != ';'))).bind charOf?
    let rest ← behind? [';'] (r.dropWhile (· != ';'))
    return (.char c, rest)
  | _ => do
    let (entity, r) ← name? cs
    let rest ← behind? [';'] r
    return (.reference entity, rest)

/-- The pieces of a quoted value: white space counts as spaces, referenced
characters stay. In as many steps as `fuel`. -/
def pieces? : Nat → List Char → Option (List Piece)
  | _, [] => some []
  | 0, _ => none
  | fuel + 1, '&' :: r => do
    let (p, r) ← reference? r
    return p :: (← pieces? fuel r)
  | fuel + 1, c :: r =>
    if c == '<' || !isAllowed c then none
    else (pieces? fuel r).map ((if isSpace c then .char ' ' else .char c) :: ·)

/-- A text in quotes and what is behind it. -/
def quoted? (cs : List Char) : Option (List Char × List Char) :=
  match cs with
  | q :: r =>
    if q == '"' || q == '\'' then
      match r.dropWhile (· != q) with
      | _ :: rest => some (r.takeWhile (· != q), rest)
      | [] => none
    else none
  | [] => none

def attribute? (cs : List Char) : Option ((RawName × List Piece) × List Char) := do
  let (name, r) ← rawName? cs
  let r ← behind? ['='] (dropSpace r)
  let (value, rest) ← quoted? (dropSpace r)
  return ((name, ← pieces? value.length value), rest)

/-- The attributes of a start tag up to its end, true where the tag is closed. -/
def attributes? : Nat → List Char → Option (List (RawName × List Piece) × Bool × List Char)
  | 0, _ => none
  | fuel + 1, cs =>
    match dropSpace cs with
    | '>' :: r => some ([], false, r)
    | '/' :: '>' :: r => some ([], true, r)
    | _ => do
      let r ← space? cs
      let (a, r) ← attribute? r
      let (as, closed, r) ← attributes? fuel r
      return (a :: as, closed, r)

/-- What is behind a comment, whose opening is read already. Two hyphens end it. -/
def comment? (cs : List Char) : Option (List Char) := do
  let (body, r) ← cutAt? ['-', '-'] cs
  if body.all isAllowed then behind? ['>'] r else none

/-- What is behind an instruction, whose opening is read already. The target
`xml` is taken. -/
def instruction? (cs : List Char) : Option (List Char) := do
  let (target, r) ← name? cs
  if target.toLower == "xml" then none
  match behind? "?>".toList r with
  | some rest => some rest
  | none =>
    let (body, rest) ← (space? r).bind (cutAt? "?>".toList)
    if body.all isAllowed then some rest else none

/-- Plain text up to the next markup, which may not hold the end of a section. -/
def plain? (cs : List Char) : Option (Token × List Char) :=
  let p := fun c : Char => c != '<' && c != '&'
  let body := cs.takeWhile p
  if body.all isAllowed && (cutAt? "]]>".toList body).isNone then
    some (.text (body.all isSpace), cs.dropWhile p)
  else none

/-- The token behind an opening angle bracket, none for a comment or an
instruction. -/
def markup? (cs : List Char) : Option (Option Token × List Char) :=
  match cs with
  | '!' :: '-' :: '-' :: r => (comment? r).map fun r => (none, r)
  | '!' :: r => do
    let (body, rest) ← (behind? "[CDATA[".toList r).bind (cutAt? "]]>".toList)
    if body.all isAllowed then some (some (.text false), rest) else failure
  | '?' :: r => (instruction? r).map fun r => (none, r)
  | '/' :: r => do
    let (name, r) ← rawName? r
    let rest ← behind? ['>'] (dropSpace r)
    return (some (.endTag name), rest)
  | r => do
    let (name, r) ← rawName? r
    let (as, closed, rest) ← attributes? r.length.succ r
    return (some (.startTag name as closed), rest)

/-- The tokens of a text, none if it is malformed. -/
def tokens? : Nat → List Char → Option (List Token)
  | _, [] => some []
  | 0, _ => none
  | fuel + 1, '<' :: r => do
    let (t, r) ← markup? r
    return t.toList ++ (← tokens? fuel r)
  | fuel + 1, '&' :: r => do
    match ← reference? r with
    | (.char _, r) => return .text false :: (← tokens? fuel r)
    | (.reference entity, r) => return .reference entity :: (← tokens? fuel r)
  | fuel + 1, cs => do
    let (t, r) ← plain? cs
    return t :: (← tokens? fuel r)

/-- The tokens of a whole text. -/
def Token.ofText? (cs : List Char) : Option (List Token) := tokens? cs.length cs

end BoardPlotter.Markup
