import BoardPlotter.Yaml.Token

/-!
# Documents of YAML

A document is one value: nested lists and maps by indentation or in brackets.
Anchors, tags, block scalars and keys that are no scalars are not read. A key of
a map that is given again takes the last value.
-/

namespace BoardPlotter.Yaml

/-- The text that a key stands for; lists and maps are no keys. -/
def keyText? : Value → Option String
  | .list _ | .map _ => none
  | .text s => some s
  | v => some (v.write .json)

mutual

/-- A value inside brackets. -/
def flow : Nat → List Char → Option (Value × List Char)
  | 0, _ => none
  | fuel + 1, cs =>
    match cs with
    | '[' :: r => flowItems fuel [] (dropSpace r)
    | '\x7b' :: r => flowFields fuel [] (dropSpace r)
    | cs =>
      if startsQuoted cs then (quoted? cs).map fun (s, r) => (.text s, r)
      else if startsPlain true cs then
        let (own, c) := plain true 0 (cs.length + 1) ⟨cs, 0⟩
        some (ofPlain (String.ofList own), c.rest)
      else none

/-- The value behind the colon of a field inside brackets. -/
def flowField : Nat → List Char → Option (Value × List Char)
  | 0, _ => none
  | fuel + 1, cs =>
    match cs with
    | ':' :: r =>
      match dropSpace r with
      | [] => none
      | c :: r => if c == ',' || c == ']' || c == '\x7d' then some (.null, c :: r) else flow fuel (c :: r)
    | cs => some (.null, cs)

def flowItems : Nat → List Value → List Char → Option (Value × List Char)
  | 0, _, _ => none
  | fuel + 1, items, cs =>
    match cs with
    | ']' :: r => some (.list items, r)
    | cs => do
      let (first, r) ← flow fuel cs
      let r := dropSpace r
      let (item, r) ←
        if r.head? == some ':' then do
          let key ← keyText? first
          let (v, r) ← flowField fuel r
          pure (Value.map [(key, v)], dropSpace r)
        else pure (first, r)
      match r with
      | ',' :: r => flowItems fuel (items ++ [item]) (dropSpace r)
      | ']' :: r => some (.list (items ++ [item]), r)
      | _ => none

def flowFields : Nat → Fields → List Char → Option (Value × List Char)
  | 0, _, _ => none
  | fuel + 1, fields, cs =>
    match cs with
    | '\x7d' :: r => some (.map fields, r)
    | cs => do
      let (first, r) ← flow fuel cs
      let key ← keyText? first
      let (v, r) ← flowField fuel (dropSpace r)
      match dropSpace r with
      | ',' :: r => flowFields fuel (fields.set key v) (dropSpace r)
      | '\x7d' :: r => some (.map (fields.set key v), r)
      | _ => none

end

/-- A key on one line with its colon: its text and what follows. -/
def key? (c : Cursor) : Option (String × Cursor) :=
  let behind (rest : List Char) : Option Cursor :=
    match rest.dropWhile (· == ' ') with
    | ':' :: r => if endsMark r then some ⟨r, c.column + (c.rest.length - r.length)⟩ else none
    | _ => none
  if startsQuoted c.rest then do
    let (s, r) ← quoted? c.rest
    guard !((c.rest.take (c.rest.length - r.length)).contains '\n')
    return (s, ← behind r)
  else if startsPlain false c.rest then do
    let (own, r) := plainLine false false c.rest
    let key ← keyText? (ofPlain (String.ofList (trimRight own)))
    return (key, ← behind r)
  else none

/-- Does an item of a list by indentation start here? -/
def startsItem (c : Cursor) : Bool :=
  match c.rest with
  | '-' :: r => endsMark r
  | _ => false

mutual

/-- A value at a token. Lines that belong to it start at column `least` or
behind it. Behind a key on the same line there are no lists or maps by
indentation. -/
def node : Nat → Nat → Bool → Cursor → Option (Value × Cursor)
  | 0, _, _, _ => none
  | fuel + 1, least, inline, c =>
    if c.rest.isEmpty then some (.null, c)
    else if startsItem c then (if inline then none else items fuel c.column [] c)
    else if (key? c).isSome then (if inline then none else fields fuel c.column [] c)
    else if startsPlain false c.rest then
      let (own, c) := plain false least (c.rest.length + 1) c
      some (ofPlain (String.ofList own), c)
    else (flow fuel c.rest).map fun (v, r) => (v, ⟨r, c.column⟩)

/-- The value behind a dash or a colon, on the same line or behind it. -/
def nested : Nat → Nat → Bool → Cursor → Option (Value × Cursor)
  | 0, _, _, _ => none
  | fuel + 1, column, keyed, c =>
    let (ended, t) := c.token
    if !ended then node fuel (column + 1) keyed t
    else if t.rest.isEmpty then some (.null, c)
    else if column < t.column then node fuel (column + 1) false t
    else if keyed && t.column = column && startsItem t then items fuel column [] t
    else some (.null, c)

/-- The items of a list at a column. -/
def items : Nat → Nat → List Value → Cursor → Option (Value × Cursor)
  | 0, _, _, _ => none
  | fuel + 1, column, before, c => do
    let (v, c) ← nested fuel column false ⟨c.rest.drop 1, c.column + 1⟩
    let (ended, t) := c.token
    if t.rest.isEmpty then return (.list (before ++ [v]), c)
    else if !ended then none
    else if t.column = column && startsItem t then items fuel column (before ++ [v]) t
    else if t.column ≤ column then return (.list (before ++ [v]), c)
    else none

/-- The fields of a map at a column. -/
def fields : Nat → Nat → Fields → Cursor → Option (Value × Cursor)
  | 0, _, _, _ => none
  | fuel + 1, column, before, c => do
    let (key, c) ← key? c
    let (v, c) ← nested fuel column true c
    let now := before.set key v
    let (ended, t) := c.token
    if t.rest.isEmpty then return (.map now, c)
    else if !ended then none
    else if t.column = column then fields fuel column now t
    else if t.column < column then return (.map now, c)
    else none

end

/-- Line ends in one form. -/
def normalLines : List Char → List Char
  | '\r' :: '\n' :: cs => '\n' :: normalLines cs
  | '\r' :: cs => '\n' :: normalLines cs
  | c :: cs => c :: normalLines cs
  | [] => []

/-- Does a line consist of a mark of three characters, and more behind a gap? -/
def hasMark (mark : Char) (line : List Char) : Bool :=
  line.take 3 == [mark, mark, mark] && endsMark (line.drop 3)

def isIdle (line : List Char) : Bool :=
  match line.dropWhile (· == ' ') with
  | [] => true
  | c :: _ => c == '#'

/-- The lines of the only document: behind a mark that opens it, before one that
closes it. -/
def body? (lines : List (List Char)) : Option (List (List Char)) :=
  let idle := lines.takeWhile isIdle
  let opened := match lines.drop idle.length with
    | line :: rest => if hasMark '-' line then ("   ".toList ++ line.drop 3) :: rest else line :: rest
    | [] => []
  let own := opened.takeWhile fun line => !hasMark '.' line && !hasMark '-' line
  match opened.drop own.length with
  | [] => some own
  | line :: rest => if hasMark '.' line && rest.all isIdle then some own else none

def isAllowed (c : Char) : Bool :=
  let n := c.toNat
  n = 9 || n = 10 || n = 13 || (32 ≤ n && n < 127) || n = 0x85 || (0xa0 ≤ n && n != 0xfffe && n != 0xffff)

/-- The value of a document; an empty one is null. -/
def read? (text : String) : Option Value := do
  let cs := text.toList
  guard (cs.all isAllowed)
  let cs := if cs.head? == some '\ufeff' then cs.drop 1 else cs
  let lines ← body? (splitAt '\n' (normalLines cs))
  let cs := List.intercalate ['\n'] lines
  let (_, start) := Cursor.token ⟨cs, 0⟩
  let (v, c) ← node (2 * cs.length + 2) 0 false start
  guard c.token.2.rest.isEmpty
  return v

end BoardPlotter.Yaml
