import BoardPlotter.Yaml.Scalar

/-!
# Scalars and spaces of YAML

What is read without regard to structure: spaces, comments and line ends
between tokens, plain scalars, and scalars in quotes. A line end inside a scalar
is a space, and every blank line a line end.
-/

namespace BoardPlotter.Yaml

/-- What is left of a text, and at which column it starts. -/
structure Cursor where
  rest : List Char
  column : Nat

/-- Goes to the next token, over spaces, comments and line ends: did a line end,
and where is it? -/
def toToken (ended comment : Bool) (column : Nat) : List Char → Bool × Cursor
  | [] => (true, ⟨[], 0⟩)
  | '\n' :: cs => toToken true false 0 cs
  | c :: cs =>
    if comment || c == '#' then toToken ended true (column + 1) cs
    else if c == ' ' then toToken ended false (column + 1) cs
    else (ended, ⟨c :: cs, column⟩)

def Cursor.token (c : Cursor) : Bool × Cursor := toToken false false c.column c.rest

/-- The next token inside brackets, where columns do not matter. -/
def dropSpace (cs : List Char) : List Char := (toToken false false 0 cs).2.rest

def isGap (c : Char) : Bool := c == ' ' || c == '\t' || c == '\n'

/-- Does a mark that stands alone end here? -/
def endsMark : List Char → Bool
  | [] => true
  | c :: _ => isGap c

def isBracket (c : Char) : Bool := c == ',' || c == '[' || c == ']' || c == '\x7b' || c == '\x7d'

/-- Is a colon before this text a mark? -/
def endsKey (inside : Bool) (cs : List Char) : Bool :=
  endsMark cs || (inside && cs.head?.any isBracket)

/-- May a plain scalar start here? -/
def startsPlain (inside : Bool) : List Char → Bool
  | [] => false
  | c :: cs =>
    if c == '-' then !endsMark cs
    else if c == '?' || c == ':' then !inside && !endsMark cs
    else !isGap c && !isBracket c && !"#&*!|>'\"%@\x60".contains c

/-- The part of a plain scalar on one line, and the rest. -/
def plainLine (inside spaced : Bool) : List Char → List Char × List Char
  | [] => ([], [])
  | c :: cs =>
    if c == '\n' || c == '\t' || (c == '#' && spaced) || (c == ':' && endsKey inside cs) ||
        (inside && (isBracket c || c == '?')) then ([], c :: cs)
    else
      let (own, rest) := plainLine inside (c == ' ') cs
      (c :: own, rest)

def trimRight (cs : List Char) : List Char := (cs.reverse.dropWhile (· == ' ')).reverse

/-- Counts line ends: the lines in between are blank, and the spaces in front of
what follows are counted too. -/
def lineEnds (tabs : Bool) (lines column : Nat) : List Char → Nat × Cursor
  | '\n' :: cs => lineEnds tabs (lines + 1) 0 cs
  | ' ' :: cs => lineEnds tabs lines (column + 1) cs
  | '\t' :: cs => if tabs then lineEnds tabs lines (column + 1) cs else (lines, ⟨'\t' :: cs, column⟩)
  | cs => (lines, ⟨cs, column⟩)

/-- What line ends inside a scalar stand for. -/
def folded (lines : Nat) : List Char := if lines = 1 then [' '] else List.replicate (lines - 1) '\n'

/-- A plain scalar, continued on lines that start at some column or behind it. -/
def plain (inside : Bool) (least : Nat) : Nat → Cursor → List Char × Cursor
  | 0, c => ([], c)
  | fuel + 1, c =>
    let (own, rest) := plainLine inside false c.rest
    let here := (trimRight own, Cursor.mk rest (c.column + own.length))
    match rest with
    | '\n' :: _ =>
      let (lines, next) := lineEnds false 0 0 rest
      if (inside || least ≤ next.column) && next.rest.head?.any (· != '#') &&
          !(plainLine inside false next.rest).1.isEmpty then
        let (more, last) := plain inside least fuel next
        (here.1 ++ folded lines ++ more, last)
      else here
    | _ => here

/-- The characters of one-letter escapes. -/
def escapes : List (Char × Nat) :=
  [('0', 0), ('a', 7), ('b', 8), ('t', 9), ('\t', 9), ('n', 10), ('v', 11), ('f', 12), ('r', 13),
    ('e', 27), (' ', 32), ('"', 34), ('/', 47), ('\\', 92), ('N', 0x85), ('_', 0xa0),
    ('L', 0x2028), ('P', 0x2029)]

/-- How many digits follow the letter of a numeric escape. -/
def escapeWidth? (c : Char) : Option Nat := [('x', 2), ('u', 4), ('U', 8)].lookup c

/-- A scalar behind its opening quote, up to the closing one. -/
def quotedText (mark : Char) : Nat → List Char → Option (List Char × List Char)
  | 0, _ => none
  | fuel + 1, cs =>
    let put (own rest : List Char) : Option (List Char × List Char) :=
      (quotedText mark fuel rest).map fun (more, rest) => (own ++ more, rest)
    match cs with
    | [] => none
    | c :: r =>
      if c == mark then
        if mark == '\'' && r.head? == some '\'' then put ['\''] (r.drop 1) else some ([], r)
      else if c == '\\' && mark == '"' then
        match r with
        | '\n' :: r => put (List.replicate ((lineEnds true 0 0 r).1) '\n') (lineEnds true 0 0 r).2.rest
        | e :: r =>
          match escapes.lookup e, escapeWidth? e with
          | some n, _ => put [Char.ofNat n] r
          | none, some width =>
            let digits := r.take width
            match digits.mapM (digitIn? 16) with
            | some ds =>
              if ds.length = width then
                put [Char.ofNat (ds.foldl (fun n d => 16 * n + d) 0)] (r.drop width)
              else none
            | none => none
          | none, none => none
        | [] => none
      else if isGap c then
        let gap := cs.takeWhile fun c => c == ' ' || c == '\t'
        let after := cs.drop gap.length
        match after with
        | '\n' :: _ =>
          let (lines, next) := lineEnds true 0 0 after
          put (folded lines) next.rest
        | _ => put gap after
      else put [c] r

/-- The text of a scalar in quotes, where one starts, and the rest. -/
def quoted? (cs : List Char) : Option (String × List Char) :=
  match cs with
  | c :: r =>
    if c == '"' || c == '\'' then
      (quotedText c (r.length + 1) r).map fun (own, rest) => (String.ofList own, rest)
    else none
  | [] => none

def startsQuoted : List Char → Bool
  | c :: _ => c == '"' || c == '\''
  | [] => false

end BoardPlotter.Yaml
