import BoardPlotter.Geometry.Affine
import BoardPlotter.Log.Notice
import BoardPlotter.Text.Numeral
import BoardPlotter.Text.Quoted

/-!
# Transform lists

The value of a `transform` attribute: functions with their arguments, composed
from left to right, so that the last one acts first. A list is read up to its
first malformed function.
-/

namespace BoardPlotter

open Text

inductive TransformName where
  | matrix
  | translate
  | scale
  | rotate
  | skewX
  | skewY
  deriving DecidableEq, Repr

namespace TransformName

def all : List TransformName := [matrix, translate, scale, rotate, skewX, skewY]

def text : TransformName → String
  | matrix => "matrix"
  | translate => "translate"
  | scale => "scale"
  | rotate => "rotate"
  | skewX => "skewX"
  | skewY => "skewY"

/-- The argument counts a function takes, as they are told. -/
def counts : TransformName → String
  | matrix => "6"
  | translate | scale => "1 or 2"
  | rotate => "1 or 3"
  | skewX | skewY => "1"

end TransformName

/-- A function with its arguments. -/
inductive TransformFunction where
  | matrix (a b c d e f : Numeral)
  | translate (x : Numeral) (y : Option Numeral)
  | scale (x : Numeral) (y : Option Numeral)
  | rotate (angle : Numeral) (center : Option (Numeral × Numeral))
  | skewX (angle : Numeral)
  | skewY (angle : Numeral)
  deriving DecidableEq, Repr

namespace TransformFunction

def ofArgs? : TransformName → List Numeral → Option TransformFunction
  | .matrix, [a, b, c, d, e, f] => some (matrix a b c d e f)
  | .translate, [x] => some (translate x none)
  | .translate, [x, y] => some (translate x (some y))
  | .scale, [x] => some (scale x none)
  | .scale, [x, y] => some (scale x (some y))
  | .rotate, [angle] => some (rotate angle none)
  | .rotate, [angle, x, y] => some (rotate angle (some (x, y)))
  | .skewX, [angle] => some (skewX angle)
  | .skewY, [angle] => some (skewY angle)
  | _, _ => none

/-- The map of a function. One scale factor serves both axes. -/
def toAffine? {α : Type} [Scalar α] : TransformFunction → Except Fault (Affine α)
  | matrix a b c d e f => .ok ⟨a.value, b.value, c.value, d.value, e.value, f.value⟩
  | translate x y => .ok (.translate x.value ((y.map Numeral.value).getD 0))
  | scale x y => .ok (.scale x.value ((y.map Numeral.value).getD x.value))
  | rotate angle none => Affine.rotate? angle.value 0 0
  | rotate angle (some (x, y)) => Affine.rotate? angle.value x.value y.value
  | skewX angle => Affine.skewX? angle.value
  | skewY angle => Affine.skewY? angle.value

end TransformFunction

/-- Why a transform list is malformed. -/
inductive TransformError where
  | function (rest : String)
  | arguments (name : TransformName) (raw : String)
  | count (name : TransformName) (got : Nat)
  deriving DecidableEq, Repr

def TransformError.message : TransformError → String
  | function rest => s!"cannot parse transform at {quoted rest}"
  | arguments name raw => s!"{name.text}: invalid arguments {quoted raw}"
  | count name got => s!"{name.text} takes {name.counts} arguments, got {got}"

/-- An attribute value that is ignored for an error. -/
def TransformError.notice (value : String) (e : TransformError) : Notice :=
  .warning s!"Ignoring malformed transform {quoted value}: {e.message}"

/-- Why an attribute value has no map. -/
inductive TransformFailure where
  | malformed (e : TransformError)
  | fault (f : Fault)
  deriving DecidableEq, Repr

namespace TransformList

/-- What is left of the text behind a word at its head. -/
def afterWord? : List Char → List Char → Option (List Char)
  | [], cs => some cs
  | _ :: _, [] => none
  | w :: ws, c :: cs => if w = c then afterWord? ws cs else none

/-- A comma, or nothing. -/
def dropComma : List Char → List Char
  | ',' :: cs => cs
  | cs => cs

def isParen (c : Char) : Bool := c == '(' || c == ')'

/-- A function call after its name: the text in parentheses and the rest. -/
def call? (cs : List Char) : Option (List Char × List Char) :=
  match trimLeft cs with
  | '(' :: r =>
    match r.dropWhile (!isParen ·) with
    | ')' :: t => some (r.takeWhile (!isParen ·), dropComma (trimLeft t))
    | _ => none
  | _ => none

/-- The function at the head of the text, blanks skipped, and the rest behind
an optional comma. -/
def function? (cs : List Char) : Option (TransformName × List Char × List Char) :=
  TransformName.all.findSome? fun name =>
    match afterWord? name.text.toList (trimLeft cs) with
    | none => none
    | some r => (call? r).map fun (raw, rest) => (name, raw, rest)

/-- Where the next argument starts: behind a comma, behind blanks, or at once
before a sign. -/
def nextArg? (cs : List Char) : Option (List Char) :=
  match trimLeft cs with
  | ',' :: t => some (trimLeft t)
  | c :: t =>
    if (c :: t).length < cs.length || c == '-' || c == '+' then some (c :: t) else none
  | [] => none

theorem trimLeft_length (cs : List Char) : (trimLeft cs).length ≤ cs.length :=
  (List.dropWhile_sublist _).length_le

theorem nextArg?_length {cs r : List Char} (h : nextArg? cs = some r) : r.length ≤ cs.length := by
  have trimmed := trimLeft_length cs
  unfold nextArg? at h
  split at h
  · rename_i t eq
    have again := trimLeft_length t
    rw [eq] at trimmed
    simp only [Option.some.injEq] at h
    simp only [List.length_cons] at trimmed
    rw [← h]; omega
  · rename_i c t _ eq
    split at h
    · simp only [Option.some.injEq] at h
      rw [← h, ← eq]; exact trimmed
    · cases h
  · cases h

/-- Numerals between separators, up to the end of the text. -/
def argsFrom? (cs : List Char) : Option (List Numeral) :=
  match h : Numeral.scan? cs with
  | none => none
  | some (n, r) =>
    if allBlank r then some [n]
    else
      match h' : nextArg? r with
      | none => none
      | some t =>
        have := Numeral.scan?_length h
        have := nextArg?_length h'
        (argsFrom? t).map (n :: ·)
termination_by cs.length

/-- The arguments of a call; there may be none. -/
def args? (raw : List Char) : Option (List Numeral) :=
  if allBlank raw then some [] else argsFrom? (trimLeft raw)

theorem afterWord?_length {ws cs r : List Char} (h : afterWord? ws cs = some r) :
    r.length ≤ cs.length := by
  fun_induction afterWord? ws cs with
  | case1 => simp_all
  | case2 => cases h
  | case3 _ _ _ ih => simp only [List.length_cons]; have := ih h; omega
  | case4 => cases h

theorem dropComma_length (cs : List Char) : (dropComma cs).length ≤ cs.length := by
  unfold dropComma; split <;> simp

theorem call?_length {cs raw r : List Char} (h : call? cs = some (raw, r)) :
    r.length < cs.length := by
  have trimmed := trimLeft_length cs
  unfold call? at h
  split at h
  · rename_i t eq
    split at h
    · rename_i u eq'
      have inner := (List.dropWhile_sublist (l := t) (!isParen ·)).length_le
      have outer := trimLeft_length u
      have comma := dropComma_length (trimLeft u)
      rw [eq] at trimmed
      rw [eq'] at inner
      simp only [List.length_cons] at trimmed inner
      simp only [Option.some.injEq, Prod.mk.injEq] at h
      rw [← h.2]; omega
    · cases h
  · cases h

theorem function?_length {cs raw r : List Char} {name : TransformName}
    (h : function? cs = some (name, raw, r)) : r.length < cs.length := by
  obtain ⟨k, -, hk⟩ := List.exists_of_findSome?_eq_some h
  split at hk
  · cases hk
  · rename_i t eq
    obtain ⟨⟨a, b⟩, call, pair⟩ := Option.map_eq_some_iff.1 hk
    simp only [Prod.mk.injEq] at pair
    obtain ⟨-, -, rfl⟩ := pair
    have := call?_length call
    have := afterWord?_length eq
    have := trimLeft_length cs
    omega

/-- The functions before the first malformed one, and what is wrong with it. -/
def scan (cs : List Char) : List TransformFunction × Option TransformError :=
  if cs.isEmpty then ([], none)
  else
    match h : function? cs with
    | none => ([], some (.function (String.ofList cs)))
    | some (name, raw, r) =>
      match args? raw with
      | none => ([], some (.arguments name (String.ofList raw)))
      | some args =>
        match TransformFunction.ofArgs? name args with
        | none => ([], some (.count name args.length))
        | some f =>
          have : (trimLeft r).length < cs.length :=
            Nat.lt_of_le_of_lt (trimLeft_length r) (function?_length h)
          let (fs, e) := scan (trimLeft r)
          (f :: fs, e)
termination_by cs.length

/-- The functions of an attribute value. -/
def ofString (value : String) : List TransformFunction × Option TransformError :=
  scan (trim value.toList)

variable {α : Type} [Scalar α]

/-- The composition of the functions, the last one acting first. -/
def compose (fs : List TransformFunction) : Except Fault (Affine α) :=
  fs.foldlM (fun t f => return t.comp (← f.toAffine?)) .identity

/-- The map of an attribute value, with the error of a malformed list, which
counts as the identity. A function before the error is still evaluated. -/
def read (value : String) : Except Fault (Affine α × Option TransformError) := do
  let (fs, e) := ofString value
  let t ← compose fs
  match e with
  | none => return (t, none)
  | some e => return (.identity, some e)

/-- The map of an attribute value, or why it has none. -/
def strict (value : String) : Except TransformFailure (Affine α) :=
  match (read value : Except Fault (Affine α × Option TransformError)) with
  | .error f => .error (.fault f)
  | .ok (_, some e) => .error (.malformed e)
  | .ok (t, none) => .ok t

/-- The map of an attribute value, and what is said about it. Malformed lists
count as the identity. -/
def permissive (value : String) : Except Fault (Affine α × List Notice) :=
  match (strict value : Except TransformFailure (Affine α)) with
  | .error (.fault f) => .error f
  | .error (.malformed e) => .ok (.identity, [e.notice value])
  | .ok t => .ok (t, [])

end TransformList

end BoardPlotter
