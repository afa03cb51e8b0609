import BoardPlotter.Scalar
import BoardPlotter.Text.Blank
import BoardPlotter.Text.Digit

/-!
# Numerals

An optional sign, digits with an optional point, an optional exponent. A
numeral is read as far as it goes, and the reader takes at least one character.
-/

namespace BoardPlotter

open Text

/-- The number `mantissa * 10 ^ exponent`, or its negation. -/
structure Numeral where
  negative : Bool
  mantissa : Nat
  exponent : Int
  deriving DecidableEq, Repr

namespace Numeral

def value {α : Type} [Scalar α] (n : Numeral) : α :=
  let v := Scalar.ofDecimal n.mantissa n.exponent
  if n.negative then -v else v

/-- An optional sign, true for a minus, and the rest. -/
def sign : List Char → Bool × List Char
  | '-' :: cs => (true, cs)
  | '+' :: cs => (false, cs)
  | cs => (false, cs)

/-- Digits with an optional point, at least one digit in all: their number, how
many stand behind the point, the rest. -/
def magnitude? (cs : List Char) : Option (Nat × Nat × List Char) :=
  let (whole, r) := digitRun cs
  match r with
  | '.' :: r =>
    let (fraction, r) := digitRun r
    if whole.isEmpty && fraction.isEmpty then none
    else some (ofDigits (whole ++ fraction), fraction.length, r)
  | _ => if whole.isEmpty then none else some (ofDigits whole, 0, r)

/-- The exponent, zero where none is written, and the rest. -/
def exponentOf (cs : List Char) : Int × List Char :=
  match cs with
  | c :: r =>
    if c == 'e' || c == 'E' then
      let (minus, r) := sign r
      match digitRun r with
      | ([], _) => (0, cs)
      | (ds, r) => (if minus then -(ofDigits ds : Int) else ofDigits ds, r)
    else (0, cs)
  | [] => (0, [])

/-- The longest numeral at the head, and the rest. -/
def scan? (cs : List Char) : Option (Numeral × List Char) :=
  let (negative, r) := sign cs
  match magnitude? r with
  | none => none
  | some (m, places, r) =>
    let (e, r) := exponentOf r
    some (⟨negative, m, e - places⟩, r)

theorem sign_length (cs : List Char) : (sign cs).2.length ≤ cs.length := by
  unfold sign; split <;> simp

theorem magnitude?_length {cs r : List Char} {m p : Nat} (h : magnitude? cs = some (m, p, r)) :
    r.length < cs.length := by
  have whole := digitRun_length cs
  simp only [magnitude?] at h
  split at h
  · rename_i rest eq
    have fraction := digitRun_length rest
    rw [eq] at whole
    simp only [List.length_cons] at whole
    split at h
    · cases h
    · simp only [Option.some.injEq, Prod.mk.injEq] at h
      obtain ⟨-, -, rfl⟩ := h
      omega
  · split at h
    · cases h
    · rename_i nonempty
      simp only [Option.some.injEq, Prod.mk.injEq] at h
      obtain ⟨-, -, rfl⟩ := h
      cases heq : (digitRun cs).1 with
      | nil => simp [heq] at nonempty
      | cons d ds => rw [heq] at whole; simp only [List.length_cons] at whole; omega

theorem exponentOf_length (cs : List Char) : (exponentOf cs).2.length ≤ cs.length := by
  cases cs with
  | nil => simp [exponentOf]
  | cons c r =>
    simp only [exponentOf]
    split
    · have len := digitRun_length (sign r).2
      have signed := sign_length r
      split
      · simp
      · rename_i ds t _ eq
        rw [eq] at len
        simp only at len
        simp only [List.length_cons]; omega
    · simp

theorem scan?_length {cs r : List Char} {n : Numeral} (h : scan? cs = some (n, r)) :
    r.length < cs.length := by
  simp only [scan?] at h
  have signed := sign_length cs
  split at h
  · cases h
  · rename_i m p t eq
    have shorter := magnitude?_length eq
    have exponent := exponentOf_length t
    simp only [Option.some.injEq, Prod.mk.injEq] at h
    obtain ⟨-, rfl⟩ := h
    omega

/-- All numerals from left to right; a character that starts none is skipped. -/
def findAll (cs : List Char) : List Numeral :=
  match cs with
  | [] => []
  | c :: t =>
    match h : scan? (c :: t) with
    | some (n, r) =>
      have : r.length ≤ t.length := Nat.le_of_lt_succ (scan?_length h)
      n :: findAll r
    | none => findAll t
termination_by cs.length

end Numeral

end BoardPlotter
