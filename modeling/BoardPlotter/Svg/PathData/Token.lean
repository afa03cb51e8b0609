import BoardPlotter.Svg.PathData.Command
import BoardPlotter.Text.Numeral

/-!
# Tokens of path data

Command letters, commas and numerals, with blanks anywhere between them. The
text is read from left to right, each token as long as it can be, up to the
first character that starts none.
-/

namespace BoardPlotter

open Text

inductive PathToken where
  | command (c : PathCommand)
  | comma
  | number (n : Numeral)
  deriving DecidableEq, Repr

/-- A token, its first character and the place of that in the text. -/
structure LocatedToken where
  position : Nat
  char : Char
  token : PathToken
  deriving DecidableEq, Repr

/-- The tokens of a text, the place where reading stopped, and the character
there unless it is the end. -/
structure PathTokens where
  tokens : List LocatedToken
  stop : Nat
  offender : Option Char
  deriving DecidableEq, Repr

namespace PathToken

/-- The token at the head of a text that starts with no blank, and the rest. -/
def scan? : List Char → Option (PathToken × List Char)
  | [] => none
  | c :: cs =>
    match PathCommand.ofLetter? c with
    | some cmd => some (.command cmd, cs)
    | none =>
      if c == ',' then some (.comma, cs)
      else (Numeral.scan? (c :: cs)).map fun (n, r) => (.number n, r)

theorem scan?_length {cs r : List Char} {t : PathToken} (h : scan? cs = some (t, r)) :
    r.length < cs.length := by
  cases cs with
  | nil => cases h
  | cons c cs =>
    simp only [scan?] at h
    split at h
    · simp only [Option.some.injEq, Prod.mk.injEq] at h
      simp [← h.2]
    · split at h
      · simp only [Option.some.injEq, Prod.mk.injEq] at h
        simp [← h.2]
      · obtain ⟨⟨n, t⟩, eq, pair⟩ := Option.map_eq_some_iff.1 h
        simp only [Prod.mk.injEq] at pair
        rw [← pair.2]
        exact Numeral.scan?_length eq

/-- The tokens of a text whose first character is at `position`. -/
def lex (position : Nat) (cs : List Char) : PathTokens :=
  match cs with
  | [] => ⟨[], position, none⟩
  | c :: t =>
    if isBlank c then lex (position + 1) t
    else
      match h : scan? (c :: t) with
      | none => ⟨[], position, some c⟩
      | some (token, r) =>
        have : r.length ≤ t.length := Nat.le_of_lt_succ (scan?_length h)
        let later := lex (position + ((c :: t).length - r.length)) r
        { later with tokens := ⟨position, c, token⟩ :: later.tokens }
termination_by cs.length

end PathToken

def PathTokens.ofString (data : String) : PathTokens := PathToken.lex 0 data.toList

end BoardPlotter
