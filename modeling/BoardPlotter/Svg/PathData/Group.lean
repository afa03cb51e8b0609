import BoardPlotter.Decimal.Layout
import BoardPlotter.Svg.PathData.Token
import BoardPlotter.Text.Quoted

/-!
# Command groups

Path data is a sequence of groups, a command letter with the numbers after it.
The first letter is a moveto, and a comma stands directly behind a number. A
group is complete when the next letter or the end of the text is met.
-/

namespace BoardPlotter

open Text

/-- What was read last. -/
inductive ReaderState where
  | start
  | number
  | comma
  | command
  | error
  deriving DecidableEq, Repr

/-- Why path data is malformed. -/
inductive PathError (α : Type) where
  | notMoveTo (letter : Char) (position : Nat)
  | misplacedComma (position : Nat)
  | character (c : Char) (position : Nat)
  | noArguments (letter : Char)
  | partialSet (letter : Char) (arity got : Nat)
  | strayArguments (letter : Char) (got : Nat)
  | flag (letter : Char) (name : String) (value : α)
  deriving DecidableEq, Repr

def PathError.message : PathError Float → String
  | notMoveTo c p => s!"path must start with moveto, got {quoted c.toString} at position {p}"
  | misplacedComma p => s!"misplaced comma at position {p}"
  | character c p => s!"unexpected character {quoted c.toString} at position {p}"
  | noArguments c => s!"'{c}' requires arguments"
  | partialSet c n got => s!"'{c}' expects groups of {n} arguments, got {got}"
  | strayArguments c got => s!"'{c}' takes no arguments, got {got}"
  | flag c name x => s!"'{c}': {name} flag must be 0 or 1, got {Double.general 6 x}"

/-- A command with its numbers. -/
structure CommandGroup (α : Type) where
  command : PathCommand
  args : List α
  deriving DecidableEq, Repr

/-- A complete group, with the state and place of the reader at that moment. -/
structure ReadGroup (α : Type) where
  group : CommandGroup α
  state : ReaderState
  position : Nat
  deriving DecidableEq, Repr

/-- The groups of a text, the state and place where reading ended, and the
error if it ended early. -/
structure PathReading (α : Type) where
  groups : List (ReadGroup α)
  state : ReaderState
  position : Nat
  error : Option (PathError α)
  deriving DecidableEq, Repr

namespace PathReading

variable {α : Type} [Scalar α]

/-- Reading ended at an error. -/
def failed (e : PathError α) (position : Nat) : PathReading α := ⟨[], .error, position, some e⟩

/-- The group that is complete at some moment, if one was begun; its numbers
are held in reverse. -/
def complete (begun : Option (PathCommand × List α)) (state : ReaderState) (position : Nat) :
    List (ReadGroup α) :=
  begun.toList.map fun (command, args) => ⟨⟨command, args.reverse⟩, state, position⟩

/-- Reads tokens from a state, with the group begun before them. -/
def ofTokens (stop : Nat) (offender : Option Char) :
    ReaderState → Option (PathCommand × List α) → List LocatedToken → PathReading α
  | state, begun, [] =>
    match offender with
    | none => ⟨complete begun state stop, state, stop, none⟩
    | some c => failed (.character c stop) stop
  | state, begun, ⟨p, c, token⟩ :: ts =>
    match token with
    | .command command =>
      if state = .start ∧ command.verb ≠ .moveTo then failed (.notMoveTo c p) p
      else
        let later := ofTokens stop offender .command (some (command, [])) ts
        { later with groups := complete begun state p ++ later.groups }
    | .comma =>
      if state = .number then ofTokens stop offender .comma begun ts
      else failed (.misplacedComma p) p
    | .number n =>
      if state = .start then failed (.character c p) p
      else
        ofTokens stop offender .number
          (begun.map fun (command, args) => (command, n.value :: args)) ts

def ofString (data : String) : PathReading α :=
  let t := PathTokens.ofString data
  ofTokens t.stop t.offender .start none t.tokens

end PathReading

end BoardPlotter
