import BoardPlotter.Proofs.PathData.Tracer
import BoardPlotter.Proofs.Text.Numeral

/-!
# Path data behind path data

Behind path data that is read to its end, more of it can be read as if it stood alone, if it
starts with an absolute moveto. No numeral goes on with blanks or a letter, so the tokens are
those of both texts (`PathToken.lex_append`); the letter completes the last group of the first
(`PathReading.ofString_append`); and an absolute moveto depends on nothing the pen did before
(`Pen.trace_append`).

`Tracer.run_concatenation`: the polylines are those of both texts, and the second decides on the
state and the error. Only the place told by the error is another.
-/

namespace BoardPlotter

open Text

/-! ## Tokens -/

/-- A token of a text that starts `k` characters later. -/
def LocatedToken.later (k : Nat) (t : LocatedToken) : LocatedToken :=
  { t with position := t.position + k }

/-- The tokens of a text that starts `k` characters later. -/
def PathTokens.later (k : Nat) (t : PathTokens) : PathTokens :=
  ⟨t.tokens.map (.later k), t.stop + k, t.offender⟩

namespace PathToken

variable {rest : List Char}

theorem scan?_append (h : Delimits rest) (c : Char) (cs : List Char) :
    scan? (c :: cs ++ rest) = (scan? (c :: cs)).map fun (t, r) => (t, r ++ rest) := by
  have number := Numeral.scan?_append h (c :: cs)
  rw [List.cons_append] at number ⊢
  rw [scan?, scan?]
  cases PathCommand.ofLetter? c with
  | some command => rfl
  | none =>
    by_cases comma : (c == ',') = true
    · simp only [if_pos comma]
      rfl
    · simp only [if_neg comma, number]
      cases Numeral.scan? (c :: cs) <;> rfl

theorem lex_blank {c : Char} (h : isBlank c) (p : Nat) (cs : List Char) :
    lex p (c :: cs) = lex (p + 1) cs := by
  rw [lex, if_pos h]

theorem lex_token {c : Char} (h : ¬ isBlank c) {cs r : List Char} {t : PathToken}
    (scanned : scan? (c :: cs) = some (t, r)) (p : Nat) :
    lex p (c :: cs) =
      let rest := lex (p + ((c :: cs).length - r.length)) r
      { rest with tokens := ⟨p, c, t⟩ :: rest.tokens } := by
  rw [lex, if_neg h]
  split
  · rename_i none_
    rw [scanned] at none_
    cases none_
  · rename_i eq
    rw [scanned] at eq
    cases eq
    rfl

theorem lex_offender {c : Char} (h : ¬ isBlank c) {cs : List Char}
    (scanned : scan? (c :: cs) = none) (p : Nat) : lex p (c :: cs) = ⟨[], p, some c⟩ := by
  rw [lex, if_neg h]
  split
  · rfl
  · rename_i eq
    rw [scanned] at eq
    cases eq

theorem lex_later (p k : Nat) (cs : List Char) : lex (p + k) cs = (lex p cs).later k := by
  fun_induction lex p cs with
  | case1 p => rw [lex]; rfl
  | case2 p c t blank ih =>
    rw [lex_blank blank, Nat.add_right_comm, ih]
  | case3 p c t blank none_ => rw [lex_offender blank none_]; rfl
  | case4 p c t blank token r scanned shorter _ ih =>
    rw [lex_token blank scanned, Nat.add_right_comm, ih]
    rfl

/-- Text that goes on with no numeral is read behind a text as on its own. -/
theorem lex_append (h : Delimits rest) (p : Nat) (cs : List Char)
    (complete : (lex p cs).offender = none) :
    lex p (cs ++ rest) =
      let behind := lex (p + cs.length) rest
      { behind with tokens := (lex p cs).tokens ++ behind.tokens } := by
  fun_induction lex p cs with
  | case1 p => rfl
  | case2 p c t blank ih =>
    rw [List.cons_append, lex_blank blank, ih complete, List.length_cons, Nat.add_assoc,
      Nat.add_comm 1]
  | case3 p c t blank none_ => cases complete
  | case4 p c t blank token r scanned shorter later ih =>
    have scanned' : scan? (c :: (t ++ rest)) = some (token, r ++ rest) := by
      rw [← List.cons_append, scan?_append h, scanned]
      rfl
    have length : (c :: (t ++ rest)).length - (r ++ rest).length = (c :: t).length - r.length := by
      simp only [List.length_cons, List.length_append]
      omega
    have place : p + ((c :: t).length - r.length) + r.length = p + (c :: t).length := by
      simp only [List.length_cons]
      omega
    rw [List.cons_append, lex_token blank scanned', length, ih complete, place]
    rfl

/-- Text whose first character other than a blank is an absolute moveto. -/
def MovesFirst (cs : List Char) : Prop := (cs.find? fun c => !isBlank c) = some 'M'

theorem MovesFirst.delimits {cs : List Char} (h : MovesFirst cs) : Delimits cs := by
  cases cs with
  | nil => cases h
  | cons c cs =>
    rintro c' ⟨⟩
    by_cases blank : isBlank c = true
    · exact isNumeric_of_isBlank blank
    · obtain rfl : c = 'M' := by simpa [MovesFirst, blank] using h
      decide

theorem MovesFirst.exists_tokens {cs : List Char} (h : MovesFirst cs) (p : Nat) :
    ∃ i c ts, (lex p cs).tokens = ⟨i, c, .command ⟨.moveTo, false⟩⟩ :: ts := by
  induction cs generalizing p with
  | nil => cases h
  | cons c cs ih =>
    by_cases blank : isBlank c = true
    · rw [lex_blank blank]
      exact ih (by simpa [MovesFirst, blank] using h) (p + 1)
    · obtain rfl : c = 'M' := by simpa [MovesFirst, blank] using h
      rw [lex_token blank (t := .command ⟨.moveTo, false⟩) rfl]
      exact ⟨_, _, _, rfl⟩

end PathToken

/-! ## Groups -/

namespace PathError

variable {α : Type}

/-- The error in a text that starts `k` characters later. -/
def later (k : Nat) : PathError α → PathError α
  | notMoveTo c p => notMoveTo c (p + k)
  | misplacedComma p => misplacedComma (p + k)
  | character c p => character c (p + k)
  | e => e

/-- The place that an error tells, if it tells one. -/
def position? : PathError α → Option Nat
  | notMoveTo _ p | misplacedComma p | character _ p => some p
  | _ => none

theorem later_eq_self {e : PathError α} (h : e.position? = none) (k : Nat) : e.later k = e := by
  cases e with
  | notMoveTo | misplacedComma | character => cases h
  | noArguments | partialSet | strayArguments | flag => rfl

/-- The end of a message that tells a place. -/
def place : Option Nat → String
  | none => ""
  | some p => " at position " ++ toString p

/-- The message of an error ends with its place, and nothing else in it depends on where the
text starts. -/
theorem message_later (e : PathError Float) :
    ∃ text, e.message = text ++ place e.position? ∧
      ∀ k, (e.later k).message = text ++ place (e.position?.map (· + k)) := by
  have behind (text : String) (p : Nat) :
      text ++ " at position " ++ toString p = text ++ place (some p) := String.append_assoc
  cases e with
  | notMoveTo c p =>
    let text := s!"path must start with moveto, got {quoted c.toString}"
    exact ⟨text, behind text p, fun k => behind text (p + k)⟩
  | character c p =>
    let text := s!"unexpected character {quoted c.toString}"
    exact ⟨text, behind text p, fun k => behind text (p + k)⟩
  | misplacedComma p =>
    have literal : "misplaced comma at position " = "misplaced comma" ++ " at position " := by
      decide +kernel
    have whole (p : Nat) : (misplacedComma p : PathError Float).message =
        "misplaced comma" ++ place (some p) := by
      rw [← behind, ← literal]
      rfl
    exact ⟨_, whole p, fun k => whole (p + k)⟩
  | noArguments | partialSet | strayArguments | flag =>
    exact ⟨_, String.append_empty.symm, fun _ => String.append_empty.symm⟩

end PathError

namespace PathReading

variable {α : Type} [Scalar α]

/-- Tokens further on in a text are read alike. -/
theorem ofTokens_later (k stop : Nat) (offender : Option Char) (state : ReaderState)
    (begun : Option (PathCommand × List α)) (ts : List LocatedToken) :
    let here := ofTokens stop offender state begun ts
    let there := ofTokens (stop + k) offender state begun (ts.map (.later k))
    there.commands = here.commands ∧ there.state = here.state ∧
      there.error = here.error.map (.later k) := by
  induction ts generalizing state begun with
  | nil =>
    cases offender with
    | none => cases begun <;> exact ⟨rfl, rfl, rfl⟩
    | some c => exact ⟨rfl, rfl, rfl⟩
  | cons t ts ih =>
    obtain ⟨p, c, token⟩ := t
    cases token with
    | command command =>
      simp only [List.map_cons, LocatedToken.later, ofTokens]
      split
      · exact ⟨rfl, rfl, rfl⟩
      · obtain ⟨commands, state', error⟩ := ih .command (some (command, []))
        refine ⟨?_, state', error⟩
        simp only [PathReading.commands, List.map_append] at commands ⊢
        rw [commands]
        cases begun <;> rfl
    | comma =>
      simp only [List.map_cons, LocatedToken.later, ofTokens]
      split
      · exact ih _ _
      · exact ⟨rfl, rfl, rfl⟩
    | number n =>
      simp only [List.map_cons, LocatedToken.later, ofTokens]
      split
      · exact ⟨rfl, rfl, rfl⟩
      · exact ih _ _

/-- Behind tokens that are read to their end, a moveto is read as at the start. -/
theorem ofTokens_append {stop : Nat} (stop' : Nat) (offender : Option Char) {state : ReaderState}
    {begun : Option (PathCommand × List α)} {ts moved : List LocatedToken}
    (ended : (ofTokens stop none state begun ts).error = none)
    (moves : ∃ i c rest, moved = ⟨i, c, .command ⟨.moveTo, false⟩⟩ :: rest) :
    let first := ofTokens stop none state begun ts
    let second : PathReading α := ofTokens stop' offender .start none moved
    let whole := ofTokens stop' offender state begun (ts ++ moved)
    whole.commands = first.commands ++ second.commands ∧ whole.state = second.state ∧
      whole.error = second.error := by
  induction ts generalizing state begun with
  | nil =>
    obtain ⟨i, c, rest, rfl⟩ := moves
    refine ⟨?_, by simp [ofTokens], by simp [ofTokens]⟩
    simp only [List.nil_append, ofTokens, ne_eq, not_true_eq_false, and_false, if_false, commands,
      List.map_append]
    cases begun <;> rfl
  | cons t ts ih =>
    obtain ⟨p, c, token⟩ := t
    cases token with
    | command command =>
      simp only [List.cons_append, ofTokens] at ended ⊢
      split at ended
      · cases ended
      · obtain ⟨commands, state', error⟩ := ih ended
        rw [if_neg ‹_›, if_neg ‹_›]
        refine ⟨?_, state', error⟩
        simp only [PathReading.commands, List.map_append, List.append_assoc] at commands ⊢
        rw [commands]
    | comma =>
      simp only [List.cons_append, ofTokens] at ended ⊢
      split at ended
      · rw [if_pos ‹_›, if_pos ‹_›]
        exact ih ended
      · cases ended
    | number n =>
      simp only [List.cons_append, ofTokens] at ended ⊢
      split at ended
      · cases ended
      · rw [if_neg ‹_›, if_neg ‹_›]
        exact ih ended

/-- Reading that ended without an error met no character that starts no token. -/
theorem offender_of_ofTokens {stop : Nat} {offender : Option Char} {state : ReaderState}
    {begun : Option (PathCommand × List α)} {ts : List LocatedToken}
    (ended : (ofTokens stop offender state begun ts).error = none) : offender = none := by
  fun_induction ofTokens stop offender state begun ts with
  | case1 => assumption
  | case2 | case3 | case6 | case7 => cases ended
  | case4 | case5 | case8 =>
    rename_i ih
    exact ih ended

theorem head_commands_of_begun (stop : Nat) (offender : Option Char) (state : ReaderState)
    (command : PathCommand) (args : List α) (ts : List LocatedToken) :
    ∀ g ∈ (ofTokens stop offender state (some (command, args)) ts).commands.head?,
      g.command = command := by
  induction ts generalizing state args with
  | nil =>
    rintro g member
    cases offender <;> cases member
    rfl
  | cons t ts ih =>
    obtain ⟨p, c, token⟩ := t
    simp only [ofTokens]
    cases token with
    | command next =>
      dsimp only
      split
      · rintro g ⟨⟩
      · rintro g ⟨⟩
        rfl
    | comma =>
      dsimp only
      split
      · exact ih _ _
      · rintro g ⟨⟩
    | number n =>
      dsimp only
      split
      · rintro g ⟨⟩
      · exact ih _ _

/-- The first group of a text that starts with an absolute moveto is one. -/
theorem head_commands {q : String} (moves : PathToken.MovesFirst q.toList) :
    ∀ g ∈ (ofString q : PathReading α).commands.head?, g.command = ⟨.moveTo, false⟩ := by
  obtain ⟨i, c, ts, eq⟩ := moves.exists_tokens 0
  rw [ofString, PathTokens.ofString, eq]
  simpa [ofTokens, complete, commands] using
    head_commands_of_begun (α := α) (PathToken.lex 0 q.toList).stop
      (PathToken.lex 0 q.toList).offender .command ⟨.moveTo, false⟩ [] ts

/-- **Reading.** Behind a text that is read to its end, a text that starts with an absolute
moveto is read as on its own. -/
theorem ofString_append {p q : String} (ended : (ofString p : PathReading α).error = none)
    (moves : PathToken.MovesFirst q.toList) :
    let first : PathReading α := ofString p
    let second : PathReading α := ofString q
    let whole : PathReading α := ofString (p ++ q)
    whole.commands = first.commands ++ second.commands ∧ whole.state = second.state ∧
      whole.error = second.error.map (.later p.length) := by
  have complete := offender_of_ofTokens ended
  let t := (PathTokens.ofString q).later p.length
  have tokens : PathTokens.ofString (p ++ q) =
      { t with tokens := (PathTokens.ofString p).tokens ++ t.tokens } := by
    have append := PathToken.lex_append moves.delimits 0 p.toList complete
    rw [PathToken.lex_later, String.length_toList] at append
    rw [PathTokens.ofString, String.toList_append, append]
    rfl
  have moved : ∃ i c rest, t.tokens = ⟨i, c, .command ⟨.moveTo, false⟩⟩ :: rest := by
    obtain ⟨i, c, rest, eq⟩ := moves.exists_tokens 0
    exact ⟨_, _, _, congrArg (List.map (LocatedToken.later p.length)) eq⟩
  have first : (ofString p : PathReading α) = ofTokens (PathTokens.ofString p).stop none .start none
      (PathTokens.ofString p).tokens := by
    rw [ofString, complete]
  have whole : (ofString (p ++ q) : PathReading α) =
      ofTokens t.stop t.offender .start none ((PathTokens.ofString p).tokens ++ t.tokens) := by
    rw [ofString, tokens]
  rw [first] at ended
  obtain ⟨behind, state, error⟩ := ofTokens_append t.stop t.offender ended moved
  obtain ⟨commands', state', error'⟩ := ofTokens_later (α := α) p.length
    (PathTokens.ofString q).stop (PathTokens.ofString q).offender .start none
    (PathTokens.ofString q).tokens
  rw [← whole, ← first] at behind
  rw [← whole] at state error
  exact ⟨behind.trans (congrArg _ commands'), state.trans state', error.trans error'⟩

end PathReading

/-! ## Steps -/

namespace PathStep

variable {α : Type} [Scalar α]

theorem position?_of_flag {letter : Char} {name : String} {x : α} {e : PathError α}
    (h : flag letter name x = .error e) : e.position? = none := by
  rw [flag] at h
  split at h
  · cases h
  · split at h <;> cases h
    rfl

theorem position?_of_motionOf {letter : Char} {verb : PathVerb} {args : List α} {e : PathError α}
    (h : motionOf letter verb args = .error e) : e.position? = none := by
  rw [motionOf.eq_def] at h
  split at h
  case h_10 rx ry rotation large sweep x y =>
    cases largeFlag : flag letter "large-arc" large with
    | error e' =>
      rw [largeFlag] at h
      cases h
      exact position?_of_flag largeFlag
    | ok l =>
      cases sweepFlag : flag letter "sweep" sweep with
      | error e' =>
        rw [largeFlag, sweepFlag] at h
        cases h
        exact position?_of_flag sweepFlag
      | ok s =>
        rw [largeFlag, sweepFlag] at h
        cases h
  case h_11 =>
    cases h
    rfl
  all_goals cases h

/-- No error of a step tells a place. -/
theorem position?_of_mem_ofGroup {g : CommandGroup α} {e : PathError α}
    (h : .error e ∈ ofGroup g) : e.position? = none := by
  rw [ofGroup_eq, List.mem_append] at h
  rcases h with set | left
  · obtain ⟨set, -, eq⟩ := List.mem_map.mp set
    rw [ofSet] at eq
    cases motion : motionOf set.1.letter set.1.verb set.2 with
    | ok m =>
      rw [motion] at eq
      cases eq
    | error e' =>
      rw [motion] at eq
      cases eq
      exact position?_of_motionOf motion
  · obtain ⟨e', member, ⟨⟩⟩ := List.mem_map.mp left
    rw [Option.mem_toList, CommandGroup.leftover?] at member
    split at member <;> split at member
    · cases member
    · cases member
      rfl
    · cases member
      rfl
    · split at member <;> cases member
      rfl

omit [Scalar α] in
/-- The errors of steps stay where the text starts later, and the one that ended reading moves
along. -/
theorem untilError_later (k : Nat) {results : List (Except (PathError α) (PathStep α))}
    (unplaced : ∀ e, .error e ∈ results → e.position? = none) (ending : Option (PathError α)) :
    let here := untilError (results ++ ending.toList.map .error)
    untilError (results ++ (ending.map (.later k)).toList.map .error) =
      (here.1, here.2.map (.later k)) := by
  induction results with
  | nil => cases ending <;> rfl
  | cons r rest ih =>
    cases r with
    | error e =>
      have same := PathError.later_eq_self (unplaced e List.mem_cons_self) k
      exact congrArg (fun e => ([], some e)) same.symm
    | ok s =>
      rw [List.cons_append, untilError, List.cons_append, untilError,
        ih fun e member => unplaced e (List.mem_cons_of_mem _ member)]

/-- The steps of groups the first of which are absolute movetos begin with one, if there are
any. -/
theorem head_ofReading_moveTo {r : PathReading α}
    (first : ∀ g ∈ r.commands.head?, g.command = ⟨.moveTo, false⟩) :
    ∀ s ∈ (untilError (ofReading r)).1.head?, ∃ p, s = ⟨false, .moveTo p⟩ := by
  rw [ofReading_eq]
  cases groups : r.commands with
  | nil => cases r.error <;> simp [untilError]
  | cons g gs =>
    obtain ⟨command, args⟩ := g
    obtain rfl : command = ⟨.moveTo, false⟩ := first _ (by rw [groups]; rfl)
    rw [List.flatMap_cons, List.append_assoc]
    exact head_untilError_moveTo args _

end PathStep

namespace Pen

variable {α : Type} [Scalar α] (f : Flattening α) (pen : Pen α)

/-- Steps that begin with an absolute moveto, if there are any, are traced alike from
everywhere. -/
theorem trace_eq_initial {steps : List (PathStep α)}
    (start : ∀ s ∈ steps.head?, ∃ p, s = ⟨false, .moveTo p⟩) :
    pen.trace f steps = initial.trace f steps := by
  cases steps with
  | nil => rfl
  | cons s steps =>
    obtain ⟨p, rfl⟩ := start s rfl
    rfl

theorem head_of_trace {steps : List (PathStep α)} {events : List (PenEvent α)}
    (start : ∀ s ∈ steps.head?, ∃ p, s = ⟨false, .moveTo p⟩)
    (traced : pen.trace f steps = .ok events) : ∀ e ∈ events.head?, ∃ p, e = .lifted p := by
  cases steps with
  | nil =>
    cases traced
    simp
  | cons s steps =>
    obtain ⟨p, rfl⟩ := start s rfl
    change (do return .lifted p :: (← trace f ⟨p, p, .blank⟩ steps)) = Except.ok events at traced
    cases rest : trace f ⟨p, p, .blank⟩ steps with
    | error e =>
      rw [rest] at traced
      cases traced
    | ok later =>
      rw [rest] at traced
      cases traced
      rintro e ⟨⟩
      exact ⟨p, rfl⟩

/-- Behind other steps an absolute moveto begins as at the start. -/
theorem trace_append (before : List (PathStep α)) {steps : List (PathStep α)}
    (start : ∀ s ∈ steps.head?, ∃ p, s = ⟨false, .moveTo p⟩) :
    pen.trace f (before ++ steps) = do
      let first ← pen.trace f before
      let second ← initial.trace f steps
      return first ++ second := by
  induction before generalizing pen with
  | nil =>
    rw [List.nil_append, trace_eq_initial f pen start]
    exact (bind_pure _).symm
  | cons s before ih =>
    rw [List.cons_append, trace, trace]
    cases step : pen.step f s with
    | error e => rfl
    | ok answer =>
      obtain ⟨next, event⟩ := answer
      change (do return event :: (← next.trace f (before ++ steps))) = (do
        let first ← (do return event :: (← next.trace f before))
        let second ← initial.trace f steps
        return first ++ second)
      simp [ih]

end Pen

/-- The outlines of events that begin with a moveto, if there are any, follow those before
them. -/
theorem PenEvent.outlines_append {α : Type} (before : List (PenEvent α))
    {events : List (PenEvent α)} (start : ∀ e ∈ events.head?, ∃ p, e = .lifted p) :
    outlines (before ++ events) =
      ((outlines before).1, (outlines before).2 ++ (outlines events).2) := by
  induction before with
  | nil =>
    cases events with
    | nil => rfl
    | cons e events =>
      obtain ⟨p, rfl⟩ := start e rfl
      rfl
  | cons e before ih => cases e <;> simp [outlines, ih]

/-! ## Drawings -/

namespace PathDrawing

variable {α : Type} [Scalar α] (f : Flattening α) (finish : Finish α)

/-- Steps that begin with an absolute moveto, if there are any, draw behind others what they
draw on their own. -/
theorem polylinesOf_append (before : List (PathStep α)) {steps : List (PathStep α)}
    (start : ∀ s ∈ steps.head?, ∃ p, s = ⟨false, .moveTo p⟩) :
    polylinesOf f finish (before ++ steps) = do
      let first ← polylinesOf f finish before
      let second ← polylinesOf f finish steps
      return first ++ second := by
  rw [polylinesOf, polylinesOf, polylinesOf, Pen.trace_append f _ before start]
  cases first : Pen.initial.trace f before with
  | error e => rfl
  | ok events =>
    cases second : Pen.initial.trace f steps with
    | error e => rfl
    | ok later =>
      have outlines := PenEvent.outlines_append events (Pen.head_of_trace f _ start second)
      change Except.ok _ = Except.ok _
      rw [outlines]
      simp

theorem of_ofString_eq_ok {p : String} {d : PathDrawing α} (h : ofString f finish p = .ok d) :
    let steps := PathStep.untilError (PathStep.ofReading (PathReading.ofString p))
    polylinesOf f finish steps.1 = .ok d.polylines ∧ steps.2 = d.error := by
  intro steps
  change (do
    let polylines ← polylinesOf f finish steps.1
    return PathDrawing.mk polylines _ steps.2) = Except.ok d at h
  cases drawn : polylinesOf f finish steps.1 with
  | error e =>
    rw [drawn] at h
    cases h
  | ok polylines =>
    rw [drawn] at h
    cases h
    exact ⟨rfl, rfl⟩

/-- **Drawing.** Behind a text that is drawn without an error, a text that starts with an
absolute moveto is drawn as on its own. -/
theorem ofString_append {p q : String} {d : PathDrawing α} (accepted : ofString f finish p = .ok d)
    (clean : d.error = none) (moves : PathToken.MovesFirst q.toList) :
    ofString f finish (p ++ q) = (ofString f finish q).map fun e =>
      ⟨d.polylines ++ e.polylines, e.state, e.error.map (.later p.length)⟩ := by
  obtain ⟨drawn, noError⟩ := of_ofString_eq_ok f finish accepted
  obtain ⟨before, sound⟩ := PathStep.untilError_eq_none (noError.trans clean)
  have read := sound
  rw [PathStep.ofReading_eq] at read
  have ended : (PathReading.ofString p : PathReading α).error = none := by
    cases error : (PathReading.ofString p : PathReading α).error with
    | none => rfl
    | some e =>
      have member : .error e ∈ before.map Except.ok := by
        rw [← read, error]
        simp
      simp at member
  obtain ⟨commands, state, error⟩ := PathReading.ofString_append (α := α) ended moves
  rw [sound, PathStep.untilError_map_ok] at drawn
  rw [ended, Option.toList_none, List.map_nil, List.append_nil] at read
  let here := PathStep.untilError (PathStep.ofReading (PathReading.ofString q : PathReading α))
  have whole : PathStep.untilError (PathStep.ofReading (PathReading.ofString (p ++ q))) =
      (before ++ here.1, here.2.map (.later p.length)) := by
    have unplaced : ∀ e, .error e ∈ (PathReading.ofString q : PathReading α).commands.flatMap
        PathStep.ofGroup → e.position? = none := by
      intro e member
      obtain ⟨g, -, member⟩ := List.mem_flatMap.mp member
      exact PathStep.position?_of_mem_ofGroup member
    rw [PathStep.ofReading_eq, commands, error, List.flatMap_append, read, List.append_assoc,
      PathStep.untilError_ok_append, PathStep.untilError_later p.length unplaced,
      ← PathStep.ofReading_eq]
  have start : ∀ s ∈ here.1.head?, ∃ p, s = ⟨false, .moveTo p⟩ :=
    PathStep.head_ofReading_moveTo (PathReading.head_commands moves)
  rw [ofString, ofString, whole]
  change (do
      let polylines ← polylinesOf f finish (before ++ here.1)
      return PathDrawing.mk polylines _ _) = Except.map _ (do
      let polylines ← polylinesOf f finish here.1
      return PathDrawing.mk polylines _ _)
  rw [polylinesOf_append f finish before start, drawn, state, Option.isSome_map]
  cases polylinesOf f finish here.1 <;> rfl

end PathDrawing

/-- **Concatenation.** Path data that is drawn without an error, with data behind it that starts
with an absolute moveto, is drawn one after the other: the polylines are those of both, the
state is that in which the second ends, and so is the error, with its place counted from the
start of the first. What was drawn before either run does not matter. -/
theorem Tracer.run_concatenation {f : Flattening Float} {finish : Finish Float} {t₁ : Tracer Float}
    {p q : String} {d : PathDrawing Float} (accepted : t₁.run f finish p = .ok d)
    (clean : d.error = none) (moves : PathToken.MovesFirst q.toList) (t t₂ : Tracer Float) :
    (t.run f finish (p ++ q) = (t₂.run f finish q).map fun e =>
      ⟨d.polylines ++ e.polylines, e.state, e.error.map (.later p.length)⟩) ∧
    ∀ e : PathError Float, ∃ text, e.message = text ++ PathError.place e.position? ∧
      (e.later p.length).message = text ++ PathError.place (e.position?.map (· + p.length)) := by
  rw [Tracer.run_eq] at accepted ⊢
  rw [Tracer.run_eq]
  refine ⟨PathDrawing.ofString_append f finish accepted clean moves, fun e => ?_⟩
  obtain ⟨text, here, there⟩ := e.message_later
  exact ⟨text, here, there p.length⟩

/-- The second path ends at a character that starts no token, behind a step of its own. -/
theorem Tracer.run_concatenation_offender :
    let f : Flattening Float := ⟨0.1, none, 16⟩
    let finish : Finish Float := ⟨.identity, true⟩
    let d : PathDrawing Float := ⟨[⟨⟨0, 0⟩, [⟨1, 1⟩, ⟨0, 0⟩], true⟩], .number, none⟩
    idle.run f finish "m0 0 1 1" = .ok d ∧ d.error = none ∧
      PathToken.MovesFirst " M2 2L3 3Z?".toList ∧
      idle.run f finish ("m0 0 1 1" ++ " M2 2L3 3Z?") =
        (idle.run f finish " M2 2L3 3Z?").map fun e =>
          ⟨d.polylines ++ e.polylines, e.state, e.error.map (.later 8)⟩ := by
  intro f finish d
  have accepted : idle.run f finish "m0 0 1 1" = .ok d := by
    have drawn : (idle.run f finish "m0 0 1 1").toOption = some d := by decide +kernel
    cases run : idle.run f finish "m0 0 1 1" with
    | error e =>
      rw [run] at drawn
      cases drawn
    | ok drawing =>
      rw [run] at drawn
      rw [Option.some.inj drawn]
  have moves : PathToken.MovesFirst " M2 2L3 3Z?".toList := by
    rw [PathToken.MovesFirst]
    decide +kernel
  exact ⟨accepted, rfl, moves, (run_concatenation accepted rfl moves idle idle).1⟩

end BoardPlotter
