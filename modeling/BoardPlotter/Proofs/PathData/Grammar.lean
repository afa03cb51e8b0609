import BoardPlotter.Proofs.PathData.Tokens
import Mathlib.Data.List.Induction

/-!
# The grammar of path data

A text of letters, commas and numerals may still have one that stands where it cannot: the
first token has to be a moveto, and a comma to follow a number (`LocatedToken.Misplaced`).

`PathReading.ofString_grammar`: reading ends at the first misplaced token or the first
character that starts none, and gives the groups whose next letter comes before that. Else it
gives one group for each letter.
-/

namespace BoardPlotter

namespace PathToken

/-- What the reader read last, behind this token. -/
def leaves : PathToken → ReaderState
  | command _ => .command
  | comma => .comma
  | number _ => .number

end PathToken

/-- What the reader read last, behind tokens that follow. -/
def ReaderState.behind : ReaderState → List LocatedToken → ReaderState
  | state, [] => state
  | _, t :: ts => behind t.token.leaves ts

namespace LocatedToken

variable {α : Type}

def command? (t : LocatedToken) : Option PathCommand :=
  match t.token with
  | .command command => some command
  | _ => none

def isCommand (t : LocatedToken) : Bool := t.command?.isSome

def value? [Scalar α] (t : LocatedToken) : Option α :=
  match t.token with
  | .number n => some n.value
  | _ => none

/-- What is wrong with a token that stands where it cannot. -/
def complaint (t : LocatedToken) : PathError α :=
  match t.token with
  | .command _ => .notMoveTo t.char t.position
  | .comma => .misplacedComma t.position
  | .number _ => .character t.char t.position

/-- A token that cannot stand behind the tokens `before`: the first one of a text is a moveto,
and a comma follows a number. -/
def Misplaced (before : List LocatedToken) (t : LocatedToken) : Prop :=
  (before = [] ∧ ∀ relative, t.token ≠ .command ⟨.moveTo, relative⟩) ∨
    (t.token = .comma ∧ ∀ last ∈ before.getLast?, ∀ n, last.token ≠ .number n)

/-- A token that can stand where the reader read `state` last. -/
def Fits (state : ReaderState) (t : LocatedToken) : Prop :=
  (state = .start → ∃ relative, t.token = .command ⟨.moveTo, relative⟩) ∧
    (t.token = .comma → state = .number)

end LocatedToken

/-- No token is misplaced. -/
def WellPlaced (ts : List LocatedToken) : Prop :=
  ∀ before t after, ts = before ++ t :: after → ¬ t.Misplaced before

/-- The group of a letter and the numbers up to the next one, which completes it, or up to
`ending` if there is no further letter. It is never complete if there is neither. -/
def CommandGroup.closing {α : Type} [Scalar α] (ending : Option Nat) (command : PathCommand)
    (args : List α) (state : ReaderState) (ts : List LocatedToken) : Option (ReadGroup α) :=
  let own := ts.takeWhile fun t => !t.isCommand
  let next := (ts.find? LocatedToken.isCommand).map LocatedToken.position
  (next.or ending).map fun place =>
    ⟨⟨command, args ++ own.filterMap LocatedToken.value?⟩, state.behind own, place⟩

/-- The groups of tokens, one for each letter that another or an ending completes. -/
def sections {α : Type} [Scalar α] (ending : Option Nat) : List LocatedToken → List (ReadGroup α)
  | [] => []
  | t :: ts =>
    match t.token with
    | .command command =>
      (CommandGroup.closing ending command [] .command ts).toList ++ sections ending ts
    | _ => sections ending ts

theorem ReaderState.behind_append (state : ReaderState) (ts : List LocatedToken)
    (t : LocatedToken) : state.behind (ts ++ [t]) = t.token.leaves := by
  induction ts generalizing state with
  | nil => rfl
  | cons t' ts ih => exact ih t'.token.leaves

theorem PathToken.leaves_eq_number_iff {t : PathToken} :
    t.leaves = .number ↔ ∃ n, t = .number n := by
  cases t <;> simp [leaves]

/-- A token is misplaced where it does not fit what was read last. -/
theorem LocatedToken.misplaced_iff {before : List LocatedToken} {t : LocatedToken} :
    t.Misplaced before ↔ ¬ t.Fits (ReaderState.start.behind before) := by
  obtain rfl | ⟨earlier, last, rfl⟩ := before.eq_nil_or_concat
  · constructor
    · rintro (⟨-, other⟩ | ⟨comma, -⟩) ⟨first, follows⟩
      · obtain ⟨relative, moves⟩ := first rfl
        exact other relative moves
      · cases follows comma
    · intro misfit
      refine .inl ⟨rfl, ?_⟩
      intro relative moves
      refine misfit ⟨fun _ => ⟨relative, moves⟩, ?_⟩
      intro comma
      cases moves.symm.trans comma
  · rw [Misplaced, Fits, List.concat_eq_append, ReaderState.behind_append,
      PathToken.leaves_eq_number_iff]
    have inside : last.token.leaves ≠ .start := by cases last.token <;> simp [PathToken.leaves]
    simp [inside]

/-- Each token of a well placed text fits what was read before it. -/
theorem WellPlaced.fits {ts : List LocatedToken} (h : WellPlaced ts) :
    ∀ before t after, ts = before ++ t :: after → t.Fits (ReaderState.start.behind before) := by
  intro before t after split
  have fine := h before t after split
  rwa [LocatedToken.misplaced_iff, Classical.not_not] at fine

/-- A text is well placed up to its first misplaced token. -/
theorem exists_first_misplaced (ts : List LocatedToken) :
    WellPlaced ts ∨
      ∃ before t after, ts = before ++ t :: after ∧ WellPlaced before ∧ t.Misplaced before := by
  induction ts using List.reverseRecOn with
  | nil =>
    left
    intro before t after split
    cases List.append_eq_nil_iff.mp split.symm |>.2
  | append_singleton ts last ih =>
    rcases ih with fine | ⟨before, t, after, rfl, fine, misplaced⟩
    · by_cases misplaced : last.Misplaced ts
      · exact .inr ⟨ts, last, [], rfl, fine, misplaced⟩
      · left
        intro before t after split
        obtain rfl | ⟨later, end_, rfl⟩ := after.eq_nil_or_concat
        · obtain ⟨rfl, ⟨⟩⟩ := List.append_inj' split rfl
          exact misplaced
        · have shorter : ts ++ [last] = (before ++ t :: later) ++ [end_] := by
            simpa using split
          obtain ⟨rfl, -⟩ := List.append_inj' shorter rfl
          exact fine before t later rfl
    · exact .inr ⟨before, t, after ++ [last], by simp, fine, misplaced⟩

namespace CommandGroup

variable {α : Type} [Scalar α] (ending : Option Nat) (command : PathCommand) (args : List α)
  (state : ReaderState) (p : Nat) (c : Char) (ts : List LocatedToken)

theorem closing_nil : closing ending command args state [] =
    ending.map fun place => ⟨⟨command, args⟩, state, place⟩ := by
  simp [closing, ReaderState.behind]

theorem closing_command (next : PathCommand) :
    closing ending command args state (⟨p, c, .command next⟩ :: ts) =
      some ⟨⟨command, args⟩, state, p⟩ := by
  simp [closing, LocatedToken.isCommand, LocatedToken.command?, ReaderState.behind]

theorem closing_comma : closing ending command args state (⟨p, c, .comma⟩ :: ts) =
    closing ending command args .comma ts := by
  have other : LocatedToken.isCommand ⟨p, c, .comma⟩ = false := rfl
  have bare : LocatedToken.value? ⟨p, c, .comma⟩ = (none : Option α) := rfl
  simp [closing, other, bare, PathToken.leaves, ReaderState.behind]

theorem closing_number (n : Numeral) :
    closing ending command args state (⟨p, c, .number n⟩ :: ts) =
      closing ending command (args ++ [n.value]) .number ts := by
  have other : LocatedToken.isCommand ⟨p, c, .number n⟩ = false := rfl
  have value : LocatedToken.value? ⟨p, c, .number n⟩ = some (n.value : α) := rfl
  simp [closing, other, value, PathToken.leaves, ReaderState.behind]

end CommandGroup

namespace PathReading

variable {α : Type} [Scalar α]

/-- Tokens that fit are read into their groups. Only the ending is left to what follows. -/
theorem ofTokens_append_of_fits {stop place : Nat} {offender : Option Char} {ending : Option Nat}
    {state last : ReaderState} {error : Option (PathError α)} {ts more : List LocatedToken}
    (fits : ∀ before t after, ts = before ++ t :: after → t.Fits (state.behind before))
    (follows : ∀ begun, ofTokens stop offender (state.behind ts) begun more =
      ⟨ending.toList.flatMap (complete begun (state.behind ts)), last, place, error⟩)
    (begun : Option (PathCommand × List α)) :
    ofTokens stop offender state begun (ts ++ more) =
      ⟨begun.toList.flatMap (fun (command, args) =>
          (CommandGroup.closing ending command args.reverse state ts).toList) ++
        sections ending ts, last, place, error⟩ := by
  induction ts generalizing state begun with
  | nil =>
    rw [List.nil_append]
    refine (follows begun).trans ?_
    cases begun <;> cases ending <;>
      simp [CommandGroup.closing_nil, sections, complete, ReaderState.behind]
  | cons t ts ih =>
    obtain ⟨first, comma⟩ : t.Fits state := fits [] t ts rfl
    have later : ∀ before t' after, ts = before ++ t' :: after →
        t'.Fits (t.token.leaves.behind before) := by
      intro before t' after split
      exact fits (t :: before) t' after (congrArg (t :: ·) split)
    have rest := ih later follows
    obtain ⟨p, c, token⟩ := t
    simp only [PathToken.leaves] at rest
    cases token with
    | command command =>
      have moves : ¬ (state = .start ∧ command.verb ≠ .moveTo) := by
        rintro ⟨start, other⟩
        obtain ⟨relative, eq⟩ := first start
        cases eq
        exact other rfl
      rw [List.cons_append, ofTokens]
      simp only [if_neg moves]
      rw [rest]
      cases begun <;> simp [CommandGroup.closing_command, sections, complete]
    | comma =>
      rw [List.cons_append, ofTokens]
      simp only [if_pos (comma rfl)]
      rw [rest]
      simp only [CommandGroup.closing_comma, sections]
    | number n =>
      have inside : state ≠ .start := by
        intro start
        obtain ⟨relative, eq⟩ := first start
        cases eq
      rw [List.cons_append, ofTokens]
      simp only [if_neg inside]
      rw [rest]
      cases begun <;> simp [CommandGroup.closing_number, sections]

/-- Reading ends at a token that does not fit. -/
theorem ofTokens_of_misfit {state : ReaderState} {t : LocatedToken} (h : ¬ t.Fits state)
    (stop : Nat) (offender : Option Char) (begun : Option (PathCommand × List α))
    (ts : List LocatedToken) :
    ofTokens stop offender state begun (t :: ts) =
      ⟨[], .error, t.position, some t.complaint⟩ := by
  obtain ⟨p, c, token⟩ := t
  cases token with
  | command command =>
    have other : state = .start ∧ command.verb ≠ .moveTo := by
      by_contra moves
      refine h ⟨?_, ?_⟩
      · intro start
        obtain ⟨verb, relative⟩ := command
        obtain rfl : verb = .moveTo := Classical.not_not.mp fun other => moves ⟨start, other⟩
        exact ⟨relative, rfl⟩
      · intro comma
        cases comma
    rw [ofTokens, if_pos other]
    rfl
  | comma =>
    have other : state ≠ .number := by
      rintro rfl
      refine h ⟨?_, fun _ => rfl⟩
      intro start
      cases start
    rw [ofTokens, if_neg other]
    rfl
  | number n =>
    have start : state = .start := by
      by_contra inside
      refine h ⟨fun start => absurd start inside, ?_⟩
      intro comma
      cases comma
    rw [ofTokens, if_pos start]
    rfl

/-- A reading of tokens. Up to the end of a well placed text each letter has its group. Else
reading ends at the first misplaced token or the character that starts none, and the last
letter before that has no group. -/
inductive Of (ts : PathTokens) : PathReading α → Prop
  | ended : WellPlaced ts.tokens → ts.offender = none →
      Of ts ⟨sections (some ts.stop) ts.tokens, ReaderState.start.behind ts.tokens, ts.stop, none⟩
  | stopped {c : Char} : WellPlaced ts.tokens → ts.offender = some c →
      Of ts ⟨sections none ts.tokens, .error, ts.stop, some (.character c ts.stop)⟩
  | misplaced {before : List LocatedToken} {t : LocatedToken} {after : List LocatedToken} :
      ts.tokens = before ++ t :: after → WellPlaced before → t.Misplaced before →
      Of ts ⟨sections none before, .error, t.position, some t.complaint⟩

theorem Of.eq_ofTokens {ts : PathTokens} {reading : PathReading α} (h : reading.Of ts) :
    reading = ofTokens ts.stop ts.offender .start none ts.tokens := by
  cases h with
  | ended placed complete_ =>
    have follows (begun : Option (PathCommand × List α)) :
        ofTokens ts.stop none (ReaderState.start.behind ts.tokens) begun [] =
          ⟨(some ts.stop).toList.flatMap (complete begun (ReaderState.start.behind ts.tokens)),
            ReaderState.start.behind ts.tokens, ts.stop, none⟩ := by
      simp [ofTokens]
    have whole := ofTokens_append_of_fits placed.fits follows none
    rw [complete_]
    simpa using whole.symm
  | @stopped c placed offends =>
    have follows (begun : Option (PathCommand × List α)) :
        ofTokens ts.stop (some c) (ReaderState.start.behind ts.tokens) begun [] =
          ⟨(none : Option Nat).toList.flatMap
              (complete begun (ReaderState.start.behind ts.tokens)),
            .error, ts.stop, some (.character c ts.stop)⟩ := by
      simp [ofTokens, failed]
    have whole := ofTokens_append_of_fits placed.fits follows none
    rw [offends]
    simpa using whole.symm
  | @misplaced before t after split placed stray =>
    have follows (begun : Option (PathCommand × List α)) :
        ofTokens ts.stop ts.offender (ReaderState.start.behind before) begun (t :: after) =
          ⟨(none : Option Nat).toList.flatMap (complete begun (ReaderState.start.behind before)),
            .error, t.position, some t.complaint⟩ :=
      ofTokens_of_misfit (LocatedToken.misplaced_iff.mp stray) ts.stop ts.offender begun after
    have whole := ofTokens_append_of_fits placed.fits follows none
    rw [split]
    simpa using whole.symm

theorem Of.error_eq_none_iff {ts : PathTokens} {reading : PathReading α} (h : reading.Of ts) :
    reading.error = none ↔ WellPlaced ts.tokens ∧ ts.offender = none := by
  cases h with
  | ended placed complete_ => exact iff_of_true rfl ⟨placed, complete_⟩
  | stopped _ offends => simp [offends]
  | misplaced split _ stray =>
    refine iff_of_false nofun ?_
    rintro ⟨placed, -⟩
    exact placed _ _ _ split stray

theorem exists_of (ts : PathTokens) : ∃ reading : PathReading α, reading.Of ts := by
  rcases exists_first_misplaced ts.tokens with placed | ⟨before, t, after, split, placed, stray⟩
  · cases offends : ts.offender with
    | none => exact ⟨_, .ended placed offends⟩
    | some c => exact ⟨_, .stopped placed offends⟩
  · exact ⟨_, .misplaced split placed stray⟩

/-- Tokens have one reading, the one that is read. -/
theorem of_iff {ts : PathTokens} {reading : PathReading α} :
    reading.Of ts ↔ reading = ofTokens ts.stop ts.offender .start none ts.tokens := by
  constructor
  · exact Of.eq_ofTokens
  · rintro rfl
    obtain ⟨reading, h⟩ := exists_of (α := α) ts
    exact h.eq_ofTokens ▸ h

/-- **Grammar.** Every text is letters, commas and numerals, each as long as it can be, up to its
end or the first character that starts none. It is read to its end where no token is misplaced
and no character is left over: then each letter has its group. Else reading ends at the first
token or character that is wrong, with the groups whose next letter comes before that. -/
theorem ofString_grammar (data : String) :
    ∃ ts, PathToken.Tokenizes 0 data.toList ts ∧
      (∀ ts', PathToken.Tokenizes 0 data.toList ts' → ts' = ts) ∧
      (∀ t ∈ ts.tokens, data.toList[t.position]? = some t.char) ∧
      data.toList[ts.stop]? = ts.offender ∧ (ts.offender = none → ts.stop = data.length) ∧
      ((ofString data : PathReading α).error = none ↔
        WellPlaced ts.tokens ∧ ts.offender = none) ∧
      ∀ reading : PathReading α, reading.Of ts ↔ reading = ofString data := by
  have tokenizes := PathToken.tokenizes_iff.mpr (Eq.refl (PathToken.lex 0 data.toList))
  obtain ⟨positions, stop, complete⟩ := tokenizes.positions (List.length_nil (α := Char))
  refine ⟨_, tokenizes, ?_, positions, stop, complete, ?_, fun reading => of_iff⟩
  · intro ts' other
    exact (PathToken.tokenizes_iff.mp other).symm
  · exact Of.error_eq_none_iff (of_iff.mpr rfl)

/-- Numbers that run together, and a dangling exponent. -/
example : (ofString "M10-5.5.5L1e" : PathReading Float) =
    ⟨[⟨⟨⟨.moveTo, false⟩, [10, -5.5, 0.5]⟩, .number, 9⟩], .error, 11,
      some (.character 'e' 11)⟩ := by
  decide +kernel

end PathReading

end BoardPlotter
