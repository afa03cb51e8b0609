import BoardPlotter.Proofs.PathData.Concatenation
import BoardPlotter.Proofs.Text.Spelling

/-!
# Tokens of path data

Path data is letters, commas and numerals, each as long as it can be, with blanks anywhere
between them. Reading takes the longest token at the head of a text
(`PathToken.scan?_eq_some_iff`), so every text has one reading as tokens, up to the first
character that starts none (`PathToken.tokenizes_iff`).
-/

namespace BoardPlotter

open Text

namespace PathCommand

theorem letter_of_ofLetter? {c : Char} {command : PathCommand} (h : ofLetter? c = some command) :
    command.letter = c := by
  obtain ⟨verb, found, rfl⟩ := Option.map_eq_some_iff.mp h
  have either := List.find?_some found
  by_cases upper : verb.upper = c
  · simp [letter, upper]
  · have lower : verb.upper.toLower = c := by simpa [upper] using either
    simp [letter, upper, lower]

/-- No letter goes on with a numeral or is a blank. -/
theorem letter_apart (command : PathCommand) :
    isNumeric command.letter = false ∧ isBlank command.letter = false := by
  obtain ⟨verb, relative⟩ := command
  cases verb <;> cases relative <;> decide

end PathCommand

namespace PathToken

/-- The text is a letter, a comma or a numeral. -/
inductive Spells : List Char → PathToken → Prop
  | command (c : PathCommand) : Spells [c.letter] (.command c)
  | comma : Spells [','] .comma
  | number {w : List Char} {n : Numeral} : Numeral.Spells w n → Spells w (.number n)

theorem not_spells_nil (t : PathToken) : ¬ Spells [] t := by
  rintro (_ | _ | spelled)
  have nothing : Delimits [] := nofun
  exact Numeral.not_spells nothing rfl spelled

/-- A character that no numeral holds can only be a token by itself. -/
theorem Spells.single {c : Char} {w rest cs : List Char} {t : PathToken} (h : Spells w t)
    (plain : isNumeric c = false) (split : c :: cs = w ++ rest) : w = [c] ∧ rest = cs := by
  cases h with
  | command | comma =>
    obtain ⟨rfl, rfl⟩ := List.cons.inj split
    exact ⟨rfl, rfl⟩
  | number spelled =>
    refine absurd spelled (Numeral.not_spells ?_ split)
    rintro c' ⟨⟩
    exact plain

/-- Where no letter and no comma stands, a token is a numeral. -/
theorem Spells.number_of_head {c : Char} {w rest cs : List Char} {t : PathToken} (h : Spells w t)
    (noLetter : PathCommand.ofLetter? c = none) (noComma : c ≠ ',') (split : c :: cs = w ++ rest) :
    ∃ n, t = .number n ∧ Numeral.Spells w n := by
  cases h with
  | command command =>
    obtain ⟨rfl, -⟩ := List.cons.inj split
    rw [PathCommand.ofLetter?_letter] at noLetter
    cases noLetter
  | comma => exact absurd (List.cons.inj split).1 noComma
  | number spelled => exact ⟨_, rfl, spelled⟩

theorem scan?_of_letter {c : Char} {command : PathCommand}
    (h : PathCommand.ofLetter? c = some command) (cs : List Char) :
    scan? (c :: cs) = some (.command command, cs) := by
  rw [scan?, h]

theorem scan?_of_number {c : Char} (noLetter : PathCommand.ofLetter? c = none) (noComma : c ≠ ',')
    (cs : List Char) :
    scan? (c :: cs) = (Numeral.scan? (c :: cs)).map fun (n, r) => (.number n, r) := by
  rw [scan?, noLetter]
  exact if_neg (by simpa using noComma)

/-- The longest token at a character that is one by itself. -/
theorem longest_single {c : Char} {t : PathToken} (plain : isNumeric c = false)
    (spelled : Spells [c] t) (cs : List Char) : Longest Spells (c :: cs) t cs := by
  refine ⟨⟨[c], rfl, spelled⟩, ?_⟩
  intro w t' rest split spelled'
  exact Nat.le_of_eq (congrArg List.length (spelled'.single plain split).2.symm)

/-- **Longest tokens.** Reading takes the longest token at the head of the text. -/
theorem scan?_eq_some_iff {cs rest : List Char} {t : PathToken} :
    scan? cs = some (t, rest) ↔ Longest Spells cs t rest := by
  constructor
  · intro scanned
    cases cs with
    | nil => cases scanned
    | cons c cs =>
      cases letter : PathCommand.ofLetter? c with
      | some command =>
        rw [scan?_of_letter letter] at scanned
        cases scanned
        obtain rfl := PathCommand.letter_of_ofLetter? letter
        exact longest_single command.letter_apart.1 (.command command) _
      | none =>
        by_cases comma : c = ','
        · subst comma
          cases scanned
          exact longest_single (by decide) .comma _
        · rw [scan?_of_number letter comma] at scanned
          obtain ⟨⟨n, r⟩, number, eq⟩ := Option.map_eq_some_iff.mp scanned
          cases eq
          obtain ⟨⟨w, split, spelled⟩, longest⟩ := Numeral.scan?_eq_some_iff.mp number
          refine ⟨⟨w, split, .number spelled⟩, ?_⟩
          intro w' t' rest' split' spelled'
          obtain ⟨n', -, numeral⟩ := spelled'.number_of_head letter comma split'
          exact longest w' n' rest' split' numeral
  · rintro ⟨⟨w, rfl, spelled⟩, longest⟩
    cases spelled with
    | command command =>
      exact scan?_of_letter (PathCommand.ofLetter?_letter command) rest
    | comma => rfl
    | @number _ n spelled =>
      have scanned : Numeral.scan? (w ++ rest) = some (n, rest) := by
        refine Numeral.scan?_eq_some_iff.mpr ⟨⟨w, rfl, spelled⟩, ?_⟩
        intro w' n' rest' split spelled'
        exact longest w' (.number n') rest' split (.number spelled')
      cases whole : w ++ rest with
      | nil =>
        obtain ⟨rfl, -⟩ := List.append_eq_nil_iff.mp whole
        exact absurd (.number spelled) (not_spells_nil _)
      | cons c cs =>
        have apart (plain : isNumeric c = false) : False := by
          refine Numeral.not_spells ?_ whole.symm spelled
          rintro c' ⟨⟩
          exact plain
        have noLetter : PathCommand.ofLetter? c = none := by
          cases letter : PathCommand.ofLetter? c with
          | none => rfl
          | some command =>
            obtain rfl := PathCommand.letter_of_ofLetter? letter
            exact (apart command.letter_apart.1).elim
        have noComma : c ≠ ',' := by
          rintro rfl
          exact apart (by decide)
        rw [scan?_of_number noLetter noComma, ← whole, scanned]
        rfl

/-- Reading fails just where no token is written at the head of the text. -/
theorem scan?_eq_none_iff {cs : List Char} :
    scan? cs = none ↔ ∀ w t rest, cs = w ++ rest → ¬ Spells w t := by
  constructor
  · rintro none_ w t rest split spelled
    cases cs with
    | nil =>
      obtain ⟨rfl, -⟩ := List.append_eq_nil_iff.mp split.symm
      exact not_spells_nil t spelled
    | cons c cs =>
      cases letter : PathCommand.ofLetter? c with
      | some command =>
        rw [scan?_of_letter letter] at none_
        cases none_
      | none =>
        by_cases comma : c = ','
        · subst comma
          cases none_
        · rw [scan?_of_number letter comma, Option.map_eq_none_iff] at none_
          obtain ⟨n, -, numeral⟩ := spelled.number_of_head letter comma split
          exact Numeral.scan?_eq_none_iff.mp none_ w n rest split numeral
  · intro unspelled
    cases scanned : scan? cs with
    | none => rfl
    | some found =>
      obtain ⟨w, split, spelled⟩ := (scan?_eq_some_iff.mp scanned).spelled
      exact absurd spelled (unspelled w found.1 found.2 split)

/-- No token starts with a blank. -/
theorem Spells.not_blank {c : Char} {w rest cs : List Char} {t : PathToken} (h : Spells w t)
    (split : c :: cs = w ++ rest) : ¬ isBlank c := by
  intro blank
  cases h with
  | command command =>
    obtain ⟨rfl, -⟩ := List.cons.inj split
    rw [command.letter_apart.2] at blank
    cases blank
  | comma =>
    obtain ⟨rfl, -⟩ := List.cons.inj split
    exact absurd blank (by decide)
  | number spelled =>
    refine Numeral.not_spells ?_ split spelled
    rintro c' ⟨⟩
    exact isNumeric_of_isBlank blank

/-! ## Texts -/

/-- `Tokenizes p cs ts`: a text whose first character is at `p` consists of the tokens `ts`,
each as long as it can be, and of blanks, up to its end or the first character that starts no
token. -/
inductive Tokenizes : Nat → List Char → PathTokens → Prop
  | ended (p : Nat) : Tokenizes p [] ⟨[], p, none⟩
  | stopped {c : Char} {cs : List Char} (p : Nat) : isBlank c = false →
      (∀ w t rest, c :: cs = w ++ rest → ¬ Spells w t) → Tokenizes p (c :: cs) ⟨[], p, some c⟩
  | blank {p : Nat} {c : Char} {cs : List Char} {ts : PathTokens} : isBlank c →
      Tokenizes (p + 1) cs ts → Tokenizes p (c :: cs) ts
  | token {p : Nat} {c : Char} {w rest : List Char} {t : PathToken} {ts : PathTokens} :
      Longest Spells (c :: w ++ rest) t rest → Tokenizes (p + (c :: w).length) rest ts →
      Tokenizes p (c :: w ++ rest) { ts with tokens := ⟨p, c, t⟩ :: ts.tokens }

/-- **Tokens.** Every text has one reading as tokens, the one that is read. -/
theorem tokenizes_iff {p : Nat} {cs : List Char} {ts : PathTokens} :
    Tokenizes p cs ts ↔ lex p cs = ts := by
  constructor
  · intro tokenizes
    induction tokenizes with
    | ended p => rw [lex]
    | stopped p black unspelled =>
      exact lex_offender (by simp [black]) (scan?_eq_none_iff.mpr unspelled) p
    | blank blank _ ih => rw [lex_blank blank, ih]
    | @token p c w rest t ts longest _ ih =>
      have length : (c :: (w ++ rest)).length - rest.length = (c :: w).length := by
        simp only [List.length_cons, List.length_append]
        omega
      obtain ⟨w', split, spelled⟩ := longest.spelled
      rw [List.cons_append] at longest split ⊢
      rw [lex_token (spelled.not_blank split) (scan?_eq_some_iff.mpr longest), length, ih]
  · rintro rfl
    fun_induction lex p cs with
    | case1 p => exact .ended p
    | case2 p c cs blank ih => exact .blank blank ih
    | case3 p c cs black none_ =>
      exact .stopped p (by simpa using black) (scan?_eq_none_iff.mp none_)
    | case4 p c cs black t rest scanned shorter later ih =>
      have longest := scan?_eq_some_iff.mp scanned
      obtain ⟨w, split, spelled⟩ := longest.spelled
      cases w with
      | nil => exact absurd spelled (not_spells_nil t)
      | cons c' w =>
        have length : (c :: cs).length - rest.length = (c' :: w).length := by
          simp only [split, List.length_append]
          omega
        have tail : Tokenizes (p + (c' :: w).length) rest later := length ▸ ih
        obtain ⟨rfl, rfl⟩ := List.cons.inj split
        exact .token longest tail

/-- Tokens tell where they stand. -/
theorem Tokenizes.positions {p : Nat} {cs : List Char} {ts : PathTokens} (h : Tokenizes p cs ts)
    {before : List Char} (place : before.length = p) :
    (∀ t ∈ ts.tokens, (before ++ cs)[t.position]? = some t.char) ∧
      (before ++ cs)[ts.stop]? = ts.offender ∧
      (ts.offender = none → ts.stop = (before ++ cs).length) := by
  induction h generalizing before with
  | ended p => simp [← place]
  | stopped p => simp [← place]
  | @blank p c cs ts _ _ ih =>
    have place' : (before ++ [c]).length = p + 1 := by simp [place]
    have further := ih place'
    rwa [List.append_assoc] at further
  | @token p c w rest t ts _ _ ih =>
    have place' : (before ++ c :: w).length = p + (c :: w).length := by simp [place]
    have further := ih place'
    rw [List.append_assoc] at further
    obtain ⟨each, last⟩ := further
    refine ⟨List.forall_mem_cons.mpr ⟨?_, each⟩, last⟩
    simp [← place]

end PathToken

end BoardPlotter
