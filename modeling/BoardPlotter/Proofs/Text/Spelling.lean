import BoardPlotter.Proofs.Text.Numeral
import Mathlib.Tactic.ByContra

/-!
# How numerals are written

A numeral is an optional sign, a magnitude and an optional exponent, each with a spelling of
its own (`Numeral.Spells`). Reading takes the longest spelling at the head of a text
(`Numeral.scan?_eq_some_iff`), and fails only where there is none
(`Numeral.scan?_eq_none_iff`).
-/

namespace BoardPlotter

namespace Text

/-- Of all heads of a text that have a spelling, the one that leaves `rest` is the longest,
and `b` is what it spells. -/
structure Longest {β : Type} (Spells : List Char → β → Prop) (cs : List Char) (b : β)
    (rest : List Char) : Prop where
  spelled : ∃ w, cs = w ++ rest ∧ Spells w b
  longest : ∀ w b' rest', cs = w ++ rest' → Spells w b' → rest.length ≤ rest'.length

/-- The text consists of these digits. -/
def Digits (cs : List Char) (ds : List Nat) : Prop := cs.map digit? = ds.map some

theorem Digits.cons {c : Char} {cs : List Char} {ds : List Nat} (h : Digits (c :: cs) ds) :
    ∃ d ds', ds = d :: ds' ∧ digit? c = some d ∧ Digits cs ds' := by
  cases ds with
  | nil => cases h
  | cons d ds' =>
    obtain ⟨first, later⟩ := List.cons.inj h
    exact ⟨d, ds', rfl, first, later⟩

theorem Digits.numeric {w : List Char} {ds : List Nat} (h : Digits w ds) :
    ∀ c ∈ w, isNumeric c = true := by
  intro c member
  have among : digit? c ∈ ds.map some := h ▸ List.mem_map_of_mem member
  obtain ⟨d, -, digit⟩ := List.mem_map.mp among
  simp [isNumeric, isDigit, ← digit]

/-- A run of digits goes on with the digits behind it. -/
theorem Digits.digitRun_append {w : List Char} {ds : List Nat} (h : Digits w ds)
    (rest : List Char) :
    digitRun (w ++ rest) = (ds ++ (digitRun rest).1, (digitRun rest).2) := by
  induction w generalizing ds with
  | nil =>
    obtain rfl : ds = [] := List.map_eq_nil_iff.mp h.symm
    rfl
  | cons c w ih =>
    obtain ⟨d, ds', rfl, digit, later⟩ := h.cons
    rw [List.cons_append, digitRun, digit]
    simp only [ih later, List.cons_append]

theorem exists_digits (cs : List Char) :
    ∃ w, cs = w ++ (digitRun cs).2 ∧ Digits w (digitRun cs).1 := by
  induction cs with
  | nil => exact ⟨[], rfl, rfl⟩
  | cons c cs ih =>
    obtain ⟨w, split, digits⟩ := ih
    rw [digitRun]
    cases digit : digit? c with
    | none => exact ⟨[], rfl, rfl⟩
    | some d =>
      refine ⟨c :: w, congrArg (c :: ·) split, ?_⟩
      rw [Digits, List.map_cons, List.map_cons, digit, digits]

/-- No digits are read, or the text starts with one. -/
theorem digitRun_cases (cs : List Char) :
    digitRun cs = ([], cs) ∨
      (digitRun cs).2.length < cs.length ∧ ∃ c ∈ cs.head?, isDigit c = true := by
  cases cs with
  | nil => exact .inl rfl
  | cons c cs =>
    rw [digitRun]
    cases digit : digit? c with
    | none => exact .inl rfl
    | some d =>
      have size := digitRun_length cs
      refine .inr ⟨?_, c, rfl, ?_⟩
      · simp only [List.length_cons]
        omega
      · rw [isDigit, digit]
        rfl

theorem Digits.head {w : List Char} {ds : List Nat} (h : Digits w ds) (some_ : ds ≠ [])
    (rest : List Char) : ∃ c ∈ (w ++ rest).head?, isDigit c = true := by
  cases w with
  | nil => exact absurd (List.map_eq_nil_iff.mp h.symm) some_
  | cons c w =>
    obtain ⟨d, ds', rfl, digit, -⟩ := h.cons
    refine ⟨c, rfl, ?_⟩
    rw [isDigit, digit]
    rfl

end Text

namespace Numeral

open Text

/-! ### Signs -/

/-- An optional sign, true for a minus. -/
inductive Sign : List Char → Bool → Prop
  | blank : Sign [] false
  | plus : Sign ['+'] false
  | minus : Sign ['-'] true

theorem exists_sign (cs : List Char) : ∃ w, cs = w ++ (sign cs).2 ∧ Sign w (sign cs).1 := by
  rw [sign.eq_def]
  split
  · exact ⟨_, rfl, .minus⟩
  · exact ⟨_, rfl, .plus⟩
  · exact ⟨[], rfl, .blank⟩

theorem sign_of_head {cs : List Char} (h : ∀ c ∈ cs.head?, c ≠ '-' ∧ c ≠ '+') :
    sign cs = (false, cs) := by
  rw [sign.eq_def]
  split
  · exact absurd rfl (h '-' rfl).1
  · exact absurd rfl (h '+' rfl).2
  · rfl

/-- A sign is read before text that starts with none. -/
theorem Sign.sign_append {w rest : List Char} {negative : Bool} (h : Sign w negative)
    (plain : ∀ c ∈ rest.head?, c ≠ '-' ∧ c ≠ '+') : sign (w ++ rest) = (negative, rest) := by
  cases h with
  | blank => exact sign_of_head plain
  | plus | minus => rfl

theorem not_sign_of_isDigit {c : Char} (h : isDigit c = true) : c ≠ '-' ∧ c ≠ '+' := by
  constructor
  · rintro rfl
    exact absurd h (by decide)
  · rintro rfl
    exact absurd h (by decide)

/-! ### Magnitudes -/

/-- Digits with an optional point among or around them: the number they write and how many of
them stand behind the point. -/
inductive Magnitude : List Char → Nat → Nat → Prop
  | whole {w : List Char} {ds : List Nat} :
      Digits w ds → ds ≠ [] → Magnitude w (ofDigits ds) 0
  | point {w f : List Char} {ds fs : List Nat} :
      Digits w ds → Digits f fs → ds ++ fs ≠ [] →
      Magnitude (w ++ '.' :: f) (ofDigits (ds ++ fs)) fs.length

theorem exists_magnitude {cs rest : List Char} {mantissa places : Nat}
    (h : magnitude? cs = some (mantissa, places, rest)) :
    ∃ w, cs = w ++ rest ∧ Magnitude w mantissa places := by
  obtain ⟨w, split, digits⟩ := exists_digits cs
  rw [magnitude?] at h
  cases run : digitRun cs with
  | mk ds r =>
  simp only [run] at h split digits
  split at h
  · rename_i f
    obtain ⟨v, split', digits'⟩ := exists_digits f
    cases run' : digitRun f with
    | mk fs r' =>
    simp only [run'] at h split' digits'
    split at h
    · cases h
    · rename_i some_
      cases h
      refine ⟨w ++ '.' :: v, by rw [split, split']; simp, .point digits digits' ?_⟩
      simpa [List.append_eq_nil_iff] using some_
  · split at h
    · cases h
    · rename_i some_
      cases h
      exact ⟨w, split, .whole digits (by simpa using some_)⟩

theorem magnitude?_of_point {cs f : List Char} {whole : List Nat}
    (run : digitRun cs = (whole, '.' :: f)) :
    magnitude? cs =
      if whole.isEmpty && (digitRun f).1.isEmpty then none
      else some (ofDigits (whole ++ (digitRun f).1), (digitRun f).1.length, (digitRun f).2) := by
  rw [magnitude?, run]
  rfl

/-- Behind leading digits a magnitude is read. -/
theorem exists_of_digitRun {cs r : List Char} {whole : List Nat} (run : digitRun cs = (whole, r))
    (some_ : whole ≠ []) : ∃ m p r', magnitude? cs = some (m, p, r') ∧ r'.length ≤ r.length := by
  have filled : whole.isEmpty = false := by simpa using some_
  by_cases point : r.head? = some '.'
  · obtain ⟨f, rfl⟩ := List.head?_eq_some_iff.mp point
    have size := digitRun_length f
    rw [magnitude?_of_point run, filled]
    refine ⟨_, _, _, rfl, ?_⟩
    simp only [List.length_cons]
    omega
  · rw [magnitude?_of_digitRun run point, filled]
    exact ⟨_, _, _, rfl, Nat.le_refl _⟩

/-- Before any text, a magnitude is read as it stands, or the text goes on with it. -/
theorem Magnitude.magnitude?_append {w : List Char} {mantissa places : Nat}
    (h : Magnitude w mantissa places) (rest : List Char) :
    magnitude? (w ++ rest) = some (mantissa, places, rest) ∨
      ∃ m p r, magnitude? (w ++ rest) = some (m, p, r) ∧ r.length < rest.length ∧
        ∃ c ∈ rest.head?, isDigit c = true ∨ c = '.' := by
  cases h with
  | @whole _ ds digits some_ =>
    have run := digits.digitRun_append rest
    rcases digitRun_cases rest with none_ | ⟨shorter, c, head, digit⟩
    · rw [none_, List.append_nil] at run
      by_cases point : rest.head? = some '.'
      · obtain ⟨f, rfl⟩ := List.head?_eq_some_iff.mp point
        have filled : ds.isEmpty = false := by simpa using some_
        have size := digitRun_length f
        rw [magnitude?_of_point run, filled]
        refine .inr ⟨_, _, _, rfl, ?_, '.', rfl, .inr rfl⟩
        simp only [List.length_cons]
        omega
      · rw [magnitude?_of_digitRun run point, List.isEmpty_eq_false_iff.mpr some_]
        exact .inl rfl
    · obtain ⟨m, p, r, read, size⟩ := exists_of_digitRun run (by simp [some_])
      exact .inr ⟨m, p, r, read, by omega, c, head, .inl digit⟩
  | @point w f ds fs before behind some_ =>
    have leading : digitRun ('.' :: (f ++ rest)) = ([], '.' :: (f ++ rest)) := rfl
    have run := before.digitRun_append ('.' :: (f ++ rest))
    rw [leading, List.append_nil] at run
    have trailing := behind.digitRun_append rest
    have filled : (ds.isEmpty && (fs ++ (digitRun rest).1).isEmpty) = false := by
      cases ds <;> cases fs <;> simp_all
    rw [List.append_assoc, List.cons_append, magnitude?_of_point run, trailing, filled]
    rcases digitRun_cases rest with none_ | ⟨shorter, c, head, digit⟩
    · rw [none_, List.append_nil]
      exact .inl rfl
    · exact .inr ⟨_, _, _, rfl, shorter, c, head, .inl digit⟩

theorem Magnitude.head {w : List Char} {mantissa places : Nat} (h : Magnitude w mantissa places)
    (rest : List Char) : ∃ c ∈ (w ++ rest).head?, isDigit c = true ∨ c = '.' := by
  cases h with
  | whole digits some_ =>
    obtain ⟨c, head, digit⟩ := digits.head some_ rest
    exact ⟨c, head, .inl digit⟩
  | @point w f ds fs before behind some_ =>
    cases w with
    | nil => exact ⟨'.', rfl, .inr rfl⟩
    | cons c w =>
      have some_ : ds ≠ [] := by
        rintro rfl
        cases before
      obtain ⟨c, head, digit⟩ := before.head some_ ('.' :: f ++ rest)
      exact ⟨c, by simpa using head, .inl digit⟩

/-! ### Exponents -/

/-- An optional exponent, zero where none is written. -/
inductive Exponent : List Char → Int → Prop
  | blank : Exponent [] 0
  | marked {c : Char} {s w : List Char} {negative : Bool} {ds : List Nat} :
      c = 'e' ∨ c = 'E' → Sign s negative → Digits w ds → ds ≠ [] →
      Exponent (c :: s ++ w) (if negative then -(ofDigits ds : Int) else ofDigits ds)

theorem exponentOf_of_digits {c : Char} (mark : c = 'e' ∨ c = 'E') {cs t r : List Char}
    {negative : Bool} {ds : List Nat} (cut : sign cs = (negative, t)) (run : digitRun t = (ds, r))
    (some_ : ds ≠ []) :
    exponentOf (c :: cs) = (if negative then -(ofDigits ds : Int) else ofDigits ds, r) := by
  have marked : (c == 'e' || c == 'E') = true := by simpa using mark
  cases ds with
  | nil => exact absurd rfl some_
  | cons d ds => simp only [exponentOf, marked, cut, run, if_true]

theorem exponentOf_of_no_digits (c : Char) {cs : List Char}
    (none_ : (digitRun (sign cs).2).1 = []) : exponentOf (c :: cs) = (0, c :: cs) := by
  cases run : digitRun (sign cs).2 with
  | mk ds r =>
  obtain rfl : ds = [] := by simpa [run] using none_
  simp only [exponentOf, run, ite_self]

theorem exponentOf_of_unmarked {c : Char} (h : ¬ (c = 'e' ∨ c = 'E')) (cs : List Char) :
    exponentOf (c :: cs) = (0, c :: cs) := by
  rw [exponentOf, if_neg (by simpa using h)]

theorem exists_exponent (cs : List Char) :
    ∃ w, cs = w ++ (exponentOf cs).2 ∧ Exponent w (exponentOf cs).1 := by
  cases cs with
  | nil => exact ⟨[], rfl, .blank⟩
  | cons c cs =>
    by_cases mark : c = 'e' ∨ c = 'E'
    · obtain ⟨s, split, signed⟩ := exists_sign cs
      obtain ⟨w, split', digits⟩ := exists_digits (sign cs).2
      by_cases none_ : (digitRun (sign cs).2).1 = []
      · rw [exponentOf_of_no_digits c none_]
        exact ⟨[], rfl, .blank⟩
      · rw [exponentOf_of_digits mark (Prod.eta _).symm (Prod.eta _).symm none_]
        refine ⟨c :: s ++ w, ?_, .marked mark signed digits none_⟩
        rw [List.cons_append, List.cons_append, List.append_assoc, ← split', ← split]
    · rw [exponentOf_of_unmarked mark]
      exact ⟨[], rfl, .blank⟩

theorem exponentOf_cases (cs : List Char) :
    exponentOf cs = (0, cs) ∨
      (exponentOf cs).2.length < cs.length ∧ ∃ c ∈ cs.head?, c = 'e' ∨ c = 'E' := by
  cases cs with
  | nil => exact .inl rfl
  | cons c cs =>
    by_cases mark : c = 'e' ∨ c = 'E'
    · by_cases none_ : (digitRun (sign cs).2).1 = []
      · exact .inl (exponentOf_of_no_digits c none_)
      · have signed := sign_length cs
        have size := digitRun_length (sign cs).2
        rw [exponentOf_of_digits mark (Prod.eta _).symm (Prod.eta _).symm none_]
        refine .inr ⟨?_, c, rfl, mark⟩
        simp only [List.length_cons]
        omega
    · exact .inl (exponentOf_of_unmarked mark cs)

/-- Before any text, an exponent is read as it stands, or the text goes on with it. -/
theorem Exponent.exponentOf_append {w : List Char} {e : Int} (h : Exponent w e)
    (rest : List Char) :
    exponentOf (w ++ rest) = (e, rest) ∨
      (exponentOf (w ++ rest)).2.length < rest.length ∧
        ∃ c ∈ rest.head?, isDigit c = true ∨ c = 'e' ∨ c = 'E' := by
  cases h with
  | blank =>
    rcases exponentOf_cases rest with whole | ⟨shorter, c, head, mark⟩
    · exact .inl whole
    · exact .inr ⟨shorter, c, head, .inr mark⟩
  | @marked c s w negative ds mark signed digits some_ =>
    have plain : ∀ c ∈ (w ++ rest).head?, c ≠ '-' ∧ c ≠ '+' := by
      obtain ⟨d, head, digit⟩ := digits.head some_ rest
      intro c member
      obtain rfl : d = c := Option.some.inj (head.symm.trans member)
      exact not_sign_of_isDigit digit
    have run := digits.digitRun_append rest
    rw [List.cons_append, List.cons_append, List.append_assoc,
      exponentOf_of_digits mark (signed.sign_append plain) run (by simp [some_])]
    rcases digitRun_cases rest with none_ | ⟨shorter, c, head, digit⟩
    · rw [none_, List.append_nil]
      exact .inl rfl
    · exact .inr ⟨shorter, c, head, .inl digit⟩

/-! ### Numerals -/

/-- A character that a complete numeral may go on with. -/
def Continues (c : Char) : Prop := isDigit c = true ∨ c = '.' ∨ c = 'e' ∨ c = 'E'

theorem Continues.numeric {c : Char} (h : Continues c) :
    isNumeric c = true ∧ c ≠ '-' ∧ c ≠ '+' := by
  rcases h with digit | rfl | rfl | rfl
  · exact ⟨by simp [isNumeric, digit], not_sign_of_isDigit digit⟩
  all_goals decide

/-- The text is a numeral: a sign, a magnitude and an exponent, of which only the magnitude
has to be written. -/
inductive Spells : List Char → Numeral → Prop
  | parts {s w x : List Char} {negative : Bool} {mantissa places : Nat} {e : Int} :
      Sign s negative → Magnitude w mantissa places → Exponent x e →
      Spells (s ++ w ++ x) ⟨negative, mantissa, e - places⟩

/-- What is read is written there. -/
theorem exists_spells {cs rest : List Char} {n : Numeral} (h : scan? cs = some (n, rest)) :
    ∃ w, cs = w ++ rest ∧ Spells w n := by
  obtain ⟨s, splitSign, signed⟩ := exists_sign cs
  simp only [scan?] at h
  cases read : magnitude? (sign cs).2 with
  | none =>
    rw [read] at h
    cases h
  | some parts =>
    obtain ⟨mantissa, places, r⟩ := parts
    simp only [read, Option.some.injEq, Prod.mk.injEq] at h
    obtain ⟨rfl, rfl⟩ := h
    obtain ⟨w, split, magnitude⟩ := exists_magnitude read
    obtain ⟨x, splitExponent, exponent⟩ := exists_exponent r
    refine ⟨s ++ w ++ x, ?_, .parts signed magnitude exponent⟩
    rw [List.append_assoc, List.append_assoc, ← splitExponent, ← split, ← splitSign]

theorem scan?_of_parts {cs t r : List Char} {negative : Bool} {mantissa places : Nat}
    (cut : sign cs = (negative, t)) (read : magnitude? t = some (mantissa, places, r)) :
    scan? cs =
      some (⟨negative, mantissa, (exponentOf r).1 - places⟩, (exponentOf r).2) := by
  simp only [scan?, cut, read]

/-- Before any text, a numeral is read as it stands, or the text goes on with it. -/
theorem Spells.scan?_append {w : List Char} {n : Numeral} (h : Spells w n) (rest : List Char) :
    scan? (w ++ rest) = some (n, rest) ∨
      ∃ n' r, scan? (w ++ rest) = some (n', r) ∧ r.length < rest.length ∧
        ∃ c ∈ rest.head?, Continues c := by
  obtain ⟨signed, magnitude, exponent⟩ := h
  rename_i s w x negative mantissa places e
  have plain : ∀ c ∈ (w ++ (x ++ rest)).head?, c ≠ '-' ∧ c ≠ '+' := by
    obtain ⟨d, head, digit⟩ := magnitude.head (x ++ rest)
    intro c member
    obtain rfl : d = c := Option.some.inj (head.symm.trans member)
    rcases digit with digit | rfl
    · exact not_sign_of_isDigit digit
    · exact ⟨by decide, by decide⟩
  have cut := signed.sign_append plain
  rw [List.append_assoc, List.append_assoc]
  rcases magnitude.magnitude?_append (x ++ rest) with read | ⟨m, p, r, read, shorter, c, head, more⟩
  · rw [scan?_of_parts cut read]
    rcases exponent.exponentOf_append rest with whole | ⟨shorter, c, head, more⟩
    · rw [whole]
      exact .inl rfl
    · exact .inr ⟨_, _, rfl, shorter, c, head, more.imp_right .inr⟩
  · -- The magnitude went on into the text behind it, so no exponent was written between them.
    cases exponent with
    | blank =>
      rw [scan?_of_parts cut read]
      refine .inr ⟨_, _, rfl, ?_, c, head, more.imp_right .inl⟩
      exact Nat.lt_of_le_of_lt (exponentOf_length r) shorter
    | marked mark =>
      obtain rfl := Option.some.inj head
      rcases mark with rfl | rfl <;> rcases more with digit | point
      · exact absurd digit (by decide)
      · exact absurd point (by decide)
      · exact absurd digit (by decide)
      · exact absurd point (by decide)

/-- Before text that it cannot go on with, a numeral is read as it stands. A sign may follow. -/
theorem Spells.scan?_of_head {w rest : List Char} {n : Numeral} (h : Spells w n)
    (plain : ∀ c ∈ rest.head?, isNumeric c = false ∨ c = '-' ∨ c = '+') :
    scan? (w ++ rest) = some (n, rest) := by
  rcases h.scan?_append rest with whole | ⟨n', r, further, shorter, c, head, more⟩
  · exact whole
  · obtain ⟨numeric, noMinus, noPlus⟩ := more.numeric
    rcases plain c head with other | minus | plus
    · cases numeric.symm.trans other
    · exact absurd minus noMinus
    · exact absurd plus noPlus

/-- **Longest numerals.** Reading takes the longest numeral at the head of the text. -/
theorem scan?_eq_some_iff {cs rest : List Char} {n : Numeral} :
    scan? cs = some (n, rest) ↔ Longest Spells cs n rest := by
  constructor
  · intro read
    refine ⟨exists_spells read, ?_⟩
    rintro w n' rest' rfl spelled
    rcases spelled.scan?_append rest' with whole | ⟨n'', r, further, shorter, -⟩
    · obtain ⟨-, rfl⟩ := Prod.mk.inj (Option.some.inj (read.symm.trans whole))
      exact Nat.le_refl _
    · obtain ⟨-, rfl⟩ := Prod.mk.inj (Option.some.inj (read.symm.trans further))
      exact Nat.le_of_lt shorter
  · rintro ⟨⟨w, rfl, spelled⟩, longest⟩
    rcases spelled.scan?_append rest with whole | ⟨n', r, further, shorter, -⟩
    · exact whole
    · obtain ⟨w', split, spelled'⟩ := exists_spells further
      have bound := longest w' n' r split spelled'
      omega

/-- Nothing is read just where no numeral is written. -/
theorem scan?_eq_none_iff {cs : List Char} :
    scan? cs = none ↔ ∀ w n rest, cs = w ++ rest → ¬ Spells w n := by
  constructor
  · rintro none_ w n rest rfl spelled
    rcases spelled.scan?_append rest with whole | ⟨n', r, further, -⟩
    · cases none_.symm.trans whole
    · cases none_.symm.trans further
  · intro unspelled
    cases read : scan? cs with
    | none => rfl
    | some found =>
      obtain ⟨n, rest⟩ := found
      obtain ⟨w, split, spelled⟩ := exists_spells read
      exact absurd spelled (unspelled w n rest split)

theorem Sign.numeric {w : List Char} {negative : Bool} (h : Sign w negative) :
    ∀ c ∈ w, isNumeric c = true := by
  cases h with
  | blank => exact nofun
  | plus | minus => exact List.forall_mem_singleton.mpr (by decide)

theorem Magnitude.numeric {w : List Char} {mantissa places : Nat}
    (h : Magnitude w mantissa places) : ∀ c ∈ w, isNumeric c = true := by
  cases h with
  | whole digits => exact digits.numeric
  | point before behind =>
    refine List.forall_mem_append.mpr ⟨before.numeric, ?_⟩
    exact List.forall_mem_cons.mpr ⟨by decide, behind.numeric⟩

theorem Exponent.numeric {w : List Char} {e : Int} (h : Exponent w e) :
    ∀ c ∈ w, isNumeric c = true := by
  cases h with
  | blank => exact nofun
  | marked mark signed digits =>
    refine List.forall_mem_append.mpr ⟨List.forall_mem_cons.mpr ⟨?_, signed.numeric⟩,
      digits.numeric⟩
    rcases mark with rfl | rfl <;> decide

theorem Spells.numeric {w : List Char} {n : Numeral} (h : Spells w n) :
    ∀ c ∈ w, isNumeric c = true := by
  obtain ⟨signed, magnitude, exponent⟩ := h
  exact List.forall_mem_append.mpr
    ⟨List.forall_mem_append.mpr ⟨signed.numeric, magnitude.numeric⟩, exponent.numeric⟩

/-- No numeral is written at the head of text that goes on with none. -/
theorem not_spells {cs w rest : List Char} {n : Numeral} (h : Delimits cs)
    (split : cs = w ++ rest) : ¬ Spells w n :=
  scan?_eq_none_iff.mp (scan?_append h []) w n rest split

theorem Spells.head {w : List Char} {n : Numeral} (h : Spells w n) :
    ∃ c ∈ w.head?, isNumeric c = true := by
  by_contra none_
  refine not_spells ?_ (List.append_nil w).symm h
  intro c head
  exact Bool.eq_false_iff.mpr fun numeric => none_ ⟨c, head, numeric⟩

end Numeral

end BoardPlotter
