import BoardPlotter.Text.Numeral

/-!
# Numerals with text behind them

A numeral is read as far as it goes, so what is read depends on the text behind it only
where that could go on with it. Before any other text the same numeral is read, and the
text is left (`Numeral.scan?_append`).
-/

namespace BoardPlotter

namespace Text

/-- A character that a numeral may hold. -/
def isNumeric (c : Char) : Bool :=
  isDigit c || c == '.' || c == '+' || c == '-' || c == 'e' || c == 'E'

/-- Text that goes on with no numeral. -/
def Delimits (rest : List Char) : Prop := ∀ c ∈ rest.head?, isNumeric c = false

theorem isNumeric_of_isBlank {c : Char} (h : isBlank c) : isNumeric c = false := by
  have each : ∀ n ∈ blanks, isNumeric (Char.ofNat n) = false := by decide +kernel
  have code := each c.toNat (List.contains_iff_mem.mp h)
  rwa [Char.ofNat_toNat] at code

variable {rest : List Char}

theorem Delimits.not_digit (h : Delimits rest) {c : Char} (head : c ∈ rest.head?) :
    digit? c = none := by
  have numeric := h c head
  simp only [isNumeric, isDigit, Bool.or_eq_false_iff, Option.isSome_eq_false_iff,
    Option.isNone_iff_eq_none] at numeric
  exact numeric.1.1.1.1.1

theorem digitRun_append (h : Delimits rest) (cs : List Char) :
    digitRun (cs ++ rest) = ((digitRun cs).1, (digitRun cs).2 ++ rest) := by
  induction cs with
  | nil =>
    cases rest with
    | nil => rfl
    | cons c rest => simp [digitRun, h.not_digit rfl]
  | cons c cs ih =>
    rw [List.cons_append, digitRun, digitRun, ih]
    cases digit? c <;> rfl

end Text

namespace Numeral

open Text

variable {rest : List Char}

theorem sign_append (h : Delimits rest) (cs : List Char) :
    sign (cs ++ rest) = ((sign cs).1, (sign cs).2 ++ rest) := by
  cases cs with
  | nil =>
    cases rest with
    | nil => rfl
    | cons c rest =>
      have numeric := h c rfl
      rw [List.nil_append, sign.eq_def]
      split
      · rename_i eq
        cases eq
        cases numeric
      · rename_i eq
        cases eq
        cases numeric
      · rfl
  | cons c cs =>
    rw [List.cons_append, sign.eq_def, sign.eq_def (c :: cs)]
    split <;> simp_all

/-- A point is all that is read behind the leading digits. -/
theorem magnitude?_of_digitRun {cs r : List Char} {whole : List Nat}
    (run : digitRun cs = (whole, r)) (point : r.head? ≠ some '.') :
    magnitude? cs = if whole.isEmpty then none else some (ofDigits whole, 0, r) := by
  rw [magnitude?, run]
  simp only
  split
  · exact absurd rfl point
  · rfl

theorem magnitude?_append (h : Delimits rest) (cs : List Char) :
    magnitude? (cs ++ rest) = (magnitude? cs).map fun (m, places, r) => (m, places, r ++ rest) := by
  have run := digitRun_append h cs
  cases digits : digitRun cs with
  | mk whole r =>
  rw [digits] at run
  by_cases point : r.head? = some '.'
  · obtain ⟨r, rfl⟩ : ∃ t, r = '.' :: t := List.head?_eq_some_iff.mp point
    simp only [magnitude?, digits, run, List.cons_append, digitRun_append h]
    split <;> rfl
  · have behind : (r ++ rest).head? ≠ some '.' := by
      cases r with
      | nil => exact fun head => by cases h '.' head
      | cons c r => exact point
    rw [magnitude?_of_digitRun digits point, magnitude?_of_digitRun run behind]
    split <;> rfl

theorem exponentOf_append (h : Delimits rest) (cs : List Char) :
    exponentOf (cs ++ rest) = ((exponentOf cs).1, (exponentOf cs).2 ++ rest) := by
  cases cs with
  | nil =>
    cases rest with
    | nil => rfl
    | cons c rest =>
      have mark : (c == 'e' || c == 'E') = false := by
        have numeric := h c rfl
        simp only [isNumeric, Bool.or_eq_false_iff] at numeric ⊢
        exact ⟨numeric.1.2, numeric.2⟩
      rw [List.nil_append, exponentOf, mark]
      rfl
  | cons c cs =>
    rw [List.cons_append, exponentOf, exponentOf]
    by_cases mark : (c == 'e' || c == 'E') = true
    · simp only [if_pos mark, sign_append h, digitRun_append h]
      obtain ⟨ds, r⟩ := digitRun (sign cs).2
      cases ds <;> rfl
    · simp only [if_neg mark]
      rfl

/-- Before text that goes on with no numeral, a numeral is read as if it stood alone. -/
theorem scan?_append (h : Delimits rest) (cs : List Char) :
    scan? (cs ++ rest) = (scan? cs).map fun (n, r) => (n, r ++ rest) := by
  rw [scan?, scan?, sign_append h]
  simp only [magnitude?_append h]
  cases magnitude? (sign cs).2 with
  | none => rfl
  | some read =>
    obtain ⟨m, places, r⟩ := read
    simp only [Option.map_some, exponentOf_append h]

end Numeral

end BoardPlotter
