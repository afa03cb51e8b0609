import BoardPlotter.Text.Blank

/-!
# Blanks around a text

Trimming takes the blanks off and nothing else: what is left is the one part of the text that
has none at its ends and only blanks around it (`exists_trim`, `trim_eq`).
-/

namespace BoardPlotter.Text

/-- Text that starts with no blank. -/
def Flush (cs : List Char) : Prop := ∀ c ∈ cs.head?, isBlank c = false

theorem flush_append {cs : List Char} (some_ : cs ≠ []) (ds : List Char) :
    Flush (cs ++ ds) ↔ Flush cs := by
  cases cs with
  | nil => exact absurd rfl some_
  | cons c cs => exact Iff.rfl

theorem allBlank_append {cs ds : List Char} :
    allBlank (cs ++ ds) = true ↔ allBlank cs = true ∧ allBlank ds = true := by
  rw [allBlank, List.all_append, Bool.and_eq_true]
  rfl

theorem exists_trimLeft (cs : List Char) :
    ∃ gap, cs = gap ++ trimLeft cs ∧ allBlank gap = true ∧ Flush (trimLeft cs) := by
  refine ⟨cs.takeWhile isBlank, List.takeWhile_append_dropWhile.symm, List.all_takeWhile, ?_⟩
  intro c head
  have first := List.head?_dropWhile_not isBlank cs
  rw [trimLeft, Option.mem_def] at head
  rw [head] at first
  exact first

theorem trimLeft_of_flush {cs : List Char} (flush : Flush cs) : trimLeft cs = cs := by
  cases cs with
  | nil => rfl
  | cons c cs => exact List.dropWhile_cons_of_neg (by simp [flush c rfl])

theorem trimLeft_append {gap : List Char} (blank : allBlank gap = true) (cs : List Char) :
    trimLeft (gap ++ cs) = trimLeft cs := by
  induction gap with
  | nil => rfl
  | cons c gap ih =>
    obtain ⟨first, later⟩ := Bool.and_eq_true_iff.mp blank
    exact (List.dropWhile_cons_of_pos first).trans (ih later)

theorem allBlank_reverse (cs : List Char) : allBlank cs.reverse = allBlank cs :=
  List.all_reverse

theorem trim_of_parts (cs : List Char) :
    trim cs = (trimLeft (trimLeft cs).reverse).reverse := rfl

/-- A text is what is left of it between blanks. -/
theorem exists_trim (cs : List Char) :
    ∃ before behind, cs = before ++ trim cs ++ behind ∧ allBlank before = true ∧
      allBlank behind = true ∧ Flush (trim cs) ∧ Flush (trim cs).reverse := by
  obtain ⟨before, split, blank, flush⟩ := exists_trimLeft cs
  obtain ⟨behind, split', blank', flush'⟩ := exists_trimLeft (trimLeft cs).reverse
  have inner : trimLeft cs = trim cs ++ behind.reverse := by
    rw [trim_of_parts, ← List.reverse_append, ← split', List.reverse_reverse]
  refine ⟨before, behind.reverse, ?_, blank, ?_, ?_, ?_⟩
  · rw [List.append_assoc, ← inner, ← split]
  · rw [allBlank_reverse, blank']
  · by_cases none_ : trim cs = []
    · rw [none_]
      exact nofun
    · rwa [inner, flush_append none_] at flush
  · rw [trim_of_parts, List.reverse_reverse]
    exact flush'

/-- Nothing else is left of a text between blanks. -/
theorem trim_eq {before cs behind : List Char} (blank : allBlank before = true)
    (blank' : allBlank behind = true) (flush : Flush cs) (flush' : Flush cs.reverse) :
    trim (before ++ cs ++ behind) = cs := by
  rw [trim_of_parts, List.append_assoc, trimLeft_append blank]
  by_cases none_ : cs = []
  · have nothing := trimLeft_append blank' []
    rw [List.append_nil] at nothing
    rw [none_, List.nil_append, nothing]
    rfl
  · have left : Flush (cs ++ behind) := (flush_append none_ behind).mpr flush
    have right : allBlank behind.reverse = true := by rw [allBlank_reverse, blank']
    rw [trimLeft_of_flush left, List.reverse_append, trimLeft_append right,
      trimLeft_of_flush flush', List.reverse_reverse]

/-- Of two texts with blanks between them, both are left with blanks between them, or one is
left where nothing else is left of the other. -/
theorem trim_append {gap : List Char} (blank : allBlank gap = true) (cs ds : List Char) :
    (trim cs = [] ∧ trim (cs ++ gap ++ ds) = trim ds) ∨
      (trim ds = [] ∧ trim (cs ++ gap ++ ds) = trim cs) ∨
      (trim cs ≠ [] ∧ ∃ gap', allBlank gap' = true ∧
        trim (cs ++ gap ++ ds) = trim cs ++ gap' ++ trim ds) := by
  obtain ⟨before, inner, split, before_, inner_, flush, flush'⟩ := exists_trim cs
  obtain ⟨inner', behind, split', inner'_, behind_, flush₂, flush₂'⟩ := exists_trim ds
  have between : allBlank (inner ++ gap ++ inner') = true := by
    simp only [allBlank_append, inner_, blank, inner'_, and_self]
  have whole : cs ++ gap ++ ds =
      before ++ (trim cs ++ (inner ++ gap ++ inner') ++ trim ds) ++ behind := by
    conv => lhs; rw [split, split']
    simp only [List.append_assoc]
  by_cases first : trim cs = []
  · refine .inl ⟨first, ?_⟩
    have around : allBlank (before ++ (inner ++ gap ++ inner')) = true :=
      allBlank_append.mpr ⟨before_, between⟩
    rw [whole, first, List.nil_append, ← List.append_assoc before]
    exact trim_eq around behind_ flush₂ flush₂'
  by_cases second : trim ds = []
  · refine .inr (.inl ⟨second, ?_⟩)
    have around : allBlank ((inner ++ gap ++ inner') ++ behind) = true :=
      allBlank_append.mpr ⟨between, behind_⟩
    rw [whole, second, List.append_nil, ← List.append_assoc before, List.append_assoc _ _ behind]
    exact trim_eq before_ around flush flush'
  · refine .inr (.inr ⟨first, _, between, ?_⟩)
    rw [whole]
    refine trim_eq before_ behind_ ?_ ?_
    · rwa [List.append_assoc, flush_append first]
    · rwa [List.reverse_append, flush_append (by simpa using second)]

end BoardPlotter.Text
