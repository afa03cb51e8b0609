import BoardPlotter.Proofs.Text.Blank
import BoardPlotter.Proofs.Text.Spelling
import BoardPlotter.Svg.TransformList

/-!
# Argument lists

The arguments of a transform function are numerals. Between two of them stand blanks, or one
comma with or without blanks around it, or nothing if the second starts with its sign. So
the numerals are all that is written between the parentheses, and no other way to look for
numerals finds more of them or others (`ArgumentList.findAll_eq`).

`TransformList.args?_eq_some_iff`: argument lists are read as they are written.
-/

namespace BoardPlotter

open Text

/-- What stands between two arguments, and the text behind it. -/
inductive Separates : List Char → List Char → Prop
  | comma {gap gap' rest : List Char} : allBlank gap = true → allBlank gap' = true →
      Separates (gap ++ ',' :: gap') rest
  | blanks {gap rest : List Char} : gap ≠ [] → allBlank gap = true → Separates gap rest
  | sign {c : Char} {rest : List Char} : c = '-' ∨ c = '+' → Separates [] (c :: rest)

/-- Numerals with separators between them. -/
inductive Separated : List Char → List Numeral → Prop
  | last {w : List Char} {n : Numeral} : Numeral.Spells w n → Separated w [n]
  | next {w gap rest : List Char} {n : Numeral} {ns : List Numeral} : Numeral.Spells w n →
      Separates gap rest → Separated rest ns → Separated (w ++ gap ++ rest) (n :: ns)

/-- The text between the parentheses of a function: arguments, or none, with blanks around. -/
inductive ArgumentList : List Char → List Numeral → Prop
  | none {raw : List Char} : allBlank raw = true → ArgumentList raw []
  | some {before body behind : List Char} {ns : List Numeral} : allBlank before = true →
      allBlank behind = true → Separated body ns → ArgumentList (before ++ body ++ behind) ns

/-! ## Numerals among other text -/

theorem delimits_of_allBlank {gap : List Char} (blank : allBlank gap = true) : Delimits gap := by
  cases gap with
  | nil => exact nofun
  | cons c gap =>
    rintro c' ⟨⟩
    exact isNumeric_of_isBlank (Bool.and_eq_true_iff.mp blank).1

theorem flush_of_numeric {cs : List Char} (head : ∃ c ∈ cs.head?, isNumeric c = true) :
    Flush cs := by
  obtain ⟨c, first, numeric⟩ := head
  intro c' first'
  obtain rfl : c = c' := Option.some.inj (first.symm.trans first')
  refine Bool.eq_false_iff.mpr fun blank => ?_
  cases numeric.symm.trans (isNumeric_of_isBlank blank)

theorem not_allBlank_of_numeric {cs : List Char} (head : ∃ c ∈ cs.head?, isNumeric c = true)
    (gap : List Char) : allBlank (gap ++ cs) ≠ true := by
  obtain ⟨c, first, numeric⟩ := head
  intro blank
  cases numeric.symm.trans (delimits_of_allBlank (allBlank_append.mp blank).2 c first)

/-- A numeral before a separator or nothing but blanks is read as it stands. -/
theorem Separates.plain {gap rest : List Char} (h : Separates gap rest) :
    ∀ c ∈ (gap ++ rest).head?, isNumeric c = false ∨ c = '-' ∨ c = '+' := by
  intro c head
  cases h with
  | @comma gap gap' _ blank _ =>
    cases gap with
    | nil =>
      obtain rfl := Option.some.inj head
      exact .inl (by decide)
    | cons c' gap =>
      obtain rfl := Option.some.inj head
      exact .inl (isNumeric_of_isBlank (Bool.and_eq_true_iff.mp blank).1)
  | blanks some_ blank =>
    cases gap with
    | nil => exact absurd rfl some_
    | cons c' gap =>
      obtain rfl := Option.some.inj head
      exact .inl (isNumeric_of_isBlank (Bool.and_eq_true_iff.mp blank).1)
  | sign sign =>
    obtain rfl := Option.some.inj head
    exact .inr sign

namespace Numeral

theorem findAll_of_scan? {cs rest : List Char} {n : Numeral} (h : scan? cs = some (n, rest)) :
    findAll cs = n :: findAll rest := by
  cases cs with
  | nil => cases h
  | cons c cs =>
    rw [findAll]
    split
    · rename_i n' r eq
      cases h.symm.trans eq
      rfl
    · rename_i eq
      cases h.symm.trans eq

theorem findAll_skip {c : Char} (plain : isNumeric c = false) (cs : List Char) :
    findAll (c :: cs) = findAll cs := by
  have none_ : scan? (c :: cs) = none := by
    have delimits : Delimits (c :: cs) := by
      rintro c' ⟨⟩
      exact plain
    exact scan?_append delimits []
  rw [findAll]
  split
  · rename_i eq
    cases none_.symm.trans eq
  · rfl

theorem findAll_blank {gap : List Char} (blank : allBlank gap = true) (cs : List Char) :
    findAll (gap ++ cs) = findAll cs := by
  induction gap with
  | nil => rfl
  | cons c gap ih =>
    obtain ⟨first, later⟩ := Bool.and_eq_true_iff.mp blank
    exact (findAll_skip (isNumeric_of_isBlank first) _).trans (ih later)

end Numeral

namespace Separates

variable {gap rest : List Char}

theorem append (h : Separates gap rest) (more : List Char) : Separates gap (rest ++ more) := by
  cases h with
  | comma blank blank' => exact .comma blank blank'
  | blanks some_ blank => exact .blanks some_ blank
  | sign sign => exact .sign sign

theorem findAll_append (h : Separates gap rest) :
    Numeral.findAll (gap ++ rest) = Numeral.findAll rest := by
  cases h with
  | comma blank blank' =>
    rw [List.append_assoc, Numeral.findAll_blank blank, List.cons_append,
      Numeral.findAll_skip (by decide), Numeral.findAll_blank blank']
  | blanks _ blank => exact Numeral.findAll_blank blank _
  | sign => rfl

end Separates

theorem Numeral.findAll_of_allBlank {cs : List Char} (blank : allBlank cs = true) :
    findAll cs = [] := by
  have nothing := findAll_blank blank []
  rw [List.append_nil, findAll] at nothing
  exact nothing

/-- Arguments start with a character of a numeral, whatever stands behind them. -/
theorem Separated.head {body : List Char} {ns : List Numeral} (h : Separated body ns)
    (behind : List Char) : ∃ c ∈ (body ++ behind).head?, isNumeric c = true := by
  have first : ∃ c ∈ body.head?, isNumeric c = true := by
    cases h with
    | last spelled => exact spelled.head
    | next spelled =>
      obtain ⟨c, first, numeric⟩ := spelled.head
      obtain ⟨t, rfl⟩ := List.head?_eq_some_iff.mp first
      exact ⟨c, rfl, numeric⟩
  obtain ⟨c, first, numeric⟩ := first
  obtain ⟨t, rfl⟩ := List.head?_eq_some_iff.mp first
  exact ⟨c, rfl, numeric⟩

/-- Looking for numerals finds the arguments. -/
theorem Separated.findAll_append {body behind : List Char} {ns : List Numeral}
    (h : Separated body ns) (blank : allBlank behind = true) :
    Numeral.findAll (body ++ behind) = ns := by
  induction h with
  | @last w n spelled =>
    have read : Numeral.scan? (w ++ behind) = some (n, behind) :=
      spelled.scan?_of_head fun c head => .inl (delimits_of_allBlank blank c head)
    rw [Numeral.findAll_of_scan? read, Numeral.findAll_of_allBlank blank]
  | @next w gap rest n ns spelled separates _ ih =>
    have further := separates.append behind
    have read : Numeral.scan? (w ++ (gap ++ (rest ++ behind))) = some (n, _) :=
      spelled.scan?_of_head further.plain
    rw [List.append_assoc, List.append_assoc, Numeral.findAll_of_scan? read,
      further.findAll_append, ih]

theorem ArgumentList.findAll_eq {raw : List Char} {ns : List Numeral} (h : ArgumentList raw ns) :
    Numeral.findAll raw = ns := by
  cases h with
  | none blank => exact Numeral.findAll_of_allBlank blank
  | some blank blank' arguments =>
    rw [List.append_assoc, Numeral.findAll_blank blank, arguments.findAll_append blank']

theorem Separates.plain_of_mem {gap rest : List Char} (h : Separates gap rest) :
    ∀ c ∈ gap, isBlank c = true ∨ c = ',' := by
  cases h with
  | comma blank blank' =>
    refine List.forall_mem_append.mpr ⟨?_, List.forall_mem_cons.mpr ⟨.inr rfl, ?_⟩⟩
    · exact fun c member => .inl (List.all_eq_true.mp blank c member)
    · exact fun c member => .inl (List.all_eq_true.mp blank' c member)
  | blanks _ blank => exact fun c member => .inl (List.all_eq_true.mp blank c member)
  | sign => exact nofun

theorem Separated.plain_of_mem {body : List Char} {ns : List Numeral} (h : Separated body ns) :
    ∀ c ∈ body, isNumeric c = true ∨ isBlank c = true ∨ c = ',' := by
  induction h with
  | last spelled => exact fun c member => .inl (spelled.numeric c member)
  | next spelled separates _ ih =>
    refine List.forall_mem_append.mpr ⟨List.forall_mem_append.mpr ⟨?_, ?_⟩, ih⟩
    · exact fun c member => .inl (spelled.numeric c member)
    · exact fun c member => .inr (separates.plain_of_mem c member)

/-- There are only characters of numerals, blanks and commas in an argument list. -/
theorem ArgumentList.plain_of_mem {raw : List Char} {ns : List Numeral}
    (h : ArgumentList raw ns) : ∀ c ∈ raw, isNumeric c = true ∨ isBlank c = true ∨ c = ',' := by
  cases h with
  | none blank => exact fun c member => .inr (.inl (List.all_eq_true.mp blank c member))
  | some blank blank' arguments =>
    refine List.forall_mem_append.mpr
      ⟨List.forall_mem_append.mpr ⟨?_, arguments.plain_of_mem⟩, ?_⟩
    · exact fun c member => .inr (.inl (List.all_eq_true.mp blank c member))
    · exact fun c member => .inr (.inl (List.all_eq_true.mp blank' c member))

/-! ## Reading -/

namespace TransformList

/-- Where another argument follows, it is behind a separator. -/
theorem separates_of_nextArg? {cs rest : List Char} (h : nextArg? cs = some rest) :
    ∃ gap, cs = gap ++ rest ∧
      ∀ body behind, rest = body ++ behind → body ≠ [] → Separates gap body := by
  obtain ⟨gap, split, blank, flush⟩ := exists_trimLeft cs
  rw [nextArg?] at h
  split at h
  · rename_i t trimmed
    obtain ⟨gap', split', blank', -⟩ := exists_trimLeft t
    cases h
    refine ⟨gap ++ ',' :: gap', ?_, fun _ _ _ _ => .comma blank blank'⟩
    rw [split, trimmed, List.append_assoc, List.cons_append, ← split']
  · rename_i c t _ trimmed
    split at h
    · rename_i starts
      cases h
      refine ⟨gap, by rw [← trimmed, ← split], ?_⟩
      intro body behind whole some_
      by_cases none_ : gap = []
      · subst none_
        cases body with
        | nil => exact absurd rfl some_
        | cons c' body =>
          obtain ⟨rfl, -⟩ := List.cons.inj whole
          refine .sign ?_
          rw [trimmed] at split
          simpa [split] using starts
      · exact .blanks none_ blank
    · cases h
  · cases h

/-- Behind a separator another argument follows. -/
theorem nextArg?_of_separates {gap rest : List Char} (h : Separates gap rest)
    (head : ∃ c ∈ rest.head?, isNumeric c = true) : nextArg? (gap ++ rest) = some rest := by
  have flush := flush_of_numeric head
  obtain ⟨c, first, numeric⟩ := head
  obtain ⟨t, rfl⟩ := List.head?_eq_some_iff.mp first
  have without_comma {gap : List Char} (blank : allBlank gap = true)
      (starts : gap ≠ [] ∨ c = '-' ∨ c = '+') : nextArg? (gap ++ c :: t) = some (c :: t) := by
    rw [nextArg?, trimLeft_append blank, trimLeft_of_flush flush]
    split
    · rename_i eq
      obtain ⟨rfl, -⟩ := List.cons.inj eq
      exact absurd numeric (by decide)
    · rename_i eq
      obtain ⟨rfl, rfl⟩ := List.cons.inj eq
      refine if_pos ?_
      simpa [List.length_pos_iff, or_assoc] using starts
    · rename_i eq
      cases eq
  cases h with
  | @comma gap gap' _ blank blank' =>
    have comma : Flush (',' :: (gap' ++ c :: t)) := by
      rintro c' ⟨⟩
      decide
    rw [nextArg?, List.append_assoc, trimLeft_append blank, List.cons_append,
      trimLeft_of_flush comma]
    simp only [trimLeft_append blank', trimLeft_of_flush flush]
  | blanks some_ blank => exact without_comma blank (.inl some_)
  | sign sign => exact without_comma rfl (.inr sign)

theorem argsFrom?_last {cs r : List Char} {n : Numeral} (read : Numeral.scan? cs = some (n, r))
    (blank : allBlank r = true) : argsFrom? cs = some [n] := by
  rw [argsFrom?]
  split
  · rename_i eq
    cases read.symm.trans eq
  · rename_i eq
    cases read.symm.trans eq
    rw [if_pos blank]

theorem argsFrom?_next {cs r t : List Char} {n : Numeral}
    (read : Numeral.scan? cs = some (n, r)) (further : allBlank r ≠ true)
    (next : nextArg? r = some t) : argsFrom? cs = (argsFrom? t).map (n :: ·) := by
  rw [argsFrom?]
  split
  · rename_i eq
    cases read.symm.trans eq
  · rename_i eq
    cases read.symm.trans eq
    rw [if_neg further]
    split
    · rename_i eq
      cases next.symm.trans eq
    · rename_i eq
      cases next.symm.trans eq
      rfl

/-- Arguments are read as they are written, with blanks behind them. -/
theorem argsFrom?_eq_some_iff {cs : List Char} {ns : List Numeral} :
    argsFrom? cs = some ns ↔
      ∃ body behind, cs = body ++ behind ∧ allBlank behind = true ∧ Separated body ns := by
  constructor
  · intro read
    fun_induction argsFrom? cs generalizing ns with
    | case1 | case3 => cases read
    | case2 cs n r scanned blank =>
      cases read
      obtain ⟨w, split, spelled⟩ := Numeral.exists_spells scanned
      exact ⟨w, r, split, blank, .last spelled⟩
    | case4 cs n r scanned further t next _ _ ih =>
      obtain ⟨ns, later, rfl⟩ := Option.map_eq_some_iff.mp read
      obtain ⟨w, split, spelled⟩ := Numeral.exists_spells scanned
      obtain ⟨body, behind, split', blank, arguments⟩ := ih later
      obtain ⟨gap, split'', separates⟩ := separates_of_nextArg? next
      have some_ : body ≠ [] := by
        rintro rfl
        obtain ⟨c, head, -⟩ := arguments.head []
        cases head
      refine ⟨w ++ gap ++ body, behind, ?_, blank,
        .next spelled (separates body behind split' some_) arguments⟩
      rw [split, split'', split', List.append_assoc, List.append_assoc]
  · rintro ⟨body, behind, rfl, blank, arguments⟩
    induction arguments with
    | @last w n spelled =>
      refine argsFrom?_last (spelled.scan?_of_head ?_) blank
      intro c head
      exact .inl (delimits_of_allBlank blank c head)
    | @next w gap rest n ns spelled separates arguments ih =>
      have further := separates.append behind
      have head := arguments.head behind
      rw [List.append_assoc, List.append_assoc,
        argsFrom?_next (spelled.scan?_of_head further.plain) (not_allBlank_of_numeric head gap)
          (nextArg?_of_separates further head), ih]
      rfl

/-- **Arguments.** Argument lists are read as they are written. -/
theorem args?_eq_some_iff {raw : List Char} {ns : List Numeral} :
    args? raw = some ns ↔ ArgumentList raw ns := by
  rw [args?]
  constructor
  · intro read
    split at read
    · rename_i blank
      cases read
      exact .none blank
    · obtain ⟨body, behind, split, blank, arguments⟩ := argsFrom?_eq_some_iff.mp read
      obtain ⟨before, split', blank', -⟩ := exists_trimLeft raw
      rw [split', split, ← List.append_assoc]
      exact .some blank' blank arguments
  · intro list
    cases list with
    | none blank => exact if_pos blank
    | @some before body behind _ blank blank' arguments =>
      have head := arguments.head behind
      rw [List.append_assoc, if_neg (not_allBlank_of_numeric head before), trimLeft_append blank,
        trimLeft_of_flush (flush_of_numeric head)]
      exact argsFrom?_eq_some_iff.mpr ⟨body, behind, rfl, blank', arguments⟩

end TransformList

end BoardPlotter
