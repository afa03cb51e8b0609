import BoardPlotter.Proofs.Scalar.Real
import BoardPlotter.Proofs.Svg.Arguments
import BoardPlotter.Proofs.Svg.Fault
import Mathlib.Tactic.Ring

/-!
# The grammar of transform lists

A transform list is a sequence of calls, each the name of a function, its arguments in
parentheses and an optional comma, with blanks between all of these (`Listed`). A list that
is one of these is read as its functions, and any other has an error
(`TransformList.ofString_eq_iff`).

`TransformList.read_grammar`: where no angle is infinite, precisely the lists of this grammar
have a map. In exact arithmetic, two lists one after the other have the composition of theirs,
and the second acts first.
-/

namespace BoardPlotter

open Text Scalar

namespace TransformName

/-- The numbers of arguments that a function takes. -/
def allowed : TransformName → List Nat
  | matrix => [6]
  | translate | scale => [1, 2]
  | rotate => [1, 3]
  | skewX | skewY => [1]

theorem mem_all (name : TransformName) : name ∈ all := by cases name <;> decide

/-- No name starts with another one. -/
theorem eq_of_prefix {n m : TransformName} {cs : List Char} (h : n.text.toList <+: cs)
    (h' : m.text.toList <+: cs) : n = m := by
  have apart : ∀ n ∈ all, ∀ m ∈ all, n.text.toList <+: m.text.toList → n = m := by decide +kernel
  rcases List.prefix_or_prefix_of_prefix h h' with shorter | longer
  · exact apart n n.mem_all m m.mem_all shorter
  · exact (apart m m.mem_all n n.mem_all longer).symm

/-- A name is a word of letters. -/
theorem head_text (name : TransformName) (cs : List Char) :
    ∃ c t, name.text.toList ++ cs = c :: t ∧ isBlank c = false ∧ c ≠ ',' := by
  cases name <;> exact ⟨_, _, rfl, by decide, by decide⟩

end TransformName

theorem TransformFunction.ofArgs?_isSome_iff (name : TransformName) (ns : List Numeral) :
    (ofArgs? name ns).isSome ↔ ns.length ∈ name.allowed := by
  rcases ns with _ | ⟨a, _ | ⟨b, _ | ⟨c, _ | ⟨d, _ | ⟨e, _ | ⟨f, _ | ⟨g, ns⟩⟩⟩⟩⟩⟩⟩ <;>
    cases name <;> simp [ofArgs?, TransformName.allowed]

/-- One function as it is written. -/
inductive Call : List Char → TransformFunction → Prop
  | parts {name : TransformName} {gap raw behind comma : List Char} {ns : List Numeral}
      {f : TransformFunction} : allBlank gap = true → ArgumentList raw ns →
      TransformFunction.ofArgs? name ns = some f → allBlank behind = true →
      comma = [] ∨ comma = [','] →
      Call (name.text.toList ++ gap ++ '(' :: raw ++ ')' :: behind ++ comma) f

/-- Functions as they are written, one after the other with blanks between them. -/
inductive Listed : List Char → List TransformFunction → Prop
  | nil : Listed [] []
  | cons {w gap rest : List Char} {f : TransformFunction} {fs : List TransformFunction} :
      Call w f → allBlank gap = true → Listed rest fs → Listed (w ++ gap ++ rest) (f :: fs)

/-! ## Reading -/

/-- No parenthesis is written among arguments. -/
theorem ArgumentList.not_paren {raw : List Char} {ns : List Numeral} (h : ArgumentList raw ns) :
    ∀ c ∈ raw, TransformList.isParen c = false := by
  intro c member
  by_contra paren
  have plain := h.plain_of_mem c member
  have either : c = '(' ∨ c = ')' := by
    simpa only [TransformList.isParen, Bool.not_eq_false, Bool.or_eq_true, beq_iff_eq] using paren
  rcases either with rfl | rfl <;> exact absurd plain (by decide)

namespace TransformList

theorem afterWord?_append (w rest : List Char) : afterWord? w (w ++ rest) = some rest := by
  induction w with
  | nil => rfl
  | cons c w ih => rw [List.cons_append, afterWord?, if_pos rfl, ih]

theorem eq_append_of_afterWord? {w cs rest : List Char} (h : afterWord? w cs = some rest) :
    cs = w ++ rest := by
  fun_induction afterWord? w cs with
  | case1 =>
    cases h
    rfl
  | case2 => cases h
  | case3 w c cs ih => rw [ih h, List.cons_append]
  | case4 => cases h

/-- A name at the head of the text decides on the function. -/
theorem function?_of_name {cs rest : List Char} {name : TransformName}
    (h : trimLeft cs = name.text.toList ++ rest) :
    function? cs = (call? rest).map fun (raw, r) => (name, raw, r) := by
  let try_ (other : TransformName) : Option (TransformName × List Char × List Char) :=
    (afterWord? other.text.toList (trimLeft cs)).bind fun r =>
      (call? r).map fun (raw, rest) => (other, raw, rest)
  have own : try_ name = (call? rest).map fun (raw, r) => (name, raw, r) := by
    simp only [try_, h, afterWord?_append, Option.bind_some]
  have alone {other : TransformName} {found} (some_ : try_ other = some found) : other = name := by
    obtain ⟨r, after, -⟩ := Option.bind_eq_some_iff.mp some_
    exact TransformName.eq_of_prefix ⟨r, (eq_append_of_afterWord? after).symm⟩ ⟨rest, h.symm⟩
  have tried : function? cs = TransformName.all.findSome? try_ := by
    refine congrArg (List.findSome? · TransformName.all) (funext fun other => ?_)
    simp only [try_]
    cases afterWord? other.text.toList (trimLeft cs) <;> rfl
  rw [tried, ← own]
  cases found : TransformName.all.findSome? try_ with
  | none => exact (List.findSome?_eq_none_iff.mp found name name.mem_all).symm
  | some result =>
    obtain ⟨other, -, some_⟩ := List.exists_of_findSome?_eq_some found
    rw [← alone some_, some_]

theorem name_of_function? {cs raw r : List Char} {name : TransformName}
    (h : function? cs = some (name, raw, r)) :
    ∃ rest, trimLeft cs = name.text.toList ++ rest ∧ call? rest = some (raw, r) := by
  obtain ⟨name', -, found⟩ := List.exists_of_findSome?_eq_some h
  split at found
  · cases found
  · rename_i rest after
    obtain ⟨⟨raw', r'⟩, call, eq⟩ := Option.map_eq_some_iff.mp found
    cases eq
    exact ⟨rest, eq_append_of_afterWord? after, call⟩

/-- Parentheses are closed where they are opened, and a comma behind them is skipped. -/
theorem call?_eq_some_iff {cs raw r : List Char} :
    call? cs = some (raw, r) ↔ ∃ gap t, cs = gap ++ '(' :: raw ++ ')' :: t ∧
      allBlank gap = true ∧ (∀ c ∈ raw, isParen c = false) ∧ r = dropComma (trimLeft t) := by
  constructor
  · intro called
    obtain ⟨gap, split_, blank, -⟩ := exists_trimLeft cs
    rw [call?] at called
    split at called
    · rename_i inside opened
      split at called
      · rename_i t closed
        cases called
        refine ⟨gap, t, ?_, blank, ?_, rfl⟩
        · rw [List.append_assoc, List.cons_append, ← closed, List.takeWhile_append_dropWhile,
            ← opened, ← split_]
        · intro c member
          have before := List.all_eq_true.mp List.all_takeWhile c member
          simpa using before
      · cases called
    · cases called
  · rintro ⟨gap, t, rfl, blank, plain, rfl⟩
    have opened : Flush ('(' :: (raw ++ ')' :: t)) := by
      rintro c ⟨⟩
      decide
    have inside : ∀ c ∈ raw, (!isParen c) = true := by simpa using plain
    rw [call?, List.append_assoc, trimLeft_append blank, List.cons_append,
      trimLeft_of_flush opened]
    simp only [List.dropWhile_append_of_pos inside, List.takeWhile_append_of_pos inside]
    simp [isParen]

theorem exists_dropComma (cs : List Char) :
    ∃ comma, (comma = [] ∨ comma = [',']) ∧ cs = comma ++ dropComma cs := by
  rw [dropComma.eq_def]
  split
  · exact ⟨_, .inr rfl, rfl⟩
  · exact ⟨_, .inl rfl, rfl⟩

theorem dropComma_of_head {cs : List Char} (h : cs.head? ≠ some ',') : dropComma cs = cs := by
  rw [dropComma.eq_def]
  split
  · exact absurd rfl h
  · rfl

/-- What is left behind the blanks and the comma of a call. -/
theorem trimLeft_dropComma {behind comma gap rest : List Char} (blank : allBlank behind = true)
    (either : comma = [] ∨ comma = [',']) (blank' : allBlank gap = true) (flush : Flush rest)
    (head : rest.head? ≠ some ',') :
    trimLeft (dropComma (trimLeft (behind ++ (comma ++ (gap ++ rest))))) = rest := by
  have inner : trimLeft (gap ++ rest) = rest := by
    rw [trimLeft_append blank', trimLeft_of_flush flush]
  rw [trimLeft_append blank]
  rcases either with rfl | rfl
  · rw [List.nil_append, inner, dropComma_of_head head, trimLeft_of_flush flush]
  · have comma : Flush ([','] ++ (gap ++ rest)) := by
      rintro c ⟨⟩
      decide
    rw [trimLeft_of_flush comma]
    exact inner

theorem scan_of_function? {cs raw r : List Char} {name : TransformName} {ns : List Numeral}
    {f : TransformFunction} (named : function? cs = some (name, raw, r))
    (read : args? raw = some ns) (counted : TransformFunction.ofArgs? name ns = some f) :
    scan cs = (f :: (scan (trimLeft r)).1, (scan (trimLeft r)).2) := by
  have some_ : ¬ cs.isEmpty = true := by
    intro empty
    obtain rfl := List.isEmpty_iff.mp empty
    cases named
  rw [scan, if_neg some_]
  split
  · rename_i eq
    cases named.symm.trans eq
  · rename_i eq
    cases named.symm.trans eq
    simp only [read, counted]

end TransformList

theorem Listed.head {cs : List Char} {fs : List TransformFunction} (h : Listed cs fs) :
    Flush cs ∧ cs.head? ≠ some ',' := by
  cases h with
  | nil => exact ⟨nofun, nofun⟩
  | cons call =>
    cases call with
    | @parts name =>
      simp only [List.append_assoc]
      obtain ⟨c, t, eq, black, noComma⟩ := name.head_text _
      rw [eq]
      refine ⟨?_, by simpa using noComma⟩
      rintro c' ⟨⟩
      exact black

namespace TransformList

/-- Functions are read as they are written. -/
theorem scan_of_listed {cs : List Char} {fs : List TransformFunction} (h : Listed cs fs) :
    scan cs = (fs, none) := by
  induction h with
  | nil =>
    rw [scan]
    rfl
  | @cons w space rest f fs call blank listed ih =>
    have flush := (Listed.cons call blank listed).head.1
    obtain ⟨flush', noComma⟩ := listed.head
    cases call with
    | @parts name gap raw behind comma ns _ blank' arguments counted blank'' either =>
      have called : call? (gap ++ '(' :: raw ++ ')' :: (behind ++ (comma ++ (space ++ rest)))) =
          some (raw, dropComma (trimLeft (behind ++ (comma ++ (space ++ rest))))) :=
        call?_eq_some_iff.mpr ⟨gap, _, rfl, blank', arguments.not_paren, rfl⟩
      have named : function? (name.text.toList ++ gap ++ '(' :: raw ++ ')' :: behind ++ comma ++
          space ++ rest) =
            some (name, raw, dropComma (trimLeft (behind ++ (comma ++ (space ++ rest))))) := by
        rw [function?_of_name, called]
        · rfl
        · rw [trimLeft_of_flush flush]
          simp
      rw [scan_of_function? named (args?_eq_some_iff.mpr arguments) counted,
        trimLeft_dropComma blank'' either blank flush' noComma, ih]

/-- What is read without an error is functions as they are written. -/
theorem listed_of_scan {cs : List Char} (flush : Flush cs) (h : (scan cs).2 = none) :
    Listed cs (scan cs).1 := by
  fun_induction scan cs with
  | case1 cs empty =>
    obtain rfl := List.isEmpty_iff.mp empty
    exact .nil
  | case2 | case3 | case4 => cases h
  | case5 cs _ name raw r named ns read f counted shorter fs e later ih =>
    obtain ⟨rest, split, called⟩ := name_of_function? named
    obtain ⟨gap, t, split', blank, -, rfl⟩ := call?_eq_some_iff.mp called
    obtain ⟨behind, split'', blank', -⟩ := exists_trimLeft t
    obtain ⟨comma, either, dropped⟩ := exists_dropComma (trimLeft t)
    obtain ⟨space, spaced, blank'', flush'⟩ := exists_trimLeft (dropComma (trimLeft t))
    have call := Call.parts blank (args?_eq_some_iff.mp read) counted blank' either
    have tail : t = behind ++ (comma ++ (space ++ trimLeft (dropComma (trimLeft t)))) := by
      rw [← spaced, ← dropped, ← split'']
    have whole : cs = name.text.toList ++ gap ++ '(' :: raw ++ ')' :: behind ++ comma ++ space ++
        trimLeft (dropComma (trimLeft t)) := by
      rw [← trimLeft_of_flush flush, split, split']
      conv => lhs; rw [tail]
      simp only [List.append_assoc, List.cons_append]
    rw [whole]
    rw [later] at ih
    exact .cons call blank'' (ih flush' h)

/-- **Grammar.** A value is read as the functions that are written in it, with an error where
it is written in another way. -/
theorem ofString_eq_iff {value : String} {fs : List TransformFunction} :
    ofString value = (fs, none) ↔ Listed (trim value.toList) fs := by
  obtain ⟨-, -, -, -, -, flush, -⟩ := exists_trim value.toList
  constructor
  · intro read
    have listed := listed_of_scan flush (congrArg Prod.snd read)
    rwa [show (scan (trim value.toList)).1 = fs from congrArg Prod.fst read] at listed
  · exact scan_of_listed

/-- No separator stands between two numbers. -/
example : ofString "rotate(45) scale(1.5.5)" =
    ([.rotate ⟨false, 45, 0⟩ none], some (.arguments .scale "1.5.5")) := by
  decide +kernel

end TransformList

/-- A text is one list of functions at most. -/
theorem Listed.unique {cs : List Char} {fs gs : List TransformFunction} (h : Listed cs fs)
    (h' : Listed cs gs) : fs = gs :=
  congrArg Prod.fst ((TransformList.scan_of_listed h).symm.trans (TransformList.scan_of_listed h'))

theorem Listed.append {cs gap ds : List Char} {fs gs : List TransformFunction}
    (h : Listed cs fs) (some_ : cs ≠ []) (blank : allBlank gap = true) (h' : Listed ds gs) :
    Listed (cs ++ gap ++ ds) (fs ++ gs) := by
  induction h with
  | nil => exact absurd rfl some_
  | @cons w space rest f fs call blank' listed ih =>
    by_cases last : rest = []
    · subst last
      obtain rfl := listed.unique .nil
      have wider : allBlank (space ++ gap) = true := allBlank_append.mpr ⟨blank', blank⟩
      have longer : Listed _ ([f] ++ gs) := Listed.cons call wider h'
      simpa only [List.append_assoc, List.append_nil] using longer
    · have longer : Listed _ (f :: fs ++ gs) := Listed.cons call blank' (ih last)
      simpa only [List.append_assoc] using longer

namespace TransformList

/-- Lists one after the other are the list of all their functions. -/
theorem ofString_append {s t : String} {fs gs : List TransformFunction}
    (h : ofString s = (fs, none)) (h' : ofString t = (gs, none)) :
    ofString (s ++ " " ++ t) = (fs ++ gs, none) := by
  have first := ofString_eq_iff.mp h
  have second := ofString_eq_iff.mp h'
  have text : (s ++ " " ++ t).toList = s.toList ++ [' '] ++ t.toList := by
    simp only [String.toList_append]
    rfl
  rw [ofString_eq_iff, text]
  have space : allBlank [' '] = true := rfl
  rcases trim_append space s.toList t.toList with
    ⟨none_, whole⟩ | ⟨none_, whole⟩ | ⟨some_, gap, blank, whole⟩
  · rw [none_] at first
    obtain rfl := first.unique .nil
    rw [whole]
    exact second
  · rw [none_] at second
    obtain rfl := second.unique .nil
    rw [whole, List.append_nil]
    exact first
  · rw [whole]
    exact first.append some_ blank second

end TransformList

/-! ## Composition -/

namespace Affine

theorem comp_assoc (s t u : Affine ℝ) : (s.comp t).comp u = s.comp (t.comp u) := by
  simp only [comp]
  congr 1 <;> ring

theorem comp_identity (t : Affine ℝ) : t.comp identity = t := by
  obtain ⟨a, b, c, d, e, f⟩ := t
  simp only [comp, identity]
  congr 1 <;> ring

/-- The right map of a composition acts first. -/
theorem comp_apply (s t : Affine ℝ) (p : Point ℝ) : (s.comp t).apply p = s.apply (t.apply p) := by
  simp only [comp, apply]
  congr 1 <;> ring

end Affine

namespace TransformList

/-- Composing from a map on is composing with it. -/
theorem foldlM_comp (t u : Affine ℝ) (gs : List TransformFunction) :
    gs.foldlM (fun t g => return t.comp (← g.toAffine?)) (t.comp u) =
      (t.comp ·) <$> gs.foldlM (fun t g => return t.comp (← g.toAffine?)) u := by
  induction gs generalizing u with
  | nil => rfl
  | cons g gs ih =>
    simp only [List.foldlM_cons]
    cases (g.toAffine? : Except Fault (Affine ℝ)) with
    | error x => rfl
    | ok map =>
      have next := ih (u.comp map)
      rw [← Affine.comp_assoc] at next
      exact next

/-- The functions of two lists compose to the composition of both. -/
theorem compose_append {fs gs : List TransformFunction} {a b : Affine ℝ}
    (h : compose fs = .ok a) (h' : compose gs = .ok b) : compose (fs ++ gs) = .ok (a.comp b) := by
  have behind := foldlM_comp a .identity gs
  rw [Affine.comp_identity] at behind
  calc compose (fs ++ gs)
      = (compose fs >>= fun t => gs.foldlM (fun t g => return t.comp (← g.toAffine?)) t) := by
        rw [compose, List.foldlM_append]
        rfl
    _ = (a.comp ·) <$> compose gs := by
        rw [h]
        exact behind
    _ = .ok (a.comp b) := by
        rw [h']
        rfl

variable {α : Type} [Scalar α]

theorem read_of_compose {value : String} {fs : List TransformFunction} {e : Option TransformError}
    {t : Affine α} (h : ofString value = (fs, e)) (composed : compose fs = .ok t) :
    read value = .ok (if e.isSome then .identity else t, e) := by
  rw [read, h]
  simp only [composed]
  cases e <;> rfl

/-- A list without an error has the composition of its functions. -/
theorem read_eq_ok_none_iff {value : String} {t : Affine α} :
    read value = .ok (t, none) ↔
      ∃ fs, ofString value = (fs, none) ∧ compose fs = .ok t := by
  constructor
  · intro h
    rcases whole : ofString value with ⟨fs, e⟩
    cases map : (compose fs : Except Fault (Affine α)) with
    | error x =>
      rw [read, whole] at h
      simp only [map] at h
      cases h
    | ok u =>
      rw [read_of_compose whole map] at h
      cases h
      exact ⟨fs, rfl, map⟩
  · rintro ⟨fs, whole, composed⟩
    exact read_of_compose whole composed

/-- Without an infinite angle the functions have a composition. -/
theorem exists_compose {fs : List TransformFunction} (finite : ∀ g ∈ fs, g.fault? α = none) :
    ∃ t : Affine α, compose fs = .ok t := by
  cases map : (compose fs : Except Fault (Affine α)) with
  | ok t => exact ⟨t, rfl⟩
  | error x =>
    have first := (compose_eq_error_iff fs x).mp map
    rw [List.findSome?_eq_none_iff.mpr finite] at first
    cases first

/-- **Transform lists.** A value is accepted precisely if it is a transform list, and then has
the composition of its functions; any other value has an error. Looking for numerals in the
arguments of a function finds these. In exact arithmetic, the value of two lists one after
the other is the composition of both, the second acting first. -/
theorem read_grammar (value : String) (finite : ∀ g ∈ (ofString value).1, g.fault? α = none) :
    (∀ fs, Listed (trim value.toList) fs ↔ ofString value = (fs, none)) ∧
      (∀ fs, Listed (trim value.toList) fs →
        ∃ t : Affine α, compose fs = .ok t ∧ read value = .ok (t, none)) ∧
      ((¬ ∃ fs, Listed (trim value.toList) fs) →
        ∃ e, read value = .ok ((.identity : Affine α), some e)) ∧
      (∀ name ns, (TransformFunction.ofArgs? name ns).isSome ↔ ns.length ∈ name.allowed) ∧
      (∀ raw ns, ArgumentList raw ns → Numeral.findAll raw = ns) ∧
      ∀ s t (a b : Affine ℝ), read s = .ok (a, none) → read t = .ok (b, none) →
        read (s ++ " " ++ t) = .ok (a.comp b, none) ∧
          ∀ p, (a.comp b).apply p = a.apply (b.apply p) := by
  obtain ⟨map, composed⟩ := exists_compose finite
  refine ⟨fun fs => ofString_eq_iff.symm, ?_, ?_, TransformFunction.ofArgs?_isSome_iff,
    fun raw ns => ArgumentList.findAll_eq, ?_⟩
  · intro fs listed
    have read := ofString_eq_iff.mpr listed
    rw [read] at composed
    exact ⟨map, composed, read_eq_ok_none_iff.mpr ⟨fs, read, composed⟩⟩
  · intro unlisted
    rcases whole : ofString value with ⟨fs, e⟩
    rw [whole] at composed
    cases e with
    | none => exact absurd ⟨fs, ofString_eq_iff.mp whole⟩ unlisted
    | some e => exact ⟨e, read_of_compose whole composed⟩
  · intro s t a b first second
    obtain ⟨fs, listed, composed⟩ := read_eq_ok_none_iff.mp first
    obtain ⟨gs, listed', composed'⟩ := read_eq_ok_none_iff.mp second
    refine ⟨?_, a.comp_apply b⟩
    exact read_eq_ok_none_iff.mpr
      ⟨fs ++ gs, ofString_append listed listed', compose_append composed composed'⟩

/-- A number that its sign parts from the one before, and a comma at the end. -/
theorem read_move_and_scale :
    let s := "translate(10-5)"
    let t := " scale(2),"
    (∀ g ∈ (ofString s).1, g.fault? ℝ = none) ∧
      ∃ a b : Affine ℝ, read s = .ok (a, none) ∧ read t = .ok (b, none) ∧
        read (s ++ " " ++ t) = .ok (a.comp b, none) := by
  intro s t
  have moves : ofString s = ([.translate ⟨false, 10, 0⟩ (some ⟨true, 5, 0⟩)], none) := by
    decide +kernel
  have scales : ofString t = ([.scale ⟨false, 2, 0⟩ none], none) := by decide +kernel
  have finite : ∀ g ∈ (ofString s).1, g.fault? ℝ = none := by
    rw [moves]
    rintro g (_ | ⟨_, ⟨⟩⟩)
    rfl
  obtain ⟨listed, accepted, -, -, -, together⟩ := read_grammar s finite
  obtain ⟨a, -, first⟩ := accepted _ ((listed _).mpr moves)
  obtain ⟨b, composed⟩ : ∃ b : Affine ℝ, compose [.scale ⟨false, 2, 0⟩ none] = .ok b := ⟨_, rfl⟩
  have second := read_of_compose scales composed
  exact ⟨finite, a, b, first, second, (together s t a b first second).1⟩

end TransformList

end BoardPlotter
