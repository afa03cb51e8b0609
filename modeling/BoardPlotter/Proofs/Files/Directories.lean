import BoardPlotter.Files.Tree
import Mathlib.Data.List.TakeWhile

/-!
# Directories that are made

What is in a tree after a change of one place, and after directories are made: those that
are missing on the way, before the first place on it that a file takes (`Tree.makes`). So
making directories only fills places where nothing was (`Tree.get?_ensure`), and is refused
just if there is a file on the way (`Tree.ensure_eq_none_iff`).
-/

namespace BoardPlotter

namespace Place

/-! ### Places -/

theorem above_concat (p : Place) (n : String) : above (p ++ [n]) = way p := by
  have init (k : Nat) (h : k ∈ List.range p.length) : (p ++ [n]).take k = p.take k :=
    List.take_append_of_le_length (Nat.le_of_lt (List.mem_range.mp h))
  rw [above, List.length_append, List.length_singleton, List.range_succ, List.map_append,
    List.map_congr_left init, way, above]
  simp

theorem isPrefix_of_mem_way {p q : Place} (h : q ∈ p.way) : q <+: p := by
  obtain above | self := List.mem_append.mp h
  · obtain ⟨k, -, rfl⟩ := List.mem_map.mp above
    exact List.take_prefix k p
  · exact List.mem_singleton.mp self ▸ List.prefix_rfl

theorem isTop_concat {p : Place} {n : String} (down : n ≠ "..") (named : n ≠ "/") :
    isTop (p ++ [n]) = false := by
  have root : p ++ [n] ≠ ["/"] := fun h => named (by simpa using congrArg List.getLast? h)
  simp [isTop, down, root]

theorem direct_concat (p : Place) {n : String} (down : n ≠ "..") :
    direct (p ++ [n]) = p.direct ++ [n] := by
  rw [direct, List.foldl_append]
  simp [direct, down]

/-- A place without ways up is as it is spelled. -/
theorem direct_eq_self {p : Place} (h : ".." ∉ p) : p.direct = p := by
  have main (p q : Place) (h : ".." ∉ p) :
      p.foldl (fun q n => if n == ".." then up q else q ++ [n]) q = q ++ p := by
    induction p generalizing q with
    | nil => simp
    | cons n p ih =>
      obtain ⟨down, rest⟩ := not_or.mp (List.mem_cons.not.mp h)
      have step : (if n == ".." then up q else q ++ [n]) = q ++ [n] := by
        simp [Ne.symm down]
      rw [List.foldl_cons, step, ih _ rest, List.append_assoc, List.singleton_append]
  exact main p [] h

/-- A named place is an entry of the directory above it. -/
theorem exists_of_isNamed {p : Place} (h : p.isNamed = true) :
    ∃ q n, p = q ++ [n] ∧ p.parent = q ∧ p.name = n ∧ n ≠ ".." ∧ n ≠ "/" := by
  obtain ⟨some_, down⟩ := Bool.and_eq_true_iff.mp h
  have some_ : p.name ≠ "" := by simpa using some_
  have down : p.name ≠ ".." := by simpa using down
  obtain rfl | ⟨q, n, rfl⟩ := List.eq_nil_or_concat p
  · exact absurd rfl some_
  · rw [List.concat_eq_append] at some_ down ⊢
    have named : n ≠ "/" := by
      rintro rfl
      simp [name] at some_
    have name : name (q ++ [n]) = n := by
      simp only [name, List.getLast?_append, List.getLast?_singleton, Option.some_or]
    have other : q ++ [n] ≠ ["/"] := fun h => named (by simpa using congrArg List.getLast? h)
    rw [name] at down
    exact ⟨q, n, rfl, by rw [parent, if_neg other, List.dropLast_concat], name, down, named⟩

end Place

namespace Tree

variable (t : Tree)

/-! ### One place -/

theorem get?_of_isTop {p : Place} (h : p.isTop = true) : t.get? p = some .directory := if_pos h

theorem isTop_of_get? {t : Tree} {p : Place} (h : t.get? p = none) : p.isTop = false := by
  by_contra top
  rw [t.get?_of_isTop (by simpa using top)] at h
  cases h

theorem lookup_remove (p q : Place) :
    (t.remove p).entries.lookup q = if q = p then none else t.entries.lookup q := by
  rw [remove]
  induction t.entries with
  | nil => simp
  | cons x entries ih =>
    obtain ⟨r, e⟩ := x
    by_cases gone : r = p
    · rw [List.filter_cons_of_neg (by simp [gone]), ih, List.lookup_cons, gone]
      by_cases here : q = p
      · rw [if_pos here, if_pos here]
      · rw [if_neg here, if_neg here, beq_false_of_ne here]
    · rw [List.filter_cons_of_pos (by simp [gone]), List.lookup_cons, ih, List.lookup_cons]
      by_cases first : q = r
      · simp only [first, beq_self_eq_true, if_neg gone]
      · rw [beq_false_of_ne first]

theorem get?_remove_self {p : Place} (h : p.isTop = false) : (t.remove p).get? p = none := by
  rw [get?, h, lookup_remove, if_pos rfl]
  rfl

theorem get?_remove_of_ne {p q : Place} (h : q ≠ p) : (t.remove p).get? q = t.get? q := by
  rw [get?, lookup_remove, if_neg h, get?]

theorem get?_put_self {p : Place} (h : p.isTop = false) (e : Entry) :
    (t.put p e).get? p = some e := by
  rw [get?, h, put]
  simp

theorem get?_put_of_ne {p q : Place} (h : q ≠ p) (e : Entry) : (t.put p e).get? q = t.get? q := by
  rw [get?, put, List.lookup_cons, beq_false_of_ne h, lookup_remove, if_neg h, get?]

theorem put_put (p : Place) (e e' : Entry) : (t.put p e).put p e' = t.put p e' := by
  simp [put, remove]

/-! ### Directories -/

theorem isFile_eq_false_iff {p : Place} :
    t.isFile p = false ↔ t.get? p.direct = none ∨ t.get? p.direct = some .directory := by
  rw [isFile]
  split
  · rename_i file
    simp [file]
  · rename_i other
    cases h : t.get? p.direct with
    | none => simp
    | some e =>
      cases e with
      | file content => exact absurd h (other content)
      | directory => simp

/-- The places on a way where directories are made. -/
def makes (t : Tree) (ps : List Place) : List Place :=
  ((ps.takeWhile fun p => !t.isFile p).map Place.direct).filter fun q => (t.get? q).isNone

theorem mem_makes_iff {ps : List Place} {q : Place} :
    q ∈ t.makes ps ↔ (∃ p ∈ ps.takeWhile fun p => !t.isFile p, p.direct = q) ∧ t.get? q = none := by
  rw [makes, List.mem_filter, List.mem_map, Option.isNone_iff_eq_none]

/-- A directory where nothing was is in the way of nothing. -/
theorem isFile_put_directory {p : Place} (h : t.get? p = none) (q : Place) :
    (t.put p .directory).isFile q = t.isFile q := by
  by_cases here : q.direct = p
  · rw [isFile, isFile, here, get?_put_self t (isTop_of_get? h), h]
  · rw [isFile, isFile, get?_put_of_ne t here]

/-- Making directories fills the places where they are made, and no others. -/
theorem get?_makeDirectories (ps : List Place) (q : Place) :
    (t.makeDirectories ps).1.get? q = if q ∈ t.makes ps then some .directory else t.get? q := by
  induction ps generalizing t with
  | nil => rfl
  | cons p ps ih =>
    rw [makeDirectories]
    split
    · rename_i there
      have same : t.makes (p :: ps) = t.makes ps := by
        simp [makes, isFile, there]
      rw [ih, same]
    · rename_i content there
      have none_ : t.makes (p :: ps) = [] := by
        simp [makes, isFile, there]
      rw [none_, if_neg List.not_mem_nil]
    · rename_i missing
      have free : t.isFile p = false := t.isFile_eq_false_iff.mpr (.inl missing)
      have first : q ∈ t.makes (p :: ps) ↔
          q = p.direct ∨ q ∈ (t.put p.direct .directory).makes ps := by
        by_cases here : q = p.direct
        · subst here
          simp [mem_makes_iff, free, missing]
        · simp only [mem_makes_iff, isFile_put_directory t missing, get?_put_of_ne t here,
            here, false_or]
          simp [free, Ne.symm here]
      rw [ih]
      by_cases here : q = p.direct
      · rw [if_pos (first.mpr (.inl here)), here, get?_put_self t (isTop_of_get? missing)]
        split <;> rfl
      · rw [get?_put_of_ne t here]
        simp only [first, here, false_or]

/-- Making directories is refused at the first file. -/
theorem error_makeDirectories (ps : List Place) :
    (t.makeDirectories ps).2 =
      (ps.find? t.isFile).map fun p => { cause := .taken, place := p } := by
  induction ps generalizing t with
  | nil => rfl
  | cons p ps ih =>
    rw [makeDirectories]
    split
    · rename_i there
      rw [ih, List.find?_cons_of_neg (by simp [isFile, there])]
    · rename_i content there
      rw [List.find?_cons_of_pos (by simp [isFile, there])]
      rfl
    · rename_i missing
      have same : (t.put p.direct .directory).isFile = t.isFile :=
        funext (isFile_put_directory t missing)
      rw [ih, same, List.find?_cons_of_neg (by simp [isFile, missing])]

theorem closed?_eq_none_iff {p : Place} :
    t.closed? p = none ↔ t.get? p.direct = some .directory := by
  rw [closed?]
  split <;> simp_all

theorem obstacle?_eq_none_iff {p : Place} :
    t.obstacle? p = none ↔ ∀ q ∈ p.above, t.get? q.direct = some .directory := by
  rw [obstacle?, List.findSome?_eq_none_iff]
  exact forall₂_congr fun _ _ => t.closed?_eq_none_iff

/-- Where a file is in the way before anything is missing, nothing is to be made. -/
theorem makes_of_closed {ps : List Place} (h : ps.findSome? t.closed? = some .notDirectory)
    (rest : List Place) :
    t.makes (ps ++ rest) = [] ∧ ∃ q ∈ ps ++ rest, t.isFile q = true := by
  induction ps with
  | nil => cases h
  | cons p ps ih =>
    rw [List.findSome?_cons, closed?] at h
    cases there : t.get? p.direct with
    | none => simp [there] at h
    | some e =>
      cases e with
      | file content =>
        have file : t.isFile p = true := by simp [isFile, there]
        exact ⟨by simp [makes, file], p, List.mem_cons_self, file⟩
      | directory =>
        rw [there] at h
        obtain ⟨none_, q, member, file⟩ := ih h
        refine ⟨?_, q, List.mem_cons_of_mem _ member, file⟩
        rw [← none_]
        simp [makes, isFile, there]

theorem get?_ensure (p q : Place) :
    (t.ensure p).1.get? q = if q ∈ t.makes p.way then some .directory else t.get? q := by
  rw [ensure]
  split
  · rename_i blocked
    rw [Place.way, (t.makes_of_closed blocked [p]).1, if_neg List.not_mem_nil]
  · exact t.get?_makeDirectories p.way q

/-- A directory is refused just if there is a file on the way to it. -/
theorem ensure_eq_none_iff {p : Place} :
    (t.ensure p).2 = none ↔ ∀ q ∈ p.way, t.isFile q = false := by
  rw [ensure]
  split
  · rename_i blocked
    obtain ⟨-, q, member, file⟩ := t.makes_of_closed blocked [p]
    refine iff_of_false nofun fun free => ?_
    rw [free q member] at file
    cases file
  · simp [error_makeDirectories]

/-- If it is not refused, it is there with all above it. -/
theorem get?_ensure_of_mem {p q : Place} (made : (t.ensure p).2 = none) (member : q ∈ p.way) :
    (t.ensure p).1.get? q.direct = some .directory := by
  have free := t.ensure_eq_none_iff.mp made
  have all : (p.way.takeWhile fun q => !t.isFile q) = p.way :=
    List.takeWhile_eq_self_iff.mpr fun q member => by simp [free q member]
  rw [get?_ensure]
  obtain missing | there := t.isFile_eq_false_iff.mp (free q member)
  · exact if_pos (t.mem_makes_iff.mpr ⟨⟨q, by rwa [all], rfl⟩, missing⟩)
  · rw [there, ite_self]

/-- Without ways up, nothing is made but below nothing else. -/
theorem not_mem_makes_parent {p : Place} (h : ".." ∉ p) : p.direct ∉ t.makes p.parent.way := by
  intro made
  obtain ⟨⟨q, member, same⟩, missing⟩ := t.mem_makes_iff.mp made
  have start : q <+: p.parent := Place.isPrefix_of_mem_way (List.takeWhile_subset _ member)
  have inside : p.parent <+: p := by
    rw [Place.parent]
    split
    · exact List.prefix_rfl
    · exact List.dropLast_prefix p
  rw [Place.direct_eq_self h] at same missing
  rw [Place.direct_eq_self fun up => h ((start.trans inside).subset up)] at same
  subst same
  -- The place would be above itself, so at the top, where there always is something.
  have top : q.isTop = true := by
    rw [Place.parent] at start
    split at start
    · rename_i root
      rw [root]
      rfl
    · have short := start.length_le
      rw [List.length_dropLast] at short
      have empty : q.length = 0 := by omega
      rw [List.length_eq_zero_iff.mp empty]
      rfl
  rw [t.get?_of_isTop top] at missing
  cases missing

end Tree

end BoardPlotter
