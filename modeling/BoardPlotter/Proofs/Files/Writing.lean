import Mathlib.Data.List.Nodup
import Mathlib.Data.List.Perm.Subperm
import BoardPlotter.Files.Charset
import BoardPlotter.Proofs.Files.Directories

/-!
# Whole or not at all

Until the last step of a write only the draft differs from the tree with its directories
made (`WriteStep.run_before_rename`), and the last step moves it to its place or is refused
(`Tree.rename_draft`). So a write that returns leaves the file whole, one that fails leaves
everything but the new directories as it was, and there is no draft afterwards
(`Tree.write_whole`).

New directories are made only where nothing was. But a path that leads up again may pass
the very place it leads to: then a directory is made there before the write is refused for
it (`Tree.write_onto_own_way`).
-/

namespace BoardPlotter

namespace Place

/-! ### Drafts -/

theorem length_lt_draftName (n mark : String) : n.length + 5 ≤ s!".{n}.{mark}.tmp".length := by
  have dot : ".".length = 1 := rfl
  have suffix : ".tmp".length = 4 := rfl
  simp only [toString, String.length_append, dot, suffix]
  omega

theorem draft_injective (p : Place) : Function.Injective p.draft := fun a b same => by
  have names := List.singleton_inj.mp (List.append_cancel_left same)
  simpa [toString] using names

theorem isTop_draft (p : Place) (mark : String) : (p.draft mark).isTop = false := by
  have long := length_lt_draftName p.name mark
  refine isTop_concat (fun up => ?_) (fun root => ?_)
  · have two : "..".length = 2 := rfl
    rw [up] at long
    omega
  · have one : "/".length = 1 := rfl
    rw [root] at long
    omega

theorem isTop_direct {p : Place} (named : p.isNamed = true) : p.direct.isTop = false := by
  obtain ⟨q, n, rfl, -, -, down, root⟩ := exists_of_isNamed named
  rw [direct_concat q down]
  exact isTop_concat down root

/-- A draft is another place than the one it is for. -/
theorem draft_ne_direct {p : Place} (named : p.isNamed = true) (mark : String) :
    p.draft mark ≠ p.direct := by
  obtain ⟨q, n, rfl, parent, name, down, -⟩ := exists_of_isNamed named
  rw [draft, parent, name, direct_concat q down]
  intro same
  have long := length_lt_draftName n mark
  rw [List.singleton_inj.mp (List.append_cancel_left same)] at long
  omega

end Place

namespace WriteStep

variable (faults : WriteStep → Option OsCause) (draft p : Place) (content : Bytes)

theorem run_append (t : Tree) (first last : List WriteStep) :
    run faults draft p content t (first ++ last) =
      match run faults draft p content t first with
      | (t, some e) => (t, some e)
      | (t, none) => run faults draft p content t last := by
  induction first generalizing t with
  | nil => rfl
  | cons s first ih =>
    rw [List.cons_append, run, run]
    cases faults s with
    | some cause => rfl
    | none =>
      cases s.apply draft p content t with
      | error e => rfl
      | ok t => exact ih t

theorem run_rename (t : Tree) :
    run faults draft p content t [rename] =
      match faults rename with
      | some cause => (t, some { cause, place := draft })
      | none =>
        match t.rename draft p with
        | .error e => (t, some e)
        | .ok t => (t, none) := rfl

/-- **Before the file is moved** only the draft changes, and nothing but a fault from
outside ends the write. -/
theorem run_before_rename (t : Tree) (c : Bytes) {steps : List WriteStep}
    (before : rename ∉ steps) :
    ∃ c' error, run faults draft p content (t.put draft (.file c)) steps =
        (t.put draft (.file c'), error) ∧
      (error = none ↔ ∀ s ∈ steps, faults s = none) ∧
      (error = none → c' = if write ∈ steps then content else c) := by
  induction steps generalizing c with
  | nil => exact ⟨c, none, rfl, by simp, fun _ => rfl⟩
  | cons s steps ih =>
    obtain ⟨other, later⟩ := not_or.mp (List.mem_cons.not.mp before)
    rw [run]
    cases fault : faults s with
    | some cause => exact ⟨c, some _, rfl, by simp [fault], nofun⟩
    | none =>
      obtain ⟨c₁, drafted, kept⟩ : ∃ c₁, s.apply draft p content (t.put draft (.file c)) =
          .ok (t.put draft (.file c₁)) ∧ c₁ = if s = write then content else c := by
        cases s with
        | write => exact ⟨content, congrArg Except.ok (t.put_put draft _ _), rfl⟩
        | flush | sync | close => exact ⟨c, rfl, rfl⟩
        | rename => exact absurd rfl other
      obtain ⟨c', error, ran, clear, written⟩ := ih c₁ later
      refine ⟨c', error, by rw [drafted]; exact ran, ?_, fun h => ?_⟩
      · rw [clear, List.forall_mem_cons, fault]
        simp
      · rw [written h, kept]
        cases s <;> simp

end WriteStep

namespace Tree

variable {t : Tree} {p : Place} {mark : String}

/-- **The last step** moves the draft to its place, or is refused. -/
theorem rename_draft (c : Bytes) (fresh : t.get? (p.draft mark) = none)
    (above : p.isNamed = true → ∀ q ∈ p.above, t.get? q.direct = some .directory) :
    if p.isNamed = true ∧ t.get? p.direct ≠ some .directory then
      (t.put (p.draft mark) (.file c)).rename (p.draft mark) p =
        .ok (((t.put (p.draft mark) (.file c)).remove (p.draft mark)).put p.direct (.file c))
    else ∃ e, (t.put (p.draft mark) (.file c)).rename (p.draft mark) p = .error e := by
  rw [rename]
  by_cases named : p.isNamed = true
  · have clear : (t.put (p.draft mark) (.file c)).obstacle? p = none := by
      rw [obstacle?_eq_none_iff]
      intro q member
      have apart : q.direct ≠ p.draft mark := by
        intro same
        rw [← same, above named q member] at fresh
        cases fresh
      rw [get?_put_of_ne t apart, above named q member]
    rw [clear, t.get?_put_self (p.isTop_draft mark), get?_put_of_ne t
      (p.draft_ne_direct named mark).symm]
    cases there : t.get? p.direct with
    | none => simp [named]
    | some e => cases e <;> simp [named]
  · rw [if_neg fun h => named h.1]
    split
    · exact ⟨_, rfl⟩
    · exact ⟨_, if_pos (by simpa using named)⟩

/-- Taking the draft away leaves the tree as it was before. -/
theorem get?_remove_draft (c : Bytes) (fresh : t.get? (p.draft mark) = none) (q : Place) :
    ((t.put (p.draft mark) (.file c)).remove (p.draft mark)).get? q = t.get? q := by
  by_cases here : q = p.draft mark
  · rw [here, get?_remove_self _ (p.isTop_draft mark), fresh]
  · rw [get?_remove_of_ne _ here, get?_put_of_ne t here]

/-- A file can be moved to a place: there is no file on the way to it, and it is no directory
and does not become one on the way. -/
structure Admits (t : Tree) (p : Place) : Prop where
  named : p.isNamed = true
  way : ∀ q ∈ p.parent.way, t.isFile q = false
  free : t.get? p.direct ≠ some .directory
  apart : p.direct ∉ t.makes p.parent.way

theorem admits_iff :
    t.Admits p ↔ (t.ensure p.parent).2 = none ∧ p.isNamed = true ∧
      (t.ensure p.parent).1.get? p.direct ≠ some .directory := by
  rw [ensure_eq_none_iff, get?_ensure]
  constructor
  · rintro ⟨named, way, free, apart⟩
    exact ⟨way, named, by rwa [if_neg apart]⟩
  · rintro ⟨way, named, free⟩
    by_cases made : p.direct ∈ t.makes p.parent.way
    · exact absurd (if_pos made) free
    · rw [if_neg made] at free
      exact ⟨named, way, free, made⟩

/-- **A run** moves the draft if it meets no fault and the place is free, and else ends with
the draft in its place. -/
theorem run_all (faults : WriteStep → Option OsCause) (content : Bytes)
    (fresh : t.get? (p.draft mark) = none)
    (above : p.isNamed = true → ∀ q ∈ p.above, t.get? q.direct = some .directory) :
    ((∀ s, faults s = none) ∧ p.isNamed = true ∧ t.get? p.direct ≠ some .directory ∧
      WriteStep.run faults (p.draft mark) p content (t.put (p.draft mark) (.file []))
        WriteStep.all =
      (((t.put (p.draft mark) (.file content)).remove (p.draft mark)).put p.direct
        (.file content), none)) ∨
    ¬ ((∀ s, faults s = none) ∧ p.isNamed = true ∧ t.get? p.direct ≠ some .directory) ∧
      ∃ c e, WriteStep.run faults (p.draft mark) p content (t.put (p.draft mark) (.file []))
        WriteStep.all = (t.put (p.draft mark) (.file c), some e) := by
  have last : WriteStep.all = [.write, .flush, .sync, .close] ++ [.rename] := rfl
  obtain ⟨c, error, ran, clear, written⟩ := WriteStep.run_before_rename faults (p.draft mark) p
    content t [] (by decide : .rename ∉ [WriteStep.write, .flush, .sync, .close])
  rw [last, WriteStep.run_append, ran]
  cases error with
  | some e =>
    refine .inr ⟨fun ⟨unfaulted, _⟩ => ?_, c, e, rfl⟩
    cases clear.mpr fun s _ => unfaulted s
  | none =>
    obtain rfl : c = content := written rfl
    dsimp only
    rw [WriteStep.run_rename]
    cases fault : faults .rename with
    | some cause =>
      refine .inr ⟨fun ⟨unfaulted, _⟩ => ?_, c, _, rfl⟩
      rw [unfaulted] at fault
      cases fault
    | none =>
      have moved := rename_draft c fresh above
      split at moved
      · rename_i free
        rw [moved]
        refine .inl ⟨fun s => ?_, free.1, free.2, rfl⟩
        cases s with
        | rename => exact fault
        | write | flush | sync | close => exact clear.mp rfl _ (by simp)
      · rename_i taken
        obtain ⟨e, moved⟩ := moved
        rw [moved]
        exact .inr ⟨fun h => taken h.2, c, e, rfl⟩

/-- A write that meets no fault moves the file to a place that admits it. Any other leaves
the tree with its directories made. -/
theorem write_cases (faults : WriteStep → Option OsCause) (content : Bytes)
    (fresh : (t.ensure p.parent).1.get? (p.draft mark) = none) :
    ((∀ s, faults s = none) ∧ t.Admits p ∧ t.write faults mark p content =
      ((((t.ensure p.parent).1.put (p.draft mark) (.file content)).remove (p.draft mark)).put
        p.direct (.file content), none)) ∨
    ¬ ((∀ s, faults s = none) ∧ t.Admits p) ∧
      ∃ after e, t.write faults mark p content = (after, some e) ∧
        ∀ q, after.get? q = (t.ensure p.parent).1.get? q := by
  have above (made : (t.ensure p.parent).2 = none) (named : p.isNamed = true) :
      ∀ q ∈ p.above, (t.ensure p.parent).1.get? q.direct = some .directory := by
    obtain ⟨q, n, rfl, parent, -⟩ := Place.exists_of_isNamed named
    rw [Place.above_concat]
    rw [parent] at made ⊢
    exact fun _ => t.get?_ensure_of_mem made
  rw [admits_iff, write]
  generalize t.ensure p.parent = ensured at fresh above ⊢
  obtain ⟨made, refused⟩ := ensured
  cases refused with
  | some e => exact .inr ⟨by simp, made, e, rfl, fun _ => rfl⟩
  | none =>
    dsimp only
    obtain ⟨unfaulted, named, free, ran⟩ | ⟨failed, c, e, ran⟩ :=
      run_all faults content fresh (above rfl)
    · rw [ran]
      exact .inl ⟨unfaulted, ⟨rfl, named, free⟩, rfl⟩
    · rw [ran]
      exact .inr ⟨fun h => failed ⟨h.1, h.2.2⟩, _, e, rfl, get?_remove_draft c fresh⟩

/-- Numbers are told apart by their digits. -/
theorem toString_injective : Function.Injective (toString : Nat → String) := by
  intro m n same
  rw [Nat.toString_eq_ofList_toDigits, Nat.toString_eq_ofList_toDigits, String.ofList_inj] at same
  rw [← Nat.ofDigitChars_ten_toDigits (n := m), same, Nat.ofDigitChars_ten_toDigits]

/-- There is a mark under which there is nothing: there are more marks than places. -/
theorem get?_draft_mark (t : Tree) (p : Place) : t.get? (p.draft (t.mark p)) = none := by
  rw [mark]
  cases found : ((List.range (t.entries.length + 1)).map toString).find? fun m =>
      (t.get? (p.draft m)).isNone with
  | some m => simpa using List.find?_some found
  | none =>
    let drafts := ((List.range (t.entries.length + 1)).map toString).map p.draft
    have distinct : drafts.Nodup :=
      (List.nodup_range.map toString_injective).map p.draft_injective
    have taken : drafts ⊆ t.entries.map Prod.fst := by
      intro q drafted
      obtain ⟨m, member, rfl⟩ := List.mem_map.mp drafted
      have there : (t.get? (p.draft m)).isNone ≠ true := List.find?_eq_none.mp found m member
      have listed : (t.entries.lookup (p.draft m)).isSome = true := by
        simpa [get?, p.isTop_draft m, Option.isSome_iff_ne_none] using there
      obtain ⟨x, entry, same⟩ := List.lookup_isSome_iff.mp listed
      exact List.mem_map.mpr ⟨x, entry, (beq_iff_eq.mp same).symm⟩
    have few := (distinct.subperm taken).length_le
    simp only [drafts, List.length_map, List.length_range] at few
    omega

/-- So a write under a mark of its own is refused only where the place does not admit it. -/
theorem save_eq_none_iff (t : Tree) (p : Place) (content : Bytes) :
    (t.save p content).2 = none ↔ t.Admits p := by
  rw [save]
  obtain ⟨-, admits, written⟩ | ⟨failed, after, e, written, -⟩ :=
    write_cases (fun _ => none) content ((t.ensure p.parent).1.get?_draft_mark p)
  · rw [written]
    exact iff_of_true rfl admits
  · rw [written]
    exact iff_of_false nofun fun admits => failed ⟨fun _ => rfl, admits⟩

/-- **Whole or not at all.** A write returns just if no step fails and the place admits a
file; then the file holds the content. When it fails, the place is as it was unless it is one
of the directories made on the way, which takes a way up in the path. Other places are as they
were but for new directories where nothing was. No draft is left. Text without bytes changes
nothing. -/
theorem write_whole (faults : WriteStep → Option OsCause) (mark : String) (t : Tree) (p : Place)
    (content : Bytes) (fresh : (t.ensure p.parent).1.get? (p.draft mark) = none) :
    ∃ after error, t.write faults mark p content = (after, error) ∧
      (error = none ↔ (∀ s, faults s = none) ∧ t.Admits p) ∧
      (error = none → after.get? p.direct = some (.file content)) ∧
      (error ≠ none →
        (after.get? p.direct = t.get? p.direct ↔ p.direct ∉ t.makes p.parent.way)) ∧
      (".." ∉ p → p.direct ∉ t.makes p.parent.way) ∧
      (∀ q ≠ p.direct,
        after.get? q = if q ∈ t.makes p.parent.way then some .directory else t.get? q) ∧
      (∀ q ∈ t.makes p.parent.way, t.get? q = none ∧ ∃ r ∈ p.parent.way, r.direct = q) ∧
      after.get? (p.draft mark) = none ∧
      ∀ name text e, encodeAs name text = .error e →
        t.writeText faults mark p name text = (t, some (.charset e)) := by
  have spelled := t.not_mem_makes_parent (p := p)
  have new : ∀ q ∈ t.makes p.parent.way, t.get? q = none ∧ ∃ r ∈ p.parent.way, r.direct = q := by
    intro q member
    obtain ⟨⟨r, way, direct⟩, missing⟩ := t.mem_makes_iff.mp member
    exact ⟨missing, r, List.takeWhile_subset _ way, direct⟩
  have unencoded (name text : String) (e : CharsetError) (h : encodeAs name text = .error e) :
      t.writeText faults mark p name text = (t, some (.charset e)) := by
    rw [writeText, h]
  obtain ⟨unfaulted, admits, written⟩ | ⟨failed, after, e, written, same⟩ :=
    write_cases faults content fresh
  · have apart := p.draft_ne_direct admits.named mark
    have others (q : Place) (other : q ≠ p.direct) :
        ((((t.ensure p.parent).1.put (p.draft mark) (.file content)).remove (p.draft mark)).put
          p.direct (.file content)).get? q = (t.ensure p.parent).1.get? q := by
      rw [get?_put_of_ne _ other, get?_remove_draft content fresh]
    refine ⟨_, none, written, iff_of_true rfl ⟨unfaulted, admits⟩, fun _ => ?_, nofun, spelled,
      fun q other => ?_, new, ?_, unencoded⟩
    · exact get?_put_self _ (Place.isTop_direct admits.named) _
    · rw [others q other, get?_ensure]
    · rw [others _ apart, fresh]
  · refine ⟨after, some e, written, iff_of_false nofun failed, nofun, fun _ => ?_, spelled,
      fun q _ => ?_, new, ?_, unencoded⟩
    · rw [same, get?_ensure]
      by_cases made : p.direct ∈ t.makes p.parent.way
      · simp [made, (new _ made).1]
      · simp [made]
    · rw [same, get?_ensure]
    · rw [same, fresh]

/-- A directory with a file. -/
def oneFile : Tree := ⟨[(["out", "a"], .file [1]), (["out"], .directory)]⟩

/-- A write that cannot be synchronised leaves the file, and the directory its path passes. -/
theorem write_whole_detour :
    (oneFile.ensure ["out", "sub", ".."]).1.get?
      (Place.draft ["out", "sub", "..", "a"] "0") = none ∧
    ∃ after error, oneFile.write (fun s => if s = .sync then some .failed else none) "0"
        ["out", "sub", "..", "a"] [2] = (after, error) ∧
      error ≠ none ∧ after.get? ["out", "a"] = some (.file [1]) ∧
      after.get? ["out", "sub"] = some .directory := by
  have fresh : (oneFile.ensure (Place.parent ["out", "sub", "..", "a"])).1.get?
      (Place.draft ["out", "sub", "..", "a"] "0") = none := by decide +kernel
  obtain ⟨after, error, written, clear, -, untouched, -, others, -⟩ :=
    write_whole (fun s => if s = .sync then some .failed else none) "0" oneFile
      ["out", "sub", "..", "a"] [2] fresh
  have failed : error ≠ none := fun none_ => by cases (clear.mp none_).1 .sync
  refine ⟨fresh, after, error, written, failed, ?_, ?_⟩
  · exact (untouched failed).mpr (by decide +kernel)
  · exact (others ["out", "sub"] (by decide +kernel)).trans (by decide +kernel)

/-- A place that becomes a directory because its own path passes it. -/
theorem write_onto_own_way :
    empty.get? (Place.direct ["x", "..", "x"]) = none ∧
    ∃ after e, empty.write (fun _ => none) "0" ["x", "..", "x"] [104, 105] = (after, some e) ∧
      after.get? (Place.direct ["x", "..", "x"]) = some .directory :=
  ⟨by decide +kernel, ⟨[(["x"], .directory)]⟩, ⟨.isDirectory, [".x.0.tmp"], some ["x", "..", "x"]⟩,
    by decide +kernel, by decide +kernel⟩

end Tree

end BoardPlotter
