import BoardPlotter.Proofs.PathData.Arcs
import BoardPlotter.Proofs.PathData.Tracer

/-!
# The valid prefix of a path

Path data may fail at a flag of an arc, in a group that holds more or fewer numbers than
its argument sets, or where it cannot be read. Whatever it fails at, the elementary steps
before that are kept, and nothing behind it is. `ValidPrefix` says which steps these are
from the groups alone, and which error is the first; there is one answer
(`ValidPrefix.unique`).

`Tracer.run_valid_prefix`: a tracer, whatever it did before, draws just the steps of the
valid prefix, as a run of them alone does.
-/

namespace BoardPlotter

variable {α : Type} [Scalar α]

namespace CommandGroup

omit [Scalar α] in
/-- The elementary steps of a group: one group for each argument set. -/
def split (g : CommandGroup α) : List (CommandGroup α) :=
  g.argumentSets.map fun set => ⟨set.1, set.2⟩

/-- The flag of an arc that is neither zero nor one. -/
def badFlag? (g : CommandGroup α) : Option (PathError α) :=
  match g.command.verb, g.args with
  | .arcTo, [_, _, _, large, sweep, _, _] =>
    if !(large == 0 || large == 1) then some (.flag g.command.letter "large-arc" large)
    else if !(sweep == 0 || sweep == 1) then some (.flag g.command.letter "sweep" sweep)
    else none
  | _, _ => none

/-- Nothing in the group fails. -/
structure IsSound (g : CommandGroup α) : Prop where
  flags : ∀ s ∈ g.split, s.badFlag? = none
  whole : g.leftover? = none

end CommandGroup

open CommandGroup

/-- `ValidPrefix ending gs kept error`: of the groups `gs`, behind which reading ended with the
error `ending` or none, the steps `kept` come before the first failure, which is `error`. -/
inductive ValidPrefix (ending : Option (PathError α)) :
    List (CommandGroup α) → List (CommandGroup α) → Option (PathError α) → Prop
  | ending : ValidPrefix ending [] [] ending
  | sound {g gs kept error} : g.IsSound → ValidPrefix ending gs kept error →
      ValidPrefix ending (g :: gs) (g.split ++ kept) error
  | flag {g gs kept arc more e} : g.split = kept ++ arc :: more →
      (∀ s ∈ kept, s.badFlag? = none) → arc.badFlag? = some e →
      ValidPrefix ending (g :: gs) kept (some e)
  | leftover {g gs e} : (∀ s ∈ g.split, s.badFlag? = none) → g.leftover? = some e →
      ValidPrefix ending (g :: gs) g.split (some e)

/-- The elementary steps of a reading in order. -/
def PathReading.steps (r : PathReading α) : List (CommandGroup α) := r.commands.flatMap split

namespace ValidPrefix

variable {ending error : Option (PathError α)} {gs kept : List (CommandGroup α)}

theorem isPrefix (h : ValidPrefix ending gs kept error) : kept <+: gs.flatMap split := by
  induction h with
  | ending => exact List.prefix_rfl
  | sound _ _ ih =>
    rw [List.flatMap_cons]
    exact (List.prefix_append_right_inj _).mpr ih
  | flag eq =>
    rw [List.flatMap_cons, eq, List.append_assoc]
    exact List.prefix_append _ _
  | leftover =>
    rw [List.flatMap_cons]
    exact List.prefix_append _ _

/-- Without an error no step is lost, and reading ended without one. -/
theorem eq_of_none (h : ValidPrefix ending gs kept none) :
    kept = gs.flatMap split ∧ ending = none := by
  generalize none_ : (none : Option (PathError α)) = error at h
  induction h with
  | ending => exact ⟨rfl, rfl⟩
  | sound _ _ ih => exact ⟨by rw [List.flatMap_cons, (ih none_).1], (ih none_).2⟩
  | flag | leftover => cases none_

theorem first_badFlag {kept kept' more more' : List (CommandGroup α)} {arc arc' : CommandGroup α}
    {e e' : PathError α} (eq : kept ++ arc :: more = kept' ++ arc' :: more')
    (flags : ∀ s ∈ kept, s.badFlag? = none) (flags' : ∀ s ∈ kept', s.badFlag? = none)
    (bad : arc.badFlag? = some e) (bad' : arc'.badFlag? = some e') : kept = kept' ∧ arc = arc' := by
  induction kept generalizing kept' with
  | nil =>
    cases kept' with
    | nil => exact ⟨rfl, (List.cons.inj eq).1⟩
    | cons s kept' =>
      obtain ⟨rfl, -⟩ := List.cons.inj eq
      cases (flags' _ List.mem_cons_self).symm.trans bad
  | cons s kept ih =>
    cases kept' with
    | nil =>
      obtain ⟨rfl, -⟩ := List.cons.inj eq
      cases (flags _ List.mem_cons_self).symm.trans bad'
    | cons s' kept' =>
      obtain ⟨rfl, rest⟩ := List.cons.inj eq
      obtain ⟨rfl, rfl⟩ := ih rest (List.forall_mem_cons.mp flags).2 (List.forall_mem_cons.mp flags').2
      exact ⟨rfl, rfl⟩

/-- There is one first failure. -/
theorem unique {kept' : List (CommandGroup α)} {error' : Option (PathError α)}
    (h : ValidPrefix ending gs kept error) (h' : ValidPrefix ending gs kept' error') :
    kept = kept' ∧ error = error' := by
  induction h generalizing kept' error' with
  | ending => cases h' with | ending => exact ⟨rfl, rfl⟩
  | sound sound _ ih =>
    cases h' with
    | sound _ rest =>
      obtain ⟨rfl, rfl⟩ := ih rest
      exact ⟨rfl, rfl⟩
    | flag eq _ bad =>
      have none_ := sound.flags _ (eq ▸ List.mem_append_right _ List.mem_cons_self)
      rw [none_] at bad
      cases bad
    | leftover _ left =>
      rw [sound.whole] at left
      cases left
  | @flag g gs kept arc more e eq flags bad =>
    have not_sound (all : ∀ s ∈ g.split, s.badFlag? = none) : False := by
      have none_ := all _ (eq ▸ List.mem_append_right _ List.mem_cons_self)
      rw [none_] at bad
      cases bad
    cases h' with
    | sound sound _ => exact (not_sound sound.flags).elim
    | leftover all => exact (not_sound all).elim
    | flag eq' flags' bad' =>
      obtain ⟨rfl, rfl⟩ := first_badFlag (eq.symm.trans eq') flags flags' bad bad'
      exact ⟨rfl, bad.symm.trans bad'⟩
  | leftover all left =>
    cases h' with
    | sound sound _ =>
      rw [sound.whole] at left
      cases left
    | leftover _ left' => exact ⟨rfl, Option.some.inj (left.symm.trans left') ▸ rfl⟩
    | flag eq _ bad =>
      have none_ := all _ (eq ▸ List.mem_append_right _ List.mem_cons_self)
      rw [none_] at bad
      cases bad

end ValidPrefix

/-! ## Elementary steps -/

/-- A group of one argument set. -/
def CommandGroup.IsSet (s : CommandGroup α) : Prop := s.args.length = s.command.verb.arity

omit [Scalar α] in
theorem CommandGroup.isSet_of_mem_split {g s : CommandGroup α} (h : s ∈ g.split) : s.IsSet := by
  obtain ⟨set, member, rfl⟩ := List.mem_map.mp h
  exact PathStep.length_of_mem_argumentSets member

namespace PathStep

theorem ofGroup_isSet {s : CommandGroup α} (h : s.IsSet) :
    ofGroup s = [ofSet s.command s.args] := by
  by_cases empty : s.command.verb.arity = 0
  · have bare : s.args = [] := List.eq_nil_of_length_eq_zero (h.trans empty)
    simp [ofGroup, empty, bare]
  · exact ofGroup_of_length empty h

/-- A flag is what it is said to be unless it is neither zero nor one. -/
theorem flag_eq (letter : Char) (name : String) (x : α) :
    flag letter name x =
      if !(x == 0 || x == 1) then .error (.flag letter name x) else .ok !(x == 0) := by
  rw [flag]
  by_cases zero : (x == 0) = true
  · simp [zero]
  · by_cases one : (x == 1) = true <;> simp [zero, one]

theorem ofSet_arc (relative : Bool) {args : List α}
    (h : CommandGroup.IsSet ⟨⟨.arcTo, relative⟩, args⟩) :
    (CommandGroup.badFlag? ⟨⟨.arcTo, relative⟩, args⟩ = none ∧
        ∃ step, ofSet ⟨.arcTo, relative⟩ args = .ok step) ∨
      ∃ e, CommandGroup.badFlag? ⟨⟨.arcTo, relative⟩, args⟩ = some e ∧
        ofSet ⟨.arcTo, relative⟩ args = .error e := by
  match args, h with
  | [rx, ry, rotation, large, sweep, x, y], _ =>
    simp only [CommandGroup.badFlag?, ofSet, motionOf, flag_eq]
    split
    · exact .inr ⟨_, rfl, rfl⟩
    · split
      · exact .inr ⟨_, rfl, rfl⟩
      · exact .inl ⟨rfl, _, rfl⟩

/-- An argument set is a step unless it has a bad flag. -/
theorem ofSet_isSet {s : CommandGroup α} (h : s.IsSet) :
    (s.badFlag? = none ∧ ∃ step, ofSet s.command s.args = .ok step) ∨
      ∃ e, s.badFlag? = some e ∧ ofSet s.command s.args = .error e := by
  obtain ⟨⟨verb, relative⟩, args⟩ := s
  cases verb with
  | arcTo => exact ofSet_arc relative h
  | moveTo =>
    match args, h with
    | [x, y], _ => exact .inl ⟨rfl, _, rfl⟩
  | lineTo =>
    match args, h with
    | [x, y], _ => exact .inl ⟨rfl, _, rfl⟩
  | horizontalTo =>
    match args, h with
    | [x], _ => exact .inl ⟨rfl, _, rfl⟩
  | verticalTo =>
    match args, h with
    | [y], _ => exact .inl ⟨rfl, _, rfl⟩
  | closePath =>
    match args, h with
    | [], _ => exact .inl ⟨rfl, _, rfl⟩
  | cubicTo =>
    match args, h with
    | [a, b, c, d, x, y], _ => exact .inl ⟨rfl, _, rfl⟩
  | smoothCubicTo =>
    match args, h with
    | [c, d, x, y], _ => exact .inl ⟨rfl, _, rfl⟩
  | quadraticTo =>
    match args, h with
    | [a, b, x, y], _ => exact .inl ⟨rfl, _, rfl⟩
  | smoothQuadraticTo =>
    match args, h with
    | [x, y], _ => exact .inl ⟨rfl, _, rfl⟩

/-- A group stands for its elementary steps, and for the error of what it holds beside them. -/
theorem ofGroup_eq_split (g : CommandGroup α) :
    ofGroup g = g.split.flatMap ofGroup ++ g.leftover?.toList.map .error := by
  have each : g.split.map ofGroup = g.argumentSets.map fun set => [ofSet set.1 set.2] := by
    rw [split, List.map_map]
    apply List.map_congr_left
    intro set member
    exact ofGroup_isSet (s := ⟨set.1, set.2⟩) (length_of_mem_argumentSets member)
  rw [ofGroup_eq, List.flatMap_def, each, List.map_eq_flatMap, List.flatMap_def]

/-- Argument sets are steps up to the first bad flag. -/
theorem exists_steps (sets : List (CommandGroup α)) (sized : ∀ s ∈ sets, s.IsSet) :
    (∃ steps : List (PathStep α), (∀ s ∈ sets, s.badFlag? = none) ∧
        sets.flatMap ofGroup = steps.map .ok) ∨
      ∃ kept arc more e rest, ∃ steps : List (PathStep α), sets = kept ++ arc :: more ∧
        (∀ s ∈ kept, s.badFlag? = none) ∧ arc.badFlag? = some e ∧
        kept.flatMap ofGroup = steps.map .ok ∧
        sets.flatMap ofGroup = steps.map .ok ++ .error e :: rest := by
  induction sets with
  | nil => exact .inl ⟨[], by simp, rfl⟩
  | cons s sets ih =>
    have here := ofGroup_isSet (sized s List.mem_cons_self)
    obtain ⟨sound, step, read⟩ | ⟨e, bad, read⟩ := ofSet_isSet (sized s List.mem_cons_self)
    · obtain ⟨steps, all, eq⟩ | ⟨kept, arc, more, e, rest, steps, rfl, all, bad, first, eq⟩ :=
        ih fun t member => sized t (List.mem_cons_of_mem _ member)
      · refine .inl ⟨step :: steps, List.forall_mem_cons.mpr ⟨sound, all⟩, ?_⟩
        rw [List.flatMap_cons, here, read, eq]
        rfl
      · refine .inr ⟨s :: kept, arc, more, e, rest, step :: steps, rfl,
          List.forall_mem_cons.mpr ⟨sound, all⟩, bad, ?_, ?_⟩
        · rw [List.flatMap_cons, here, read, first]
          rfl
        · rw [List.flatMap_cons, here, read, eq]
          rfl
    · refine .inr ⟨[], s, sets, e, sets.flatMap ofGroup, [], rfl, by simp, bad, rfl, ?_⟩
      rw [List.flatMap_cons, here, read]
      rfl

end PathStep

/-- **First failure.** The steps before the first error of groups are those of the valid
prefix. -/
theorem exists_validPrefix (ending : Option (PathError α)) (gs : List (CommandGroup α)) :
    ∃ kept error, ∃ steps : List (PathStep α), ValidPrefix ending gs kept error ∧
      kept.flatMap PathStep.ofGroup = steps.map .ok ∧
      PathStep.untilError (gs.flatMap PathStep.ofGroup ++ ending.toList.map .error) =
        (steps, error) := by
  induction gs with
  | nil =>
    refine ⟨[], ending, [], .ending, rfl, ?_⟩
    cases ending <;> rfl
  | cons g gs ih =>
    rw [List.flatMap_cons, PathStep.ofGroup_eq_split]
    obtain ⟨steps, flags, read⟩ | ⟨kept, arc, more, e, rest, steps, eq, flags, bad, first, read⟩ :=
      PathStep.exists_steps g.split fun _ => isSet_of_mem_split
    · cases left : g.leftover? with
      | none =>
        obtain ⟨kept, error, later, valid, rest, until_⟩ := ih
        refine ⟨_, error, steps ++ later, .sound ⟨flags, left⟩ valid, ?_, ?_⟩
        · rw [List.flatMap_append, read, rest, List.map_append]
        · rw [read]
          simp only [Option.toList_none, List.map_nil, List.append_nil, List.append_assoc]
          rw [PathStep.untilError_ok_append, until_]
      | some e =>
        refine ⟨_, some e, steps, .leftover flags left, read, ?_⟩
        rw [read]
        simp only [List.append_assoc]
        rw [PathStep.untilError_ok_append]
        exact congrArg (·, some e) (List.append_nil steps)
    · refine ⟨kept, some e, steps, .flag eq flags bad, first, ?_⟩
      rw [read]
      simp only [List.append_assoc]
      rw [PathStep.untilError_ok_append]
      exact congrArg (·, some e) (List.append_nil steps)

/-! ## Runs -/

theorem PathReading.state_ofTokens {stop : Nat} {offender : Option Char} {state : ReaderState}
    (fine : state ≠ .error) (begun : Option (PathCommand × List α)) (ts : List LocatedToken) :
    let reading := PathReading.ofTokens stop offender state begun ts
    reading.state = .error ↔ reading.error.isSome := by
  fun_induction PathReading.ofTokens stop offender state begun ts with
  | case1 => exact iff_of_false fine (by simp)
  | case2 | case3 | case6 | case7 => exact iff_of_true rfl rfl
  | case4 | case5 | case8 =>
    rename_i ih
    exact ih (by simp)

/-- The reader ends in its error state precisely if it met an error. -/
theorem PathReading.state_eq_error_iff (data : String) :
    (ofString data : PathReading α).state = .error ↔
      (ofString data : PathReading α).error.isSome :=
  state_ofTokens (by simp) none _

/-- **Valid prefix.** Whatever a tracer did before, it draws the steps before the first failure
of the path data as a run of these alone does, which meets no error, and it reports that
failure. Only an arc among them that cannot be flattened can stop it. -/
theorem Tracer.run_valid_prefix {f : Flattening α} (valid : f.IsValid) (finish : Finish α)
    (p : Tracer α) (data : String) :
    let reading := PathReading.ofString data
    ∃ kept error, ValidPrefix reading.error reading.commands kept error ∧
      kept <+: reading.steps ∧ (error = none → kept = reading.steps) ∧
      ((∃ polylines state, PathDrawing.ofGroups f finish kept = .ok (polylines, none) ∧
          p.run f finish data = .ok ⟨polylines, state, error⟩ ∧
          (state = .error ↔ error.isSome)) ∨
        ∃ steps : List (PathStep α), kept.flatMap PathStep.ofGroup = steps.map .ok ∧
          ∃ arc ∈ Pen.initial.arcs f steps, ∃ e, arc.flatten f.tolerance f.depth = .error e ∧
            p.run f finish data = .error e) := by
  intro reading
  obtain ⟨kept, error, steps, first, groups, until_⟩ :=
    exists_validPrefix reading.error reading.commands
  refine ⟨kept, error, first, first.isPrefix, ?_, ?_⟩
  · rintro rfl
    exact first.eq_of_none.1
  have run : p.run f finish data = do
      let polylines ← PathDrawing.polylinesOf f finish steps
      return ⟨polylines, if error.isSome then .error else reading.state, error⟩ := by
    rw [run_eq, PathDrawing.ofString, PathStep.ofReading_eq, until_]
  have alone : PathDrawing.ofGroups f finish kept = do
      return (← PathDrawing.polylinesOf f finish steps, none) := by
    rw [PathDrawing.ofGroups, groups, PathStep.untilError_map_ok]
  rw [run, alone, PathDrawing.polylinesOf]
  obtain ⟨events, trace⟩ | ⟨arc, met, e, failed, trace⟩ :=
    Pen.trace_returns valid Pen.initial steps
  · rw [trace]
    refine .inl ⟨_, _, rfl, rfl, ?_⟩
    cases error with
    | some e => exact iff_of_true rfl rfl
    | none => exact (PathReading.state_eq_error_iff data).trans (by rw [first.eq_of_none.2])
  · rw [trace]
    exact .inr ⟨steps, groups, arc, met, e, failed, rfl⟩

/-- A tracer that was stopped within an outline, behind a curve. -/
def Tracer.stopped : Tracer Float :=
  ⟨⟨⟨5, 5⟩, ⟨7, 7⟩, .cubic ⟨1, 2⟩⟩, some ⟨⟨1, 1⟩, [⟨2, 2⟩], false⟩, [⟨⟨8, 8⟩, [⟨9, 9⟩], true⟩]⟩

/-- A closepath with a number behind it is carried out, and what follows is not. -/
theorem Tracer.stopped_run_stray :
    let f : Flattening Float := ⟨0.1, none, 16⟩
    let finish : Finish Float := ⟨.identity, true⟩
    let reading : PathReading Float := PathReading.ofString "M0 0L1 0 1 1Z5L9 9"
    let error : PathError Float := .strayArguments 'Z' 1
    let outline : Polyline Float := ⟨⟨0, 0⟩, [⟨1, 0⟩, ⟨1, 1⟩, ⟨0, 0⟩], true⟩
    f.IsValid ∧
    stopped.run f finish "M0 0L1 0 1 1Z5L9 9" = .ok ⟨[outline], .error, some error⟩ ∧
    ∃ kept, ValidPrefix reading.error reading.commands kept (some error) ∧
      kept <+: reading.steps ∧ PathDrawing.ofGroups f finish kept = .ok ([outline], none) := by
  intro f finish reading error outline
  have valid : f.IsValid := ⟨by decide +kernel, fun n h => by cases h⟩
  have drawn : (stopped.run f finish "M0 0L1 0 1 1Z5L9 9").toOption =
      some ⟨[outline], .error, some error⟩ := by decide +kernel
  obtain ⟨kept, e, first, isPrefix, -, outcome⟩ :=
    run_valid_prefix valid finish stopped "M0 0L1 0 1 1Z5L9 9"
  obtain ⟨polylines, state, alone, run, -⟩ | ⟨_, _, _, _, _, _, run⟩ := outcome
  · rw [run] at drawn
    cases drawn
    exact ⟨valid, run, kept, first, isPrefix, alone⟩
  · rw [run] at drawn
    cases drawn

end BoardPlotter
