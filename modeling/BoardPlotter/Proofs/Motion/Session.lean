import BoardPlotter.Proofs.Motion.Streaming

/-!
# Strokes that are refused

A stroke that is refused sends nothing, but it was carried out up to the refused operation,
and what was done stays done: the tool is believed to be where the motions that were thrown
away would have left it (`Program.stroke_refused`). So a refused stroke changes nothing just
if the last of these motions leads back to where the tool was.

A `Session` holds what is believed beside what was sent. Only where the two agree does every
stroke that is accepted next start from where the tool is (`Session.inStep_iff`).
-/

namespace BoardPlotter

namespace Tool

variable {α : Type}

/-- The flag and the position tell all of a tool. -/
theorem eq_iff {t u : Tool α} : t = u ↔ t.isUp = u.isUp ∧ t.position? = u.position? := by
  constructor
  · rintro rfl
    exact ⟨rfl, rfl⟩
  · rintro ⟨flag, place⟩
    cases t <;> cases u <;> simp_all [isUp, position?]

theorem after_concat (t : Tool α) (moves : List (Motion α)) (a : Motion α) :
    t.after (moves ++ [a]) = a.leaves := by
  rw [after_append]
  rfl

/-- Motions lead back to where they began just if the last of them does. -/
theorem after_eq_self_iff (t : Tool α) (moves : List (Motion α)) :
    t.after moves = t ↔ ∀ a ∈ moves.getLast?, a.leaves = t := by
  rcases List.eq_nil_or_concat moves with rfl | ⟨init, last, rfl⟩
  · simp [after]
  · rw [List.concat_eq_append, after_concat]
    simp

/-- Only a tool that never moved has no position. -/
theorem after_eq_idle {t : Tool α} {moves : List (Motion α)} (h : t.after moves = idle) :
    t = idle ∧ moves = [] := by
  rcases List.eq_nil_or_concat moves with rfl | ⟨init, last, rfl⟩
  · exact ⟨h, rfl⟩
  · rw [List.concat_eq_append, after_concat] at h
    cases last <;> cases h

end Tool

namespace Program

variable {m : Plotter Float}

theorem stroke_eq_error {t : Tool Float} {ops : List (Operation Float)} {e : ToolError Float}
    (refused : (stroke m t ops).2 = .error e) : (m.run t ops).error = some e := by
  rw [stroke] at refused
  cases h : (m.run t ops).error with
  | none =>
    rw [h] at refused
    cases refused
  | some e' =>
    rw [h] at refused
    exact congrArg some (Except.error.inj refused)

/-- The motions of a stroke that is carried out, none of one that is refused. -/
def sent (m : Plotter Float) (t : Tool Float) (ops : List (Operation Float)) :
    List (Motion Float) :=
  match (stroke m t ops).2 with
  | .ok _ => (m.run t ops).motions
  | .error _ => []

/-- Strokes given one after another: where the tool is believed to be behind them, and the
motions that were sent. -/
structure Session where
  believed : Tool Float
  sent : List (Motion Float)

namespace Session

def start : Session := ⟨.idle, []⟩

/-- One more stroke. -/
def give (m : Plotter Float) (s : Session) (ops : List (Operation Float)) : Session :=
  ⟨(stroke m s.believed ops).1, s.sent ++ Program.sent m s.believed ops⟩

def ofCalls (m : Plotter Float) (calls : List (List (Operation Float))) : Session :=
  calls.foldl (give m) start

/-- Where the motions that were sent have left the tool. -/
def actual (s : Session) : Tool Float := Tool.idle.after s.sent

theorem ofCalls_concat (m : Plotter Float) (calls : List (List (Operation Float)))
    (ops : List (Operation Float)) : ofCalls m (calls ++ [ops]) = (ofCalls m calls).give m ops := by
  rw [ofCalls, List.foldl_append]
  rfl

/-- What was sent is what was carried out, unless a stroke was refused. -/
theorem sent_of_carried {t : Tool Float} {ops : List (Operation Float)}
    (carried : (m.run t ops).error = none) : Program.sent m t ops = (m.run t ops).motions := by
  rw [Program.sent, stroke_of_carried carried]
  rfl

theorem sent_of_refused {t : Tool Float} {ops : List (Operation Float)} {e : ToolError Float}
    (refused : (m.run t ops).error = some e) : Program.sent m t ops = [] := by
  rw [Program.sent, stroke_of_error refused]

/-- The tool is where it is believed to be. -/
def InStep (s : Session) : Prop := s.believed = s.actual

/-- A stroke that is accepted keeps a session in step. -/
theorem InStep.give {s : Session} (inStep : s.InStep) {ops : List (Operation Float)}
    (carried : (m.run s.believed ops).error = none) : (s.give m ops).InStep := by
  rw [InStep, actual, Session.give, sent_of_carried carried, Tool.after_append]
  have left := (Tool.run_trail m.settings.drawFeed s.believed ops).2
  have same : s.believed = Tool.idle.after s.sent := inStep
  rw [← same]
  exact left

/-- The strokes of a session that were refused have changed nothing. -/
inductive Undisturbed (m : Plotter Float) : List (List (Operation Float)) → Prop
  | start : Undisturbed m []
  | give {calls : List (List (Operation Float))} {ops : List (Operation Float)} :
      Undisturbed m calls →
      (∀ e, (stroke m (ofCalls m calls).believed ops).2 = .error e →
        (stroke m (ofCalls m calls).believed ops).1 = (ofCalls m calls).believed) →
      Undisturbed m (calls ++ [ops])

theorem Undisturbed.inStep {calls : List (List (Operation Float))}
    (undisturbed : Undisturbed m calls) : (ofCalls m calls).InStep := by
  induction undisturbed with
  | start => rfl
  | @give calls ops _ kept ih =>
    rw [ofCalls_concat]
    cases outcome : (m.run (ofCalls m calls).believed ops).error with
    | none => exact ih.give outcome
    | some e =>
      have same := kept e (by rw [stroke_of_error outcome])
      rw [InStep, actual, Session.give, same, sent_of_refused outcome, List.append_nil]
      exact ih

/-- Nothing was sent to a tool that is believed to have no position. -/
theorem sent_of_idle {calls : List (List (Operation Float))}
    (idle : (ofCalls m calls).believed = .idle) : (ofCalls m calls).sent = [] := by
  induction calls using List.reverseRecOn with
  | nil => rfl
  | append_singleton calls ops ih =>
    rw [ofCalls_concat] at idle ⊢
    have left := (Tool.run_trail m.settings.drawFeed (ofCalls m calls).believed ops).2
    obtain ⟨before, none_⟩ := Tool.after_eq_idle (left.symm.trans idle)
    have nothing : Program.sent m (ofCalls m calls).believed ops = [] := by
      cases outcome : (m.run (ofCalls m calls).believed ops).error with
      | none => rw [sent_of_carried outcome]; exact none_
      | some e => exact sent_of_refused outcome
    rw [Session.give, nothing, ih before]
    rfl

end Session

/-! ### What is at stake -/

theorem exists_point_ne (q : Point Float) : ∃ p, Tool.isFinitePoint p = true ∧ p ≠ q := by
  by_cases same : (⟨0, 0⟩ : Point Float) = q
  · refine ⟨⟨1, 0⟩, rfl, ?_⟩
    rw [← same]
    decide
  · exact ⟨⟨0, 0⟩, rfl, same⟩

/-- Strokes that a tool accepts start from where it is. -/
def StartsFrom (m : Plotter Float) (t u : Tool Float) : Prop :=
  ∀ ops text, (stroke m t ops).2 = .ok text → u.Trail (m.run t ops).motions

theorem startsFrom_self (m : Plotter Float) (t : Tool Float) : StartsFrom m t t := by
  intro ops text _
  exact (Tool.run_trail m.settings.drawFeed t ops).1

/-- What one operation does that is carried out, seen from another tool. -/
theorem StartsFrom.single {t u : Tool Float} (h : StartsFrom m t u) (op : Operation Float)
    {moves : List (Motion Float)} {next : Tool Float}
    (carried : t.step m.settings.drawFeed op = ⟨next, moves, none⟩) : u.Trail moves := by
  have run : m.run t [op] = ⟨next, moves, none⟩ := by
    rw [Plotter.run, Tool.run_cons carried, Tool.run, List.append_nil]
  have trail := h [op] _ (by rw [stroke_of_carried (by rw [run])]; rfl)
  rwa [run] at trail

/-- A tool that is not where it is believed to be is dragged by some stroke. -/
theorem eq_of_startsFrom {t u : Tool Float} (h : StartsFrom m t u) (moved : t = .idle → u = .idle) :
    t = u := by
  cases t with
  | idle => exact (moved rfl).symm
  | up p =>
    have lowered := h.single .lower rfl
    cases u with
    | idle => cases lowered.1
    | up q => exact congrArg Tool.up lowered.1
    | down q =>
      -- Lowering a tool that is down is a motion on the board, so it takes a travel to tell.
      obtain ⟨x, finite, other⟩ := exists_point_ne q
      have carried : (Tool.up p).step m.settings.drawFeed (.travel x) =
          ⟨.up x, [.lifted x], none⟩ := by
        simp only [Tool.step, finite, if_true]
      exact absurd (h.single _ carried).1 other
  | down p =>
    have drawn {x : Point Float} (finite : Tool.isFinitePoint x = true) :
        u.Trail [.surface x m.settings.drawFeed] := by
      apply h.single (.line x none)
      rw [Tool.step, Tool.draw, if_pos finite]
      rfl
    cases u with
    | down q => exact congrArg Tool.down (h.single .lift rfl).1
    | idle =>
      obtain ⟨x, finite, -⟩ := exists_point_ne p
      cases (drawn finite).1
    | up q =>
      obtain ⟨x, finite, other⟩ := exists_point_ne q
      exact absurd (drawn finite).1 other

/-- A session is in step just if every stroke that is accepted next starts from where the
tool is. -/
theorem Session.inStep_iff (m : Plotter Float) (calls : List (List (Operation Float))) :
    (ofCalls m calls).InStep ↔
      StartsFrom m (ofCalls m calls).believed (ofCalls m calls).actual := by
  constructor
  · intro inStep
    have same : (ofCalls m calls).actual = (ofCalls m calls).believed := inStep.symm
    rw [same]
    exact startsFrom_self m _
  · intro starts
    apply eq_of_startsFrom starts
    intro idle
    rw [actual, sent_of_idle idle]
    rfl

/-- The motions of a stroke that is refused: those of the operations before the refused one,
and what that one did before it was refused. -/
theorem exists_lost {t : Tool Float} {ops : List (Operation Float)} {e : ToolError Float}
    (failed : (m.run t ops).error = some e) :
    ∃ done op rest, ops = done ++ op :: rest ∧ (m.run t done).error = none ∧
      let last := (m.run t done).tool.step m.settings.drawFeed op
      last.error = some e ∧ (m.run t ops).motions = (m.run t done).motions ++ last.motions := by
  obtain ⟨done, op, rest, rfl, carried, refused⟩ := Tool.exists_refused failed
  refine ⟨done, op, rest, rfl, carried, refused, ?_⟩
  rw [Plotter.run, Tool.run_append_of_carried carried, Tool.run, refused]
  rfl

/-- **What a refused stroke leaves.** A stroke that is refused sends no line, but leaves the
tool where the motions that were thrown away would have left it. So it changes nothing just if
the last of these leads back to where the tool was. A session in which refused strokes have
changed nothing is in step with its tool, and it is in step just if every stroke that is
accepted next starts from where the tool is. -/
theorem refused_stroke_unchanged_iff (m : Plotter Float) :
    (∀ t ops e, (stroke m t ops).2 = .error e →
      let lost := (m.run t ops).motions
      let left := (stroke m t ops).1
      (∃ done op rest, ops = done ++ op :: rest ∧ (m.run t done).error = none ∧
        let last := (m.run t done).tool.step m.settings.drawFeed op
        last.error = some e ∧ lost = (m.run t done).motions ++ last.motions) ∧
      sent m t ops = [] ∧ left = t.after lost ∧
      (left.isUp = t.isUp ∧ left.position? = t.position? ↔ ∀ a ∈ lost.getLast?, a.leaves = t)) ∧
    ∀ calls, let s := Session.ofCalls m calls
      (Session.Undisturbed m calls → s.InStep) ∧
        (s.InStep ↔ StartsFrom m s.believed s.actual) := by
  constructor
  · intro t ops e refused lost left
    have failed := stroke_eq_error refused
    have moved : left = t.after lost := by
      have trail := (Tool.run_trail m.settings.drawFeed t ops).2
      change (stroke m t ops).1 = _
      rw [stroke_of_error failed]
      exact trail
    refine ⟨exists_lost failed, Session.sent_of_refused failed, moved, ?_⟩
    rw [← Tool.eq_iff, moved]
    exact Tool.after_eq_self_iff t lost
  · intro calls s
    exact ⟨fun undisturbed => undisturbed.inStep, Session.inStep_iff m calls⟩

/-- A stroke that is refused for drawing above the board, when it is back where it began. -/
theorem refused_detour_unchanged :
    let here : List (Operation Float) := [.travel ⟨5, 5⟩]
    let detour : List (Operation Float) := [.travel ⟨1, 2⟩, .travel ⟨5, 5⟩, .line ⟨9, 9⟩ none]
    (stroke doubled (.up ⟨5, 5⟩) detour).2 = .error (.drawUp "LinearMove") ∧
    (stroke doubled (.up ⟨5, 5⟩) detour).1.isUp = true ∧
    (stroke doubled (.up ⟨5, 5⟩) detour).1.position? = some ⟨5, 5⟩ ∧
    Session.Undisturbed doubled [here, detour] ∧ (Session.ofCalls doubled [here, detour]).InStep := by
  intro here detour
  have refused : (stroke doubled (.up ⟨5, 5⟩) detour).2 = .error (.drawUp "LinearMove") := rfl
  obtain ⟨one, all⟩ := refused_stroke_unchanged_iff doubled
  obtain ⟨-, -, -, unchanged⟩ := one _ _ _ refused
  have kept := unchanged.mpr fun a last => by
    cases last
    rfl
  have first : Session.Undisturbed doubled [here] := by
    apply Session.Undisturbed.start.give
    intro e failed
    cases failed
  have undisturbed : Session.Undisturbed doubled [here, detour] := first.give fun _ _ => rfl
  exact ⟨refused, kept.1, kept.2, undisturbed, (all _).1 undisturbed⟩

/-- A tool that was sent nowhere is believed to be on the board behind a refused stroke, and
what is drawn next drags it. -/
theorem refused_stroke_drags_tool :
    let ops : List (Operation Float) := [.travel ⟨1, 2⟩, .lower, .travel ⟨5, 6⟩]
    let next : List (Operation Float) := [.line ⟨7, 8⟩ none]
    let s := Session.ofCalls doubled [ops]
    (stroke doubled .idle ops).2 = .error (.travelDown ⟨5, 6⟩) ∧
    s.sent = [] ∧ s.believed.isUp = false ∧ s.believed.position? = some ⟨1, 2⟩ ∧
    s.actual = .idle ∧ (∃ text, (stroke doubled s.believed next).2 = .ok text) ∧
    ¬ s.actual.Trail (doubled.run s.believed next).motions := by
  intro ops next s
  refine ⟨rfl, rfl, rfl, rfl, rfl, ⟨_, rfl⟩, fun trail => ?_⟩
  cases trail.1

end Program

end BoardPlotter
