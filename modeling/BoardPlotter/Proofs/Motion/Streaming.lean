import BoardPlotter.Proofs.Motion.Strokes

/-!
# Streaming a job stroke by stroke

Operations that are carried out leave the tool to those behind them
(`Tool.run_append`), and the first one that is refused ends the run
(`Tool.run_append_of_error`, `Tool.exists_refused`). So it does not matter where a
job is cut: up to the refused operation, its strokes tell what the program of the job
tells (`Program.stream_append`).

`Program.stream_eq_text` says so for every way to cut a job, and how
`Operation.strokes` cuts it. Only a program has a head, but that is never what fails
(`Board.scaleX_checked`, `Board.scaleY_checked`).
-/

namespace BoardPlotter

/-! ### Cutting at lifts -/

namespace Operation

variable {α : Type}

theorem flatten_strokes (ops : List (Operation α)) : (strokes ops).flatten = ops := by
  fun_induction strokes ops with
  | case1 => rfl
  | case2 ops ih => rw [List.flatten_cons, ih, List.singleton_append]
  | case3 op ops _ s ss cut ih =>
    rw [cut, List.flatten_cons] at ih
    rw [List.flatten_cons, List.cons_append, ih]
  | case4 op ops _ cut ih =>
    rw [cut, List.flatten_nil] at ih
    rw [← ih]
    rfl

/-- A stroke has a last operation, and no other one is a lift. -/
def EndsOnce (s : List (Operation α)) : Prop := ∃ init last, s = init ++ [last] ∧ .lift ∉ init

theorem endsOnce_singleton (op : Operation α) : EndsOnce [op] := ⟨[], op, rfl, List.not_mem_nil⟩

theorem EndsOnce.cons {s : List (Operation α)} (ends : EndsOnce s) {op : Operation α}
    (stays : op ≠ .lift) : EndsOnce (op :: s) := by
  obtain ⟨init, last, rfl, clear⟩ := ends
  refine ⟨op :: init, last, rfl, fun lifts => ?_⟩
  rcases List.mem_cons.mp lifts with same | lifts
  · exact stays same.symm
  · exact clear lifts

theorem strokes_endsOnce (ops : List (Operation α)) : ∀ s ∈ strokes ops, EndsOnce s := by
  fun_induction strokes ops with
  | case1 => simp
  | case2 ops ih => exact List.forall_mem_cons.mpr ⟨endsOnce_singleton .lift, ih⟩
  | case3 op ops stays s ss cut ih =>
    rw [cut] at ih
    obtain ⟨first, later⟩ := List.forall_mem_cons.mp ih
    exact List.forall_mem_cons.mpr ⟨first.cons stays, later⟩
  | case4 op ops _ _ _ => exact List.forall_mem_singleton.mpr (endsOnce_singleton op)

/-- Only the last stroke may lack a lift. -/
theorem strokes_dropLast (ops : List (Operation α)) :
    ∀ s ∈ (strokes ops).dropLast, s.getLast? = some .lift := by
  fun_induction strokes ops with
  | case1 => simp
  | case2 ops ih =>
    cases cut : strokes ops with
    | nil => simp
    | cons s ss =>
      rw [List.dropLast_cons_cons, ← cut]
      exact List.forall_mem_cons.mpr ⟨rfl, ih⟩
  | case3 op ops stays s ss cut ih =>
    rw [cut] at ih
    cases ss with
    | nil => simp
    | cons second ss =>
      rw [List.dropLast_cons_cons] at ih ⊢
      obtain ⟨first, later⟩ := List.forall_mem_cons.mp ih
      refine List.forall_mem_cons.mpr ⟨?_, later⟩
      rw [List.getLast?_cons, first, Option.getD_some]
  | case4 op ops _ _ _ => simp

end Operation

/-! ### Cutting a run -/

namespace Tool

variable {α : Type} [Scalar α] {feed : α} {t : Tool α}

/-- Nothing is done behind a refused operation. -/
theorem run_append_of_error {first : List (Operation α)} {e : ToolError α}
    (refused : (t.run feed first).error = some e) (second : List (Operation α)) :
    t.run feed (first ++ second) = t.run feed first := by
  induction first generalizing t with
  | nil => cases refused
  | cons op first ih =>
    cases now : (t.step feed op).error with
    | some e' => rw [List.cons_append, run, run, now]
    | none =>
      rw [run, now] at refused
      rw [List.cons_append, run, run, now, ih refused]

/-- Operations that were carried out leave the tool to those behind them. -/
theorem run_append_of_carried {first : List (Operation α)}
    (carried : (t.run feed first).error = none) (second : List (Operation α)) :
    t.run feed (first ++ second) =
      { (t.run feed first).tool.run feed second with
        motions := (t.run feed first).motions ++
          ((t.run feed first).tool.run feed second).motions } := by
  have ended : t.run feed first =
      ⟨(t.run feed first).tool, (t.run feed first).motions, none⟩ := by rw [← carried]
  exact run_append ended second

theorem carried_append {first second : List (Operation α)} :
    (t.run feed (first ++ second)).error = none ↔
      (t.run feed first).error = none ∧
        ((t.run feed first).tool.run feed second).error = none := by
  cases refused : (t.run feed first).error with
  | some e => simp [run_append_of_error refused, refused]
  | none => simp [run_append_of_carried refused]

/-- A run that fails was carried out up to an operation that is refused. -/
theorem exists_refused {ops : List (Operation α)} {e : ToolError α}
    (failed : (t.run feed ops).error = some e) :
    ∃ done op rest, ops = done ++ op :: rest ∧ (t.run feed done).error = none ∧
      ((t.run feed done).tool.step feed op).error = some e := by
  induction ops generalizing t with
  | nil => cases failed
  | cons op ops ih =>
    cases now : (t.step feed op).error with
    | some e' =>
      rw [run, now] at failed
      exact ⟨[], op, ops, rfl, rfl, failed⟩
    | none =>
      rw [run, now] at failed
      obtain ⟨done, next, rest, rfl, carried, refused⟩ := ih failed
      refine ⟨op :: done, next, rest, rfl, ?_, ?_⟩
      · rw [run, now]
        exact carried
      · rw [run, now]
        exact refused

/-- Of strokes that are not all carried out, those before one that fails are. -/
theorem exists_failing {calls : List (List (Operation α))} {e : ToolError α}
    (failed : (t.run feed calls.flatten).error = some e) :
    ∃ before call after, calls = before ++ call :: after ∧
      (t.run feed before.flatten).error = none ∧
      ((t.run feed before.flatten).tool.run feed call).error = some e := by
  induction calls generalizing t with
  | nil => cases failed
  | cons call calls ih =>
    rw [List.flatten_cons] at failed
    cases now : (t.run feed call).error with
    | some e' =>
      rw [run_append_of_error now] at failed
      exact ⟨[], call, calls, rfl, rfl, failed⟩
    | none =>
      rw [run_append_of_carried now] at failed
      obtain ⟨before, next, after, rfl, carried, last⟩ := ih failed
      refine ⟨call :: before, next, after, rfl, ?_, ?_⟩
      · rw [List.flatten_cons, carried_append]
        exact ⟨now, carried⟩
      · rw [List.flatten_cons, run_append_of_carried now]
        exact last

end Tool

/-! ### Streams -/

namespace Program

variable {m : Plotter Float} {t : Tool Float}

/-- What a tool answers to strokes that are streamed to it one after the other. -/
def stream (m : Plotter Float) (t : Tool Float) :
    List (List (Operation Float)) → List (Except (ToolError Float) String)
  | [] => []
  | call :: calls => (stroke m t call).2 :: stream m (stroke m t call).1 calls

/-- The answer to a stroke that is carried out: its lines, and the wait for them. -/
def streamed (body : String) : Except (ToolError Float) String := .ok (body ++ "M400\n")

theorem lines_append (m : Plotter Float) (as bs : List (Motion Float)) :
    lines m (as ++ bs) = lines m as ++ lines m bs := by
  rw [lines, List.map_append, String.join_append]
  rfl

theorem stroke_of_carried {ops : List (Operation Float)} (carried : (m.run t ops).error = none) :
    stroke m t ops = ((m.run t ops).tool, streamed (lines m (m.run t ops).motions)) := by
  rw [stroke, carried]
  rfl

theorem stroke_of_error {ops : List (Operation Float)} {e : ToolError Float}
    (failed : (m.run t ops).error = some e) : stroke m t ops = ((m.run t ops).tool, .error e) := by
  rw [stroke, failed]

theorem text_eq_ok_iff {ops : List (Operation Float)} :
    (∃ s, text m ops = .ok s) ↔ (m.run .idle ops).error = none := by
  rw [text]
  cases (m.run .idle ops).error <;> simp

theorem text_eq_error_iff {ops : List (Operation Float)} {e : ToolError Float} :
    text m ops = .error e ↔ (m.run .idle ops).error = some e := by
  rw [text]
  cases (m.run .idle ops).error <;> simp

/-- These are the lines of strokes: those of the first so many are the lines of their
operations in one run. -/
def Told (m : Plotter Float) (t : Tool Float) (calls : List (List (Operation Float)))
    (bodies : List String) : Prop :=
  bodies.length = calls.length ∧
    ∀ k, String.join (bodies.take k) = lines m (m.run t (calls.take k).flatten).motions

/-- This operation is refused after those before it are carried out. -/
def Refused (m : Plotter Float) (done : List (Operation Float)) (op : Operation Float)
    (e : ToolError Float) : Prop :=
  (m.run .idle done).error = none ∧
    ((m.run .idle done).tool.step m.settings.drawFeed op).error = some e

/-- **Strokes that are carried out answer with their part of the lines of one run**, and
leave the tool to the strokes behind them. -/
theorem stream_append {before : List (List (Operation Float))}
    (carried : (m.run t before.flatten).error = none) (after : List (List (Operation Float))) :
    ∃ bodies, Told m t before bodies ∧
      stream m t (before ++ after) =
        bodies.map streamed ++ stream m (m.run t before.flatten).tool after := by
  induction before generalizing t with
  | nil => exact ⟨[], ⟨rfl, fun k => by simp [Plotter.run, Tool.run, lines]⟩, rfl⟩
  | cons call before ih =>
    rw [List.flatten_cons] at carried ⊢
    obtain ⟨now, later⟩ := Tool.carried_append.mp carried
    obtain ⟨bodies, ⟨count, told⟩, rest⟩ := ih (t := (m.run t call).tool) later
    have whole (ops : List (Operation Float)) :
        m.run t (call ++ ops) = { m.run (m.run t call).tool ops with
          motions := (m.run t call).motions ++ (m.run (m.run t call).tool ops).motions } :=
      Tool.run_append_of_carried now ops
    refine ⟨lines m (m.run t call).motions :: bodies, ⟨by simp [count], fun k => ?_⟩, ?_⟩
    · cases k with
      | zero => simp [Plotter.run, Tool.run, lines]
      | succ k =>
        rw [List.take_succ_cons, List.take_succ_cons, List.flatten_cons, String.join_cons, told,
          whole, lines_append]
    · rw [List.cons_append, stream, stroke_of_carried now, rest, whole]
      rfl

/-- Streamed to a new tool, these strokes break off with an error: the operation that is
refused, where it is among them, and what the strokes before have told. -/
def BreaksOff (m : Plotter Float) (calls : List (List (Operation Float))) (e : ToolError Float) :
    Prop :=
  ∃ before done op rest after bodies later, calls = before ++ (done ++ op :: rest) :: after ∧
    Refused m (before.flatten ++ done) op e ∧ Told m .idle before bodies ∧
    stream m .idle calls = bodies.map streamed ++ .error e :: later

theorem exists_told {calls : List (List (Operation Float))} {s : String}
    (made : text m calls.flatten = .ok s) :
    ∃ bodies, Told m .idle calls bodies ∧ stream m .idle calls = bodies.map streamed ∧
      s = head m.board ++ String.join bodies ++
        tail m (m.run .idle calls.flatten).tool.lift.motions := by
  obtain ⟨bodies, told, answers⟩ := stream_append (text_eq_ok_iff.mp ⟨s, made⟩) []
  rw [List.append_nil, stream, List.append_nil] at answers
  have all : String.join bodies = lines m (m.run .idle calls.flatten).motions := by
    have whole := told.2 calls.length
    rwa [← told.1, List.take_length, told.1, List.take_length] at whole
  exact ⟨bodies, told, answers, by rw [text_eq_ok made, all]⟩

theorem breaksOff {calls : List (List (Operation Float))} {e : ToolError Float}
    (failed : text m calls.flatten = .error e) : BreaksOff m calls e := by
  obtain ⟨before, call, after, rfl, carried, last⟩ :=
    Tool.exists_failing (text_eq_error_iff.mp failed)
  obtain ⟨done, op, rest, rfl, part, refused⟩ := Tool.exists_refused last
  obtain ⟨bodies, told, answers⟩ := stream_append carried ((done ++ op :: rest) :: after)
  rw [stream, stroke_of_error (t := (m.run .idle before.flatten).tool) last] at answers
  refine ⟨before, done, op, rest, after, bodies, _, rfl, ⟨?_, ?_⟩, told, answers⟩
  · exact Tool.carried_append.mpr ⟨carried, part⟩
  · rw [Plotter.run, Tool.run_append_of_carried carried]
    exact refused

/-- **Streaming a job is making its program.** A job is cut at its lifts into strokes
that hold all of it, in order; none is empty, a lift can only be the end of one, and
only the last may lack it. However a job is cut, all its strokes are carried out
precisely if there is a program; without the waits their lines are then those between
the head and the tail of the program. Else the stroke with the refused operation gives
the error of the program, and those before it have told the lines made up to there. -/
theorem stream_eq_text (m : Plotter Float) (ops : List (Operation Float)) :
    ((Operation.strokes ops).flatten = ops ∧
      (∀ s ∈ Operation.strokes ops, Operation.EndsOnce s) ∧
      ∀ s ∈ (Operation.strokes ops).dropLast, s.getLast? = some .lift) ∧
    ∀ calls : List (List (Operation Float)), calls.flatten = ops →
      ((∀ answer ∈ stream m .idle calls, ∃ s, answer = .ok s) ↔ ∃ s, text m ops = .ok s) ∧
      (∀ s, text m ops = .ok s → ∃ bodies, Told m .idle calls bodies ∧
        stream m .idle calls = bodies.map streamed ∧
        s = head m.board ++ String.join bodies ++
          tail m (m.run .idle ops).tool.lift.motions) ∧
      ∀ e, text m ops = .error e → BreaksOff m calls e := by
  refine ⟨⟨Operation.flatten_strokes ops, Operation.strokes_endsOnce ops,
    Operation.strokes_dropLast ops⟩, ?_⟩
  rintro calls rfl
  refine ⟨⟨fun all => ?_, ?_⟩, fun s => exists_told, fun e => breaksOff⟩
  · cases made : text m calls.flatten with
    | ok s => exact ⟨s, rfl⟩
    | error e =>
      obtain ⟨-, -, -, -, -, bodies, later, -, -, -, answers⟩ := breaksOff made
      obtain ⟨s, told⟩ := all (.error e) (by rw [answers]; simp)
      cases told
  · rintro ⟨s, made⟩ answer given
    obtain ⟨bodies, -, answers, -⟩ := exists_told made
    rw [answers] at given
    obtain ⟨body, -, rfl⟩ := List.mem_map.mp given
    exact ⟨_, rfl⟩

/-- A job cut behind the lowering and within a stroke, and one that travels on the
board. -/
theorem stream_eq_text_cut :
    let m := doubled
    let opening : List (Operation Float) := [.lift, .travel ⟨1, 2⟩, .lower]
    let drawing : List (Operation Float) := [.other, .polyline ⟨1, 2⟩ ⟨3, 4⟩ [] none]
    (∃ s bodies, text m (opening ++ drawing) = .ok s ∧ Told m .idle [opening, [], drawing] bodies ∧
      s = head m.board ++ String.join bodies ++ tail m [.lifted ⟨3, 4⟩]) ∧
    text m (opening ++ [.other, .travel ⟨7, 8⟩]) = .error (.travelDown ⟨7, 8⟩) ∧
    BreaksOff m [opening, [.other, .travel ⟨7, 8⟩]] (.travelDown ⟨7, 8⟩) := by
  intro m opening drawing
  have made : ∃ s, text m (opening ++ drawing) = .ok s := ⟨_, rfl⟩
  have failed : text m (opening ++ [.other, .travel ⟨7, 8⟩]) = .error (.travelDown ⟨7, 8⟩) := rfl
  obtain ⟨s, made⟩ := made
  obtain ⟨bodies, told, -, whole⟩ :=
    ((stream_eq_text m (opening ++ drawing)).2 [opening, [], drawing] rfl).2.1 s made
  exact ⟨⟨s, bodies, made, told, whole⟩, failed,
    ((stream_eq_text m _).2 [opening, [.other, .travel ⟨7, 8⟩]] rfl).2.2 _ failed⟩

end Program

end BoardPlotter
