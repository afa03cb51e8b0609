import BoardPlotter.Proofs.PathData.Plain

/-!
# Drawing while reading

A tracer reads path data and draws it in one pass. It carries a group out as soon as the
next letter or the end of the text completes it. So an error of the reader is met with an
outline half drawn, and behind an error of a step nothing is read any more. What earlier
path data left in the tracer is dropped when it starts.

`Tracer.run_eq`: whatever a tracer did before, it draws what is drawn where all is read
first and the steps before the first error are carried out afterwards.
-/

namespace BoardPlotter

/-- The pen, the outline it is drawing, and the polylines that are finished. -/
structure Tracer (α : Type) where
  pen : Pen α
  outline : Option (Polyline α)
  finished : List (Polyline α)

variable {α : Type} [Scalar α]

namespace Tracer

def idle : Tracer α := ⟨.initial, none, []⟩

/-- The outline that was being drawn is finished. One without a vertex behind its start is
dropped. -/
def lift (finish : Finish α) (p : Tracer α) : Tracer α :=
  match p.outline with
  | none => p
  | some l =>
    { p with
      outline := none
      finished := p.finished ++ if l.isEmpty then [] else [l.finalize finish.transform finish.fill] }

/-- A new outline begins, or the one being drawn goes on. -/
def note (finish : Finish α) (p : Tracer α) : PenEvent α → Tracer α
  | .lifted start => { p.lift finish with outline := some ⟨start, [], false⟩ }
  | .drew points => { p with outline := p.outline.map (·.append points) }

/-- Carries one step out. -/
def apply (f : Flattening α) (finish : Finish α) (p : Tracer α) (s : PathStep α) :
    Except (CurveError α) (Tracer α) := do
  let (pen, event) ← p.pen.step f s
  return { p.note finish event with pen }

/-- Carries steps out up to the first error. -/
def execute (f : Flattening α) (finish : Finish α) :
    Tracer α → List (Except (PathError α) (PathStep α)) →
      Except (CurveError α) (Tracer α × Option (PathError α))
  | p, [] => .ok (p, none)
  | p, .error e :: _ => .ok (p, some e)
  | p, .ok s :: rest => do execute f finish (← p.apply f finish s) rest

/-- Carries the group out that is complete, if one was begun; its numbers are held in
reverse. -/
def complete (f : Flattening α) (finish : Finish α) (p : Tracer α)
    (begun : Option (PathCommand × List α)) :
    Except (CurveError α) (Tracer α × Option (PathError α)) :=
  match begun with
  | none => .ok (p, none)
  | some (command, args) => p.execute f finish (PathStep.ofGroup ⟨command, args.reverse⟩)

/-- Reads tokens from a state, with the group begun before them, and carries out each group
that is completed. -/
def read (f : Flattening α) (finish : Finish α) (stop : Nat) (offender : Option Char) :
    Tracer α → ReaderState → Option (PathCommand × List α) → List LocatedToken →
      Except (CurveError α) (Tracer α × ReaderState × Option (PathError α))
  | p, state, begun, [] =>
    match offender with
    | some c => .ok (p, .error, some (.character c stop))
    | none => do
      let (p, error) ← p.complete f finish begun
      return (p, if error.isSome then .error else state, error)
  | p, state, begun, ⟨i, c, token⟩ :: ts =>
    match token with
    | .command command =>
      if state = .start ∧ command.verb ≠ .moveTo then .ok (p, .error, some (.notMoveTo c i))
      else do
        let (p, error) ← p.complete f finish begun
        match error with
        | some e => return (p, .error, some e)
        | none => read f finish stop offender p .command (some (command, [])) ts
    | .comma =>
      if state = .number then read f finish stop offender p .comma begun ts
      else .ok (p, .error, some (.misplacedComma i))
    | .number n =>
      if state = .start then .ok (p, .error, some (.character c i))
      else
        read f finish stop offender p .number
          (begun.map fun (command, args) => (command, n.value :: args)) ts

/-- Forgets what was drawn before. -/
def reset (_ : Tracer α) : Tracer α := idle

/-- Draws path data, whatever was drawn before. -/
def run (f : Flattening α) (finish : Finish α) (p : Tracer α) (data : String) :
    Except (CurveError α) (PathDrawing α) := do
  let t := PathTokens.ofString data
  let (p, state, error) ← read f finish t.stop t.offender p.reset .start none t.tokens
  return ⟨(p.lift finish).finished, state, error⟩

/-! ## Reading and drawing apart -/

variable (f : Flattening α) (finish : Finish α)

theorem execute_eq (p : Tracer α) (results : List (Except (PathError α) (PathStep α))) :
    p.execute f finish results = do
      let p ← (PathStep.untilError results).1.foldlM (apply f finish) p
      return (p, (PathStep.untilError results).2) := by
  induction results generalizing p with
  | nil => rfl
  | cons r rest ih =>
    cases r with
    | error e => rfl
    | ok s =>
      rw [execute, PathStep.untilError]
      simp only [ih, List.foldlM_cons, bind_assoc]

theorem complete_eq (p : Tracer α) (begun : Option (PathCommand × List α)) (state : ReaderState)
    (i : Nat) :
    let steps := PathStep.untilError
      ((PathReading.complete begun state i).flatMap fun g => PathStep.ofGroup g.group)
    p.complete f finish begun = do
      let p ← steps.1.foldlM (apply f finish) p
      return (p, steps.2) := by
  cases begun with
  | none => rfl
  | some group =>
    obtain ⟨command, args⟩ := group
    simp [complete, PathReading.complete, execute_eq]

/-- **Reading.** The steps carried out while reading are those of the whole reading before
its first error. -/
theorem read_eq (stop : Nat) (offender : Option Char) (p : Tracer α) (state : ReaderState)
    (begun : Option (PathCommand × List α)) (ts : List LocatedToken) :
    let reading := PathReading.ofTokens stop offender state begun ts
    let steps := PathStep.untilError (PathStep.ofReading reading)
    p.read f finish stop offender state begun ts = do
      let p ← steps.1.foldlM (apply f finish) p
      return (p, if steps.2.isSome then .error else reading.state, steps.2) := by
  induction ts generalizing p state begun with
  | nil =>
    cases offender with
    | some c => rfl
    | none =>
      simp only [read, complete_eq f finish p begun state stop]
      simp [PathReading.ofTokens, PathStep.ofReading]
  | cons t ts ih =>
    obtain ⟨i, c, token⟩ := t
    cases token with
    | command command =>
      simp only [read, PathReading.ofTokens]
      split
      · rfl
      · rw [complete_eq f finish p begun state i]
        let later : PathReading α :=
          PathReading.ofTokens stop offender .command (some (command, [])) ts
        have steps : PathStep.ofReading { later with
              groups := PathReading.complete begun state i ++ later.groups } =
            ((PathReading.complete begun state i).flatMap fun g => PathStep.ofGroup g.group) ++
              PathStep.ofReading later := by
          simp only [PathStep.ofReading, List.flatMap_append, List.append_assoc]
        rw [steps, PathStep.untilError_append]
        cases outcome : PathStep.untilError
          ((PathReading.complete begun state i).flatMap fun g => PathStep.ofGroup g.group) with
        | mk first error =>
          cases error with
          | some e => simp
          | none => simp [ih, later]
    | comma =>
      simp only [read, PathReading.ofTokens]
      split
      · exact ih p .comma begun
      · rfl
    | number n =>
      simp only [read, PathReading.ofTokens]
      split
      · rfl
      · exact ih p .number _

/-- What becomes of outlines: those with a vertex behind their start are finished. -/
def kept (outlines : List (Polyline α)) : List (Polyline α) :=
  (outlines.filter fun l => !l.isEmpty).map fun l => l.finalize finish.transform finish.fill

theorem finished_lift (p : Tracer α) :
    (p.lift finish).finished = p.finished ++ kept finish p.outline.toList := by
  obtain ⟨pen, outline, finished⟩ := p
  cases outline with
  | none => simp [lift, kept]
  | some l =>
    cases empty : l.isEmpty <;> simp [lift, kept, empty]

theorem note_pen (p : Tracer α) (pen : Pen α) (e : PenEvent α) :
    ({ p with pen } : Tracer α).note finish e = { p.note finish e with pen } := by
  cases e with
  | drew points => rfl
  | lifted start =>
    obtain ⟨pen', outline, finished⟩ := p
    cases outline <;> rfl

theorem foldl_note_pen (p : Tracer α) (pen : Pen α) (es : List (PenEvent α)) :
    es.foldl (note finish) { p with pen } = { es.foldl (note finish) p with pen } := by
  induction es generalizing p with
  | nil => rfl
  | cons e es ih => rw [List.foldl_cons, note_pen, ih, List.foldl_cons]

/-- **One event at a time.** The outlines of events, the first of which goes on with the
outline being drawn, are finished one after another. -/
theorem finished_foldl_note (p : Tracer α) (es : List (PenEvent α)) :
    let outlines := PenEvent.outlines es
    ((es.foldl (note finish) p).lift finish).finished =
      p.finished ++ kept finish
        ((p.outline.map (·.append outlines.1)).toList ++ outlines.2) := by
  induction es generalizing p with
  | nil =>
    obtain ⟨pen, outline, finished⟩ := p
    cases outline <;> simp [finished_lift, PenEvent.outlines, Polyline.append]
  | cons e es ih =>
    rw [List.foldl_cons]
    cases e with
    | drew points =>
      have further : (fun l : Polyline α => (l.append points).append (PenEvent.outlines es).1) =
          fun l => l.append (points ++ (PenEvent.outlines es).1) := by
        funext l
        simp [Polyline.append]
      simp only [ih, note, PenEvent.outlines, Option.map_map, Function.comp_def, further]
    | lifted start =>
      simp only [ih, note, finished_lift, PenEvent.outlines]
      simp [kept, Polyline.append]

/-- **Drawing.** Steps that are carried out one by one finish the outlines of their trace. -/
theorem foldlM_apply (p : Tracer α) (steps : List (PathStep α)) :
    (do
      let p ← steps.foldlM (apply f finish) p
      return (p.lift finish).finished) = do
      let events ← p.pen.trace f steps
      return ((events.foldl (note finish) p).lift finish).finished := by
  induction steps generalizing p with
  | nil => rfl
  | cons s steps ih =>
    rw [List.foldlM_cons, apply, Pen.trace]
    cases step : p.pen.step f s with
    | error e => rfl
    | ok answer =>
      obtain ⟨pen, event⟩ := answer
      have next := ih { p.note finish event with pen }
      simp only [foldl_note_pen] at next
      refine next.trans ?_
      change (do let events ← pen.trace f steps; return _) = (do
        let events ← (do return event :: (← pen.trace f steps))
        return ((events.foldl (note finish) p).lift finish).finished)
      simp [finished_lift]

theorem run_eq (p : Tracer α) (data : String) :
    p.run f finish data = PathDrawing.ofString f finish data := by
  have drawn (steps : List (PathStep α)) : (do
      let p ← steps.foldlM (apply f finish) idle
      return (p.lift finish).finished) = PathDrawing.polylinesOf f finish steps := by
    rw [foldlM_apply, PathDrawing.polylinesOf]
    simp [finished_foldl_note, idle, kept]
  simp only [run, read_eq, PathDrawing.ofString, ← drawn, PathReading.ofString, reset, bind_assoc,
    pure_bind]
  rfl

end Tracer

end BoardPlotter
