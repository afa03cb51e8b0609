import Mathlib.Data.List.Chain
import BoardPlotter.Motion.Program

/-!
# Where the tool meets the board

A motion ends above the board or on it. A tool that has no position yet can only
be moved above the board, and from then on it goes down and up over the point it
is at (`Tool.Allows`). Every operation makes such motions and leaves the tool
where the last one ended, refused or not (`Tool.step_trail`), so whole runs do
(`Tool.run_trail`).

For the text of programs and of streamed strokes this is
`Program.contact_in_place`: the tool is never dragged on or off the board.
-/

namespace BoardPlotter

namespace Motion

variable {α : Type}

/-- The point of the drawing at which a motion ends. -/
def point : Motion α → Point α
  | lifted p | surface p _ => p

/-- Does it end on the board? -/
def onBoard : Motion α → Bool
  | lifted _ => false
  | surface .. => true

/-- The tool it leaves. -/
def leaves : Motion α → Tool α
  | lifted p => .up p
  | surface p _ => .down p

/-- The first motion is above the board, and a motion above the board next to
one on it is at the same point. -/
def InPlace (moves : List (Motion α)) : Prop :=
  (∀ a ∈ moves.head?, a.onBoard = false) ∧
    moves.IsChain fun a b => a.onBoard ≠ b.onBoard → a.point = b.point

end Motion

namespace Tool

variable {α : Type}

/-- The motions a tool can make. -/
def Allows : Tool α → Motion α → Prop
  | idle, a => a.onBoard = false
  | up p, .surface q _ => q = p
  | down p, .lifted q => q = p
  | up _, .lifted _ | down _, .surface .. => True

/-- The tool after motions. -/
def after (t : Tool α) (moves : List (Motion α)) : Tool α := moves.foldl (fun _ a => a.leaves) t

/-- Each motion is one that the tool can make after the ones before. -/
def Trail (t : Tool α) : List (Motion α) → Prop
  | [] => True
  | a :: moves => t.Allows a ∧ a.leaves.Trail moves

theorem after_append (t : Tool α) (as bs : List (Motion α)) :
    t.after (as ++ bs) = (t.after as).after bs :=
  List.foldl_append

theorem trail_append (t : Tool α) (as bs : List (Motion α)) :
    t.Trail (as ++ bs) ↔ t.Trail as ∧ (t.after as).Trail bs := by
  induction as generalizing t with
  | nil => exact ⟨fun h => ⟨trivial, h⟩, fun h => h.2⟩
  | cons a as ih =>
    rw [List.cons_append, Trail, Trail, ih, and_assoc]
    rfl

/-- The flag and the position of a tool are those of the last of these motions. -/
def LeftBy (t : Tool α) (moves : List (Motion α)) : Prop :=
  (t.isUp = false ↔ ∃ a ∈ moves.getLast?, a.onBoard = true) ∧
    t.position? = moves.getLast?.map Motion.point

theorem leftBy_after (moves : List (Motion α)) : (idle.after moves).LeftBy moves := by
  rcases List.eq_nil_or_concat moves with rfl | ⟨as, a, rfl⟩
  · simp [LeftBy, after, isUp, position?]
  · rw [List.concat_eq_append, after_append]
    cases a <;> simp [LeftBy, after, Motion.leaves, Motion.onBoard, Motion.point, isUp, position?]

/-- From motion to motion, a trail changes between above and on the board in
place. -/
theorem Trail.isChain {a : Motion α} {moves : List (Motion α)} (trail : a.leaves.Trail moves) :
    (a :: moves).IsChain fun a b => a.onBoard ≠ b.onBoard → a.point = b.point := by
  induction moves generalizing a with
  | nil => exact List.IsChain.singleton a
  | cons b moves ih =>
    refine List.isChain_cons_cons.mpr ⟨fun changes => ?_, ih trail.2⟩
    have allowed := trail.1
    cases a <;> cases b
    · exact absurd rfl changes
    · exact allowed.symm
    · exact allowed.symm
    · exact absurd rfl changes

theorem Trail.inPlace {moves : List (Motion α)} (trail : idle.Trail moves) :
    Motion.InPlace moves := by
  cases moves with
  | nil => exact ⟨by simp, List.IsChain.nil⟩
  | cons a moves =>
    have first : a.onBoard = false := trail.1
    exact ⟨by simpa using first, trail.2.isChain⟩

theorem lift_trail (t : Tool α) :
    t.Trail t.lift.motions ∧ t.lift.tool = t.after t.lift.motions := by
  cases t with
  | idle => exact ⟨trivial, rfl⟩
  | up p => exact ⟨trivial, rfl⟩
  | down p => exact ⟨⟨rfl, trivial⟩, rfl⟩

section Run

variable [Scalar α]

theorem draw_trail (feed : α) (q : Point α) (ps : List (Point α)) :
    (down q).Trail (draw feed (down q) ps).motions ∧
      (draw feed (down q) ps).tool = (down q).after (draw feed (down q) ps).motions := by
  induction ps generalizing q with
  | nil => exact ⟨trivial, rfl⟩
  | cons p ps ih =>
    rw [draw]
    split
    · exact ⟨⟨trivial, (ih p).1⟩, (ih p).2⟩
    · exact ⟨trivial, rfl⟩

/-- **An operation moves the tool as it can be moved**, and leaves it where the
last motion ends. -/
theorem step_trail (feed : α) (t : Tool α) (op : Operation α) :
    t.Trail (t.step feed op).motions ∧
      (t.step feed op).tool = t.after (t.step feed op).motions := by
  cases op with
  | lift => exact lift_trail t
  | other => exact ⟨trivial, rfl⟩
  | lower =>
    cases t with
    | up p => exact ⟨⟨rfl, trivial⟩, rfl⟩
    | idle | down p => exact ⟨trivial, rfl⟩
  | travel p =>
    cases t with
    | down q => exact ⟨trivial, rfl⟩
    | idle =>
      rw [step]
      · split
        · exact ⟨⟨rfl, trivial⟩, rfl⟩
        · exact ⟨trivial, rfl⟩
      · exact fun _ h => nomatch h
    | up q =>
      rw [step]
      · split
        · exact ⟨⟨trivial, trivial⟩, rfl⟩
        · exact ⟨trivial, rfl⟩
      · exact fun _ h => nomatch h
  | line p own =>
    cases t with
    | down q => exact draw_trail _ q [p]
    | idle | up q => exact ⟨trivial, rfl⟩
  | polyline p q rest own =>
    cases t with
    | down r => exact draw_trail _ r (p :: q :: rest)
    | idle | up r => exact ⟨trivial, rfl⟩

/-- **So do operations one after another**, up to an error or the end. -/
theorem run_trail (feed : α) (t : Tool α) (ops : List (Operation α)) :
    t.Trail (t.run feed ops).motions ∧
      (t.run feed ops).tool = t.after (t.run feed ops).motions := by
  induction ops generalizing t with
  | nil => exact ⟨trivial, rfl⟩
  | cons op ops ih =>
    obtain ⟨first, left⟩ := step_trail feed t op
    rw [run]
    cases (t.step feed op).error with
    | some e => exact ⟨first, left⟩
    | none =>
      obtain ⟨later, final⟩ := ih (t.step feed op).tool
      exact ⟨(trail_append _ _ _).mpr ⟨first, left ▸ later⟩, by rw [after_append, ← left, final]⟩

end Run

theorem onBoard_of_lift {t : Tool α} {before : List (Motion α)} (left : t = idle.after before) :
    ∀ a ∈ (before ++ t.lift.motions).getLast?, a.onBoard = false := by
  cases t with
  | down p => simp [lift, Motion.onBoard]
  | idle | up p =>
    intro a last
    simp only [lift, List.append_nil] at last
    obtain ⟨known, -⟩ := leftBy_after before
    rw [← left] at known
    cases on : a.onBoard with
    | false => rfl
    | true => exact absurd (known.mpr ⟨a, last, on⟩) (by simp [isUp])

end Tool

namespace Program

/-- Strokes streamed to a new tool, all of them accepted so far: their texts, the
motions of each, and the tool after them. -/
inductive Streamed (m : Plotter Float) :
    List String → List (List (Motion Float)) → Tool Float → Prop
  | start : Streamed m [] [] .idle
  | call {texts : List String} {calls : List (List (Motion Float))} {t next : Tool Float}
      {ops : List (Operation Float)} {text : String} :
      Streamed m texts calls t → stroke m t ops = (next, .ok text) →
      Streamed m (texts ++ [text]) (calls ++ [(m.run t ops).motions]) next

theorem text_eq_ok {m : Plotter Float} {ops : List (Operation Float)} {s : String}
    (made : text m ops = .ok s) :
    s = head m.board ++ lines m (m.run .idle ops).motions ++
      tail m (m.run .idle ops).tool.lift.motions := by
  rw [text] at made
  cases h : (m.run .idle ops).error with
  | some e => simp [h] at made
  | none => simpa [h] using made.symm

theorem stroke_eq_ok {m : Plotter Float} {t next : Tool Float} {ops : List (Operation Float)}
    {s : String} (made : stroke m t ops = (next, .ok s)) :
    next = (m.run t ops).tool ∧ s = lines m (m.run t ops).motions ++ "M400\n" := by
  rw [stroke] at made
  cases h : (m.run t ops).error with
  | some e => simp [h] at made
  | none =>
    rw [h] at made
    obtain ⟨rfl, same⟩ := Prod.mk.inj made
    exact ⟨rfl, (Except.ok.inj same).symm⟩

/-- Streamed strokes leave one trail. -/
theorem Streamed.trail {m : Plotter Float} {texts : List String}
    {calls : List (List (Motion Float))} {t : Tool Float} (run : Streamed m texts calls t) :
    Tool.idle.Trail calls.flatten ∧ t = Tool.idle.after calls.flatten := by
  induction run with
  | start => exact ⟨trivial, rfl⟩
  | @call texts calls t next ops text _ made ih =>
    obtain ⟨rfl, -⟩ := stroke_eq_ok made
    obtain ⟨later, final⟩ := Tool.run_trail m.settings.drawFeed t ops
    rw [List.flatten_concat]
    refine ⟨(Tool.trail_append _ _ _).mpr ⟨ih.1, ?_⟩, ?_⟩
    · rwa [← ih.2]
    · rw [Tool.after_append, ← ih.2]
      exact final

theorem Streamed.texts_eq {m : Plotter Float} {texts : List String}
    {calls : List (List (Motion Float))} {t : Tool Float} (run : Streamed m texts calls t) :
    texts = calls.map fun moves => lines m moves ++ "M400\n" := by
  induction run with
  | start => rfl
  | call _ made ih => rw [ih, (stroke_eq_ok made).2, List.map_append, List.map_singleton]

/-- **The tool touches and leaves the board in place.** The motions of a program,
its final lift with them, and those of strokes streamed to one tool begin above
the board and change between above and on it only over one point. A program does
not end on the board, and the tool always knows the last motion. -/
theorem contact_in_place (m : Plotter Float) :
    (∀ ops s, text m ops = .ok s →
      let body := (m.run .idle ops).motions
      let last := (m.run .idle ops).tool.lift
      s = head m.board ++ lines m body ++ tail m last.motions ∧
        Motion.InPlace (body ++ last.motions) ∧
        (∀ a ∈ (body ++ last.motions).getLast?, a.onBoard = false) ∧
        last.tool.LeftBy (body ++ last.motions)) ∧
    ∀ texts calls t, Streamed m texts calls t →
      texts = calls.map (fun moves => lines m moves ++ "M400\n") ∧
        Motion.InPlace calls.flatten ∧ t.LeftBy calls.flatten := by
  constructor
  · intro ops s made
    obtain ⟨trail, left⟩ := Tool.run_trail m.settings.drawFeed .idle ops
    obtain ⟨lifting, final⟩ := Tool.lift_trail (m.run .idle ops).tool
    have whole : Tool.idle.Trail
        ((m.run .idle ops).motions ++ (m.run .idle ops).tool.lift.motions) :=
      (Tool.trail_append _ _ _).mpr ⟨trail, left ▸ lifting⟩
    have known : (m.run .idle ops).tool.lift.tool = Tool.idle.after
        ((m.run .idle ops).motions ++ (m.run .idle ops).tool.lift.motions) := by
      rw [Tool.after_append, final]
      exact congrArg (Tool.after · _) left
    refine ⟨text_eq_ok made, whole.inPlace, Tool.onBoard_of_lift left, ?_⟩
    rw [known]
    exact Tool.leftBy_after _
  · intro texts calls t run
    obtain ⟨trail, left⟩ := run.trail
    refine ⟨run.texts_eq, trail.inPlace, ?_⟩
    rw [left]
    exact Tool.leftBy_after _

/-- A board of two units of length to one of the viewport. -/
def doubled : Plotter Float where
  board := ⟨100, 50, ⟨0, 0, 0⟩, ⟨200, 0, 0⟩, ⟨0, 100, 0⟩, by decide, by decide⟩
  settings := ⟨5, 40, 120⟩

/-- A job whose tool is lowered and lifted twice at a time, and left on the board;
and its two strokes streamed. -/
theorem contact_in_place_redundant :
    let m := doubled
    let first : List (Operation Float) :=
      [.lift, .travel ⟨1, 2⟩, .lower, .lower, .polyline ⟨1, 2⟩ ⟨3, 4⟩ [⟨5, 6⟩] none, .lift, .lift]
    let second : List (Operation Float) := [.travel ⟨7, 8⟩, .other, .lower, .line ⟨9, 8⟩ (some 20)]
    (∃ s, text m (first ++ second) = .ok s ∧
      Motion.InPlace ((m.run .idle (first ++ second)).motions ++ [.lifted ⟨9, 8⟩])) ∧
    ∃ texts calls, Streamed m texts calls (.down ⟨9, 8⟩) ∧ calls.map List.length = [6, 3] ∧
      Motion.InPlace calls.flatten := by
  intro m first second
  have made : ∃ s, text m (first ++ second) = .ok s := ⟨_, rfl⟩
  have one : ∃ s, stroke m .idle first = (.up ⟨5, 6⟩, .ok s) := ⟨_, rfl⟩
  have two : ∃ s, stroke m (.up ⟨5, 6⟩) second = (.down ⟨9, 8⟩, .ok s) := ⟨_, rfl⟩
  obtain ⟨s, made⟩ := made
  obtain ⟨_, one⟩ := one
  obtain ⟨_, two⟩ := two
  have streamed := (Streamed.start.call one).call two
  exact ⟨⟨s, made, ((contact_in_place m).1 _ _ made).2.1⟩,
    _, _, streamed, rfl, ((contact_in_place m).2 _ _ _ streamed).2.1⟩

end Program

end BoardPlotter
