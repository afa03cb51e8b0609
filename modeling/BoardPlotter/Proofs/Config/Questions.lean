import Mathlib.Data.Fin.VecNotation
import BoardPlotter.Config.Reading

/-!
# What a configuration is asked for

Reading a configuration asks the value one question after the other: for the numbers of the
robot, of the corners of the board and of the viewport, and for the two limits of curves. It
fails as the first question does that is not answered (`Config.describedBy_asks`).
-/

namespace BoardPlotter

open Value

/-- The failure of what may fail. -/
def failure? {ε β : Type} : Except ε β → Option ε
  | .ok _ => none
  | .error e => some e

theorem failure?_eq_some {ε β : Type} {x : Except ε β} {e : ε} :
    failure? x = some e ↔ x = .error e := by
  cases x <;> simp [failure?]

theorem failure?_eq_none {ε : Type} {x : Except ε Unit} : failure? x = none ↔ x = .ok () := by
  cases x <;> simp [failure?]

/-- A number in a section, a coordinate of a corner, or a limit of curves. -/
inductive Question where
  | number (section_ key : String)
  | coordinate (corner : String) (axis : Fin 3)
  | depth
  | segments
  deriving DecidableEq, Repr

namespace Question

def corner (name : String) : List Question :=
  [.coordinate name 0, .coordinate name 1, .coordinate name 2]

/-- The questions in the order in which they are asked. -/
def all : List Question :=
  [.number "robot" "accuracy_mm", .number "robot" "departure_mm", .number "robot" "pouring_step_mm",
    .number "robot" "draw_feed_mm_s", .number "robot" "travel_feed_mm_s"] ++
  (corner "origin" ++ (corner "corner_x" ++ (corner "corner_y" ++
  [.number "viewport" "default_width", .number "viewport" "default_height", .depth, .segments])))

/-- The limits of curves, null where there are none. -/
def limits : Value → Value
  | .map fields => (fields.lookup "flatten").getD .null
  | _ => .null

/-- One of the limits, where there are some. -/
def limit (key : String) (v : Value) : Extract (Option Value) :=
  if !(limits v).isPresent then .ok none
  else
    match limits v with
    | map fields => .ok (fields.lookup key)
    | _ => .error .unmapped

/-- Null is as good as no value. -/
def given : Option Value → Option Value
  | some null => none
  | x => x

/-- The value that a question is about. There is none where a default stands in. -/
def leaf : Question → Value → Extract (Option Value)
  | number section_ key, v => do return some (← (← v.field section_).field key)
  | coordinate corner axis, v => do
    match ← (← v.field "board").field corner with
    | list [x, y, z] => return some (![x, y, z] axis)
    | got => refuse (.point corner got)
  | depth, v => limit "max_depth" v
  | segments, v => given <$> limit "segments" v

/-- Limits are whole numbers. -/
def wantsWhole : Question → Bool
  | depth | segments => true
  | _ => false

def ask (q : Question) (v : Value) : Extract Unit := do
  match ← q.leaf v with
  | none => .ok ()
  | some x => if q.wantsWhole then discard x.toWhole else discard x.toNumber

section

variable {v x : Value} {q : Question} {e : ConfigFailure Float}

theorem ask_of_error (h : q.leaf v = .error e) : q.ask v = .error e := by
  rw [ask, h]
  rfl

theorem ask_of_none (h : q.leaf v = .ok none) : q.ask v = .ok () := by
  rw [ask, h]
  rfl

theorem failure?_discard {β : Type} (x : Extract β) : failure? (discard x) = failure? x := by
  cases x <;> rfl

theorem failure?_ask (h : q.leaf v = .ok (some x)) :
    failure? (q.ask v) = if q.wantsWhole then failure? x.toWhole else failure? x.toNumber := by
  have ask : q.ask v = if q.wantsWhole then discard x.toWhole else discard x.toNumber := by
    rw [Question.ask, h]
    rfl
  rw [ask]
  split <;> exact failure?_discard _

end

/-! ## Reading by questions -/

/-- A computation that fails as the first of some questions does that is not answered. -/
def Asks {β : Type} (v : Value) (qs : List Question) (x : Extract β) : Prop :=
  failure? x = qs.findSome? fun q => failure? (q.ask v)

section

variable {β γ : Type} {v w : Value} {q : Question} {qs rs : List Question}

theorem Asks.pure (b : β) : Asks v [] (.ok b) := rfl

theorem Asks.error {e : ConfigFailure Float} (h : q.leaf v = .error e) :
    Asks (β := β) v (q :: qs) (.error e) := by
  rw [Asks, List.findSome?_cons, ask_of_error h]
  rfl

theorem Asks.bind {x : Extract β} {f : β → Extract γ} (first : Asks v qs x)
    (rest : ∀ b, x = .ok b → Asks v rs (f b)) : Asks v (qs ++ rs) (x >>= f) := by
  rw [Asks, List.findSome?_append, ← first]
  cases x with
  | error e => rfl
  | ok b => exact rest b rfl

/-- What opens a section fails where the next question does. -/
theorem Asks.opening {x : Extract β} {f : β → Extract γ}
    (fails : ∀ e, x = .error e → q.leaf v = .error e)
    (rest : ∀ b, x = .ok b → Asks v (q :: qs) (f b)) : Asks v (q :: qs) (x >>= f) := by
  cases h : x with
  | error e => exact .error (fails e h)
  | ok b => exact rest b h

theorem leaf_number {section_ key : String} (h : v.field section_ = .ok w) :
    (number section_ key).leaf v = some <$> w.field key := by
  simp only [leaf, h]
  rfl

theorem asks_number {section_ key : String} (h : v.field section_ = .ok w) :
    Asks v [.number section_ key] (w.number key) := by
  cases hf : w.field key with
  | error e =>
    have unread : w.number key = .error e := by
      rw [Value.number, hf]
      rfl
    exact unread ▸ .error (by rw [leaf_number h, hf]; rfl)
  | ok x =>
    have read : w.number key = x.toNumber := by
      rw [Value.number, hf]
      rfl
    have found : (number section_ key).leaf v = .ok (some x) := by
      rw [leaf_number h, hf]
      rfl
    rw [Asks, List.findSome?_singleton, failure?_ask found, read]
    rfl

theorem leaf_coordinate {name : String} (h : v.field "board" = .ok w) (axis : Fin 3) :
    (coordinate name axis).leaf v = w.field name >>= fun
      | list [x, y, z] => .ok (some (![x, y, z] axis))
      | got => refuse (.point name got) := by
  simp only [leaf, h]
  rfl

theorem asks_coordinate {name : String} {x y z : Value} (h : v.field "board" = .ok w)
    (hf : w.field name = .ok (list [x, y, z])) (axis : Fin 3) :
    Asks v [.coordinate name axis] (![x, y, z] axis).toNumber := by
  have found : (coordinate name axis).leaf v = .ok (some (![x, y, z] axis)) := by
    rw [leaf_coordinate h, hf]
    rfl
  rw [Asks, List.findSome?_singleton, failure?_ask found]
  rfl

theorem asks_place {name : String} (h : v.field "board" = .ok w) :
    Asks v (corner name) (w.place name) := by
  refine .opening (fun e hf => by rw [leaf_coordinate h, hf]; rfl) fun got hf => ?_
  split
  next x y z =>
    exact .bind (asks_coordinate h hf 0) fun _ _ =>
      .bind (asks_coordinate h hf 1) fun _ _ => .bind (asks_coordinate h hf 2) fun _ _ => .pure _
  next shape =>
    refine .error ?_
    rw [leaf_coordinate h, hf]
    cases got with
    | list xs =>
      match xs with
      | [] | [_] | [_, _] | _ :: _ :: _ :: _ :: _ => rfl
      | [x, y, z] => exact absurd rfl (shape x y z)
    | _ => rfl

theorem asks_whole {q : Question} {x : Value} (found : q.leaf v = .ok (some x))
    (whole : q.wantsWhole) : Asks v [q] x.toWhole := by
  rw [Asks, List.findSome?_singleton, failure?_ask found, if_pos whole]

theorem asks_default {q : Question} (found : q.leaf v = .ok none) (b : β) :
    Asks v [q] (.ok b) := by
  rw [Asks, List.findSome?_singleton, ask_of_none found]
  rfl

theorem limit_of_map {fields : List (String × Value)} (present : ¬ (!(limits v).isPresent) = true)
    (h : limits v = map fields) (key : String) : limit key v = .ok (fields.lookup key) := by
  rw [limit, if_neg present, h]

theorem limit_of_absent (absent : (!(limits v).isPresent) = true) (key : String) :
    limit key v = .ok none := if_pos absent

theorem leaf_segments {x : Option Value} (h : limit "segments" v = .ok x) :
    segments.leaf v = .ok (given x) := by
  rw [leaf, h]
  rfl

/-- The segments are asked for whatever the depth is. -/
theorem asks_segments {x : Option Value} (h : limit "segments" v = .ok x) (depth : Int) :
    Asks v [.segments] (match x with
      | none | some null => (.ok (depth, none) : Extract (Int × Option Int))
      | some n => n.toWhole >>= fun n => .ok (depth, some n)) := by
  have found := leaf_segments h
  clear h
  cases x with
  | none => exact asks_default found _
  | some x =>
    cases x with
    | null => exact asks_default found _
    | _ => exact .bind (asks_whole found rfl) fun _ _ => .pure _

theorem asks_curveLimits : Asks v [.depth, .segments] (curveLimits (limits v)) := by
  unfold curveLimits
  split
  next absent =>
    have none_ := limit_of_absent absent
    exact .bind (asks_default (q := .depth) (none_ "max_depth") ()) fun _ _ =>
      asks_default (leaf_segments (none_ "segments")) _
  next present =>
    split
    next fields h =>
      have some_ := limit_of_map present h
      dsimp only
      split
      next x found =>
        exact .bind (asks_whole (q := .depth) ((some_ "max_depth").trans (congrArg _ found)) rfl)
          fun depth _ => asks_segments (some_ "segments") depth
      next missing =>
        exact .bind (asks_default (q := .depth) ((some_ "max_depth").trans (congrArg _ missing)) 16)
          fun depth _ => asks_segments (some_ "segments") depth
    next shape =>
      refine .error ?_
      rw [leaf, limit, if_neg present]
      split
      · exact absurd ‹_› (shape _)
      · rfl

end

end Question

namespace Config

open Question

theorem describedBy_asks (v : Value) : Asks v Question.all (describedBy v) := by
  unfold describedBy Question.all
  refine .opening (fun e h => by simp only [leaf, h]; rfl) fun robot hr => ?_
  refine .bind (asks_number hr) fun accuracy _ => ?_
  refine .bind (asks_number hr) fun departure _ => ?_
  refine .bind (asks_number hr) fun fillSpacing _ => ?_
  refine .bind (asks_number hr) fun drawFeed _ => ?_
  refine .bind (asks_number hr) fun travelFeed _ => ?_
  refine .opening (fun e h => by simp only [leaf, h]; rfl) fun board hb => ?_
  refine .bind (asks_place hb) fun origin _ => ?_
  refine .bind (asks_place hb) fun endX _ => ?_
  refine .bind (asks_place hb) fun endY _ => ?_
  refine .opening (fun e h => by simp only [leaf, h]; rfl) fun viewport hv => ?_
  refine .bind (asks_number hv) fun width _ => ?_
  refine .bind (asks_number hv) fun height _ => ?_
  exact .bind asks_curveLimits fun _ _ => .pure _

end Config

end BoardPlotter
