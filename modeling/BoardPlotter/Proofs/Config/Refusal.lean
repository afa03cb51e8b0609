import BoardPlotter.Proofs.Config.Questions
import BoardPlotter.Proofs.Geometry.Length

/-!
# Refusing a configuration

A value that is no configuration is refused, with few exceptions. `Config.ofValue_escape_iff`
tells precisely which: a question for a number that finds a whole number out of the reach of
doubles, one for a whole number that finds an infinite one, and one for a limit of curves where
the limits are no map. Checking what was read refuses or passes.
-/

namespace BoardPlotter

open Value

/-- A failure that is not reported as a configuration that is refused. -/
def ConfigFailure.Escapes (f : ConfigFailure Float) : Prop := ∀ e, f ≠ .refused e

theorem ConfigFailure.not_escapes_refused (e : ConfigError Float) : ¬ (refused e).Escapes :=
  fun h => h e rfl

/-- What fails by refusing alone. -/
def Refuses {β : Type} (x : Extract β) : Prop := ∀ f, x = .error f → ¬ f.Escapes

namespace Refuses

variable {β γ : Type}

theorem ok (b : β) : Refuses (.ok b) := nofun

theorem refuse (e : ConfigError Float) : Refuses (β := β) (.error (.refused e)) := by
  rintro f ⟨⟩
  exact ConfigFailure.not_escapes_refused e

theorem mapError (x : Except (ConfigError Float) β) : Refuses (x.mapError .refused) := by
  cases x with
  | ok b => exact ok b
  | error e => exact refuse e

theorem bind {x : Extract β} {f : β → Extract γ} (first : Refuses x) (rest : ∀ b, Refuses (f b)) :
    Refuses (x >>= f) := by
  cases x with
  | ok b => exact rest b
  | error e =>
    rintro f ⟨⟩
    exact first e rfl

end Refuses

/-- The sine of the angle between the edges. -/
def Corners.sine (c : Corners Float) : Float :=
  (c.edgeX.cross c.edgeY).length / (c.edgeX.length * c.edgeY.length)

/-- Nothing is divided by zero: edges that have a length do not have lengths of product zero. -/
theorem Corners.check_eq (c : Corners Float) : c.check =
    if (c.edgeX.length == 0 || c.edgeY.length == 0) = true then .error (.refused .coincident)
    else if c.sine < leastSine then .error (.refused .parallel)
    else .ok () := by
  unfold check
  dsimp only
  split
  · rfl
  next some_ =>
    obtain ⟨x, y⟩ := not_or.mp (mt (Bool.or_eq_true _ _).mpr some_)
    rw [Scalar.div?, if_neg (Vec3.length_mul_length_ne_zero x y)]
    rfl

theorem Corners.check_refuses (c : Corners Float) : Refuses c.check := by
  rw [check_eq]
  split
  · exact .refuse _
  · split
    · exact .refuse _
    · exact .ok _

theorem Config.check_refuses (c : Config Float) : Refuses c.check :=
  .bind (.mapError _) fun _ => .bind (.mapError _) fun _ => c.corners.check_refuses

theorem Double.ofInt?_cases (n : Int) : ofInt? n = .error .overflow ∨ ∃ x, ofInt? n = .ok x := by
  by_cases far : (ofDecimal n.natAbs 0).isInf
  · exact .inl (if_pos far)
  · exact .inr ⟨_, if_neg far⟩

theorem Value.toNumber_escape_iff (x : Value) (f : ConfigFailure Float) :
    x.toNumber = .error f ∧ f.Escapes ↔
      f = .fault .overflow ∧ ∃ n, x = .int n ∧ Double.ofInt? n = .error .overflow := by
  constructor
  · rintro ⟨h, escapes⟩
    have not_refused (refuses : Refuses x.toNumber) : False := refuses f h escapes
    cases x with
    | int n =>
      obtain far | ⟨d, near⟩ := Double.ofInt?_cases n
      · rw [toNumber, far] at h
        cases h
        exact ⟨rfl, n, rfl, far⟩
      · rw [toNumber, near] at h
        cases h
    | text s =>
      refine (not_refused ?_).elim
      unfold toNumber
      dsimp only
      split
      · exact .ok _
      · exact .refuse _
    | bool | float => cases h
    | null | list | map => exact (not_refused (.refuse _)).elim
  · rintro ⟨rfl, n, rfl, far⟩
    rw [toNumber, far]
    exact ⟨rfl, nofun⟩

theorem Value.toWhole_escape_iff (x : Value) (f : ConfigFailure Float) :
    x.toWhole = .error f ∧ f.Escapes ↔
      f = .fault .overflow ∧ ∃ d, x = .float d ∧ d.isInf := by
  constructor
  · rintro ⟨h, escapes⟩
    have not_refused (refuses : Refuses x.toWhole) : False := refuses f h escapes
    cases x with
    | float d =>
      by_cases undefined : d.isNaN
      · refine (not_refused ?_).elim
        rw [toWhole, if_pos undefined]
        exact .refuse _
      · by_cases endless : d.isInf
        · rw [toWhole, if_neg undefined, if_pos endless] at h
          cases h
          exact ⟨rfl, d, rfl, endless⟩
        · rw [toWhole, if_neg undefined, if_neg endless] at h
          cases h
    | text s =>
      refine (not_refused ?_).elim
      unfold toWhole
      dsimp only
      split
      · split
        · exact .ok _
        · exact .refuse _
      · exact .refuse _
    | bool | int => cases h
    | null | list | map => exact (not_refused (.refuse _)).elim
  · rintro ⟨rfl, d, rfl, endless⟩
    rw [toWhole, if_neg (Double.not_isNaN_of_isInf endless), if_pos endless]
    exact ⟨rfl, nofun⟩

namespace Question

/-- A question that fails and does not refuse. -/
inductive Unguarded (v : Value) : Question → ConfigFailure Float → Prop
  | number {q : Question} {n : Int} (plain : q.wantsWhole = false)
      (found : q.leaf v = .ok (some (.int n))) (far : Double.ofInt? n = .error .overflow) :
      Unguarded v q (.fault .overflow)
  | whole {q : Question} {d : Float} (whole : q.wantsWhole = true)
      (found : q.leaf v = .ok (some (.float d))) (endless : d.isInf) :
      Unguarded v q (.fault .overflow)
  | limits {q : Question} (whole : q.wantsWhole = true) (present : (limits v).isPresent)
      (shape : ∀ fields, limits v ≠ .map fields) : Unguarded v q .unmapped

theorem limit_escape_iff (key : String) (v : Value) (f : ConfigFailure Float) :
    limit key v = .error f ∧ f.Escapes ↔
      f = .unmapped ∧ (limits v).isPresent ∧ ∀ fields, limits v ≠ .map fields := by
  unfold limit
  split
  next absent => exact ⟨nofun, fun h => by simp [h.2.1] at absent⟩
  next present =>
    have present : (limits v).isPresent := by simpa using present
    split
    next fields h => exact ⟨nofun, fun h' => (h'.2.2 fields h).elim⟩
    next shape =>
      constructor
      · rintro ⟨⟨⟩, -⟩
        exact ⟨rfl, present, shape⟩
      · rintro ⟨rfl, -, -⟩
        exact ⟨rfl, nofun⟩

theorem field_refuses (v : Value) (key : String) : Refuses (v.field key) := by
  cases v with
  | map fields =>
    rw [field]
    split
    · exact .ok _
    · exact .refuse _
  | _ => exact .refuse _

theorem leaf_refuses {q : Question} (plain : q.wantsWhole = false) (v : Value) :
    Refuses (q.leaf v) := by
  cases q with
  | number section_ key =>
    exact .bind (field_refuses _ _) fun _ => .bind (field_refuses _ _) fun _ => .ok _
  | coordinate corner axis =>
    refine .bind (field_refuses _ _) fun _ => .bind (field_refuses _ _) fun got => ?_
    split
    · exact .ok _
    · exact .refuse _
  | depth | segments => cases plain

theorem leaf_escape_iff (v : Value) (q : Question) (f : ConfigFailure Float) :
    q.leaf v = .error f ∧ f.Escapes ↔ q.wantsWhole = true ∧
      f = .unmapped ∧ (limits v).isPresent ∧ ∀ fields, limits v ≠ .map fields := by
  cases q with
  | number | coordinate =>
    exact ⟨fun h => absurd h.2 (leaf_refuses rfl v f h.1), nofun⟩
  | depth => simp only [leaf, limit_escape_iff, wantsWhole, true_and]
  | segments =>
    have leaf : segments.leaf v = .error f ↔ limit "segments" v = .error f := by
      rw [Question.leaf]
      cases limit "segments" v <;> simp
    rw [leaf, limit_escape_iff]
    simp only [wantsWhole, true_and]

theorem unguarded_iff (v : Value) (q : Question) (f : ConfigFailure Float) :
    failure? (q.ask v) = some f ∧ f.Escapes ↔ Unguarded v q f := by
  constructor
  · rintro ⟨h, escapes⟩
    match found : q.leaf v with
    | .error e =>
      rw [ask_of_error found] at h
      cases h
      obtain ⟨whole, rfl, present, shape⟩ := (leaf_escape_iff v q f).mp ⟨found, escapes⟩
      exact .limits whole present shape
    | .ok none =>
      rw [ask_of_none found] at h
      cases h
    | .ok (some x) =>
      rw [failure?_ask found] at h
      split at h <;> rw [failure?_eq_some] at h
      next whole =>
        obtain ⟨rfl, d, rfl, endless⟩ := (x.toWhole_escape_iff f).mp ⟨h, escapes⟩
        exact .whole whole found endless
      next plain =>
        obtain ⟨rfl, n, rfl, far⟩ := (x.toNumber_escape_iff f).mp ⟨h, escapes⟩
        exact .number (Bool.eq_false_of_not_eq_true plain) found far
  · rintro h
    cases h with
    | number plain found far =>
      rw [failure?_ask found, plain, if_neg Bool.false_ne_true, failure?_eq_some]
      exact (toNumber_escape_iff _ _).mpr ⟨rfl, _, rfl, far⟩
    | whole whole found endless =>
      rw [failure?_ask found, if_pos whole, failure?_eq_some]
      exact (toWhole_escape_iff _ _).mpr ⟨rfl, _, rfl, endless⟩
    | limits whole present shape =>
      obtain ⟨found, escapes⟩ := (leaf_escape_iff v q _).mpr ⟨whole, rfl, present, shape⟩
      exact ⟨failure?_eq_some.mpr (ask_of_error found), escapes⟩

end Question

namespace Config

open Question

theorem ofValue_eq (path : String) {v : Value} (some_ : v ≠ .null) :
    ofValue path v = describedBy v >>= fun c => c.check >>= fun _ => .ok c := by
  cases v with
  | null => exact absurd rfl some_
  | _ => rfl

/-- Nothing but reading escapes: what is read is checked, and checks refuse. -/
theorem ofValue_escapes (path : String) (v : Value) (f : ConfigFailure Float) :
    ofValue path v = .error f ∧ f.Escapes ↔ describedBy v = .error f ∧ f.Escapes := by
  by_cases null : v = .null
  · have empty : Refuses (ofValue path .null) := .refuse _
    have unread : Refuses (describedBy .null) := .refuse _
    rw [null]
    exact ⟨fun h => absurd h.2 (empty f h.1), fun h => absurd h.2 (unread f h.1)⟩
  · rw [ofValue_eq path null]
    cases describedBy v with
    | error e => rfl
    | ok c =>
      have refuses : Refuses (c.check >>= fun _ => (.ok c : Extract (Config Float))) :=
        .bind c.check_refuses fun _ => .ok c
      exact ⟨fun ⟨h, escapes⟩ => absurd escapes (refuses f h), nofun⟩

/-- **What is not refused.** Loading a value ends in another failure than a refusal precisely if
a question does that is not guarded, all questions before it being answered. -/
theorem ofValue_escape_iff (path : String) (v : Value) (f : ConfigFailure Float) :
    ofValue path v = .error f ∧ f.Escapes ↔
      ∃ before q after, Question.all = before ++ q :: after ∧
        (∀ b ∈ before, b.ask v = .ok ()) ∧ Unguarded v q f := by
  rw [ofValue_escapes, ← failure?_eq_some, describedBy_asks v, List.findSome?_eq_some_iff]
  constructor
  · rintro ⟨⟨before, q, after, split, fails, answered⟩, escapes⟩
    exact ⟨before, q, after, split, fun b mem => failure?_eq_none.mp (answered b mem),
      (unguarded_iff v q f).mp ⟨fails, escapes⟩⟩
  · rintro ⟨before, q, after, split, answered, unguarded⟩
    obtain ⟨fails, escapes⟩ := (unguarded_iff v q f).mpr unguarded
    exact ⟨⟨before, q, after, split, fails, fun b mem => failure?_eq_none.mpr (answered b mem)⟩,
      escapes⟩

/-- A sheet with corners at given places, and sections besides the ones it needs. -/
def sheet (endX endY : List Value) (more : Fields) : Value :=
  .map ([
    ("robot", .map [("accuracy_mm", .int 1), ("departure_mm", .int 5),
      ("pouring_step_mm", .int 1), ("draw_feed_mm_s", .int 40), ("travel_feed_mm_s", .int 120)]),
    ("board", .map [("origin", .list [.int 0, .int 0, .int 0]),
      ("corner_x", .list endX), ("corner_y", .list endY)]),
    ("viewport", .map [("default_width", .int 297), ("default_height", .int 210)])] ++ more)

/-- Limits that are a list are not refused. -/
theorem listed_limits_escape : ∃ f,
    ofValue "converter.yaml" (sheet [.int 297, .int 0, .int 0] [.int 0, .int 210, .int 0]
      [("flatten", .list [.int 1])]) = .error f ∧ f.Escapes :=
  ⟨.unmapped, rfl, nofun⟩

end Config

end BoardPlotter
