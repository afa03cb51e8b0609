import BoardPlotter.Proofs.Scalar.Magnitude
import BoardPlotter.Proofs.Svg.Transforms

/-!
# Malformed transforms

A malformed transform counts as the identity and is told of once; a transform list has the
composition of its functions. Neither holds where a function before the first malformed one
turns or skews by an infinite angle: then both readings fail (`TransformList.permissive_reading`).
Of doubles these are the angles that read as infinite themselves.
-/

namespace BoardPlotter

open Text Scalar

/-! ## Infinite angles -/

namespace Double

open Float.Model Float.Model.UnpackedFloat

variable {x : Float}

theorem isInfinite_iff : isInfinite x = true ↔ ∃ s, parts x = .infinity s := by
  have parted : isInfinite x =
      ((parts x).compare (parts x) == some .eq && !(parts x).isFinite) := rfl
  rw [parted]
  cases parts x with
  | notANumber => exact iff_of_false (by decide) (fun ⟨s, h⟩ => by cases h)
  | infinity s => exact iff_of_true (by cases s <;> rfl) ⟨s, rfl⟩
  | zero s | finite s =>
    refine iff_of_false (fun h => ?_) (fun ⟨s, h⟩ => by cases h)
    exact Bool.false_ne_true (Bool.and_eq_true _ _ ▸ h).2

/-- One degree, in radians. -/
theorem parts_degree : parts (Scalar.pi / 180) =
    .finite .positive 5030569068109113 (-58) (by decide) := rfl

/-- An angle is as infinite in radians as it is in degrees. -/
theorem isInfinite_radians : isInfinite (radians x) = true ↔ isInfinite x = true := by
  rw [isInfinite_iff, isInfinite_iff]
  have product : parts (radians x) = (pack (UnpackedFloat.mul Format.binary64 (parts x)
      (parts (Scalar.pi / 180)))).unpack := rfl
  rw [parts_degree] at product
  cases hx : parts x with
  | notANumber =>
    rw [hx] at product
    rw [product]
    exact iff_of_false (fun ⟨s, h⟩ => by cases h) (fun ⟨s, h⟩ => by cases h)
  | zero s =>
    rw [hx] at product
    rw [product]
    refine iff_of_false (fun ⟨t, h⟩ => ?_) (fun ⟨s, h⟩ => by cases h)
    cases s <;> cases h
  | infinity s =>
    refine iff_of_true ⟨s, ?_⟩ ⟨s, rfl⟩
    rw [product, hx]
    cases s <;> rfl
  | finite s m e pos =>
    refine iff_of_false (fun ⟨t, h⟩ => ?_) (fun ⟨s, h⟩ => by cases h)
    obtain ⟨o, -, high, rounds⟩ := rounds_mul hx parts_degree
    obtain ⟨-, -, within⟩ := parts_canonical hx
    have degree : order 5030569068109113 (-58) = -6 := by decide
    have finite := rounds.isFinite (by omega)
    have same : parts (radians x) = parts (x * (Scalar.pi / 180)) := rfl
    rw [← same, h] at finite
    cases finite

end Double

variable {α : Type} [Scalar α]

theorem TransformFunction.fault?_eq_some_iff {g : TransformFunction} {x : Fault} :
    g.fault? α = some x ↔ x = .domain ∧
      ∃ angle, g.angle? = some angle ∧ isInfinite (radians (angle.value : α)) = true := by
  rw [fault?, Option.bind_eq_some_iff]
  constructor
  · rintro ⟨angle, angled, failed⟩
    by_cases infinite : isInfinite (radians (angle.value : α)) = true
    · rw [if_pos infinite, Option.some.injEq] at failed
      exact ⟨failed.symm, angle, angled, infinite⟩
    · rw [if_neg infinite] at failed
      cases failed
  · rintro ⟨rfl, angle, angled, infinite⟩
    exact ⟨angle, angled, if_pos infinite⟩

namespace TransformList

variable (α) in
/-- A function before the first malformed one turns or skews by an infinite angle. -/
def Endless (value : String) : Prop :=
  ∃ g ∈ (ofString value).1, ∃ angle, g.angle? = some angle ∧
    isInfinite (radians (angle.value : α)) = true

theorem endless_double_iff {value : String} :
    Endless Float value ↔ ∃ g ∈ (ofString value).1, ∃ angle, g.angle? = some angle ∧
      isInfinite (angle.value : Float) = true := by
  simp only [Endless, Double.isInfinite_radians]

/-! ## The two readings -/

theorem read_eq_error_iff_endless {value : String} {x : Fault} :
    (read value : Except Fault (Affine α × Option TransformError)) = .error x ↔
      x = .domain ∧ Endless α value := by
  rw [read_eq_error_iff]
  constructor
  · intro first
    obtain ⟨g, before, failed⟩ := List.exists_of_findSome?_eq_some first
    obtain ⟨rfl, infinite⟩ := TransformFunction.fault?_eq_some_iff.mp failed
    exact ⟨rfl, g, before, infinite⟩
  · rintro ⟨rfl, g, before, infinite⟩
    cases first : (ofString value).1.findSome? (·.fault? α) with
    | none =>
      have clear := List.findSome?_eq_none_iff.mp first g before
      rw [TransformFunction.fault?_eq_some_iff.mpr ⟨rfl, infinite⟩] at clear
      cases clear
    | some x =>
      obtain ⟨g, -, failed⟩ := List.exists_of_findSome?_eq_some first
      rw [(TransformFunction.fault?_eq_some_iff.mp failed).1]

theorem strict_eq_fault_iff {value : String} {x : Fault} :
    (strict value : Except TransformFailure (Affine α)) = .error (.fault x) ↔
      x = .domain ∧ Endless α value := by
  rw [← read_eq_error_iff_endless, strict]
  cases (read value : Except Fault (Affine α × Option TransformError)) with
  | error y => simp
  | ok result =>
    obtain ⟨t, e⟩ := result
    cases e <;> exact iff_of_false nofun nofun

theorem permissive_eq_error_iff {value : String} {x : Fault} :
    (permissive value : Except Fault (Affine α × List Notice)) = .error x ↔
      x = .domain ∧ Endless α value := by
  rw [← strict_eq_fault_iff, permissive]
  cases (strict value : Except TransformFailure (Affine α)) with
  | ok t => exact iff_of_false nofun nofun
  | error failure =>
    cases failure with
    | malformed e => exact iff_of_false nofun nofun
    | fault y => simp

/-- Without an infinite angle the error of a value decides how it is read. -/
theorem readings_of_compose {value : String} {fs : List TransformFunction}
    {e : Option TransformError} {t : Affine α} (h : ofString value = (fs, e))
    (composed : compose fs = .ok t) :
    match e with
    | none => strict value = .ok t ∧ permissive value = .ok (t, [])
    | some e => (strict value : Except TransformFailure (Affine α)) = .error (.malformed e) ∧
        permissive value = .ok ((.identity : Affine α), [e.notice value]) := by
  have result := read_of_compose h composed
  cases e with
  | none =>
    have read_ : strict value = .ok t := by
      rw [strict, result]
      rfl
    exact ⟨read_, by rw [permissive, read_]⟩
  | some e =>
    have read_ : (strict value : Except TransformFailure (Affine α)) = .error (.malformed e) := by
      rw [strict, result]
    exact ⟨read_, by rw [permissive, read_]⟩

/-- **Malformed values.** Neither reading of a value fails but by an infinite angle before
the first malformed function, and then both do. Otherwise a transform list has the composition
of its functions, and nothing is said; any other value is refused by the strict reading, while
the permissive one takes it for the identity, with one warning that tells of the error. -/
theorem permissive_reading (value : String) :
    (∀ x, (strict value : Except TransformFailure (Affine α)) = .error (.fault x) ↔
      x = .domain ∧ Endless α value) ∧
    (∀ x, (permissive value : Except Fault (Affine α × List Notice)) = .error x ↔
      x = .domain ∧ Endless α value) ∧
    (¬ Endless α value →
      (∀ fs, Listed (trim value.toList) fs → ∃ t : Affine α,
        compose fs = .ok t ∧ strict value = .ok t ∧ permissive value = .ok (t, [])) ∧
      ((¬ ∃ fs, Listed (trim value.toList) fs) → ∃ e : TransformError,
        (ofString value).2 = some e ∧
        (strict value : Except TransformFailure (Affine α)) = .error (.malformed e) ∧
        permissive value = .ok ((.identity : Affine α), [.warning
          s!"Ignoring malformed transform {quoted value}: {e.message}"]))) ∧
    (Endless Float value ↔ ∃ g ∈ (ofString value).1, ∃ angle, g.angle? = some angle ∧
      isInfinite (angle.value : Float) = true) := by
  refine ⟨fun x => strict_eq_fault_iff, fun x => permissive_eq_error_iff, ?_, endless_double_iff⟩
  intro finite
  have clear (g) (before : g ∈ (ofString value).1) : g.fault? α = none := by
    refine Option.eq_none_iff_forall_ne_some.mpr fun x failed => finite ?_
    exact ⟨g, before, (TransformFunction.fault?_eq_some_iff.mp failed).2⟩
  obtain ⟨t, composed⟩ := exists_compose clear
  rcases whole : ofString value with ⟨gs, e⟩
  rw [whole] at composed
  have readings := readings_of_compose whole composed
  cases e with
  | none =>
    have list := ofString_eq_iff.mp whole
    refine ⟨fun fs listed => ?_, fun unlisted => (unlisted ⟨gs, list⟩).elim⟩
    rw [listed.unique list]
    exact ⟨t, composed, readings⟩
  | some e =>
    refine ⟨fun fs listed => ?_, fun _ => ⟨e, rfl, readings⟩⟩
    cases whole.symm.trans (ofString_eq_iff.mpr listed)

/-- Text behind a turn is told of, and the turn is not made. -/
theorem permissive_behind_turn :
    ¬ Endless Float "rotate(1e9) x" ∧
      (¬ ∃ fs, Listed (trim "rotate(1e9) x".toList) fs) ∧
      ∃ e : TransformError, (ofString "rotate(1e9) x").2 = some e ∧
        (strict "rotate(1e9) x" : Except TransformFailure (Affine Float)) =
          .error (.malformed e) ∧
        permissive "rotate(1e9) x" = .ok ((.identity : Affine Float),
          [e.notice "rotate(1e9) x"]) := by
  have read_ : ofString "rotate(1e9) x" = ([.rotate ⟨false, 1, 9⟩ none], some (.function "x")) := by
    decide +kernel
  have finite : ¬ Endless Float "rotate(1e9) x" := by
    rw [endless_double_iff, read_]
    rintro ⟨g, _ | ⟨_, ⟨⟩⟩, angle, ⟨⟩, infinite⟩
    exact absurd infinite (by decide +kernel)
  have unlisted : ¬ ∃ fs, Listed (trim "rotate(1e9) x".toList) fs := by
    rintro ⟨fs, listed⟩
    cases read_.symm.trans (ofString_eq_iff.mpr listed)
  obtain ⟨-, -, readings, -⟩ := permissive_reading (α := Float) "rotate(1e9) x"
  exact ⟨finite, unlisted, (readings finite).2 unlisted⟩

/-- Behind an endless turn the text is not told of: neither reading returns. -/
theorem endless_turn_fails_readings :
    (strict "rotate(1e9) x" : Except TransformFailure (Affine Float)) =
      .error (.malformed (.function "x")) ∧
    (strict "rotate(1e999) x" : Except TransformFailure (Affine Float)) =
      .error (.fault .domain) ∧
    (permissive "rotate(1e999) x" : Except Fault (Affine Float × List Notice)) =
      .error .domain := by
  decide +kernel

end TransformList

end BoardPlotter
