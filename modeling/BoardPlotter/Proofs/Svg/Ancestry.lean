import BoardPlotter.Proofs.Svg.Nesting
import BoardPlotter.Proofs.Svg.Site
import BoardPlotter.Scalar.Double

/-!
# The groups an element is drawn in

An element is drawn under the groups in force at its site: those entered at a
lesser depth since which every group and every drawn element was deeper
(`survey_sites`). The nesting of composed maps holds precisely their maps,
though it is unwound only for groups and drawn elements
(`current_after_calls`).
-/

namespace BoardPlotter

namespace Site

/-- The groups in force where an element is drawn. -/
def inForce (p : Site) : List Element :=
  (openFor Element.isPlaced p.depth p.before).filter (Element.isGroup ·.name)

/-- The groups above an element. -/
def groupsAbove (p : Site) : List Element := p.above.filter (Element.isGroup ·.name)

end Site

variable {α : Type} [Scalar α]

/-- The map of an element, unless the numbers of its attribute fail. -/
def Element.ownMap? (e : Element) : Option (Affine α) :=
  (e.transform : Except Fault (Affine α × Option TransformError)).toOption.map Prod.fst

/-- The maps of groups composed behind a first one, in order. -/
def Affine.inGroups (base : Affine α) (groups : List Element) : Affine α :=
  (groups.filterMap Element.ownMap?).foldl comp base

namespace Report

/-- The report of an element in groups: it is drawn under the composition of
their maps and its own. -/
def under (f : Flattening α) (base : Affine α) (groups : List Element) (e : Element) : Report α :=
  match (e.transform : Except Fault (Affine α × Option TransformError)) with
  | .error fault => ⟨e, none, .fault fault⟩
  | .ok (own, ignored) =>
    ⟨e, ignored,
      if Element.isGroup e.name then .group
      else if e.isDrawn then .ofElement f ((base.inGroups groups).comp own) e
      else .unsupported⟩

/-- Reports up to the first fault. -/
def untilFault : List (Report α) → List (Report α)
  | [] => []
  | r :: rs =>
    match r.outcome with
    | .fault _ => [r]
    | _ => r :: untilFault rs

end Report

/-- What a visit does to the nesting. Elements that are not supported do nothing. -/
def Element.call? (v : Element × Nat) : Option (NestingCall α) :=
  v.1.ownMap?.bind fun own =>
    if isGroup v.1.name then some (.enter v.2 own)
    else if v.1.isDrawn then some (.leaf v.2 own)
    else none

theorem Element.depth_of_call? {v : Element × Nat} {c : NestingCall α} (h : call? v = some c) :
    c.depth = v.2 ∧ v.1.isPlaced = true := by
  obtain ⟨own, -, h⟩ := Option.bind_eq_some_iff.mp h
  simp only [isPlaced, Bool.or_eq_true]
  split at h
  · rename_i group
    cases h
    exact ⟨rfl, Or.inl group⟩
  · split at h
    · rename_i drawn
      cases h
      exact ⟨rfl, Or.inr drawn⟩
    · cases h

theorem Element.exists_call? {v : Element × Nat} {own : Affine α} (h : v.1.ownMap? = some own)
    (placed : v.1.isPlaced = true) : ∃ c : NestingCall α, call? v = some c := by
  simp only [isPlaced, Bool.or_eq_true] at placed
  simp only [call?, h, Option.bind_some]
  by_cases group : isGroup v.1.name = true
  · exact ⟨.enter v.2 own, by rw [if_pos group]⟩
  · have drawn := placed.resolve_left group
    exact ⟨.leaf v.2 own, by rw [if_neg group, if_pos drawn]⟩

/-- Calls are deeper than a depth just as the visits that make them are. -/
theorem forall_calls_iff (k : Nat) {visits : List (Element × Nat)}
    (maps : ∀ v ∈ visits, ∃ own : Affine α, v.1.ownMap? = some own) :
    (∀ c ∈ visits.filterMap (Element.call? (α := α)), (k : Int) < c.depth) ↔
      ∀ v ∈ visits, v.1.isPlaced = true → k < v.2 := by
  constructor
  · intro h v hv placed
    obtain ⟨own, map⟩ := maps v hv
    obtain ⟨c, hc⟩ := Element.exists_call? map placed
    have := h c (List.mem_filterMap.mpr ⟨v, hv, hc⟩)
    rw [(Element.depth_of_call? hc).1] at this
    omega
  · intro h c hc
    obtain ⟨v, hv, hc⟩ := List.mem_filterMap.mp hc
    obtain ⟨depth, placed⟩ := Element.depth_of_call? hc
    have := h v hv placed
    omega

open NestingCall in
/-- What is open among the calls are the maps of the groups in force. -/
theorem openAbove_calls (depth : Nat) {before : List (Element × Nat)}
    (maps : ∀ v ∈ before, ∃ own : Affine α, v.1.ownMap? = some own) :
    (openAbove depth (before.filterMap (Element.call? (α := α)))).map Prod.snd =
      ((openFor Element.isPlaced depth before).filter (Element.isGroup ·.name)).filterMap
        Element.ownMap? := by
  induction before with
  | nil => rfl
  | cons v later ih =>
    obtain ⟨e, k⟩ := v
    obtain ⟨own, map⟩ := maps (e, k) List.mem_cons_self
    have maps' : ∀ v ∈ later, ∃ own : Affine α, v.1.ownMap? = some own :=
      fun v hv => maps v (List.mem_cons_of_mem _ hv)
    have ih := ih maps'
    have calls := forall_calls_iff (α := α) k maps'
    rw [List.filterMap_cons, Element.call?, map, Option.bind_some, openFor]
    by_cases group : Element.isGroup e.name = true
    · rw [if_pos group]
      simp only [openAbove_enter, calls, Int.ofNat_lt]
      split <;> simp [group, map, ih]
    · by_cases drawn : e.isDrawn = true
      · rw [if_neg group, if_pos drawn]
        simp only [openAbove_leaf]
        split <;> simp [group, ih]
      · rw [if_neg group, if_neg drawn]
        dsimp only
        split <;> simp [group, ih]

/-- The composition for an element at a depth is that of the groups in force. -/
theorem current_after_calls (base : Affine α) (depth : Nat) {before : List (Element × Nat)}
    (maps : ∀ v ∈ before, ∃ own : Affine α, v.1.ownMap? = some own) :
    ((Nesting.after base (before.filterMap Element.call?)).unwind depth).current =
      base.inGroups
        ((openFor Element.isPlaced depth before).filter (Element.isGroup ·.name)) := by
  rw [Nesting.unwind_after, Nesting.current_holding, openAbove_calls depth maps]
  rfl

theorem Nesting.after_concat (base : Affine α) (before : List (Element × Nat)) (v : Element × Nat) :
    after base ((before ++ [v]).filterMap Element.call?) =
      match (Element.call? v : Option (NestingCall α)) with
      | none => after base (before.filterMap Element.call?)
      | some c => (after base (before.filterMap Element.call?)).apply c := by
  rw [List.filterMap_append, after, List.foldl_append]
  cases h : (Element.call? v : Option (NestingCall α)) <;> simp [h, after]

namespace Report

/-- One visit answers with the report under the groups in force, and makes its
call to the nesting. -/
theorem visit_after (f : Flattening α) (base : Affine α) {before : List (Element × Nat)}
    (maps : ∀ v ∈ before, ∃ own : Affine α, v.1.ownMap? = some own) (e : Element) (depth : Nat) :
    visit f (Nesting.after base (before.filterMap Element.call?)) e depth =
      (Nesting.after base ((before ++ [(e, depth)]).filterMap Element.call?),
        under f base
          ((openFor Element.isPlaced depth before).filter (Element.isGroup ·.name)) e) := by
  have current := current_after_calls base depth maps
  rw [Nesting.after_concat, Element.call?, Element.ownMap?, visit, under]
  cases (e.transform : Except Fault (Affine α × Option TransformError)) with
  | error fault => rfl
  | ok read =>
    obtain ⟨own, ignored⟩ := read
    by_cases group : Element.isGroup e.name = true
    · simp [Except.toOption, group, Nesting.apply]
    · by_cases drawn : e.isDrawn = true
      · simp [Except.toOption, group, drawn, Nesting.apply, Nesting.leaf, current]
      · simp [Except.toOption, group, drawn]

/-- An element whose attribute fails is reported as a fault. -/
theorem ownMap?_of_under {f : Flattening α} {base : Affine α} {groups : List Element} {e : Element}
    (h : ∀ fault, (under f base groups e).outcome ≠ .fault fault) :
    ∃ own : Affine α, e.ownMap? = some own := by
  rw [Element.ownMap?]
  rw [under] at h
  cases read : (e.transform : Except Fault (Affine α × Option TransformError)) with
  | error fault =>
    rw [read] at h
    exact absurd rfl (h fault)
  | ok own => exact ⟨own.1, rfl⟩

/-- A run of visits reports each element under the groups in force at its site,
up to the first fault. -/
theorem survey_sites (f : Flattening α) (base : Affine α) {ps : List Site}
    {before : List (Element × Nat)} (chained : Site.Chained before ps)
    (maps : ∀ v ∈ before, ∃ own : Affine α, v.1.ownMap? = some own) :
    survey f (Nesting.after base (before.filterMap Element.call?)) (ps.map Site.visit) =
      untilFault (ps.map fun p => under f base p.inForce p.element) := by
  induction ps generalizing before with
  | nil => rfl
  | cons p ps ih =>
    obtain ⟨rfl, chained⟩ := chained
    simp only [List.map_cons, Site.visit, survey, untilFault, visit_after f base maps]
    change (match (under f base p.inForce p.element).outcome with
      | .fault _ => _
      | _ => _) = _
    split
    · rfl
    · rename_i unfaulted
      have own := ownMap?_of_under fun fault h => unfaulted fault h
      have maps' : ∀ v ∈ p.before ++ [p.visit], ∃ own : Affine α, v.1.ownMap? = some own := by
        intro v hv
        rcases List.mem_append.mp hv with hv | hv
        · exact maps v hv
        · obtain rfl := List.mem_singleton.mp hv
          exact own
      have rest := ih chained maps'
      simp only [Site.visit] at rest
      rw [rest]
      rfl

end Report

/-- **What the elements of a document are drawn under.** Every visited element
is reported, in order and up to the first fault, under the groups in force at
its site: the map of the viewport, then theirs from the outermost on, then its
own. Those groups are the ones above the element exactly if none is a stray,
and there is no stray where all elements above are groups or drawn. -/
theorem reports_under_groups_in_force (f : Flattening α) (defaultWidth defaultHeight : α)
    (viewport : Viewport α) (doc : Document) :
    (doc.root.sites.map Site.visit = doc.root.visits 0) ∧
    (Drawing.ofDocument f defaultWidth defaultHeight (some viewport) doc =
      if f.tolerance ≤ 0 then .error (.tolerance f.tolerance)
      else .ok ⟨viewport, [], Report.untilFault
        (doc.root.sites.map fun p =>
          Report.under f viewport.transform p.inForce p.element)⟩) ∧
    ∀ p ∈ doc.root.sites,
      (p.inForce = p.groupsAbove ↔ ¬ Stray p.depth p.before) ∧
      ((∀ a ∈ p.above, a.isPlaced = true) → p.inForce = p.groupsAbove) := by
  have visits : doc.root.sites.map Site.visit = doc.root.visits 0 :=
    Element.map_visit_sitesIn [] [] doc.root
  refine ⟨visits, ?_, ?_⟩
  · have run := Report.survey_sites f viewport.transform
      (Element.chained_sitesIn [] [] doc.root) (fun _ hv => by cases hv)
    change Report.survey f (.root viewport.transform) (doc.root.sites.map Site.visit) = _ at run
    rw [Drawing.ofDocument, Drawing.within, ← visits, run]
    rfl
  · intro p hp
    have above := Element.openFor_before hp
    have agree : p.inForce = p.groupsAbove ↔ ¬ Stray p.depth p.before := by
      have lists := filter_openFor_eq_iff p.depth p.before
      rwa [above] at lists
    refine ⟨agree, fun placed => agree.mpr fun stray => ?_⟩
    obtain ⟨a, ha, unplaced⟩ := stray.exists_not_placed
    rw [above] at ha
    rw [placed a ha] at unplaced
    cases unplaced

/-- A line in a group, behind a group that was left. -/
def nestedLines : Document where
  root := .mk "svg" [] [.mk "g" [("transform", "scale(2)")] [],
    .mk "g" [("transform", "translate(50,0)")] [.mk "line" [("x2", "10")] []]]
  source := "nested"

theorem nested_line_in_its_groups :
    let line : Site :=
      { before := [(nestedLines.root, 0), (.mk "g" [("transform", "scale(2)")] [], 1),
          (.mk "g" [("transform", "translate(50,0)")] [.mk "line" [("x2", "10")] []], 1)]
        above := [nestedLines.root,
          .mk "g" [("transform", "translate(50,0)")] [.mk "line" [("x2", "10")] []]]
        element := .mk "line" [("x2", "10")] [] }
    line ∈ nestedLines.root.sites ∧ line.inForce = line.groupsAbove := by
  intro line
  have member : line ∈ nestedLines.root.sites := List.mem_of_getElem? (i := 3) rfl
  have sites := (reports_under_groups_in_force (⟨0.1, none, 16⟩ : Flattening Float) 100 100
    ⟨100, 100, .identity⟩ nestedLines).2.2
  refine ⟨member, (sites line member).2 ?_⟩
  intro a ha
  rcases List.mem_cons.mp ha with rfl | ha
  · decide
  · obtain rfl := List.mem_singleton.mp ha
    decide

/-- A line in an element that is not supported, behind a group that was left. -/
def strayLine : Document where
  root := .mk "svg" [] [.mk "g" [("transform", "translate(50,0)")] [],
    .mk "foo" [] [.mk "line" [("x1", "0"), ("y1", "0"), ("x2", "10"), ("y2", "10")] []]]
  source := "stray"

/-- The maps of the groups above an element do not say where it is drawn: here
they are identities, and the group that was left still moves the line. -/
theorem stray_group_moves_line :
    strayLine.root.sites.map (fun p =>
        (p.element.name, (Affine.identity : Affine Float).inGroups p.groupsAbove)) =
      [("svg", .identity), ("g", .identity), ("foo", .identity), ("line", .identity)] ∧
    ((Drawing.within (⟨0.1, none, 16⟩ : Flattening Float) ⟨100, 100, .identity⟩
        strayLine).flatMap (·.outcome.polylines)) = [⟨⟨50, 0⟩, [⟨60, 10⟩], false⟩] := by
  decide +kernel

end BoardPlotter
