import BoardPlotter.Proofs.Svg.Fault

/-!
# One element at a time

What becomes of an element does not depend on the attributes of the paths and shapes
around it: they enter no group, and nothing of them is kept. So a document with other
attributes for one of them (`Element.Edited`) is drawn as before but for that element,
if neither drawing meets a fault (`Report.outcomes_edited`). A fault ends the drawing,
and then what is behind it is lost (`Drawing.endless_turn_ends_drawing`).
-/

namespace BoardPlotter

open Scalar

namespace Element

/-- One path or shape element of a tree has other attributes. -/
inductive Edited : Element → Element → Prop
  | here {name : String} {a b : Attributes} {children : List Element}
      (drawn : (Element.mk name a children).isDrawn = true) :
      Edited (.mk name a children) (.mk name b children)
  | inside {name : String} {attributes : Attributes} {before after : List Element}
      {e e' : Element} (h : Edited e e') :
      Edited (.mk name attributes (before ++ e :: after))
        (.mk name attributes (before ++ e' :: after))

/-- A visit of an element without what is in it. -/
def bare (v : Element × Nat) : Element × Nat := (.mk v.1.name v.1.attributes [], v.2)

theorem visitsOf_append (depth : Nat) (es es' : List Element) :
    visitsOf depth (es ++ es') = visitsOf depth es ++ visitsOf depth es' := by
  induction es with
  | nil => rfl
  | cons e es ih => rw [List.cons_append, visitsOf, visitsOf, ih, List.append_assoc]

/-- An edited tree is visited as before, but for the attributes of one element. That
element may be hidden. -/
theorem visits_of_edited {e e' : Element} (h : e.Edited e') (depth : Nat) :
    (e.visits depth).map bare = (e'.visits depth).map bare ∨
    ∃ before after name a b k,
      (e.visits depth).map bare = before ++ (.mk name a [], k) :: after ∧
      (e'.visits depth).map bare = before ++ (.mk name b [], k) :: after ∧
      (Element.mk name a []).isDrawn = true := by
  induction h generalizing depth with
  | @here name a b children drawn =>
    rw [visits, visits]
    split
    · exact Or.inl rfl
    · exact Or.inr
        ⟨[], (visitsOf (depth + 1) children).map bare, name, a, b, depth, rfl, rfl, drawn⟩
  | @inside name attributes before after e e' h ih =>
    rw [visits, visits]
    split
    · exact Or.inl rfl
    · simp only [visitsOf_append, visitsOf, List.map_cons, List.map_append]
      rcases ih (depth + 1) with same | ⟨pre, post, name', a, b, k, eq, eq', drawn⟩
      · rw [same]
        exact Or.inl rfl
      · right
        refine ⟨(.mk name attributes [], depth) :: ((visitsOf (depth + 1) before).map bare ++ pre),
          post ++ (visitsOf (depth + 1) after).map bare, name', a, b, k, ?_, ?_, drawn⟩
        · simp [eq, bare, Element.name, Element.attributes]
        · simp [eq', bare, Element.name, Element.attributes]

end Element

variable {α : Type} [Scalar α]

namespace Report

/-- What becomes of visited elements. -/
def outcomes (f : Flattening α) (n : Nesting α) (visits : List (Element × Nat)) :
    List (Outcome α) :=
  (survey f n visits).map (·.outcome)

/-- What is in an element has no part in what becomes of it. -/
theorem visit_bare (f : Flattening α) (n : Nesting α) (v : Element × Nat) :
    (visit f n (Element.bare v).1 v.2).1 = (visit f n v.1 v.2).1 ∧
    (visit f n (Element.bare v).1 v.2).2.outcome = (visit f n v.1 v.2).2.outcome := by
  obtain ⟨⟨name, attributes, children⟩, k⟩ := v
  have own : ((Element.mk name attributes []).transform :
      Except Fault (Affine α × Option TransformError)) =
      (Element.mk name attributes children).transform := rfl
  rw [Element.bare, visit, visit, Element.name, Element.attributes, own]
  cases ((Element.mk name attributes children).transform :
      Except Fault (Affine α × Option TransformError)) with
  | error x => exact ⟨rfl, rfl⟩
  | ok read =>
    obtain ⟨own, ignored⟩ := read
    by_cases group : Element.isGroup name = true
    · simp only [Element.name, group, if_true, and_self]
    · by_cases drawn : (Element.mk name attributes []).isDrawn = true
      · have drawn' : (Element.mk name attributes children).isDrawn = true := drawn
        simp only [Element.name, group, drawn, drawn', Bool.false_eq_true, if_false, if_true,
          true_and]
        rfl
      · have drawn' : ¬ (Element.mk name attributes children).isDrawn = true := drawn
        simp only [Element.name, group, drawn, drawn', Bool.false_eq_true, if_false, and_self]

theorem outcomes_cons (f : Flattening α) (n : Nesting α) (v : Element × Nat)
    (rest : List (Element × Nat)) :
    outcomes f n (v :: rest) =
      (visit f n v.1 v.2).2.outcome ::
        if (visit f n v.1 v.2).2.outcome.fault?.isSome then []
        else outcomes f (visit f n v.1 v.2).1 rest := by
  obtain ⟨e, k⟩ := v
  rw [outcomes, survey]
  obtain ⟨n', r⟩ := visit f n e k
  cases h : r.outcome <;> simp [h, Outcome.fault?, outcomes]

theorem outcomes_bare (f : Flattening α) (n : Nesting α) (visits : List (Element × Nat)) :
    outcomes f n (visits.map Element.bare) = outcomes f n visits := by
  induction visits generalizing n with
  | nil => rfl
  | cons v rest ih =>
    obtain ⟨next, outcome⟩ := visit_bare f n v
    rw [List.map_cons, outcomes_cons, outcomes_cons]
    have same : (Element.bare v).2 = v.2 := rfl
    rw [same, next, outcome, ih]

/-- A path or shape element only takes the nesting back to its place. -/
theorem nesting_of_drawn (f : Flattening α) (n : Nesting α) {e : Element} (k : Nat)
    (drawn : e.isDrawn = true)
    (clear : (visit f n e k).2.outcome.fault? = none) : (visit f n e k).1 = n.unwind k := by
  rw [visit] at clear ⊢
  cases read : (e.transform : Except Fault (Affine α × Option TransformError)) with
  | error x =>
    rw [read] at clear
    cases clear
  | ok own =>
    simp only [Element.isGroup_of_isDrawn drawn, drawn, Bool.false_eq_true, if_false, if_true]
    rfl

/-- Other attributes for one path or shape element change nothing before it, and without
a fault nothing but itself. -/
theorem outcomes_edited (f : Flattening α) (n : Nesting α) (before after : List (Element × Nat))
    {name : String} (a b : Attributes) (k : Nat) (drawn : (Element.mk name a []).isDrawn = true)
    {i : Nat} (h : i ≠ before.length)
    (clear : i < before.length ∨
      (∀ o ∈ outcomes f n (before ++ (.mk name a [], k) :: after), o.fault? = none) ∧
      (∀ o ∈ outcomes f n (before ++ (.mk name b [], k) :: after), o.fault? = none)) :
    (outcomes f n (before ++ (.mk name a [], k) :: after))[i]? =
      (outcomes f n (before ++ (.mk name b [], k) :: after))[i]? := by
  induction before generalizing n i with
  | nil =>
    obtain ⟨unfaulted, unfaulted'⟩ := clear.resolve_left (Nat.not_lt_zero i)
    obtain ⟨j, rfl⟩ := Nat.exists_eq_succ_of_ne_zero h
    rw [List.nil_append, outcomes_cons] at unfaulted unfaulted'
    have here := unfaulted _ List.mem_cons_self
    have here' := unfaulted' _ List.mem_cons_self
    rw [List.nil_append, List.nil_append, outcomes_cons, outcomes_cons, here, here',
      nesting_of_drawn f n k drawn here, nesting_of_drawn f n (e := .mk name b []) k drawn here']
    rfl
  | cons v before ih =>
    rw [List.cons_append, List.cons_append, outcomes_cons, outcomes_cons]
    cases i with
    | zero => rfl
    | succ i =>
      rw [List.getElem?_cons_succ, List.getElem?_cons_succ]
      cases stop : (visit f n v.1 v.2).2.outcome.fault? with
      | some x => rfl
      | none =>
        have later (rest : List (Element × Nat)) {o : Outcome α}
            (ho : o ∈ outcomes f (visit f n v.1 v.2).1 rest) : o ∈ outcomes f n (v :: rest) := by
          rw [outcomes_cons, stop]
          exact List.mem_cons_of_mem _ ho
        refine ih _ (fun eq => h (congrArg Nat.succ eq)) (clear.imp Nat.lt_of_succ_lt_succ ?_)
        exact fun ⟨unfaulted, unfaulted'⟩ =>
          ⟨fun o ho => unfaulted o (later _ ho), fun o ho => unfaulted' o (later _ ho)⟩

end Report

omit [Scalar α] in
theorem Outcome.polylines_ofError (notices : List Notice) (err : DrawError α) :
    (ofError notices err).polylines = [] := by
  cases err with
  | shape => rfl
  | curve err => cases err <;> rfl

namespace Element

/-- What a path or shape element adds to a drawing: the polylines of the steps before its
first path error, or one outline. -/
def Draws (f : Flattening α) (t : Affine α) (e : Element) (ls : List (Polyline α)) : Prop :=
  if e.name == "path" then PathDrawing.polylinesOf (f.under t) ⟨t, e.isFilled⟩ e.steps = .ok ls
  else
    ∃ l, (Shape.draw e.name e.attributes (f.under t).tolerance f.depth).2 = .ok (some l) ∧
      ls = [l.finalize t e.isFilled]

theorem draws_ofElement (f : Flattening α) (t : Affine α) (e : Element) :
    (Outcome.ofElement f t e).polylines = [] ∨
      e.Draws f t (Outcome.ofElement f t e).polylines := by
  rw [Outcome.ofElement, Draws]
  cases e.name == "path" with
  | true =>
    simp only [if_true]
    rw [Outcome.ofPath]
    cases drawing : PathDrawing.ofString (f.under t) ⟨t, e.isFilled⟩ ((e.get? "d").getD "") with
    | error err => exact Or.inl (Outcome.polylines_ofError _ _)
    | ok d =>
      right
      change (do
        let ls ← PathDrawing.polylinesOf (f.under t) ⟨t, e.isFilled⟩ e.steps
        return PathDrawing.mk ls _ _) = Except.ok d at drawing
      cases polylines : PathDrawing.polylinesOf (f.under t) ⟨t, e.isFilled⟩ e.steps with
      | error err =>
        rw [polylines] at drawing
        cases drawing
      | ok ls =>
        rw [polylines] at drawing
        cases drawing
        rfl
  | false =>
    simp only [Bool.false_eq_true, if_false]
    rw [Outcome.ofShape]
    obtain ⟨notices, result⟩ := Shape.draw e.name e.attributes (f.under t).tolerance f.depth
    cases result with
    | error err => exact Or.inl (Outcome.polylines_ofError _ _)
    | ok l =>
      cases l with
      | none => exact Or.inl rfl
      | some l =>
        dsimp only [Outcome.polylines]
        split
        · exact Or.inl rfl
        · exact Or.inr ⟨l, rfl, rfl⟩

/-- The root element of a document is not drawn, so an edit keeps its attributes. -/
theorem resolve_of_edited {root root' : Element} (svg : root.name = "svg")
    (h : root.Edited root') (defaultWidth defaultHeight : α) :
    Viewport.resolve root' defaultWidth defaultHeight =
      Viewport.resolve root defaultWidth defaultHeight := by
  cases h with
  | here drawn =>
    have group := isGroup_of_isDrawn drawn
    rw [svg] at group
    cases group
  | inside h => rfl

end Element

namespace Drawing

omit [Scalar α] in
theorem mem_of_mem_untilFault {reports : List (Report α)} {r : Report α}
    (h : r ∈ Report.untilFault reports) : r ∈ reports := by
  induction reports with
  | nil => exact h
  | cons s rest ih =>
    rw [Report.untilFault] at h
    cases outcome : s.outcome with
    | fault x =>
      simp only [outcome, List.mem_singleton] at h
      exact h ▸ List.mem_cons_self
    | group | unsupported | drawn | skipped =>
      simp only [outcome, List.mem_cons] at h
      exact List.mem_cons.mpr (h.imp_right ih)

/-- Each report of a drawing adds nothing, or its element is drawn in the groups in force at
its site. -/
theorem outcome_of_mem_within {f : Flattening α} {viewport : Viewport α} {doc : Document}
    {r : Report α} (h : r ∈ within f viewport doc) :
    r.outcome.polylines = [] ∨
      ∃ p ∈ doc.root.sites, p.element = r.element ∧ r.element.isDrawn = true ∧
        r.outcome =
          .ofElement f (viewport.transform.inGroups (p.inForce ++ [r.element])) r.element := by
  rw [within_eq] at h
  obtain ⟨p, hp, rfl⟩ := List.mem_map.mp (mem_of_mem_untilFault h)
  rw [Report.under]
  cases read : (p.element.transform : Except Fault (Affine α × Option TransformError)) with
  | error x => exact Or.inl rfl
  | ok read' =>
    obtain ⟨own, ignored⟩ := read'
    have map : p.element.ownMap? = some own := by
      rw [Element.ownMap?, read]
      rfl
    by_cases drawn : p.element.isDrawn = true
    · simp only [drawn, if_true, Element.isGroup_of_isDrawn drawn, Bool.false_eq_true, if_false]
      refine Or.inr ⟨p, hp, rfl, trivial, ?_⟩
      rw [Affine.inGroups_concat _ _ map]
    · simp only [drawn, Bool.false_eq_true, if_false]
      split <;> exact Or.inl rfl

/-- Each report of a drawing adds nothing, or what its element draws. -/
theorem draws_of_mem_within {f : Flattening α} {viewport : Viewport α} {doc : Document}
    {r : Report α} (h : r ∈ within f viewport doc) :
    r.outcome.polylines = [] ∨
      ∃ p ∈ doc.root.sites, p.element = r.element ∧ r.element.isDrawn = true ∧
        r.element.Draws f (viewport.transform.inGroups (p.inForce ++ [r.element]))
          r.outcome.polylines := by
  rcases outcome_of_mem_within h with nothing | ⟨p, hp, same, drawn, outcome⟩
  · exact Or.inl nothing
  · have draws := Element.draws_ofElement f
      (viewport.transform.inGroups (p.inForce ++ [r.element])) r.element
    rw [← outcome] at draws
    exact draws.imp_right fun draws => ⟨p, hp, same, drawn, draws⟩

omit [Scalar α] in
theorem fault?_eq_none_iff (d : Drawing α) :
    d.fault? = none ↔ ∀ o ∈ d.reports.map (·.outcome), o.fault? = none := by
  have outcomes : d.fault? = d.reports.findSome? (·.outcome.fault?) := rfl
  rw [outcomes, List.findSome?_eq_none_iff, List.forall_mem_map]

theorem within_of_edited (f : Flattening α) (viewport : Viewport α) (found : List Notice)
    {root root' : Element} (source : String) (h : root.Edited root') :
    let d : Drawing α := ⟨viewport, found, within f viewport ⟨root, source⟩⟩
    let d' : Drawing α := ⟨viewport, found, within f viewport ⟨root', source⟩⟩
    ∃ i : Nat, ∀ j ≠ i,
      ((root'.visits 0).map Element.bare)[j]? = ((root.visits 0).map Element.bare)[j]? ∧
      (j < i ∨ d.fault? = none ∧ d'.fault? = none →
        (d'.reports.map (·.outcome))[j]? = (d.reports.map (·.outcome))[j]?) := by
  intro d d'
  have run (root : Element) : (within f viewport ⟨root, source⟩).map (·.outcome) =
      Report.outcomes f (.root viewport.transform) ((root.visits 0).map Element.bare) :=
    (Report.outcomes_bare f _ _).symm
  simp only [fault?_eq_none_iff, d, d', run]
  rcases Element.visits_of_edited h 0 with same | ⟨before, after, name, a, b, k, eq, eq', drawn⟩
  · rw [same]
    exact ⟨0, fun j _ => ⟨rfl, fun _ => rfl⟩⟩
  · rw [eq, eq']
    refine ⟨before.length, fun j apart => ⟨?_, fun clear => ?_⟩⟩
    · rw [List.getElem?_append, List.getElem?_append]
      split
      · rfl
      · obtain ⟨m, hm⟩ := Nat.exists_eq_succ_of_ne_zero (show j - before.length ≠ 0 by omega)
        rw [hm, List.getElem?_cons_succ, List.getElem?_cons_succ]
    · exact (Report.outcomes_edited f _ before after a b k drawn apart clear).symm

/-- Documents that differ by an edit are drawn in the same viewport. -/
theorem ofDocument_of_edited (f : Flattening α) (positive : ¬ f.tolerance ≤ 0)
    (defaultWidth defaultHeight : α) (given : Option (Viewport α)) {doc : Document}
    (svg : doc.root.name = "svg") :
    ∃ viewport found,
      ofDocument f defaultWidth defaultHeight given doc =
        .ok ⟨viewport, found, within f viewport doc⟩ ∧
      ∀ root', doc.root.Edited root' →
        ofDocument f defaultWidth defaultHeight given ⟨root', doc.source⟩ =
          .ok ⟨viewport, found, within f viewport ⟨root', doc.source⟩⟩ := by
  cases given with
  | some v => exact ⟨v, [], if_neg positive, fun _ _ => if_neg positive⟩
  | none =>
    let resolved := Viewport.resolve doc.root defaultWidth defaultHeight
    refine ⟨resolved.1, resolved.2, if_neg positive, fun root' h => ?_⟩
    rw [← show Viewport.resolve root' defaultWidth defaultHeight = resolved from
      Element.resolve_of_edited svg h _ _]
    exact if_neg positive

/-- **One bad element.** The drawing of a document ends early precisely at the first
element with a fault of the numbers: an infinite angle in its transform, or an arc without
a centre. Up to there each path and shape adds nothing, or what is before its first path
error. Other attributes for one of them change nothing before it, and if neither drawing
ends early, nothing but what it adds itself. -/
theorem ofDocument_one_bad_element (f : Flattening α) (positive : ¬ f.tolerance ≤ 0)
    (defaultWidth defaultHeight : α) (given : Option (Viewport α)) (doc : Document)
    (svg : doc.root.name = "svg") :
    ∃ d, ofDocument f defaultWidth defaultHeight given doc = .ok d ∧
      (d.fault? = doc.root.sites.findSome? fun p =>
        p.element.fault? f d.viewport.transform p.inForce) ∧
      (∀ r ∈ d.reports, r.outcome.polylines = [] ∨
        ∃ p ∈ doc.root.sites, p.element = r.element ∧ r.element.isDrawn = true ∧
          r.element.Draws f (d.viewport.transform.inGroups (p.inForce ++ [r.element]))
            r.outcome.polylines) ∧
      ∀ root', doc.root.Edited root' →
        ∃ d', ofDocument f defaultWidth defaultHeight given ⟨root', doc.source⟩ = .ok d' ∧
          d'.viewport = d.viewport ∧
          ∃ i : Nat, ∀ j ≠ i,
            ((root'.visits 0).map Element.bare)[j]? =
              ((doc.root.visits 0).map Element.bare)[j]? ∧
            (j < i ∨ d.fault? = none ∧ d'.fault? = none →
              (d'.reports.map (·.outcome))[j]? = (d.reports.map (·.outcome))[j]?) := by
  obtain ⟨viewport, found, eq, edited⟩ :=
    ofDocument_of_edited f positive defaultWidth defaultHeight given svg
  refine ⟨_, eq, fault?_within f viewport found doc, fun r hr => draws_of_mem_within hr, ?_⟩
  intro root' h
  exact ⟨_, edited root' h, rfl, within_of_edited f viewport found doc.source h⟩

/-- A line behind a path that draws nothing, with a transform attribute. -/
def lineBehindPath (transform : String) : Document where
  root := .mk "svg" [] [.mk "path" [("transform", transform)] [],
    .mk "line" [("x1", "0"), ("y1", "0"), ("x2", "10"), ("y2", "10")] []]
  source := "line behind a path"

theorem lineBehindPath_edited (a b : String) :
    (lineBehindPath a).root.Edited (lineBehindPath b).root :=
  @Element.Edited.inside "svg" [] [] _ _ _ (.here rfl)

theorem ofDocument_lineBehindPath :
    ¬ (0.1 : Float) ≤ 0 ∧ (lineBehindPath "scale(2)").root.name = "svg" ∧
    ∃ d, ofDocument (⟨0.1, none, 16⟩ : Flattening Float) 100 100 none
        (lineBehindPath "scale(2)") = .ok d ∧
      (∀ r ∈ d.reports, r.outcome.polylines = [] ∨
        ∃ p ∈ (lineBehindPath "scale(2)").root.sites, p.element = r.element ∧
          r.element.isDrawn = true ∧
          r.element.Draws ⟨0.1, none, 16⟩ (d.viewport.transform.inGroups (p.inForce ++ [r.element]))
            r.outcome.polylines) ∧
      ∃ d', ofDocument (⟨0.1, none, 16⟩ : Flattening Float) 100 100 none
          (lineBehindPath "rotate(1e999)") = .ok d' ∧
        d'.viewport = d.viewport ∧ d'.fault? = some .domain := by
  have positive : ¬ (0.1 : Float) ≤ 0 := by decide +kernel
  obtain ⟨d, eq, -, draws, edited⟩ := ofDocument_one_bad_element
    (⟨0.1, none, 16⟩ : Flattening Float) positive 100 100 none (lineBehindPath "scale(2)") rfl
  obtain ⟨d', eq', viewport, -⟩ := edited _ (lineBehindPath_edited "scale(2)" "rotate(1e999)")
  have fault : (ofDocument (⟨0.1, none, 16⟩ : Flattening Float) 100 100 none
      (lineBehindPath "rotate(1e999)")).toOption.bind fault? = some .domain := by decide +kernel
  have same : ofDocument (⟨0.1, none, 16⟩ : Flattening Float) 100 100 none
      (lineBehindPath "rotate(1e999)") = .ok d' := eq'
  rw [same] at fault
  exact ⟨positive, rfl, d, eq, draws, d', eq', viewport, fault⟩

/-- A path that would be turned by an infinite angle keeps the line from being drawn. -/
theorem endless_turn_ends_drawing :
    let drawing (transform : String) := ofDocument (⟨0.1, none, 16⟩ : Flattening Float)
      100 100 none (lineBehindPath transform)
    (drawing "rotate(1e9)").toOption.map (fun d => (d.fault?, d.polylines)) =
      some (none, [⟨⟨0, 0⟩, [⟨10, 10⟩], false⟩]) ∧
    (drawing "rotate(1e999)").toOption.map (fun d => (d.fault?, d.polylines)) =
      some (some .domain, []) := by
  decide +kernel

end Drawing

end BoardPlotter
