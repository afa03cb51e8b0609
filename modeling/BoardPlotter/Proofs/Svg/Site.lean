import Mathlib.Tactic.ByContra
import Mathlib.Tactic.Tauto
import BoardPlotter.Svg.Drawing

/-!
# Sites in a document

A document is drawn from a flat list of visits; the elements around a visited
one are never stored. Here they are kept, as the tree has them:

* `Element.sitesIn` lists the visited elements with the elements above them and
  the visits before them;
* `openFor_before`: the elements above a site are those since which every
  visit was deeper;
* `filter_openFor_eq_iff`: the groups since which every group and every drawn
  element was deeper are those above the site, unless one is a stray, left
  behind by nothing but elements that are not supported.
-/

namespace BoardPlotter

/-- Is it a group or drawn? Other elements pass the groups by. -/
def Element.isPlaced (e : Element) : Bool := Element.isGroup e.name || e.isDrawn

/-- A visited element, with the visits before it and the elements above it, the
root first. -/
structure Site where
  before : List (Element × Nat)
  above : List Element
  element : Element

namespace Site

def depth (p : Site) : Nat := p.above.length

def visit (p : Site) : Element × Nat := (p.element, p.depth)

/-- Each site stands behind the visits of those listed before it. -/
def Chained (before : List (Element × Nat)) : List Site → Prop
  | [] => True
  | p :: ps => p.before = before ∧ Chained (before ++ [p.visit]) ps

theorem chained_append {before : List (Element × Nat)} {ps qs : List Site}
    (hp : Chained before ps) (hq : Chained (before ++ ps.map visit) qs) :
    Chained before (ps ++ qs) := by
  induction ps generalizing before with
  | nil => simpa using hq
  | cons p ps ih =>
    refine ⟨hp.1, ih hp.2 ?_⟩
    simpa using hq

end Site

namespace Element

mutual

/-- The sites of an element and what is in it. -/
def sitesIn (before : List (Element × Nat)) (above : List Element) : Element → List Site
  | .mk name attributes children =>
    if name = "" ∨ isHidden name then []
    else
      ⟨before, above, .mk name attributes children⟩ ::
        sitesOf (before ++ [(.mk name attributes children, above.length)])
          (above ++ [.mk name attributes children]) children

def sitesOf (before : List (Element × Nat)) (above : List Element) : List Element → List Site
  | [] => []
  | e :: es =>
    sitesIn before above e ++
      sitesOf (before ++ (sitesIn before above e).map Site.visit) above es

end

/-- The sites of a whole document. -/
def sites (root : Element) : List Site := sitesIn [] [] root

mutual

theorem map_visit_sitesIn (before : List (Element × Nat)) (above : List Element) :
    (e : Element) → (e.sitesIn before above).map Site.visit = e.visits above.length
  | .mk name attributes children => by
    have inner := map_visit_sitesOf
      (before ++ [(.mk name attributes children, above.length)])
      (above ++ [.mk name attributes children]) children
    simp only [sitesIn, visits]
    split
    · rfl
    · rw [List.map_cons, inner, List.length_append]
      rfl

theorem map_visit_sitesOf (before : List (Element × Nat)) (above : List Element) :
    (es : List Element) → (sitesOf before above es).map Site.visit = visitsOf above.length es
  | [] => rfl
  | e :: es => by
    rw [sitesOf, visitsOf, List.map_append, map_visit_sitesIn before above e,
      map_visit_sitesOf _ above es]

end

mutual

theorem chained_sitesIn (before : List (Element × Nat)) (above : List Element) :
    (e : Element) → Site.Chained before (e.sitesIn before above)
  | .mk name attributes children => by
    have inner := chained_sitesOf
      (before ++ [(.mk name attributes children, above.length)])
      (above ++ [.mk name attributes children]) children
    simp only [sitesIn]
    split
    · trivial
    · exact ⟨rfl, inner⟩

theorem chained_sitesOf (before : List (Element × Nat)) (above : List Element) :
    (es : List Element) → Site.Chained before (sitesOf before above es)
  | [] => trivial
  | e :: es => by
    rw [sitesOf]
    exact Site.chained_append (chained_sitesIn before above e) (chained_sitesOf _ above es)

end

end Element

/-! ## Elements since which nothing was as shallow -/

/-- The visited elements above a depth since which every visit that counts was
deeper. -/
def openFor (counts : Element → Bool) (depth : Nat) : List (Element × Nat) → List Element
  | [] => []
  | (e, k) :: later =>
    if k < depth ∧ ∀ v ∈ later, counts v.1 = true → k < v.2 then
      e :: openFor counts depth later
    else openFor counts depth later

theorem openFor_concat {counts : Element → Bool} {e : Element} (h : counts e = true)
    (depth k : Nat) (before : List (Element × Nat)) :
    openFor counts depth (before ++ [(e, k)]) =
      openFor counts (min depth k) before ++ if k < depth then [e] else [] := by
  induction before with
  | nil => simp [openFor]
  | cons v later ih =>
    obtain ⟨a, j⟩ := v
    have same : (j < depth ∧ ∀ v ∈ later ++ [(e, k)], counts v.1 = true → j < v.2) ↔
        j < min depth k ∧ ∀ v ∈ later, counts v.1 = true → j < v.2 := by
      simp only [List.forall_mem_append, List.forall_mem_singleton, h, forall_const, Nat.lt_min]
      tauto
    simp only [List.cons_append, openFor, same, ih]
    split <;> simp only [List.cons_append]

mutual

/-- Visits at a depth or deeper leave what is open above it. -/
theorem openFor_visits (before : List (Element × Nat)) {depth k : Nat} (h : depth ≤ k) :
    (e : Element) → openFor (fun _ => true) depth (before ++ e.visits k) =
      openFor (fun _ => true) depth before
  | .mk name attributes children => by
    have inner := openFor_visitsOf (before ++ [(.mk name attributes children, k)])
      (Nat.le_succ_of_le h) children
    simp only [Element.visits]
    split
    · rw [List.append_nil]
    · rw [List.append_assoc] at inner
      rw [← List.singleton_append, inner, openFor_concat rfl, Nat.min_eq_left h,
        if_neg (by omega), List.append_nil]

theorem openFor_visitsOf (before : List (Element × Nat)) {depth k : Nat} (h : depth ≤ k) :
    (es : List Element) → openFor (fun _ => true) depth (before ++ Element.visitsOf k es) =
      openFor (fun _ => true) depth before
  | [] => by rw [Element.visitsOf, List.append_nil]
  | e :: es => by
    rw [Element.visitsOf, ← List.append_assoc, openFor_visitsOf _ h es, openFor_visits before h e]

end

namespace Element

mutual

/-- The elements above a site are those since which every visit was deeper. -/
theorem openFor_sitesIn {before : List (Element × Nat)} {above : List Element}
    (h : openFor (fun _ => true) above.length before = above) :
    (e : Element) → ∀ p ∈ e.sitesIn before above,
      openFor (fun _ => true) p.depth p.before = p.above
  | .mk name attributes children => by
    have below : openFor (fun _ => true) (above ++ [Element.mk name attributes children]).length
        (before ++ [(Element.mk name attributes children, above.length)]) =
        above ++ [Element.mk name attributes children] := by
      rw [List.length_append, List.length_singleton, openFor_concat rfl,
        Nat.min_eq_right (by omega), if_pos (by omega), h]
    have inner := openFor_sitesOf below children
    simp only [sitesIn]
    split
    · intro p hp
      cases hp
    · intro p hp
      rcases List.mem_cons.mp hp with rfl | hp
      · exact h
      · exact inner p hp

theorem openFor_sitesOf {before : List (Element × Nat)} {above : List Element}
    (h : openFor (fun _ => true) above.length before = above) :
    (es : List Element) → ∀ p ∈ sitesOf before above es,
      openFor (fun _ => true) p.depth p.before = p.above
  | [] => by
    intro p hp
    cases hp
  | e :: es => by
    have next : openFor (fun _ => true) above.length
        (before ++ (e.sitesIn before above).map Site.visit) = above := by
      rw [map_visit_sitesIn, openFor_visits before (Nat.le_refl _) e, h]
    have first := openFor_sitesIn h e
    have others := openFor_sitesOf next es
    intro p hp
    rw [sitesOf] at hp
    rcases List.mem_append.mp hp with hp | hp
    · exact first p hp
    · exact others p hp

end

theorem openFor_before {root : Element} {p : Site} (h : p ∈ root.sites) :
    openFor (fun _ => true) p.depth p.before = p.above :=
  openFor_sitesIn rfl root p h

end Element

/-! ## Strays -/

/-- A group that is still in force though it was left: nothing but elements that
are not supported was as shallow since. -/
def Stray (depth : Nat) (before : List (Element × Nat)) : Prop :=
  ∃ earlier g k later, before = earlier ++ (g, k) :: later ∧ Element.isGroup g.name = true ∧
    k < depth ∧ (∀ v ∈ later, v.1.isPlaced = true → k < v.2) ∧ ∃ v ∈ later, v.2 ≤ k

theorem stray_cons {depth k : Nat} {g : Element} {later : List (Element × Nat)} :
    Stray depth ((g, k) :: later) ↔
      (Element.isGroup g.name = true ∧ k < depth ∧ (∀ v ∈ later, v.1.isPlaced = true → k < v.2) ∧
        ∃ v ∈ later, v.2 ≤ k) ∨ Stray depth later := by
  constructor
  · rintro ⟨earlier, h, j, rest, eq, hg, hk, placed, passed⟩
    cases earlier with
    | nil =>
      obtain ⟨⟨rfl, rfl⟩, rfl⟩ : (g = h ∧ k = j) ∧ later = rest := by simpa using eq
      exact Or.inl ⟨hg, hk, placed, passed⟩
    | cons v earlier =>
      obtain ⟨-, rfl⟩ : (g, k) = v ∧ later = earlier ++ (h, j) :: rest := by simpa using eq
      exact Or.inr ⟨earlier, h, j, rest, rfl, hg, hk, placed, passed⟩
  · rintro (⟨hg, hk, placed, passed⟩ | ⟨earlier, h, j, rest, rfl, hg, hk, placed, passed⟩)
    · exact ⟨[], g, k, later, rfl, hg, hk, placed, passed⟩
    · exact ⟨(g, k) :: earlier, h, j, rest, rfl, hg, hk, placed, passed⟩

theorem openFor_sublist (depth : Nat) (before : List (Element × Nat)) :
    (openFor (fun _ => true) depth before).Sublist (openFor Element.isPlaced depth before) := by
  induction before with
  | nil => exact List.Sublist.refl _
  | cons v later ih =>
    obtain ⟨e, k⟩ := v
    simp only [openFor, forall_const]
    by_cases deeper : k < depth ∧ ∀ v ∈ later, k < v.2
    · rw [if_pos deeper, if_pos ⟨deeper.1, fun v hv _ => deeper.2 v hv⟩]
      exact ih.cons_cons e
    · rw [if_neg deeper]
      split
      · exact ih.cons e
      · exact ih

/-- The groups in force are those above a site exactly if none of them is a
stray. -/
theorem filter_openFor_eq_iff (depth : Nat) (before : List (Element × Nat)) :
    (openFor Element.isPlaced depth before).filter (Element.isGroup ·.name) =
        (openFor (fun _ => true) depth before).filter (Element.isGroup ·.name) ↔
      ¬ Stray depth before := by
  induction before with
  | nil => simp [openFor, Stray]
  | cons v later ih =>
    obtain ⟨g, k⟩ := v
    simp only [stray_cons, openFor, forall_const, not_or]
    by_cases deeper : k < depth ∧ ∀ v ∈ later, k < v.2
    · have none : ¬ ∃ v ∈ later, v.2 ≤ k := by
        rintro ⟨v, hv, hk⟩
        exact absurd (deeper.2 v hv) (by omega)
      rw [if_pos deeper, if_pos ⟨deeper.1, fun v hv _ => deeper.2 v hv⟩]
      simp only [List.filter_cons, none, and_false, not_false_eq_true, true_and]
      split
      · rw [List.cons.injEq, ih]
        simp only [true_and]
      · exact ih
    · rw [if_neg deeper]
      by_cases held : k < depth ∧ ∀ v ∈ later, v.1.isPlaced = true → k < v.2
      · have passed : ∃ v ∈ later, v.2 ≤ k := by
          by_contra unpassed
          exact deeper ⟨held.1, fun v hv => Nat.lt_of_not_le fun low => unpassed ⟨v, hv, low⟩⟩
        rw [if_pos held, List.filter_cons]
        cases hg : Element.isGroup g.name with
        | true =>
          -- The stray makes the list in force the longer one.
          have shorter := ((openFor_sublist depth later).filter (Element.isGroup ·.name)).length_le
          simp only [if_true, held.1, true_and, passed, and_true]
          constructor
          · intro eq
            have := congrArg List.length eq
            simp only [List.length_cons] at this
            omega
          · intro stray
            exact absurd held.2 stray.1
        | false => simpa using ih
      · rw [if_neg held]
        have free : ¬ (Element.isGroup g.name = true ∧ k < depth ∧
            (∀ v ∈ later, v.1.isPlaced = true → k < v.2) ∧ ∃ v ∈ later, v.2 ≤ k) :=
          fun h => held ⟨h.2.1, h.2.2.1⟩
        rw [ih]
        simp only [free, not_false_eq_true, true_and]

theorem openFor_append_subset {counts : Element → Bool} {depth : Nat}
    (earlier later : List (Element × Nat)) :
    openFor counts depth later ⊆ openFor counts depth (earlier ++ later) := by
  induction earlier with
  | nil => exact List.Subset.refl _
  | cons v earlier ih =>
    simp only [List.cons_append, openFor]
    split
    · exact List.Subset.trans ih (List.subset_cons_self _ _)
    · exact ih

/-- Something at a depth or above it leaves its last one open. -/
theorem exists_openFor {depth k : Nat} (hk : k < depth) {visits : List (Element × Nat)}
    (h : ∃ v ∈ visits, v.2 ≤ k) :
    ∃ v ∈ visits, v.2 ≤ k ∧ v.1 ∈ openFor (fun _ => true) depth visits := by
  induction visits with
  | nil => simp at h
  | cons u rest ih =>
    by_cases later : ∃ v ∈ rest, v.2 ≤ k
    · obtain ⟨v, hv, low, kept⟩ := ih later
      exact ⟨v, List.mem_cons_of_mem _ hv, low, openFor_append_subset [u] rest kept⟩
    · obtain ⟨v, hv, low⟩ := h
      rcases List.mem_cons.mp hv with rfl | hv
      · have last : v.2 < depth ∧ ∀ x ∈ rest, True → v.2 < x.2 := by
          refine ⟨by omega, fun x hx _ => ?_⟩
          exact Nat.lt_of_le_of_lt low (Nat.lt_of_not_le fun le => later ⟨x, hx, le⟩)
        refine ⟨v, List.mem_cons_self, low, ?_⟩
        simp only [openFor, if_pos last, List.mem_cons_self]
      · exact absurd ⟨v, hv, low⟩ later

/-- A stray takes an element above the site that is not supported. -/
theorem Stray.exists_not_placed {depth : Nat} {before : List (Element × Nat)}
    (h : Stray depth before) :
    ∃ a ∈ openFor (fun _ => true) depth before, a.isPlaced = false := by
  obtain ⟨earlier, g, k, later, rfl, -, hk, placed, passed⟩ := h
  obtain ⟨v, hv, low, kept⟩ := exists_openFor hk passed
  refine ⟨v.1, ?_, ?_⟩
  · rw [List.append_cons]
    exact openFor_append_subset _ _ kept
  · cases hp : v.1.isPlaced
    · rfl
    · exact absurd (placed v hv hp) (by omega)

end BoardPlotter
