import BoardPlotter.Proofs.Svg.Nesting

/-!
# The levels of a nesting

After any calls, the levels are the groups entered since which every call was deeper
(`Nesting.after_eq`), so their depths increase, and what a call answers is the fold of
their maps and its own.

The calls below a node of a tree are deeper than its own, so they leave the groups above
it in force for the next node beside it (`Nesting.unwind_calls`). Each node of a tree is
therefore answered by the maps of precisely the groups above it
(`Nesting.answers_calls`).
-/

namespace BoardPlotter

namespace NestingCall

variable {α : Type}

/-- The groups entered since which every call was deeper. -/
def stillOpen : List (NestingCall α) → List (Int × Affine α)
  | [] => []
  | c :: later =>
    if ∀ x ∈ later, c.depth < x.depth then c.entered ++ stillOpen later else stillOpen later

theorem stillOpen_concat (calls : List (NestingCall α)) (c : NestingCall α) :
    stillOpen (calls ++ [c]) = openAbove c.depth calls ++ c.entered := by
  induction calls with
  | nil => simp [stillOpen, openAbove]
  | cons b later ih =>
    have same : (∀ x ∈ later ++ [c], b.depth < x.depth) ↔
        b.depth < c.depth ∧ ∀ x ∈ later, b.depth < x.depth := by
      rw [List.forall_mem_append, List.forall_mem_singleton, and_comm]
    simp only [List.cons_append, stillOpen, openAbove, same, ih]
    split <;> simp only [List.append_assoc]

theorem depth_of_entered {c : NestingCall α} {g : Int × Affine α} (h : g ∈ c.entered) :
    g.1 = c.depth := by
  cases c with
  | enter depth own =>
    obtain rfl := List.mem_singleton.mp h
    rfl
  | leaf depth own => cases h

theorem exists_call_of_stillOpen {calls : List (NestingCall α)} {g : Int × Affine α}
    (h : g ∈ stillOpen calls) : ∃ c ∈ calls, g.1 = c.depth := by
  induction calls with
  | nil => cases h
  | cons c later ih =>
    have there (h : g ∈ stillOpen later) : ∃ c' ∈ c :: later, g.1 = c'.depth := by
      obtain ⟨c', hc, depth⟩ := ih h
      exact ⟨c', List.mem_cons_of_mem _ hc, depth⟩
    rw [stillOpen] at h
    split at h
    · rcases List.mem_append.mp h with here | h
      · exact ⟨c, List.mem_cons_self, depth_of_entered here⟩
      · exact there h
    · exact there h

/-- The groups that are still open lie inside one another. -/
theorem stillOpen_increasing (calls : List (NestingCall α)) :
    ((stillOpen calls).map Prod.fst).Pairwise (· < ·) := by
  induction calls with
  | nil => exact List.Pairwise.nil
  | cons c later ih =>
    rw [stillOpen]
    split
    · rename_i deeper
      cases c with
      | leaf depth own => exact ih
      | enter depth own =>
        refine List.pairwise_cons.mpr ⟨fun k hk => ?_, ih⟩
        obtain ⟨g, hg, rfl⟩ := List.mem_map.mp hk
        obtain ⟨c, hc, same⟩ := exists_call_of_stillOpen hg
        rw [same]
        exact deeper c hc
    · exact ih

end NestingCall

/-- A tree in which every node either enters a group or is met as an element that is none,
at its depth. -/
inductive CallTree (α : Type) where
  | mk (enters : Bool) (own : Affine α) (children : List (CallTree α))

namespace CallTree

variable {α : Type}

mutual

/-- The calls of the nodes, each before those of the nodes below it. -/
def calls (depth : Int) : CallTree α → List (NestingCall α)
  | mk enters own children =>
    (if enters then .enter depth own else .leaf depth own) :: callsOf (depth + 1) children

def callsOf (depth : Int) : List (CallTree α) → List (NestingCall α)
  | [] => []
  | t :: ts => t.calls depth ++ callsOf depth ts

end

mutual

/-- The nodes in the same order: the maps of the groups above a node, the outermost first,
and its own. -/
def places (above : List (Affine α)) : CallTree α → List (List (Affine α) × Affine α)
  | mk enters own children =>
    (above, own) :: placesOf (if enters then above ++ [own] else above) children

def placesOf (above : List (Affine α)) : List (CallTree α) → List (List (Affine α) × Affine α)
  | [] => []
  | t :: ts => t.places above ++ placesOf above ts

end

end CallTree

namespace Nesting

open NestingCall

/-- Of two descents, the second to a greater depth changes nothing. -/
theorem unwind_of_le {α : Type} (n : Nesting α) {low high : Int} (h : low ≤ high) :
    (n.unwind low).unwind high = n.unwind low := by
  obtain ⟨base, levels⟩ := n
  simp only [unwind, mk.injEq, true_and]
  induction levels with
  | nil => rfl
  | cons level rest ih =>
    by_cases deep : low ≤ level.1
    · simpa [List.dropWhile_cons, deep] using ih
    · have above : ¬ high ≤ level.1 := by omega
      simp [deep, above]

variable {α : Type} [Scalar α]

/-- The nesting after any calls holds the groups that are still open. -/
theorem after_eq (base : Affine α) (calls : List (NestingCall α)) :
    after base calls = holding base (stillOpen calls) := by
  induction calls using List.reverseRecOn with
  | nil => rfl
  | append_singleton calls c _ =>
    have last : after base (calls ++ [c]) = (after base calls).apply c := by simp [after]
    rw [last, stillOpen_concat]
    cases c with
    | enter depth own =>
      change ((after base calls).unwind depth).push (depth, own) = _
      rw [unwind_after]
      exact (holding_concat base _ _).symm
    | leaf depth own =>
      change (after base calls).unwind depth = _
      rw [unwind_after, entered, List.append_nil]
      rfl

theorem length_levels_holding (base : Affine α) (groups : List (Int × Affine α)) :
    (holding base groups).levels.length = groups.length := by
  induction groups using List.reverseRecOn with
  | nil => rfl
  | append_singleton groups g ih =>
    rw [holding_concat, push, List.length_cons, ih, List.length_append]
    rfl

/-- Each level has the fold of the maps down to it. -/
theorem getElem?_levels_holding (base : Affine α) (groups : List (Int × Affine α)) (i : Nat) :
    (holding base groups).levels.reverse[i]? = groups[i]?.map fun g =>
      (g.1, ((groups.take (i + 1)).map Prod.snd).foldl Affine.comp base) := by
  induction groups using List.reverseRecOn with
  | nil => rfl
  | append_singleton groups g ih =>
    have size := length_levels_holding base groups
    rw [holding_concat, push, List.reverse_cons]
    rcases Nat.lt_trichotomy i groups.length with before | rfl | behind
    · rw [List.getElem?_append_left (by simpa [size] using before), ih,
        List.getElem?_append_left before, List.take_append_of_le_length before]
    · have whole : (groups ++ [g]).take (groups.length + 1) = groups ++ [g] :=
        List.take_of_length_le (by simp)
      rw [List.getElem?_append_right (by simp [size]), List.length_reverse, size, Nat.sub_self,
        List.getElem?_concat_length, whole, List.map_append, List.foldl_append, current_holding]
      rfl
    · rw [List.getElem?_eq_none (by simp [size]; omega), List.getElem?_eq_none (by simp; omega)]
      rfl

theorem map_fst_levels_holding (base : Affine α) (groups : List (Int × Affine α)) :
    (holding base groups).levels.reverse.map Prod.fst = groups.map Prod.fst := by
  apply List.ext_getElem?
  intro i
  rw [List.getElem?_map, List.getElem?_map, getElem?_levels_holding, Option.map_map]
  rfl

/-- What a call answers. -/
def answer (n : Nesting α) : NestingCall α → Affine α
  | .enter depth own => (n.enter depth own).current
  | .leaf depth own => (n.leaf depth own).2

def answers (n : Nesting α) : List (NestingCall α) → List (Affine α)
  | [] => []
  | c :: cs => n.answer c :: (n.apply c).answers cs

theorem answers_append (n : Nesting α) (cs ds : List (NestingCall α)) :
    n.answers (cs ++ ds) = n.answers cs ++ (cs.foldl apply n).answers ds := by
  induction cs generalizing n with
  | nil => rfl
  | cons c cs ih => rw [List.cons_append, answers, ih, answers, List.foldl_cons, List.cons_append]

mutual

/-- Calls at a depth or deeper leave the groups above it. -/
theorem unwind_calls (n : Nesting α) (depth : Int) :
    (t : CallTree α) → ((t.calls depth).foldl apply n).unwind depth = n.unwind depth
  | .mk enters own children => by
    have below := unwind_callsOf
      (n.apply (if enters then .enter depth own else .leaf depth own)) (depth + 1) children
    have above := congrArg (unwind · depth) below
    simp only [unwind_unwind _ (Int.le_add_one (Int.le_refl depth))] at above
    rw [CallTree.calls, List.foldl_cons, above]
    cases enters with
    | true =>
      change ((n.unwind depth).push (depth, own)).unwind depth = _
      rw [unwind_push, if_pos (Int.le_refl depth), unwind_of_le _ (Int.le_refl depth)]
    | false => exact unwind_of_le _ (Int.le_refl depth)

theorem unwind_callsOf (n : Nesting α) (depth : Int) :
    (ts : List (CallTree α)) →
      ((CallTree.callsOf depth ts).foldl apply n).unwind depth = n.unwind depth
  | [] => rfl
  | t :: ts => by
    rw [CallTree.callsOf, List.foldl_append, unwind_callsOf _ depth ts, unwind_calls n depth t]

end

mutual

/-- Every node is answered by the maps of the groups above it and its own. -/
theorem answers_calls (base : Affine α) {n : Nesting α} {depth : Int} {above : List (Affine α)}
    (h : (n.unwind depth).current = above.foldl Affine.comp base) :
    (t : CallTree α) → n.answers (t.calls depth) =
      (t.places above).map fun p => (p.1.foldl Affine.comp base).comp p.2
  | .mk enters own children => by
    rw [CallTree.calls, CallTree.places, answers, List.map_cons]
    cases enters with
    | true =>
      have entered : ((n.enter depth own).unwind (depth + 1)).current =
          (above ++ [own]).foldl Affine.comp base := by
        change (((n.unwind depth).push (depth, own)).unwind (depth + 1)).current = _
        rw [unwind_push, if_neg (by omega), List.foldl_append, ← h]
        rfl
      have below := answers_callsOf base entered children
      have here : (n.enter depth own).current = (above.foldl Affine.comp base).comp own :=
        congrArg (Affine.comp · own) h
      exact congrArg₂ List.cons here below
    | false =>
      have passed : ((n.leaf depth own).1.unwind (depth + 1)).current =
          above.foldl Affine.comp base := by
        change ((n.unwind depth).unwind (depth + 1)).current = _
        rw [unwind_of_le _ (by omega), h]
      have below := answers_callsOf base passed children
      have here : (n.leaf depth own).2 = (above.foldl Affine.comp base).comp own :=
        congrArg (Affine.comp · own) h
      exact congrArg₂ List.cons here below

theorem answers_callsOf (base : Affine α) {n : Nesting α} {depth : Int} {above : List (Affine α)}
    (h : (n.unwind depth).current = above.foldl Affine.comp base) :
    (ts : List (CallTree α)) → n.answers (CallTree.callsOf depth ts) =
      (CallTree.placesOf above ts).map fun p => (p.1.foldl Affine.comp base).comp p.2
  | [] => rfl
  | t :: ts => by
    have next : (((t.calls depth).foldl apply n).unwind depth).current =
        above.foldl Affine.comp base := by rw [unwind_calls, h]
    rw [CallTree.callsOf, CallTree.placesOf, answers_append, List.map_append,
      answers_calls base h t, answers_callsOf base next ts]

end

/-- **The levels of a nesting.** After any calls at any depths, they are the groups entered
since which every call was deeper. Their depths increase, and each has the composition of the
base and the maps down to it, folded from the left. A call for an element that is no group
answers with the fold for the groups still open and its own map. So does each call of a tree,
with precisely the groups above its node. -/
theorem levels_after (base : Affine α) (calls : List (NestingCall α)) :
    ((after base calls).levels.reverse.map Prod.fst).Pairwise (· < ·) ∧
    (∀ i : Nat, (after base calls).levels.reverse[i]? = (stillOpen calls)[i]?.map fun g =>
      (g.1, (((stillOpen calls).take (i + 1)).map Prod.snd).foldl Affine.comp base)) ∧
    (∀ (depth : Int) (own : Affine α), ((after base calls).leaf depth own).2 =
      (((stillOpen (calls ++ [.leaf depth own])).map Prod.snd).foldl Affine.comp base).comp own) ∧
    ∀ (t : CallTree α) (depth : Int), (root base).answers (t.calls depth) =
      (t.places []).map fun p => (p.1.foldl Affine.comp base).comp p.2 := by
  refine ⟨?_, fun i => ?_, fun depth own => ?_, fun t depth => ?_⟩
  · rw [after_eq, map_fst_levels_holding]
    exact stillOpen_increasing calls
  · rw [after_eq]
    exact getElem?_levels_holding base _ i
  · change ((after base calls).unwind depth).current.comp own = _
    rw [unwind_after, current_holding, stillOpen_concat, entered, List.append_nil]
    rfl
  · exact answers_calls base rfl t

end Nesting

end BoardPlotter
