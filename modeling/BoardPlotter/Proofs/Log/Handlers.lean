import BoardPlotter.Log.Setup

/-!
# The handlers of a log

A log is set up by calls one after another, whatever has become of the files in between.
`Logging.Step` lists what one call may do. A call that is refused for its level does nothing.
One that is refused for its file has changed the level and, if some call has returned before,
taken the handlers. One that is refused for its fields has put up its own handlers as well.

Until a call has returned no handlers are taken, so those of calls that were refused for their
fields are still there behind the first one that returns
(`Logging.handlers_after_eq_nil_iff`). `Logging.set_up_whole_iff` says when the handlers are
those that a call returned, and when a refused call has changed nothing.
-/

namespace BoardPlotter.Logging

/-- A call that sets the log up: what it asks for, and the files that are there by then. -/
structure Call where
  request : LogRequest
  files : Tree

/-- The log behind a call. -/
def next (s : Logging) (c : Call) : Logging := (s.setUp c.files c.request).1

/-- What a call returns. -/
def answer (s : Logging) (c : Call) : Except LogError (List Handler) :=
  (s.setUp c.files c.request).2.2

/-- The log behind calls one after another. -/
def after (s : Logging) (calls : List Call) : Logging := calls.foldl next s

/-- What calls one after another return. -/
def answers (s : Logging) : List Call → List (Except LogError (List Handler))
  | [] => []
  | c :: calls => s.answer c :: (s.next c).answers calls

/-- What a call may return, and the log that it then leaves. -/
inductive Step (s : Logging) (r : LogRequest) : Except LogError (List Handler) → Logging → Prop
  | unknown : levelOf? r.level = none → Step s r (.error (.level r.level)) s
  | unopened {level : Int} (e : OsError) : levelOf? r.level = some level →
      Step s r (.error (.system e)) ⟨level, s.kept, s.context, s.configured⟩
  | unpushed {level : Int} (files : List Handler) (kind : String) :
      levelOf? r.level = some level → r.fields = .error (.fields kind) →
      Step s r (.error (.fields kind))
        ⟨level, s.kept ++ .console r.format :: files, s.context, s.configured⟩
  | done {level : Int} (files : List Handler) (fields : Fields) :
      levelOf? r.level = some level →
      Step s r (.ok (.console r.format :: files))
        ⟨level, s.kept ++ .console r.format :: files, s.context.push fields, true⟩

theorem fields_eq_error {r : LogRequest} {e : LogError} (h : r.fields = .error e) :
    ∃ kind, e = .fields kind := by
  rw [LogRequest.fields] at h
  split at h
  · cases h
  · split at h
    · exact ⟨_, (Except.error.inj h).symm⟩
    · cases h

theorem step_of_call (s : Logging) (c : Call) : Step s c.request (s.answer c) (s.next c) := by
  rw [answer, next, setUp]
  cases known : levelOf? c.request.level with
  | none => exact .unknown known
  | some level =>
    dsimp only
    obtain ⟨t, opened⟩ := openFile c.files c.request.format c.request.file
    cases opened with
    | error e => exact .unopened e known
    | ok files =>
      dsimp only
      cases pushed : c.request.fields with
      | ok fields => exact .done files fields known
      | error e =>
        obtain ⟨kind, rfl⟩ := fields_eq_error pushed
        exact .unpushed files kind known pushed

/-! ### Runs of calls -/

/-- A log is configured by a call that returns, and stays so. -/
theorem configured_next (s : Logging) (c : Call) :
    (s.next c).configured = true ↔ s.configured = true ∨ ∃ hs, s.answer c = .ok hs := by
  have step := step_of_call s c
  generalize s.answer c = a at step ⊢
  generalize s.next c = s' at step ⊢
  cases step <;> simp

theorem configured_after (s : Logging) (calls : List Call) :
    (s.after calls).configured = true ↔
      s.configured = true ∨ ∃ hs, .ok hs ∈ s.answers calls := by
  induction calls generalizing s with
  | nil => simp [after, answers]
  | cons c calls ih =>
    rw [after, List.foldl_cons, ← after, ih, configured_next, answers]
    simp only [List.mem_cons, exists_or, or_assoc, eq_comm]

/-- A call leaves no handlers where none stay, unless it made some. -/
theorem handlers_next_eq_nil_iff {s : Logging} {c : Call} (fresh : (s.next c).configured = false) :
    (s.next c).handlers = [] ↔
      s.handlers = [] ∧ ∀ kind, s.answer c ≠ .error (.fields kind) := by
  have first : s.kept = s.handlers := by
    have before : s.configured ≠ true := fun h => by
      rw [(configured_next s c).mpr (.inl h)] at fresh
      cases fresh
    exact if_neg before
  have step := step_of_call s c
  generalize s.answer c = a at step ⊢
  generalize s.next c = s' at step fresh ⊢
  cases step with
  | unknown => simp
  | unopened => simp [first]
  | unpushed => simp
  | done => cases fresh

/-- Before a call has returned, no handlers are there just if no call was refused for its
fields. -/
theorem handlers_after_eq_nil_iff {s : Logging} {calls : List Call}
    (fresh : (s.after calls).configured = false) :
    (s.after calls).handlers = [] ↔
      s.handlers = [] ∧ ∀ kind, .error (.fields kind) ∉ s.answers calls := by
  induction calls generalizing s with
  | nil => simp [after, answers]
  | cons c calls ih =>
    rw [after, List.foldl_cons, ← after] at fresh ⊢
    have before : (s.next c).configured = false := by
      rw [← Bool.not_eq_true] at fresh ⊢
      exact fun h => fresh ((configured_after _ calls).mpr (.inl h))
    rw [ih fresh, handlers_next_eq_nil_iff before, answers, and_assoc]
    simp only [List.mem_cons, not_or, forall_and, ne_eq, eq_comm]

/-- The handlers that stay in a log that was not set up before its calls: none, unless no
call has returned. -/
theorem kept_after_eq_nil_iff (calls : List Call) :
    (initial.after calls).kept = [] ↔ (∃ hs, .ok hs ∈ initial.answers calls) ∨
      ∀ kind, .error (.fields kind) ∉ initial.answers calls := by
  have returned := configured_after initial calls
  rw [kept]
  split
  · next h => exact iff_of_true rfl (.inl ((returned.mp h).resolve_left Bool.false_ne_true))
  · next h =>
    have fresh := Bool.not_eq_true _ ▸ h
    have none_ : ¬ ∃ hs, .ok hs ∈ initial.answers calls := fun ok => h (returned.mpr (.inr ok))
    rw [handlers_after_eq_nil_iff fresh, or_iff_right none_]
    exact and_iff_right rfl

theorem kept_eq_handlers_iff (s : Logging) :
    s.kept = s.handlers ↔ s.handlers = [] ∨ s.configured = false := by
  rw [kept]
  split
  · next h => simp [h, eq_comm]
  · next h => simp [h]

/-- **What a call leaves.** A call that returns has set the level it asks for, and the handlers
are those it returned, unless it is the first to return and some before it was refused for its
fields. A call that is refused for its level has changed nothing. One that is refused for its
file has left the context alone, but it has set the level and taken the handlers of a call that
returned; so all is as before just if the level is the same and there were no such handlers.
One is refused for its fields only if they are no map, and leaves its own handlers there. -/
theorem set_up_whole_iff (calls : List Call) (c : Call) :
    let s := initial.after calls
    let s' := s.next c
    let before := initial.answers calls
    match s.answer c with
    | .ok hs =>
      levelOf? c.request.level = some s'.level ∧
        (s'.handlers = hs ↔
          (∃ made, .ok made ∈ before) ∨ ∀ kind, .error (.fields kind) ∉ before)
    | .error (.level name) => name = c.request.level ∧ levelOf? name = none ∧ s' = s
    | .error (.system _) =>
      levelOf? c.request.level = some s'.level ∧ s'.context = s.context ∧
        (s'.handlers = s.handlers ∧ s'.level = s.level ↔
          (s.handlers = [] ∨ ∀ made, .ok made ∉ before) ∧ levelOf? c.request.level = some s.level)
    | .error (.fields kind) =>
      c.request.fields = .error (.fields kind) ∧
        levelOf? c.request.level = some s'.level ∧ s'.context = s.context ∧
        ∃ files, s'.handlers = s.kept ++ .console c.request.format :: files := by
  intro s s' before
  have stay : s.kept = [] ↔ _ := kept_after_eq_nil_iff calls
  have returned : s.configured = false ↔ ∀ made, .ok made ∉ before := by
    rw [← Bool.not_eq_true, configured_after initial calls, ← not_exists]
    exact not_congr (or_iff_right Bool.false_ne_true)
  have step : Step s c.request (s.answer c) s' := step_of_call s c
  generalize s.answer c = a at step ⊢
  generalize s' = left at step ⊢
  cases step with
  | unknown unnamed => exact ⟨rfl, unnamed, rfl⟩
  | unopened e known =>
    refine ⟨known, rfl, and_congr ?_ ?_⟩
    · rw [kept_eq_handlers_iff, returned]
    · rw [known, Option.some_inj]
  | unpushed files kind known noMap => exact ⟨noMap, known, rfl, files, rfl⟩
  | done files fields known =>
    refine ⟨known, ?_⟩
    rw [← stay]
    exact List.append_left_eq_self

/-- A directory for a file: where nothing was set up the level is another one, and behind a
call that returned, its handlers are gone. Fields that are no map: the console is there
already, and where no call has returned it stays for the one that does. -/
theorem refused_calls_leave_traces :
    let file : Call := ⟨{ level := "DEBUG", file := some "." }, .empty⟩
    let fields : Call := ⟨{ context := .text "svg=a.svg" }, .empty⟩
    let plain : Call := ⟨{}, .empty⟩
    let refused : LogError := .system { cause := .isDirectory, place := [] }
    initial.answer file = .error refused ∧ (initial.next file).level ≠ initial.level ∧
    (initial.after [plain]).answer file = .error refused ∧
    (initial.after [plain]).handlers = [.console .human] ∧
    (initial.after [plain, file]).handlers = [] ∧
    (initial.after [file, fields]).answer plain = .ok [.console .human] ∧
    (initial.after [file, fields, plain]).handlers = [.console .human, .console .human] := by
  intro file fields plain refused
  have debug : levelOf? "DEBUG" = some 10 := by decide +kernel
  have info : levelOf? "INFO" = some 20 := by decide +kernel
  have opened : openFile .empty .human (some ".") =
      (.empty, .error { cause := .isDirectory, place := [] }) := rfl
  -- What each of the three calls does to any log.
  have unopened (s : Logging) : s.answer file = .error refused ∧
      s.next file = { s with level := 10, handlers := s.kept } := by
    simp only [answer, next, setUp, file, debug, LogRequest.format, opened, Bool.false_eq_true,
      if_false, refused, and_self]
  have unpushed (s : Logging) :
      s.next fields = { s with level := 20, handlers := s.kept ++ [.console .human] } := by
    rw [next, setUp, info]
    rfl
  have done (s : Logging) : s.answer plain = .ok [.console .human] ∧
      s.next plain = ⟨20, s.kept ++ [.console .human], s.context.push [], true⟩ := by
    rw [answer, next, setUp, info]
    exact ⟨rfl, rfl⟩
  refine ⟨(unopened _).1, ?_, (unopened _).1, ?_, ?_, (done _).1, ?_⟩
  · rw [(unopened _).2]
    decide
  · rw [after, List.foldl_cons, (done _).2]
    rfl
  · rw [after, List.foldl_cons, List.foldl_cons, (unopened _).2, (done _).2]
    rfl
  · rw [after, List.foldl_cons, List.foldl_cons, List.foldl_cons, (done _).2, unpushed,
      (unopened _).2]
    rfl

end BoardPlotter.Logging
