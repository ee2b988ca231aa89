import TaskPlatform.Invariant

/-!
# Attempts in progress

An attempt row is closed by the worker's outcome and by recovery, not by a
cancellation. A task that leaves `running` by another way keeps an open attempt,
and when it is put back into the queue its next start opens a second one. As
long as only tasks without an open attempt are put back, no task has two.
-/

namespace TaskPlatform

open Run

def openAttempts (attempts : List (Nat × TaskAttempt)) : List (Nat × TaskAttempt) :=
  attempts.filter (fun r => r.2.status == .running)

/-- At most one attempt is open, and none while the task waits in the queue. -/
structure View.Single (v : View) : Prop where
  atMostOne : (openAttempts v.attempts).length ≤ 1
  queued : ∀ row, v.row = some row → row.status = .queued → openAttempts v.attempts = []

/-- Rewriting a key without opening an attempt opens none. -/
theorem openAttempts_rewrite (v : View) (attemptId : Nat) {f : TaskAttempt → TaskAttempt}
    (hf : ∀ a, (f a).status ≠ .running) :
    openAttempts (v.rewrite attemptId f).attempts =
      (openAttempts v.attempts).filter (fun r => decide (r.1 ≠ attemptId)) := by
  simp only [openAttempts, View.rewrite]
  induction v.attempts with
  | nil => rfl
  | cons r attempts ih =>
    simp only [List.map_cons, List.filter_cons, ih]
    by_cases hr : r.1 = attemptId
    · by_cases hrun : r.2.status = .running <;> simp [hr, hrun, hf]
    · by_cases hrun : r.2.status = .running <;> simp [hr, hrun]

/-- Recovery closes the only open attempt. -/
theorem openAttempts_closeLast (now : Time) {v : View}
    (h : (openAttempts v.attempts).length ≤ 1) :
    openAttempts (v.closeLast now).attempts = [] := by
  unfold View.closeLast
  split
  · rename_i hnone
    rw [lastRunning, List.head?_eq_none_iff] at hnone
    have hlen := congrArg List.length hnone
    rw [List.length_insertionSort] at hlen
    exact List.eq_nil_of_length_eq_zero hlen
  · rename_i a ha
    rw [openAttempts_rewrite v a.1 (fun _ => by simp [closedAttempt])]
    obtain ⟨hmem, hrun⟩ := lastRunning_mem ha
    have hopen : a ∈ openAttempts v.attempts := by
      rw [openAttempts, List.mem_filter]
      exact ⟨hmem, by simpa using hrun⟩
    have hlt : ((openAttempts v.attempts).filter (fun r => decide (r.1 ≠ a.1))).length <
        (openAttempts v.attempts).length :=
      List.length_filter_lt_length_iff_exists.mpr ⟨a, hopen, by simp⟩
    exact List.eq_nil_of_length_eq_zero (by omega)

/-- A task that was never started has no attempt. -/
theorem View.Sound.no_attempts {v : View} {row : Task} (h : v.Sound row)
    (hc : row.status = .created) : v.attempts = [] := by
  have hnum := h.numbered
  rw [h.unstarted hc, List.range'_zero, List.map_eq_nil_iff] at hnum
  exact hnum

theorem View.Step.single {cfg : Settings} {id : TaskId} {v v' : View} {l : Label}
    (h : View.Step cfg id v l v') (hok : v.Ok) (hs : v.Single)
    (hclean : ∀ cause : Cause, cause.requeues = true → l = .enqueue cause id →
      openAttempts v.attempts = []) : v'.Single := by
  cases h with
  | insert now spec hrow =>
    rw [View.Ok, hrow] at hok
    have hnone : openAttempts v.attempts = [] := by rw [hok.2]; rfl
    exact ⟨hs.atMostOne, fun _ _ _ => hnone⟩
  | block now parents details hrow hc => exact ⟨hs.atMostOne, hs.queued⟩
  | schedule now hrow hc hat => exact ⟨hs.atMostOne, fun r hr hq => by cases hr; cases hq⟩
  | @enqueue row now cause eventType details hrow hsource =>
    have hnone : openAttempts v.attempts = [] := by
      cases hcause : cause.requeues with
      | true => exact hclean cause hcause rfl
      | false =>
        rw [(hok.sound hrow).no_attempts (cause.created_of_first hcause hsource)]
        rfl
    exact ⟨hs.atMostOne, fun _ _ _ => hnone⟩
  | cancel now details hrow hc => exact ⟨hs.atMostOne, fun r hr hq => by cases hr; cases hq⟩
  | @start row now w attemptId hrow hq hfree =>
    have hnone := hs.queued row hrow hq
    refine ⟨?_, fun r hr hq => by cases hr; cases hq⟩
    simp only [openAttempts, View.started, View.record, View.attempt, View.write,
      List.filter_append] at hnone ⊢
    rw [hnone]
    simp [newAttempt]
  | @renew row now w hrow howner hrun =>
    refine ⟨hs.atMostOne, fun r hr hq => ?_⟩
    cases hr
    exact hs.queued row hrow hq
  | @close attemptId loaded cur hclose =>
    have hopen := openAttempts_rewrite v attemptId hclose.merge_status
    refine ⟨?_, fun row hrow hq => ?_⟩
    · rw [hopen]
      exact le_trans (List.length_filter_le _ _) hs.atMostOne
    · rw [hopen, hs.queued row hrow hq]
      rfl
  | @finish row now w held task new eventType details hvalid hrow hrun hout =>
    refine ⟨hs.atMostOne, fun r hr hq => ?_⟩
    cases hr
    rw [show ((Task.merge held.task.loaded (setStatusFields now task new) row).touch now).status
      = new from (hvalid.merge row now hout).1] at hq
    rw [hq] at hout
    cases hout
  | @stamp row now dlqRetryAt hrow =>
    refine ⟨hs.atMostOne, fun r hr hq => ?_⟩
    cases hr
    exact hs.queued row hrow hq
  | recover now details hrow hrun hexpired =>
    have hnone := openAttempts_closeLast now hs.atMostOne
    exact ⟨le_of_eq_of_le (congrArg List.length hnone) (Nat.zero_le 1), fun _ _ _ => hnone⟩
  | @release row now hrow hq hlease =>
    refine ⟨hs.atMostOne, fun r hr _ => ?_⟩
    exact hs.queued row hrow hq
  | delete hrow hfin => exact ⟨Nat.zero_le 1, fun r hr => by cases hr⟩

theorem Change.single {cfg : Settings} {db db' : Database} {l : Label} (h : Change cfg db l db')
    (hok : ∀ id, (db.view id).Ok) (hs : ∀ id, (db.view id).Single)
    (hclean : ∀ (cause : Cause) (id : TaskId), cause.requeues = true → l = .enqueue cause id →
      openAttempts (db.attemptsOf id) = []) (id : TaskId) : (db'.view id).Single := by
  obtain hsame | hstep := view_change h id
  · rw [hsame]; exact hs id
  · exact hstep.single (hok id) (hs id) fun cause hc hl => hclean cause id hc hl

/-- None of the tasks that would be put back has an open attempt. -/
def Closed (db : Database) (cause : Cause) (ids : List TaskId) : Prop :=
  ∀ id ∈ ids, ∀ row ∈ db.tasks.get id, row.status ∈ cause.sources →
    ∀ r ∈ db.attemptsOf id, r.2.status ≠ .running

/-- Whatever the action puts back into the queue has no open attempt. -/
def RequeuesClosed (cfg : Settings) (p : Platform) : Action → Prop
  | .manualRetry _ id => Closed p.db .retry [id]
  | .bulkRetry _ ids => Closed p.db .retry ids
  | .requeueDue now limit locked => Closed p.db .due (dueIds now limit locked p.db)
  | .requeueDlq now limit locked => Closed p.db .dlq (dlqIds cfg now limit locked p.db)
  | _ => True

instance (db : Database) (cause : Cause) (ids : List TaskId) : Decidable (Closed db cause ids) := by
  unfold Closed; infer_instance

instance (cfg : Settings) (p : Platform) (a : Action) : Decidable (RequeuesClosed cfg p a) := by
  rcases a <;> unfold RequeuesClosed <;> infer_instance

/-- An enqueueing leaves the other tasks of the same transaction as clean as they were. -/
theorem Change.closed {cfg : Settings} {db db' : Database} {cause : Cause} {i : TaskId}
    (h : Change cfg db (.enqueue cause i) db') {cause' : Cause} {ids : List TaskId}
    (hnot : .queued ∉ cause'.sources) (hc : Closed db cause' ids) : Closed db' cause' ids := by
  intro id hid row hrow hsource r hr
  obtain hsame | hstep := view_change h id
  · have hr' : r ∈ (db'.view id).attempts := hr
    have hrow' : (db'.view id).row = some row := hrow
    rw [hsame] at hr' hrow'
    exact hc id hid row hrow' hsource r hr'
  · have hrow' : (db'.view id).row = some row := hrow
    cases hview : db'.view id
    rw [hview] at hstep hrow'
    cases hstep with
    | enqueue =>
      cases hrow'
      exact absurd hsource hnot

theorem enqueues_single {cfg : Settings} {db db' : Database} {ls : List Label} {cause : Cause}
    {ids : List TaskId} (h : Trace (Change cfg) db ls db')
    (hls : ∀ l ∈ ls, ∃ id ∈ ids, l = .enqueue cause id) (hnot : .queued ∉ cause.sources)
    (hclosed : Closed db cause ids) (hok : ∀ id, (db.view id).Ok)
    (hs : ∀ id, (db.view id).Single) : ∀ id, (db'.view id).Single := by
  refine (h.invariant (P := fun db => (∀ id, (db.view id).Ok) ∧ (∀ id, (db.view id).Single) ∧
    Closed db cause ids) ?_ hls ⟨hok, hs, hclosed⟩).2.1
  rintro db l db₁ ⟨hok, hs, hclosed⟩ ⟨i, hi, rfl⟩ hc
  refine ⟨hc.views hok, hc.single hok hs ?_, hc.closed hnot hclosed⟩
  intro cause' id _ hl
  cases hl
  obtain ⟨row, hrow, hsource, -⟩ := hc.enqueue_row
  rw [openAttempts, List.filter_eq_nil_iff]
  intro r hr
  simpa using hclosed i hi row hrow hsource r hr

theorem others_single {cfg : Settings} {db db' : Database} {ls : List Label}
    (h : Trace (Change cfg) db ls db')
    (hls : ∀ l ∈ ls, ∀ (cause : Cause) id, l = .enqueue cause id → cause.requeues = false)
    (hok : ∀ id, (db.view id).Ok) (hs : ∀ id, (db.view id).Single) :
    ∀ id, (db'.view id).Single := by
  refine (h.invariant (P := fun db => (∀ id, (db.view id).Ok) ∧ (∀ id, (db.view id).Single))
    ?_ hls ⟨hok, hs⟩).2
  rintro db l db₁ ⟨hok, hs⟩ hl hc
  refine ⟨hc.views hok, hc.single hok hs fun cause id hreq he => ?_⟩
  rw [hl cause id he] at hreq
  cases hreq

theorem step_single {cfg : Settings} {p : Platform} (h : p.Sound)
    (hs : ∀ id, (p.db.view id).Single) (a : Action) (hc : RequeuesClosed cfg p a) :
    ∀ id, ((p.step cfg a).db.view id).Single := by
  obtain ⟨ls, htr, hls⟩ : ∃ ls, Trace (Change cfg) p.db ls (p.step cfg a).db ∧
    ∀ l ∈ ls, a.Allows cfg p l := step_trace h.foreignKeys h.held a
  cases a with
  | manualRetry now id =>
    exact enqueues_single htr (fun l hl => ⟨id, List.mem_cons_self, hls l hl⟩) (by decide) hc
      h.views hs
  | bulkRetry now ids => exact enqueues_single htr hls (by decide) hc h.views hs
  | requeueDue now limit locked => exact enqueues_single htr hls (by decide) hc h.views hs
  | requeueDlq now limit locked => exact enqueues_single htr hls (by decide) hc h.views hs
  | _ =>
    exact others_single htr
      (fun l hl cause id he => Action.Allows.not_requeues (he ▸ hls l hl) rfl) h.views hs

/-- Along a run in which only tasks without an open attempt are put back into the queue, no task
ever has two attempts in progress. -/
theorem open_attempts_le_one (cfg : Settings) (acts : List Action)
    (h : Along (Platform.step cfg) (RequeuesClosed cfg) Platform.initial acts) (id : TaskId) :
    (openAttempts ((Platform.after cfg acts).db.attemptsOf id)).length ≤ 1 := by
  have hsingle := along_invariant
    (P := fun p : Platform => p.Sound ∧ ∀ id, (p.db.view id).Single)
    (fun p a hp hc => ⟨hp.1.step cfg a, step_single hp.1 hp.2 a hc⟩)
    ⟨Platform.initial_sound, fun id => ⟨Nat.zero_le 1, fun row hrow => by cases hrow⟩⟩ h
  exact (hsingle.2 id).atMostOne

/-- A task fails, is retried by an operator and is started again. -/
def retryRun : List Action :=
  [.createTask 0 plainSpec, .start 1 "w1" 1, .recordFailure 2 "w1" "boom" false,
    .manualRetry 3 1, .start 4 "w2" 1]

theorem open_attempts_le_one_retryRun :
    (openAttempts ((Platform.after .default retryRun).db.attemptsOf 1)).length ≤ 1 :=
  open_attempts_le_one .default retryRun (by decide +kernel) 1

/-- A running task is cancelled, retried and started again. -/
def cancelRetryRun : List Action :=
  [.createTask 0 plainSpec, .start 1 "w1" 1, .cancelTask 2 1, .manualRetry 3 1, .start 4 "w2" 1]

/-- The cancelled attempt stays open next to the second one. -/
theorem cancelRetryRun_two_open :
    ¬ ∀ id, (openAttempts ((Platform.after .default cancelRetryRun).db.attemptsOf id)).length ≤ 1 :=
  fun h => absurd (h 1) (by decide +kernel)

end TaskPlatform
