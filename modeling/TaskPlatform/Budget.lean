import TaskPlatform.Execution
import TaskPlatform.Fencing

/-!
# The attempt budget

A start uses up one entry into the queue. A task enters the queue once after its
creation, once after each decision to retry it, and otherwise by a recovery, an
operator or the dead-letter queue. A decision to retry is taken on the counter
of the worker that takes it, which is the number of its attempt; no number is
used twice, and only numbers below `max_attempts` lead to a retry.
-/

namespace TaskPlatform

open Run

/-- The statuses in which a task waits for a start without being put back by another hand. -/
def waitingStatuses : List Status := [.created, .scheduled, .queued, .retryScheduled]

/-- The starts of a task so far, with the one that it waits for. -/
def charge (row : Task) : Nat := row.attempts + if row.status ∈ waitingStatuses then 1 else 0

/-- The step recovers the task from an expired lease. -/
def recovers (cfg : Settings) (id : TaskId) (p : Platform) : Action → Bool
  | .recoverStuck now limit locked => entersQueue cfg id p (.recoverStuck now limit locked)
  | _ => false

/-- The step is an operator's retry of the task. -/
def retries (cfg : Settings) (id : TaskId) (p : Platform) : Action → Bool
  | .manualRetry now i => entersQueue cfg id p (.manualRetry now i)
  | .bulkRetry now ids => entersQueue cfg id p (.bulkRetry now ids)
  | _ => false

def isRetryScheduled (id : TaskId) (p : Platform) : Bool :=
  (p.db.tasks.get id).any (fun row => row.status == .retryScheduled)

/-- The step moves the task to `retry_scheduled`. -/
def entersRetry (cfg : Settings) (id : TaskId) (p : Platform) (a : Action) : Bool :=
  !isRetryScheduled id p && isRetryScheduled id (p.step cfg a)

section

variable {cfg : Settings} {id : TaskId} {row row' : Task} {l : Label}

/-- An outcome writes neither the limit nor what the dead-letter queue keeps. -/
theorem Held.Valid.merge_counters {task : Task} {new : Status} {w : WorkerId} {held : Held}
    (_ : held.Valid w) (row : Task) (now : Time)
    (hout : OutcomeFields now held.task.loaded new task) :
    let merged := Task.merge held.task.loaded (setStatusFields now task new) row
    merged.maxAttempts = row.maxAttempts ∧ merged.dlqRequeueCount = row.dlqRequeueCount ∧
      merged.dlqRetryAt = row.dlqRetryAt := by
  cases hout <;> simp [Task.merge, setStatusFields_eq]

theorem movedTask_maxAttempts (now : Time) (row : Task) (new : Status) :
    (movedTask now row new).maxAttempts = row.maxAttempts := by
  simp [movedTask, Task.touch, setStatusFields_eq]

theorem movedTask_dlqRequeueCount (now : Time) (row : Task) (new : Status) :
    (movedTask now row new).dlqRequeueCount = row.dlqRequeueCount := by
  simp [movedTask, Task.touch, setStatusFields_eq]

theorem Task.Step.maxAttempts (h : Task.Step cfg id row l row') :
    row'.maxAttempts = row.maxAttempts := by
  cases h with
  | enqueue now cause hs => rw [movedTask_maxAttempts]; cases cause <;> rfl
  | finish now hv hs hout => exact (hv.merge_counters row now hout).1
  | schedule | cancel | recover => exact movedTask_maxAttempts _ _ _
  | _ => rfl

theorem Task.Step.dlqRequeueCount_le (h : Task.Step cfg id row l row') :
    row.dlqRequeueCount ≤ row'.dlqRequeueCount := by
  cases h with
  | enqueue now cause hs =>
    rw [movedTask_dlqRequeueCount]
    cases cause
    case dlq => exact Nat.le_succ _
    all_goals exact le_refl _
  | finish now hv hs hout => exact le_of_eq (hv.merge_counters row now hout).2.1.symm
  | schedule | cancel | recover => exact le_of_eq (movedTask_dlqRequeueCount _ _ _).symm
  | _ => exact le_refl _

theorem Task.Step.attempts_eq (h : Task.Step cfg id row l row') (hl : ∀ w, l ≠ .start w id) :
    row'.attempts = row.attempts := by
  cases h with
  | enqueue now cause hs => rw [movedTask_attempts, Cause.prepare_attempts]
  | finish now hv hs hout => exact (hv.merge row now hout).2.2.2.1
  | start now w hs hfree => exact absurd rfl (hl w)
  | schedule | cancel | recover => exact movedTask_attempts _ _ _
  | _ => rfl

theorem Task.Step.attempts_le (h : Task.Step cfg id row l row') :
    row.attempts ≤ row'.attempts := by
  by_cases hl : ∀ w, l ≠ .start w id
  · exact le_of_eq (h.attempts_eq hl).symm
  · cases h with
    | start now w hs hfree => exact Nat.le_succ _
    | same => exact le_refl _
    | _ => exact absurd (fun w he => by cases he) hl

/-- How a task that does not wait comes to wait. -/
theorem Task.Step.awake (h : Task.Step cfg id row l row') (hrow : row.status ∉ waitingStatuses)
    (hrow' : row'.status ∈ waitingStatuses) :
    row'.status = .queued ∧ (l = .enqueue .retry id ∨ l = .recover id ∨
        l = .enqueue .dlq id ∧ row.dlqRequeueCount < row'.dlqRequeueCount) ∨
      row'.status = .retryScheduled ∧ l = .settle id .retryScheduled := by
  cases h with
  | same => exact absurd hrow' hrow
  | schedule now hs hat => rw [hs] at hrow; exact absurd (by decide) hrow
  | enqueue now cause hs =>
    refine .inl ⟨rfl, ?_⟩
    cases cause with
    | create | unblock =>
      rw [List.mem_singleton.mp hs] at hrow
      exact absurd (by decide) hrow
    | due =>
      refine absurd ?_ hrow
      revert hs
      cases row.status <;> decide
    | retry => exact .inl rfl
    | dlq =>
      refine .inr (.inr ⟨rfl, ?_⟩)
      rw [movedTask_dlqRequeueCount]
      exact Nat.lt_succ_self _
  | cancel now hs => exact absurd hrow' (by simp [waitingStatuses])
  | start now w hs hfree => rw [hs] at hrow; exact absurd (by decide) hrow
  | renew now w howner hs => exact absurd hrow' hrow
  | finish now hv hs hout =>
    have hnew := (hv.merge row now hout).1
    simp only [Task.touch, hnew] at hrow' ⊢
    cases hout with
    | retry => exact .inr ⟨rfl, rfl⟩
    | success | deadLetter | failed => exact absurd hrow' (by decide)
  | stamp now dlqRetryAt => exact absurd hrow' hrow
  | recover now hs hexpired => exact .inl ⟨rfl, .inr (.inl rfl)⟩
  | release now hs hlease => rw [hs] at hrow; exact absurd (by decide) hrow

/-- A queued task leaves the queue by a start or a cancellation. -/
theorem Task.Step.stays_queued (h : Task.Step cfg id row l row') (hq : row.status = .queued)
    (hstart : ∀ w, l ≠ .start w id) (hsettle : ∀ new, l ≠ .settle id new) :
    row'.status = .queued := by
  cases h with
  | same => exact hq
  | schedule now hs hat => rw [hq] at hs; cases hs
  | enqueue now cause hs => rfl
  | cancel now hs => exact absurd rfl (hsettle _)
  | start now w hs hfree => exact absurd rfl (hstart w)
  | renew now w howner hs => exact hq
  | finish now hv hs hout => rw [hq] at hs; cases hs
  | stamp now dlqRetryAt => exact hq
  | recover now hs hexpired => rw [hq] at hs; cases hs
  | release now hs hlease => exact hq

/-- Only a decision moves a task to `retry_scheduled`. -/
theorem Task.Step.retryScheduled (h : Task.Step cfg id row l row')
    (hs : row'.status = .retryScheduled) :
    row.status = .retryScheduled ∨ l = .settle id .retryScheduled := by
  cases h with
  | same => exact .inl hs
  | finish now hv hrun hout =>
    have hnew := (hv.merge row now hout).1
    simp only [Task.touch, hnew] at hs
    rw [hs]
    exact .inr rfl
  | renew | stamp | release => exact .inl hs
  | _ => cases hs

/-- A start takes the charge over from the queue. -/
theorem Task.Step.charge_start {w : WorkerId} {i : TaskId}
    (h : Task.Step cfg id row (.start w i) row') :
    charge row' = charge row ∧ row'.dlqRequeueCount = row.dlqRequeueCount := by
  cases h with
  | same => exact ⟨rfl, rfl⟩
  | start now w hs hfree =>
    refine ⟨?_, rfl⟩
    simp [charge, startedTask, hs, waitingStatuses]

end

/-- The labels that make a task wait that does not. -/
def Wakes (id : TaskId) (l : Label) : Prop :=
  l = .enqueue .retry id ∨ l = .recover id ∨ l = .enqueue .dlq id ∨ l = .settle id .retryScheduled

section

variable {cfg : Settings} {id : TaskId} {db db' : Database} {ls : List Label} {row row' : Task}

theorem wakes_of_trace (htr : Trace (Change cfg) db ls db') (hrow : db.tasks.get id = some row)
    (hrow' : db'.tasks.get id = some row') (hs : row.status ∉ waitingStatuses)
    (hs' : row'.status ∈ waitingStatuses) : ∃ l ∈ ls, Wakes id l := by
  by_contra hnone
  have hasleep := row_trace_of_lt (P := fun r => r.status ∉ waitingStatuses)
    (Q := fun l => ¬ Wakes id l) htr (fun l hl hw => hnone ⟨l, hl, hw⟩)
    (fun r l r' hstep hl hr hr' => by
      obtain ⟨-, hw | hw | ⟨hw, -⟩⟩ | ⟨-, hw⟩ := hstep.awake hr hr' <;> simp [Wakes, hw] at hl)
    (Table.get_lt hrow) (fun r hr => by rw [hrow] at hr; cases hr; exact hs)
  exact hasleep row' hrow' hs'

/-- Without a start or a decision the task can only get into the queue. -/
theorem queued_of_trace (htr : Trace (Change cfg) db ls db')
    (hlabels : ∀ l ∈ ls, l = .other ∨ (∃ i, l = .recover i) ∨ ∃ cause i, l = .enqueue cause i)
    (hrow : db.tasks.get id = some row) (hrow' : db'.tasks.get id = some row')
    (hs : row.status ∉ waitingStatuses) (hs' : row'.status ∈ waitingStatuses) :
    row'.status = .queued := by
  refine (row_trace_of_lt (P := fun r => r.status ∉ waitingStatuses ∨ r.status = .queued)
    htr hlabels (fun r l r' hstep hl hr => ?_) (Table.get_lt hrow)
    (fun r hr => .inl (by rw [hrow] at hr; cases hr; exact hs)) row' hrow').resolve_left
    (fun hn => hn hs')
  have hsettle : ∀ new, l ≠ .settle id new := by
    rintro new rfl
    rcases hl with he | ⟨i, he⟩ | ⟨cause, i, he⟩ <;> cases he
  have hstart : ∀ w, l ≠ .start w id := by
    rintro w rfl
    rcases hl with he | ⟨i, he⟩ | ⟨cause, i, he⟩ <;> cases he
  rcases hr with hr | hr
  · by_cases hr' : r'.status ∈ waitingStatuses
    · obtain ⟨hq', -⟩ | ⟨-, he⟩ := hstep.awake hr hr'
      · exact .inr hq'
      · exact absurd he (hsettle _)
    · exact .inl hr'
  · exact .inr (hstep.stays_queued hr hstart hsettle)

/-- The sweep over the dead letters counts every task that it makes wait. -/
theorem dlqRequeueCount_lt_of_trace (htr : Trace (Change cfg) db ls db')
    (hlabels : ∀ l ∈ ls, ∃ i, l = .enqueue .dlq i) (hrow : db.tasks.get id = some row)
    (hrow' : db'.tasks.get id = some row') (hs : row.status ∉ waitingStatuses)
    (hs' : row'.status ∈ waitingStatuses) : row.dlqRequeueCount < row'.dlqRequeueCount := by
  refine (row_trace_of_lt
    (P := fun r => row.dlqRequeueCount ≤ r.dlqRequeueCount ∧
      (r.status ∉ waitingStatuses ∨ row.dlqRequeueCount < r.dlqRequeueCount))
    htr hlabels (fun r l r' hstep hl hr => ?_) (Table.get_lt hrow)
    (fun r hr => by rw [hrow] at hr; cases hr; exact ⟨le_refl _, .inl hs⟩) row' hrow').2.resolve_left
    (fun hn => hn hs')
  have hle := hstep.dlqRequeueCount_le
  refine ⟨hr.1.trans hle, ?_⟩
  obtain ⟨i, rfl⟩ := hl
  rcases hr.2 with hn | hlt
  · by_cases hr' : r'.status ∈ waitingStatuses
    · obtain ⟨-, he | he | ⟨-, hlt⟩⟩ | ⟨-, he⟩ := hstep.awake hn hr'
      · cases he
      · cases he
      · exact .inr (lt_of_le_of_lt hr.1 hlt)
      · cases he
    · exact .inl hr'
  · exact .inr (lt_of_lt_of_le hlt hle)

end

section

variable {cfg : Settings} {id : TaskId} {p : Platform} {a : Action} {row row' : Task}

theorem entersQueue_of_row (hrow : p.db.tasks.get id = some row) (hs : row.status ≠ .queued)
    (hrow' : (p.step cfg a).db.tasks.get id = some row') (hs' : row'.status = .queued) :
    entersQueue cfg id p a = true := by
  simp [entersQueue, isQueued, hrow, hs, hrow', hs']

theorem entersRetry_of_row (hrow : p.db.tasks.get id = some row) (hs : row.status ≠ .retryScheduled)
    (hrow' : (p.step cfg a).db.tasks.get id = some row') (hs' : row'.status = .retryScheduled) :
    entersRetry cfg id p a = true := by
  simp [entersRetry, isRetryScheduled, hrow, hs, hrow', hs']

/-- A task that begins to wait does so by recovery, by an operator, from the dead letters or by a
decision to retry it. -/
theorem step_awake (h : p.Sound) (hrow : p.db.tasks.get id = some row)
    (hrow' : (p.step cfg a).db.tasks.get id = some row') (hs : row.status ∉ waitingStatuses)
    (hs' : row'.status ∈ waitingStatuses) :
    recovers cfg id p a = true ∨ retries cfg id p a = true ∨ entersRetry cfg id p a = true ∨
      row.dlqRequeueCount < row'.dlqRequeueCount := by
  obtain ⟨ls, htr, hls⟩ : ∃ ls, Trace (Change cfg) p.db ls (p.step cfg a).db ∧
    ∀ l ∈ ls, a.Allows cfg p l := step_trace h.foreignKeys h.held a
  have hq : row.status ≠ .queued := fun hq => hs (by rw [hq]; decide)
  have hr : row.status ≠ .retryScheduled := fun hr => hs (by rw [hr]; decide)
  have hqueued : (∀ l ∈ ls, l = .other ∨ (∃ i, l = .recover i) ∨ ∃ cause i, l = .enqueue cause i) →
      row'.status = .queued := fun hlabels => queued_of_trace htr hlabels hrow hrow' hs hs'
  obtain ⟨l, hl, hw⟩ := wakes_of_trace htr hrow hrow' hs hs'
  have hallow := hls l hl
  rcases hw with rfl | rfl | rfl | rfl
  · -- an operator's retry
    refine .inr (.inl ?_)
    obtain ⟨now, i, rfl⟩ | ⟨now, ids, rfl⟩ := hallow.retry
    · exact entersQueue_of_row hrow hq hrow' (hqueued fun l hl => .inr (.inr ⟨_, _, hls l hl⟩))
    · refine entersQueue_of_row hrow hq hrow' (hqueued fun l hl => .inr (.inr ?_))
      obtain ⟨i, -, he⟩ := hls l hl
      exact ⟨_, i, he⟩
  · refine .inl ?_
    obtain ⟨now, limit, locked, rfl⟩ := hallow.recover
    refine entersQueue_of_row hrow hq hrow' (hqueued fun l hl => ?_)
    obtain he | ⟨i, -, he⟩ := hls l hl
    · exact .inl he
    · exact .inr (.inl ⟨i, he⟩)
  · -- a dead letter's new cycle
    obtain ⟨now, limit, locked, rfl⟩ := hallow.dlq
    refine .inr (.inr (.inr (dlqRequeueCount_lt_of_trace htr (fun l hl => ?_) hrow hrow' hs hs')))
    obtain ⟨i, -, he⟩ := hls l hl
    exact ⟨i, he⟩
  · -- a decision to retry
    refine .inr (.inr (.inl ?_))
    obtain ⟨w, held, hout, hheld, hid'⟩ := hallow.settle (by decide)
    obtain hsame | ⟨now, row₀, row₁, task, new, hrow₀, hrun, hfields, hrow₁, hnew⟩ :=
      step_outcome_cases cfg h hout hheld
    · rw [hsame, hrow] at hrow'
      cases hrow'
      exact absurd hs' hs
    · rw [hid', hrow'] at hrow₁
      cases hrow₁
      refine entersRetry_of_row hrow hr hrow' ?_
      rw [hnew] at hs' ⊢
      cases hfields with
      | retry => rfl
      | success | deadLetter | failed => exact absurd hs' (by decide)

/-- Only a start raises the counter of a task. -/
theorem step_attempts (h : p.Sound) (ha : ∀ now w i, a ≠ .start now w i)
    (hrow : p.db.tasks.get id = some row) (hrow' : (p.step cfg a).db.tasks.get id = some row') :
    row'.attempts = row.attempts := by
  obtain ⟨ls, htr, hls⟩ : ∃ ls, Trace (Change cfg) p.db ls (p.step cfg a).db ∧
    ∀ l ∈ ls, a.Allows cfg p l := step_trace h.foreignKeys h.held a
  exact row_trace_of_lt (P := fun r => r.attempts = row.attempts) (Q := fun l => ∀ w i, l ≠ .start w i)
    htr (fun l hl w i => (hls l hl).not_start ha w i)
    (fun r l r' hstep hl hr => (hstep.attempts_eq fun w => hl w id).trans hr) (Table.get_lt hrow)
    (fun r hr => by rw [hrow] at hr; cases hr; rfl) row' hrow'

/-- What a step keeps of a row: the limit, and the counters do not fall. -/
theorem step_counters (h : p.Sound) (a : Action) (hrow : p.db.tasks.get id = some row)
    (hrow' : (p.step cfg a).db.tasks.get id = some row') :
    row'.maxAttempts = row.maxAttempts ∧ row.attempts ≤ row'.attempts ∧
      row.dlqRequeueCount ≤ row'.dlqRequeueCount := by
  obtain ⟨ls, htr, -⟩ : ∃ ls, Trace (Change cfg) p.db ls (p.step cfg a).db ∧ _ :=
    step_trace h.foreignKeys h.held a
  exact row_trace_of_lt (P := fun r => r.maxAttempts = row.maxAttempts ∧ row.attempts ≤ r.attempts ∧
      row.dlqRequeueCount ≤ r.dlqRequeueCount) (Q := fun _ => True) htr (fun _ _ => trivial)
    (fun r l r' hstep _ hr => ⟨hstep.maxAttempts.trans hr.1, hr.2.1.trans hstep.attempts_le,
      hr.2.2.trans hstep.dlqRequeueCount_le⟩) (Table.get_lt hrow)
    (fun r hr => by rw [hrow] at hr; cases hr; exact ⟨rfl, le_refl _, le_refl _⟩) row' hrow'

/-- A step raises the charge of a task by what it is counted for. -/
theorem step_charge (h : p.Sound) (a : Action) (hrow : p.db.tasks.get id = some row)
    (hrow' : (p.step cfg a).db.tasks.get id = some row') :
    charge row' + row.dlqRequeueCount ≤ charge row + row'.dlqRequeueCount +
      ((if recovers cfg id p a then 1 else 0) + (if retries cfg id p a then 1 else 0) +
        if entersRetry cfg id p a then 1 else 0) := by
  by_cases ha : ∃ now w i, a = .start now w i
  · obtain ⟨now, w, i, rfl⟩ := ha
    obtain ⟨ls, htr, hls⟩ : ∃ ls, Trace (Change cfg) p.db ls (p.step cfg (.start now w i)).db ∧
      ∀ l ∈ ls, l = .start w i := step_trace h.foreignKeys h.held (.start now w i)
    have hsame := row_trace_of_lt
      (P := fun r => charge r = charge row ∧ r.dlqRequeueCount = row.dlqRequeueCount)
      htr hls (fun r l r' hstep hl hr => by
        subst hl
        exact ⟨hstep.charge_start.1.trans hr.1, hstep.charge_start.2.trans hr.2⟩) (Table.get_lt hrow)
      (fun r hr => by rw [hrow] at hr; cases hr; exact ⟨rfl, rfl⟩) row' hrow'
    omega
  · have hattempts := step_attempts h (fun now w i he => ha ⟨now, w, i, he⟩) hrow hrow'
    have hdlq := (step_counters h a hrow hrow').2.2
    by_cases hs : row.status ∈ waitingStatuses
    · simp only [charge, hs, if_true]
      split <;> omega
    · by_cases hs' : row'.status ∈ waitingStatuses
      · have hawake := step_awake h hrow hrow' hs hs'
        simp only [charge, hs, hs', if_true, if_false]
        rcases hawake with he | he | he | he <;> first | (simp only [he, if_true]; omega) | omega
      · simp only [charge, hs, hs', if_false]
        omega

/-- The charge of a new task is at most the one start that it waits for. -/
theorem step_charge_new (h : p.Sound) (a : Action) (hrow : p.db.tasks.get id = none)
    (hrow' : (p.step cfg a).db.tasks.get id = some row') : charge row' ≤ 1 := by
  obtain ⟨ls, htr, hls⟩ : ∃ ls, Trace (Change cfg) p.db ls (p.step cfg a).db ∧
    ∀ l ∈ ls, a.Allows cfg p l := step_trace h.foreignKeys h.held a
  have hattempts : row'.attempts = 0 := by
    by_cases ha : ∃ now w i, a = .start now w i
    · obtain ⟨now, w, i, rfl⟩ := ha
      exact (row_trace (P := fun _ => False) htr hls (fun _ _ _ _ _ hf => hf)
        (fun hl => by cases hl) (fun r hr => by rw [hrow] at hr; cases hr) row' hrow').elim
    · exact row_trace (P := fun r => r.attempts = 0) (Q := fun l => ∀ w i, l ≠ .start w i) htr
        (fun l hl w i => (hls l hl).not_start (fun now w i he => ha ⟨now, w, i, he⟩) w i)
        (fun r l r' hstep hl hr => (hstep.attempts_eq fun w => hl w id).trans hr)
        (fun _ now spec => rfl) (fun r hr => by rw [hrow] at hr; cases hr) row' hrow'
  rw [charge, hattempts]
  split <;> omega

end

theorem charge_le (cfg : Settings) (acts : List Action) (id : TaskId) {row : Task}
    (h : (Platform.after cfg acts).db.tasks.get id = some row) :
    charge row ≤ 1 + count (Platform.step cfg) (recovers cfg id) Platform.initial acts +
      count (Platform.step cfg) (retries cfg id) Platform.initial acts +
      count (Platform.step cfg) (entersRetry cfg id) Platform.initial acts +
      row.dlqRequeueCount := by
  induction acts using List.reverseRecOn generalizing row with
  | nil => cases h
  | append_singleton acts a ih =>
    have hsound := Platform.after_sound cfg acts
    simp only [Platform.after, run_append, run_cons, run_nil] at h
    rw [count_concat, count_concat, count_concat]
    cases hrow : (Platform.after cfg acts).db.tasks.get id with
    | none =>
      have hnew := step_charge_new hsound a hrow h
      omega
    | some before =>
      have hstep := step_charge hsound a hrow h
      have hbefore := ih hrow
      rw [Platform.after] at hstep
      omega

/-- The step that moves a task to `retry_scheduled` is an outcome of a worker that holds the task,
with a number below the limit that the worker knows. -/
theorem entersRetry_cases {cfg : Settings} {id : TaskId} {p : Platform} {a : Action} (h : p.Sound)
    (he : entersRetry cfg id p a = true) :
    ∃ w held row, a.outcomeOf = some w ∧ p.holding w = some held ∧ held.task.id = id ∧
      p.db.tasks.get id = some row ∧
      held.attempt.attemptNumber < held.task.loaded.maxAttempts := by
  obtain ⟨ls, htr, hls⟩ : ∃ ls, Trace (Change cfg) p.db ls (p.step cfg a).db ∧
    ∀ l ∈ ls, a.Allows cfg p l := step_trace h.foreignKeys h.held a
  simp only [entersRetry, isRetryScheduled, Bool.and_eq_true, Bool.not_eq_true',
    Option.any_eq_true, Option.any_eq_false, beq_iff_eq] at he
  obtain ⟨hbefore, row', hrow', hs'⟩ := he
  have hlabel : .settle id .retryScheduled ∈ ls := by
    by_contra hnone
    refine row_trace (P := fun r => r.status ≠ .retryScheduled)
      (Q := fun l => l ≠ .settle id .retryScheduled) htr (fun l hl he => hnone (he ▸ hl))
      (fun r l r' hstep hl hr => ?_) (fun _ now spec => by simp [TaskSpec.row])
      (fun r hr => by simpa using hbefore r hr) row' hrow' hs'
    exact fun hs => (hstep.retryScheduled hs).elim hr hl
  obtain ⟨w, held, hout, hheld, hid⟩ := (hls _ hlabel).settle (by decide)
  have hv := h.held w held hheld
  obtain hsame | ⟨now, row, row₁, task, new, hrow, hrun, hfields, hrow₁, hnew⟩ :=
    step_outcome_cases cfg h hout hheld
  · rw [hsame] at hrow'
    exact absurd hs' (by simpa using hbefore row' hrow')
  · rw [hid] at hrow hrow₁
    rw [hrow'] at hrow₁
    cases hrow₁
    rw [← hnew, hs'] at hfields
    refine ⟨w, held, row, hout, hheld, hid, hrow, ?_⟩
    rw [hv.number]
    cases hfields with
    | retry error scheduled hlt => exact hlt

/-- What is known of the `n` decisions to retry a task: they were taken with different numbers, all
below the limit, and no worker holds one of these numbers any more. -/
structure Decisions (id : TaskId) (n : Nat) (p : Platform) : Prop where
  unborn : p.db.tasks.next ≤ id → n = 0
  positive : ∀ w held, p.holding w = some held → 1 ≤ held.attempt.attemptNumber
  limit : ∀ w held row, p.holding w = some held → held.task.id = id →
    p.db.tasks.get id = some row → held.task.loaded.maxAttempts = row.maxAttempts
  distinct : ∀ w w' held held', p.holding w = some held → p.holding w' = some held' →
    held.task.id = id → held'.task.id = id →
    held.attempt.attemptNumber = held'.attempt.attemptNumber → w = w'
  used : ∀ row, p.db.tasks.get id = some row → ∃ used : Finset Nat, used.card = n ∧
    (∀ k ∈ used, 1 ≤ k ∧ k < row.maxAttempts ∧ k ≤ row.attempts) ∧
    ∀ w held, p.holding w = some held → held.task.id = id → held.attempt.attemptNumber ∉ used

theorem Platform.initial_decisions (id : TaskId) : Decisions id 0 Platform.initial where
  unborn _ := rfl
  positive := by intro w held h; cases h
  limit := by intro w held row h; cases h
  distinct := by intro w w' held held' h; cases h
  used := by intro row h; cases h

section

variable {cfg : Settings} {id : TaskId} {n : Nat} {p : Platform} {a : Action}

/-- Two workers never hold attempts of the task with one number. -/
theorem Decisions.distinct_step (hf : p.Fencing) (h : Decisions id n p) {w w' : WorkerId}
    {held held' : Held} (hheld : (p.step cfg a).holding w = some held)
    (hheld' : (p.step cfg a).holding w' = some held') (hid : held.task.id = id)
    (hid' : held'.task.id = id) (he : held.attempt.attemptNumber = held'.attempt.attemptNumber) :
    w = w' := by
  obtain hold | ⟨now, row, ha, hrow, -, -, hnumber⟩ := step_held hheld
  · obtain hold' | ⟨now, row, -, hrow, -, -, hnumber'⟩ := step_held hheld'
    · exact h.distinct w w' held held' hold hold' hid hid' he
    · have hle := (hf.linked w held hold).2.2.number row (by rw [hid, ← hid']; exact hrow)
      omega
  · obtain hold' | ⟨now', row', ha', -⟩ := step_held hheld'
    · have hle := (hf.linked w' held' hold').2.2.number row (by rw [hid', ← hid]; exact hrow)
      omega
    · exact (Action.start.inj (ha.symm.trans ha')).2.1

/-- A new attempt has a number that was not used. -/
theorem Decisions.unused_step {row : Task} {used : Finset Nat}
    (hrow : p.db.tasks.get id = some row) (hused : ∀ k ∈ used, k ≤ row.attempts)
    (hfree : ∀ w held, p.holding w = some held → held.task.id = id →
      held.attempt.attemptNumber ∉ used) {w : WorkerId} {held : Held}
    (hheld : (p.step cfg a).holding w = some held) (hid : held.task.id = id) :
    held.attempt.attemptNumber ∉ used := by
  intro hk
  obtain hold | ⟨now, row₀, -, hrow₀, -, -, hnumber⟩ := step_held hheld
  · exact hfree w held hold hid hk
  · rw [hid, hrow] at hrow₀
    cases hrow₀
    have hle := hused _ hk
    omega

/-- A decision uses up the number of its attempt, and the worker gives the attempt back. -/
theorem Decisions.used_step (hf : p.Fencing) (h : Decisions id n p) {row row' : Task}
    (hrow : p.db.tasks.get id = some row) (hrow' : (p.step cfg a).db.tasks.get id = some row') :
    ∃ used : Finset Nat, used.card = n + (if entersRetry cfg id p a then 1 else 0) ∧
      (∀ k ∈ used, 1 ≤ k ∧ k < row'.maxAttempts ∧ k ≤ row'.attempts) ∧
      ∀ w held, (p.step cfg a).holding w = some held → held.task.id = id →
        held.attempt.attemptNumber ∉ used := by
  obtain ⟨used, hcard, hused, hfree⟩ := h.used row hrow
  obtain ⟨hlimit, hattempts, -⟩ := step_counters hf.sound a hrow hrow'
  have hkeep : ∀ k ∈ used, 1 ≤ k ∧ k < row'.maxAttempts ∧ k ≤ row'.attempts := by
    intro k hk
    obtain ⟨hpos, hlt, hle⟩ := hused k hk
    exact ⟨hpos, hlimit ▸ hlt, hle.trans hattempts⟩
  have hfree' : ∀ w held, (p.step cfg a).holding w = some held → held.task.id = id →
      held.attempt.attemptNumber ∉ used := fun w held hheld hid =>
    Decisions.unused_step hrow (fun k hk => (hused k hk).2.2) hfree hheld hid
  cases he : entersRetry cfg id p a with
  | false => exact ⟨used, hcard, hkeep, hfree'⟩
  | true =>
    obtain ⟨w, held, row₀, hout, hheld, hid, hrow₀, hlt⟩ := entersRetry_cases hf.sound he
    rw [hrow] at hrow₀
    cases hrow₀
    rw [h.limit w held row hheld hid hrow, ← hlimit] at hlt
    have hnumber := (hf.linked w held hheld).2.2.number row (by rw [hid]; exact hrow)
    refine ⟨insert held.attempt.attemptNumber used, ?_, ?_, ?_⟩
    · rw [Finset.card_insert_of_notMem (hfree w held hheld hid), hcard]
      rfl
    · intro k hk
      rcases Finset.mem_insert.mp hk with rfl | hk
      · exact ⟨h.positive w held hheld, hlt, hnumber.trans hattempts⟩
      · exact hkeep k hk
    · intro w' held' hheld' hid' hk
      rcases Finset.mem_insert.mp hk with hsame | hk
      · obtain hold | ⟨now, -, rfl, -⟩ := step_held hheld'
        · have hw := h.distinct w' w held' held hold hheld hid' hid hsame
          subst hw
          rw [step_holding_outcome hout] at hheld'
          cases hheld'
        · cases hout
      · exact hfree' w' held' hheld' hid' hk

theorem Decisions.step (hf : p.Fencing) (h : Decisions id n p) (a : Action) :
    Decisions id (n + if entersRetry cfg id p a then 1 else 0) (p.step cfg a) where
  unborn := by
    intro hid
    have hbefore := h.unborn ((step_gone hf.sound a).1.trans hid)
    have hnone : entersRetry cfg id p a = false := by
      simp [entersRetry, isRetryScheduled, Table.get_of_le hid]
    rw [hbefore, hnone]
    rfl
  positive := by
    intro w held hheld
    obtain hold | ⟨now, row, -, -, -, -, hnumber⟩ := step_held hheld
    · exact h.positive w held hold
    · omega
  limit := by
    intro w held row' hheld hid hrow'
    obtain hold | ⟨now, row, -, -, hloaded, -, -⟩ := step_held hheld
    · obtain ⟨row, hrow⟩ := row_before hf.sound (hid ▸ (hf.linked w held hold).1) hrow'
      rw [h.limit w held row hold hid hrow, (step_counters hf.sound a hrow hrow').1]
    · rw [hid, hrow'] at hloaded
      cases hloaded
      rfl
  distinct := fun w w' held held' hheld hheld' hid hid' he =>
    h.distinct_step hf hheld hheld' hid hid' he
  used := by
    intro row' hrow'
    cases hrow : p.db.tasks.get id with
    | none =>
      have hid : p.db.tasks.next ≤ id := by
        by_contra hlt
        rw [(step_gone hf.sound a).2 id (Nat.lt_of_not_le hlt) hrow] at hrow'
        cases hrow'
      have hnone : entersRetry cfg id p a = false := by
        by_contra he
        obtain ⟨w, held, row, -, -, -, hsome, -⟩ :=
          entersRetry_cases hf.sound (Bool.not_eq_false _ ▸ he)
        rw [hrow] at hsome
        cases hsome
      refine ⟨∅, by rw [h.unborn hid, hnone]; rfl, by simp, by simp⟩
    | some row => exact h.used_step hf hrow hrow'

end

theorem decisions_after (cfg : Settings) (acts : List Action) (id : TaskId) :
    Decisions id (count (Platform.step cfg) (entersRetry cfg id) Platform.initial acts)
      (Platform.after cfg acts) := by
  induction acts using List.reverseRecOn with
  | nil => exact Platform.initial_decisions id
  | append_singleton acts a ih =>
    rw [count_concat, Platform.after, run_append]
    exact ih.step (Platform.after_fencing cfg acts) a

/-- A task is started at most `max_attempts` times, and once more for each recovery of its lease,
each retry by an operator and each cycle of the dead-letter queue; and a retry is decided at most
`max_attempts - 1` times. -/
theorem attempts_within_budget (cfg : Settings) (acts : List Action) (id : TaskId) (row : Task)
    (h : (Platform.after cfg acts).db.tasks.get id = some row) (hmax : 1 ≤ row.maxAttempts) :
    row.attempts ≤ row.maxAttempts +
        count (Platform.step cfg) (recovers cfg id) Platform.initial acts +
        count (Platform.step cfg) (retries cfg id) Platform.initial acts + row.dlqRequeueCount ∧
      count (Platform.step cfg) (entersRetry cfg id) Platform.initial acts ≤ row.maxAttempts - 1 := by
  have hdecisions : count (Platform.step cfg) (entersRetry cfg id) Platform.initial acts ≤
      row.maxAttempts - 1 := by
    obtain ⟨used, hcard, hused, -⟩ := (decisions_after cfg acts id).used row h
    have hsub : used ⊆ Finset.Ico 1 row.maxAttempts := by
      intro k hk
      obtain ⟨hpos, hlt, -⟩ := hused k hk
      exact Finset.mem_Ico.mpr ⟨hpos, hlt⟩
    have hle := Finset.card_le_card hsub
    rwa [hcard, Nat.card_Ico] at hle
  have hcharge := charge_le cfg acts id h
  have hattempts : row.attempts ≤ charge row := Nat.le_add_right _ _
  omega

/-- A task of two attempts fails twice, and comes back from the dead letters. -/
def exhaustedRun : List Action :=
  [.createTask 0 { plainSpec with maxAttempts := some 2 }, .start 1 "w1" 1,
    .recordFailure 2 "w1" "boom" true, .requeueDue 10000000 10 (fun _ => false),
    .start 10000001 "w2" 1, .recordFailure 10000002 "w2" "boom" true,
    .requeueDlq 400000000 10 (fun _ => false), .start 400000001 "w1" 1]

theorem attempts_within_budget_exhaustedRun :
    ∃ row, (Platform.after .default exhaustedRun).db.tasks.get 1 = some row ∧
      row.attempts ≤ row.maxAttempts +
        count (Platform.step .default) (recovers .default 1) Platform.initial exhaustedRun +
        count (Platform.step .default) (retries .default 1) Platform.initial exhaustedRun +
        row.dlqRequeueCount := by
  have hlimit : ((Platform.after .default exhaustedRun).db.tasks.get 1).any
      (fun row => decide (1 ≤ row.maxAttempts)) = true := by decide +kernel
  obtain ⟨row, hrow, hmax⟩ := (Option.any_eq_true _ _).mp hlimit
  exact ⟨row, hrow, (attempts_within_budget .default exhaustedRun 1 row hrow
    (of_decide_eq_true hmax)).1⟩

end TaskPlatform
