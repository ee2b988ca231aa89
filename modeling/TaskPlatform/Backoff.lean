import TaskPlatform.ScheduleAt
import TaskPlatform.Fencing

/-!
# The pause after a failure

A task that waits for a time, after a failed attempt, as a dead letter or by its
schedule, is not started before that time, unless an operator retries it. A
failure with attempts left makes the task wait for the delay of its attempt.
-/

namespace TaskPlatform

open Run

/-- Only from `t` on a query of the coordinator picks the task up, or only an operator does. -/
def Deferred (t : Time) (row : Task) : Prop :=
  row.status ∈ dueStatuses ∧ row.scheduledAt = some t ∨
    row.status = .deadLetter ∧ row.dlqRetryAt = some t ∨
    row.status = .cancelled ∨ row.status = .failed

/-- What ends the wait. -/
def Ends (id : TaskId) (l : Label) : Prop :=
  l = .enqueue .retry id ∨ l = .enqueue .due id ∨ l = .enqueue .dlq id ∨ l = .stamp id

section

variable {cfg : Settings} {id : TaskId} {t : Time} {row row' : Task} {l : Label} {p : Platform}
  {a : Action}

theorem Deferred.status (h : Deferred t row) : row.status = .retryScheduled ∨
    row.status = .scheduled ∨ row.status = .deadLetter ∨ row.status = .cancelled ∨
    row.status = .failed := by
  rcases h with ⟨hs, -⟩ | ⟨hs, -⟩ | hs | hs
  · simp only [dueStatuses, List.mem_cons, List.not_mem_nil, or_false] at hs
    rcases hs with hs | hs
    · exact .inl hs
    · exact .inr (.inl hs)
  · exact .inr (.inr (.inl hs))
  · exact .inr (.inr (.inr (.inl hs)))
  · exact .inr (.inr (.inr (.inr hs)))

theorem Deferred.not_status (h : Deferred t row) {s : Status}
    (hs : s ∈ [Status.created, .queued, .running, .success]) : row.status ≠ s := by
  rintro rfl
  rcases h.status with h | h | h | h | h <;> rw [h] at hs <;> simp at hs

theorem Task.Step.deferred (h : Task.Step cfg id row l row') (hp : Deferred t row)
    (hl : ¬ Ends id l) : Deferred t row' := by
  cases h with
  | same => exact hp
  | schedule now hs => exact absurd hs (hp.not_status (by decide))
  | enqueue now cause hs =>
    cases cause with
    | create => exact absurd (List.mem_singleton.mp hs) (hp.not_status (by decide))
    | unblock => exact absurd (List.mem_singleton.mp hs) (hp.not_status (by decide))
    | retry => exact absurd (.inl rfl) hl
    | due => exact absurd (.inr (.inl rfl)) hl
    | dlq => exact absurd (.inr (.inr (.inl rfl))) hl
  | cancel now hs => exact .inr (.inr (.inl rfl))
  | start now w hs => exact absurd hs (hp.not_status (by decide))
  | renew now w howner hs => exact absurd hs (hp.not_status (by decide))
  | finish now hv hs => exact absurd hs (hp.not_status (by decide))
  | stamp => exact absurd (.inr (.inr (.inr rfl))) hl
  | recover now hs => exact absurd hs (hp.not_status (by decide))
  | release now hs => exact absurd hs (hp.not_status (by decide))

/-- Before `t` no tick of the coordinator finds the task. -/
theorem Deferred.not_due (cfg : Settings) (h : Deferred t row) {now : Time} (hnow : now < t) :
    isDue now row = false ∧ isDlqDue cfg now row = false := by
  have hlater : ¬ t ≤ now := not_le_of_gt hnow
  rcases h with ⟨hs, hat⟩ | ⟨hs, hat⟩ | hs | hs
  · refine ⟨by simp [isDue, hat, hlater], ?_⟩
    have hne : row.status ≠ .deadLetter := fun he => by rw [he] at hs; exact absurd hs (by decide)
    simp [isDlqDue, hne]
  · exact ⟨by simp [isDue, hs, dueStatuses], by simp [isDlqDue, hat, hlater]⟩
  · exact ⟨by simp [isDue, hs, dueStatuses], by simp [isDlqDue, hs]⟩
  · exact ⟨by simp [isDue, hs, dueStatuses], by simp [isDlqDue, hs]⟩

/-- The labels of a step before the time. -/
theorem Deferred.not_ends (hp : Deferred t row) (hrow : p.db.tasks.get id = some row)
    (htime : ∀ now ∈ a.clock, now < t) (hretry : id ∉ a.retried)
    (hother : ¬ ∃ w held, a.outcomeOf = some w ∧ p.holding w = some held ∧ held.task.id = id)
    (hallow : a.Allows cfg p l) : ¬ Ends id l := by
  rintro (rfl | rfl | rfl | rfl)
  · obtain ⟨now, i, rfl⟩ | ⟨now, ids, rfl⟩ := hallow.retry
    · cases hallow
      exact hretry (by simp [Action.retried])
    · obtain ⟨i, hi, he⟩ := hallow
      cases he
      exact hretry hi
  · have hdue : ∃ now limit locked, a = .requeueDue now limit locked := by
      cases a <;> simp [Action.Allows, IsCreate, IsOutcome, IsCascade] at hallow ⊢
    obtain ⟨now, limit, locked, rfl⟩ := hdue
    obtain ⟨i, hi, he⟩ := hallow
    cases he
    obtain ⟨r, hr, rfl⟩ := List.mem_map.mp hi
    obtain ⟨hget, hcond, -⟩ := mem_selectLocked hr
    rw [hrow] at hget
    cases hget
    rw [(hp.not_due cfg (htime now rfl)).1] at hcond
    cases hcond
  · obtain ⟨now, limit, locked, rfl⟩ := hallow.dlq
    obtain ⟨i, hi, he⟩ := hallow
    cases he
    unfold dlqIds at hi
    split at hi
    · obtain ⟨r, hr, rfl⟩ := List.mem_map.mp hi
      obtain ⟨hget, hcond, -⟩ := mem_selectLocked hr
      rw [hrow] at hget
      cases hget
      rw [(hp.not_due cfg (htime now rfl)).2] at hcond
      cases hcond
    · cases hi
  · exact hother hallow.stamp

theorem step_waits (h : p.Sound) (htime : ∀ now ∈ a.clock, now < t) (hretry : id ∉ a.retried)
    (hid : id < p.db.tasks.next) (hp : ∀ row, p.db.tasks.get id = some row → Deferred t row) :
    ∀ row, (p.step cfg a).db.tasks.get id = some row → Deferred t row := by
  intro row' hrow'
  obtain ⟨row, hrow⟩ := row_before h hid hrow'
  have hdeferred := hp row hrow
  by_cases hout : ∃ w held, a.outcomeOf = some w ∧ p.holding w = some held ∧ held.task.id = id
  · -- an outcome of the task itself is refused
    obtain ⟨w, held, ha, hheld, rfl⟩ := hout
    obtain hsame | ⟨now, row₁, row₂, task, new, hrow₁, hrun, -⟩ := step_outcome_cases cfg h ha hheld
    · rw [hsame] at hrow'
      exact hp row' hrow'
    · rw [hrow] at hrow₁
      cases hrow₁
      exact absurd hrun (hdeferred.not_status (by decide))
  · obtain ⟨ls, htr, hls⟩ : ∃ ls, Trace (Change cfg) p.db ls (p.step cfg a).db ∧ _ :=
      step_trace h.foreignKeys h.held a
    exact row_trace_of_lt htr (Q := fun l => ¬ Ends id l)
      (fun l hl => hdeferred.not_ends hrow htime hretry hout (hls l hl))
      (fun r l r' hstep hl hr => hstep.deferred hr hl) hid hp row' hrow'

/-- A task that waits for `t` is not started before. -/
theorem deferred_run {c : Time} {acts : List Action} (h : p.Sound) (hid : id < p.db.tasks.next)
    (hp : ∀ row, p.db.tasks.get id = some row → Deferred t row)
    (hclock : Forward Action.clock c acts) (hretry : ∀ a ∈ acts, id ∉ a.retried) :
    Along (Platform.step cfg) (StartsFrom cfg t id) p acts := by
  have hcond : Along (Platform.step cfg) (fun _ a => id ∉ a.retried) p acts := by
    rw [along_iff]
    intro xs a ys he
    exact hretry a (by rw [he]; exact List.mem_append_right _ List.mem_cons_self)
  refine along_of_forward (P := fun (p : Platform) (c : Time) =>
    p.Sound ∧ id < p.db.tasks.next ∧
      (c < t → ∀ row, p.db.tasks.get id = some row → Deferred t row)) ?_ ?_ ?_ hclock hcond
  · rintro p c a ⟨hsound, hid, hp⟩ hretry hc
    refine ⟨hsound.step cfg a, Nat.lt_of_lt_of_le hid (step_gone hsound a).1, fun hlt => ?_⟩
    have hbefore : c < t ∧ ∀ n ∈ a.clock, n < t := by
      cases ha : a.clock with
      | none => rw [ha] at hlt; exact ⟨hlt, by simp⟩
      | some n =>
        rw [ha] at hlt hc
        exact ⟨lt_of_le_of_lt (hc n rfl) hlt, by simpa using hlt⟩
    exact step_waits hsound hbefore.2 hretry hid (hp hbefore.1)
  · rintro p c a ⟨hsound, hid, hp⟩ - hc
    cases a with
    | start n w i =>
      intro hstarts
      by_contra hlt
      obtain ⟨⟨row, hrow, hq⟩, -⟩ := row_of_starts hstarts
      have hearly : c < t := lt_of_le_of_lt (hc n rfl) (lt_of_not_ge hlt)
      exact (hp hearly row hrow).not_status (by decide) hq
    | _ => trivial
  · exact ⟨h, hid, fun _ => hp⟩

end

/-- A failure with attempts left puts the task off by the delay of its attempt. -/
theorem recordFailure_retry (cfg : Settings) (now : Time) {db : Database} {w : WorkerId}
    {held : Held} {row : Task} (error : String) (hv : held.Valid w)
    (ha : (db.attempts.get held.attemptId).isSome) (hrow : db.tasks.get held.task.id = some row)
    (hrun : row.status = .running) (hleft : held.attempt.attemptNumber < held.task.cur.maxAttempts) :
    ∃ db' row', recordFailure cfg now db held error true = .ok db' ∧
      db'.tasks.get held.task.id = some row' ∧ row'.status = .retryScheduled ∧
      row'.scheduledAt =
        some (now + timedelta (computeRetryDelaySeconds cfg held.attempt.attemptNumber)) := by
  let scheduled := now + timedelta (computeRetryDelaySeconds cfg held.task.loaded.attempts)
  let task : Task := { held.task.loaded with
    lastError := some (truncateError error), scheduledAt := some scheduled }
  let closed := closeHeld db held.attemptId held.attempt { held.attempt with
    status := .failed, errorMessage := some (truncateError error), finishedAt := some now }
  let object : Instance := ⟨held.task.id, held.task.loaded, task⟩
  have hobject : closed.tasks.get object.id = some row := hrow
  have hsame : object.loaded.status = object.cur.status := rfl
  have ht : canTransition object.cur.status .retryScheduled = true := by
    rw [show object.cur.status = .running from hv.running]; rfl
  obtain ⟨⟨db', task'⟩, hset⟩ : ∃ r, setStatus cfg now closed object
      .retryScheduled .retryScheduled (some (.retryAt held.attempt.attemptNumber
        (computeRetryDelaySeconds cfg held.task.loaded.attempts) scheduled)) = .ok r :=
    setStatus_total .retryScheduled _ hobject hsame ht
  have hview := (setStatusFuel_row hobject hsame ht hset).2
  have hget := congrArg View.row hview
  refine ⟨db', _, ?_, hget, ?_, ?_⟩
  · have hnum : held.task.loaded.attempts < held.task.loaded.maxAttempts := by
      rw [← hv.number, ← hv.same]
      exact hleft
    have hclose := flushAttempt_total held.attempt { held.attempt with
      status := .failed, errorMessage := some (truncateError error), finishedAt := some now } ha
    simp only [recordFailure, closeFailure, hclose, bind, Except.bind, stillRunning_closeHeld,
      stillRunning_of_row hrow hrun, not_true_eq_false, if_false, finishFailure, hv.same, hnum,
      and_self, if_true]
    rw [show setStatus cfg now _ _ _ _ _ = _ from hset]
    rfl
  · refine mergeColumn_of_ne row.status ?_
    rw [setStatusFields_status, hv.running]
    decide
  · have hat : (setStatusFields now object.cur .retryScheduled).scheduledAt = some scheduled := by
      simp [setStatusFields_eq, object, task]
    have hne : (setStatusFields now object.cur .retryScheduled).scheduledAt ≠
        object.loaded.scheduledAt := by
      rw [hat, show object.loaded.scheduledAt = none from hv.scheduled]
      exact Option.some_ne_none _
    rw [hv.number]
    exact (mergeColumn_of_ne row.scheduledAt hne).trans hat

/-- A task that fails with attempts left waits for the delay of the attempt: it is put off until
then, and through any run that follows no worker starts it earlier, unless an operator retries it. -/
theorem backoff_honoured (cfg : Settings) (before later : List Action) {now : Time} {w : WorkerId}
    {held : Held} (error : String) (hheld : (Platform.after cfg before).holding w = some held)
    (hrun : stillRunning (Platform.after cfg before).db held.task.id = true)
    (hleft : held.attempt.attemptNumber < held.task.cur.maxAttempts)
    (hclock : Forward Action.clock now later) (hretry : ∀ a ∈ later, held.task.id ∉ a.retried) :
    let failed := Platform.after cfg (before ++ [.recordFailure now w error true])
    let t := now + timedelta (computeRetryDelaySeconds cfg held.attempt.attemptNumber)
    (∃ row, failed.db.tasks.get held.task.id = some row ∧ row.status = .retryScheduled ∧
      row.scheduledAt = some t) ∧
    Along (Platform.step cfg) (StartsFrom cfg t held.task.id) failed later := by
  intro failed t
  have hf := Platform.after_fencing cfg before
  obtain ⟨row, hrow, hrunning⟩ := stillRunning_true hrun
  obtain ⟨att, hmem, -⟩ := (hf.linked w held hheld).2.2.attempt row hrow
  have ha : ((Platform.after cfg before).db.attempts.get held.attemptId).isSome := by
    rw [(((Platform.after cfg before).db.attempts.mem_select _ _ _).mp hmem).1]
    rfl
  obtain ⟨db', row', hok, hrow', hs, hat⟩ :=
    recordFailure_retry cfg now error (hf.sound.held w held hheld) ha hrow hrunning hleft
  have hfailed : failed.db = db' := by
    show (Platform.after cfg (before ++ [.recordFailure now w error true])).db = db'
    rw [Platform.after, run_append, ← Platform.after, run_cons, run_nil, Platform.step,
      finishStep_db, hheld]
    simp only [hok, commit]
  rw [← hfailed] at hrow'
  refine ⟨⟨row', hrow', hs, hat⟩, ?_⟩
  refine deferred_run (Platform.after_sound cfg _) (Table.get_lt hrow') (fun r hr => ?_) hclock
    hretry
  obtain rfl := Option.some.inj (hrow'.symm.trans hr)
  exact .inl ⟨by rw [hs]; decide, hat⟩

/-- A worker fails at 2, the coordinator looks too early and again in time, and the task starts. -/
def backoffRun : List Action :=
  [.requeueDue 3 10 (fun _ => false), .start 4 "w2" 1,
    .requeueDue 100000000 10 (fun _ => false), .start 100000001 "w2" 1]

theorem backoff_honoured_backoffRun : ∃ held,
    (Platform.after .default [.createTask 0 plainSpec, .start 1 "w1" 1]).holding "w1" = some held ∧
      Along (Platform.step .default) (StartsFrom .default
          (2 + timedelta (computeRetryDelaySeconds .default held.attempt.attemptNumber)) held.task.id)
        (Platform.after .default ([.createTask 0 plainSpec, .start 1 "w1" 1] ++
          [.recordFailure 2 "w1" "e" true])) backoffRun := by
  obtain ⟨held, hheld⟩ := Option.isSome_iff_exists.mp (by decide +kernel :
    ((Platform.after .default [.createTask 0 plainSpec, .start 1 "w1" 1]).holding "w1").isSome = true)
  have hfacts : ((Platform.after .default [.createTask 0 plainSpec, .start 1 "w1" 1]).holding
      "w1").all (fun held => stillRunning (Platform.after .default
        [.createTask 0 plainSpec, .start 1 "w1" 1]).db held.task.id &&
          decide (held.attempt.attemptNumber < held.task.cur.maxAttempts)) = true := by
    decide +kernel
  rw [hheld, Option.all_some, Bool.and_eq_true, decide_eq_true_eq] at hfacts
  exact ⟨held, hheld, (backoff_honoured .default _ backoffRun "e" hheld hfacts.1 hfacts.2
    (by unfold Forward; decide) (by simp [backoffRun, Action.retried])).2⟩

/-- A task that is put off, or a dead letter with a time for its next cycle, is not started before
that time through any run that follows, unless an operator retries it. -/
theorem due_time_honoured (cfg : Settings) (before later : List Action) {now t : Time} {id : TaskId}
    {row : Task} (hrow : (Platform.after cfg before).db.tasks.get id = some row)
    (hdue : row.status ∈ dueStatuses ∧ row.scheduledAt = some t ∨
      row.status = .deadLetter ∧ row.dlqRetryAt = some t)
    (hclock : Forward Action.clock now later) (hretry : ∀ a ∈ later, id ∉ a.retried) :
    Along (Platform.step cfg) (StartsFrom cfg t id) (Platform.after cfg before) later := by
  refine deferred_run (Platform.after_sound cfg before) (Table.get_lt hrow) (fun r hr => ?_) hclock
    hretry
  obtain rfl := Option.some.inj (hrow.symm.trans hr)
  exact hdue.imp_right .inl

/-- A task with one attempt fails at 2 and becomes a dead letter. -/
def stampedRun : List Action :=
  [.createTask 0 { plainSpec with maxAttempts := some 1 }, .start 1 "w1" 1,
    .recordFailure 2 "w1" "e" true]

/-- The dead-letter tick comes too early and again in time, and the task starts. -/
def nextCycleRun : List Action :=
  [.requeueDlq 3 10 (fun _ => false), .start 4 "w2" 1,
    .requeueDlq 400000000 10 (fun _ => false), .start 400000001 "w2" 1]

theorem due_time_honoured_nextCycleRun :
    Along (Platform.step .default) (StartsFrom .default 300000002 1)
      (Platform.after .default stampedRun) nextCycleRun := by
  obtain ⟨row, hrow⟩ := Option.isSome_iff_exists.mp (by decide +kernel :
    ((Platform.after .default stampedRun).db.tasks.get 1).isSome = true)
  have hfacts : ((Platform.after .default stampedRun).db.tasks.get 1).all (fun row =>
      decide (row.status = .deadLetter) && decide (row.dlqRetryAt = some 300000002)) = true := by
    decide +kernel
  rw [hrow, Option.all_some, Bool.and_eq_true, decide_eq_true_eq, decide_eq_true_eq] at hfacts
  exact due_time_honoured .default stampedRun nextCycleRun hrow (.inr hfacts)
    (by unfold Forward; decide : Forward Action.clock 2 nextCycleRun)
    (by simp [nextCycleRun, Action.retried])

end TaskPlatform
