import TaskPlatform.Cascade

/-!
# What the worker's transactions do

The start is one change. The outcome closes the attempt row and, where the
guard lets it, finishes the task through the object of the start, with the
cascade of a terminal status and the dead letter's `dlq_retry_at` after it.
-/

namespace TaskPlatform

open Run

theorem tryAcquireLease_true {now : Time} {db db' : Database} {id : TaskId} {w : WorkerId}
    {seconds : ℚ} (h : tryAcquireLease now db id w seconds = (db', true)) :
    ∃ row, db.tasks.get id = some row ∧ row.status = .queued ∧ leaseFree now row = true ∧
      db' = db.setTask id (leased now w seconds row) := by
  unfold tryAcquireLease at h
  split at h
  · cases h
  · rename_i row hrow
    split at h
    · rename_i hc
      cases h
      exact ⟨row, hrow, hc.1, hc.2, rfl⟩
    · cases h

/-- The objects that a start leaves with the worker. -/
def startedHeld (now : Time) (w : WorkerId) (leaseSeconds : ℚ) (db : Database) (id : TaskId)
    (row : Task) : Held :=
  ⟨Instance.fresh id (startedTask now w leaseSeconds row), db.attempts.next,
    newAttempt now w id (row.attempts + 1)⟩

theorem startedTask_eq (now : Time) (w : WorkerId) (seconds : ℚ) {row : Task}
    (hq : row.status = .queued) :
    (let moved := movedTask now (leased now w seconds row) .running
     Task.touch now { moved with
      attempts := moved.attempts + 1
      startedAt := if moved.startedAt.isNone then some now else moved.startedAt }) =
      startedTask now w seconds row := by
  cases hs : row.startedAt <;>
    simp [movedTask, Task.touch, setStatusFields_eq, leased, startedTask, terminal, hs, hq]

theorem startAttempt_ok {cfg : Settings} {now : Time} {db db' : Database} {id : TaskId}
    {w : WorkerId} {row : Task} {held : Held} (hrow : db.tasks.get id = some row)
    (hq : row.status = .queued) (seconds : ℚ)
    (h : startAttempt cfg now (db.setTask id (leased now w seconds row))
      (Instance.fresh id (leased now w seconds row)) w = .ok (db', held)) :
    held = startedHeld now w seconds db id row ∧
      ∃ seen, db' = startedDb now db w id row (startedTask now w seconds row) seen := by
  have hleased := get_setTask_self (leased now w seconds row) hrow
  have hstatus : (leased now w seconds row).status = .queued := hq
  obtain ⟨⟨db₁, task⟩, hset, h⟩ := bind_ok h
  have ht : canTransition (leased now w seconds row).status .running = true := by
    rw [hstatus]; rfl
  obtain ⟨rfl, rfl⟩ := setStatus_ok hleased rfl ht (by decide) hset
  have hmoved : ((db.setTask id (leased now w seconds row)).move now id (leased now w seconds row)
      .running .running none).tasks.get id = some (movedTask now (leased now w seconds row) .running) :=
    get_setTask_self _ hleased
  obtain ⟨⟨db₂, task⟩, hflush, h⟩ := bind_ok h
  let numbered : Task := { movedTask now (leased now w seconds row) .running with
    attempts := (movedTask now (leased now w seconds row) .running).attempts + 1
    startedAt := if (movedTask now (leased now w seconds row) .running).startedAt.isNone then
      some now else (movedTask now (leased now w seconds row) .running).startedAt }
  have hdirty : numbered ≠ movedTask now (leased now w seconds row) .running :=
    fun he => by simpa [numbered] using congrArg Task.attempts he
  have hwrite := @flush_fresh now _ _ _ numbered hmoved hdirty
  have hstarted : numbered.touch now = startedTask now w seconds row :=
    startedTask_eq now w seconds hq
  rw [hstarted] at hwrite
  obtain ⟨rfl, rfl⟩ := Prod.mk.inj (Except.ok.inj (hflush.symm.trans hwrite))
  have hnumber : (movedTask now (leased now w seconds row) .running).attempts = row.attempts :=
    movedTask_attempts _ _ _
  simp only [pure, Except.pure, Instance.fresh, hnumber] at h
  cases h
  refine ⟨rfl, movedTask now (leased now w seconds row) .running, ?_⟩
  simp only [startedDb, Database.move, Database.change, enqueueFor, recordEvent,
    Database.setTask, Table.modify_modify_const, newAttempt]
  rw [hstatus, hq]
  rfl

theorem startTask_ok {cfg : Settings} {now : Time} {db db' : Database} {id : TaskId}
    {w : WorkerId} {held : Held} (h : startTask cfg now db w id = .ok (some (db', held))) :
    ∃ row, db.tasks.get id = some row ∧ row.status = .queued ∧ leaseFree now row = true ∧
      held = startedHeld now w cfg.taskLeaseSeconds db id row ∧
      ∃ seen, db' =
        startedDb now db w id row (startedTask now w cfg.taskLeaseSeconds row) seen := by
  unfold startTask at h
  split at h
  · cases h
  · rename_i db₁ hlease
    obtain ⟨row, hrow, hq, hfree, rfl⟩ := tryAcquireLease_true hlease
    rw [get_setTask_self _ hrow] at h
    obtain ⟨⟨db₂, held₂⟩, hstart, h⟩ := bind_ok h
    cases h
    obtain ⟨hheld, hseen⟩ := startAttempt_ok hrow hq _ hstart
    exact ⟨row, hrow, hq, hfree, hheld, hseen⟩

theorem renewLease_trace (cfg : Settings) (now : Time) (db : Database) (id : TaskId)
    (w : WorkerId) :
    ∃ ls, Trace (Change cfg) db ls (renewLease now db id w cfg.taskLeaseSeconds).1 ∧
      ∀ l ∈ ls, l = .other := by
  unfold renewLease
  split
  · exact ⟨[], .nil _, by simp⟩
  · rename_i row hrow
    split
    · rename_i hc
      exact ⟨_, .single (.renew now w hrow hc.1 hc.2), by simp⟩
    · exact ⟨[], .nil _, by simp⟩

theorem flushAttempt_ok {db db' : Database} {id : Nat} {loaded cur : TaskAttempt}
    (h : flushAttempt db id loaded cur = .ok db') :
    (db.attempts.get id).isSome ∧ db' = closeHeld db id loaded cur := by
  unfold flushAttempt at h
  split at h
  · cases h
  · rename_i row hrow
    cases h
    exact ⟨by rw [hrow]; rfl, rfl⟩

theorem stillRunning_true {db : Database} {id : TaskId} (h : stillRunning db id = true) :
    ∃ row, db.tasks.get id = some row ∧ row.status = .running := by
  unfold stillRunning at h
  split at h
  · cases h
  · rename_i row hrow
    exact ⟨row, hrow, by simpa using h⟩

theorem stillRunning_closeHeld (db : Database) (attemptId : Nat) (loaded cur : TaskAttempt)
    (id : TaskId) : stillRunning (closeHeld db attemptId loaded cur) id = stillRunning db id := rfl

/-- The database after the status change of an outcome, before its cascade. -/
def finishedDb (now : Time) (db : Database) (held : Held) (row task : Task) (new : Status)
    (eventType : EventType) (details : Option Details) : Database :=
  db.change now held.task.id
    ((Task.merge held.task.loaded (setStatusFields now task new) row).touch now)
    .running new eventType details (movedTask now task new)

/-- The flush after a dead letter, which writes `dlq_retry_at` or nothing. -/
def Stamped (now : Time) (id : TaskId) (db db' : Database) : Prop :=
  db' = db ∨ ∃ row dlqRetryAt, db.tasks.get id = some row ∧
    db' = db.setTask id { row with dlqRetryAt := dlqRetryAt, updatedAt := now }

/-- What the second transaction of a worker can do, if it reports a success or a failure. -/
inductive Outcome (cfg : Settings) (now : Time) (db : Database) (held : Held) (succeeds : Bool) :
    Database → Prop where
  | refused {cur : TaskAttempt} : (db.attempts.get held.attemptId).isSome →
      ClosesAttempt held.attempt cur → stillRunning db held.task.id = false →
      Outcome cfg now db held succeeds (closeHeld db held.attemptId held.attempt cur)
  | finished {cur : TaskAttempt} {row task : Task} {new : Status} {eventType : EventType}
      {details : Option Details} {n : Nat} {db₁ db' : Database} :
      (db.attempts.get held.attemptId).isSome → ClosesAttempt held.attempt cur →
      db.tasks.get held.task.id = some row → row.status = .running →
      OutcomeFields now held.task.loaded new task → (new = .success ↔ succeeds = true) →
      cascade cfg now n (finishedDb now (closeHeld db held.attemptId held.attempt cur) held row
        task new eventType details) held.task.id new = .ok db₁ →
      Stamped now held.task.id db₁ db' → Outcome cfg now db held succeeds db'

/-- The status change of an outcome, through the object that the worker holds. -/
theorem setStatus_held {cfg : Settings} {now : Time} {db db₁ : Database} {w : WorkerId}
    {held : Held} {cur : TaskAttempt} {task : Task} {task' : Instance} {new : Status}
    {eventType : EventType} {details : Option Details} {succeeds : Bool} (hv : held.Valid w)
    (ha : (db.attempts.get held.attemptId).isSome) (hclose : ClosesAttempt held.attempt cur)
    (hrun : stillRunning (closeHeld db held.attemptId held.attempt cur) held.task.id = true)
    (hout : OutcomeFields now held.task.loaded new task) (hsucceeds : new = .success ↔ succeeds = true)
    (h : setStatus cfg now (closeHeld db held.attemptId held.attempt cur)
      ⟨held.task.id, held.task.loaded, task⟩ new eventType details = .ok (db₁, task')) :
    task' = Instance.fresh held.task.id (movedTask now task new) ∧
      ∀ db', Stamped now held.task.id db₁ db' → Outcome cfg now db held succeeds db' := by
  obtain ⟨row, hrow, hrunning⟩ := stillRunning_true hrun
  have hst : task.status = .running := hout.status.trans hv.running
  let object : Instance := ⟨held.task.id, held.task.loaded, task⟩
  have hobject : (closeHeld db held.attemptId held.attempt cur).tasks.get object.id = some row :=
    hrow
  have hsame : object.loaded.status = object.cur.status := hv.running.trans hst.symm
  have htransition : canTransition object.cur.status new = true := by
    rw [show object.cur.status = .running from hst]
    exact hout.transition
  obtain ⟨htask, n, hn⟩ := setStatusFuel_ok hobject hsame htransition h
  rw [show object.cur.status = .running from hst] at hn
  exact ⟨htask, fun db' hstamp => .finished ha hclose hrow hrunning hout hsucceeds hn hstamp⟩

theorem recordSuccess_ok {cfg : Settings} {now : Time} {db db' : Database} {w : WorkerId}
    {held : Held} {result : Json} (hv : held.Valid w)
    (h : recordSuccess cfg now db held result = .ok db') : Outcome cfg now db held true db' := by
  obtain ⟨db₁, hattempt, h⟩ := bind_ok h
  obtain ⟨ha, rfl⟩ := flushAttempt_ok hattempt
  have hclose : ClosesAttempt held.attempt { held.attempt with
      status := .success, result := some result, finishedAt := some now } :=
    ⟨rfl, rfl, hv.opened, by simp⟩
  split at h
  · rename_i hrun
    cases h
    rw [stillRunning_closeHeld, Bool.not_eq_true] at hrun
    exact .refused ha hclose hrun
  · rename_i hrun
    obtain ⟨⟨db₂, task⟩, hset, h⟩ := bind_ok h
    cases h
    rw [hv.same] at hset
    exact (setStatus_held hv ha hclose (not_not.mp hrun) (.success result) (by decide) hset).2 _
      (.inl rfl)

theorem flush_dlqRetryAt {now : Time} {db db' : Database} {id : TaskId} {task : Task}
    {task' : Instance} (retryAt : Option Time)
    (h : flush now db ⟨id, task, { task with dlqRetryAt := retryAt }⟩ = .ok (db', task')) :
    Stamped now id db db' := by
  unfold flush at h
  split at h
  · cases h; exact .inl rfl
  · rename_i hne
    split at h
    · cases h
    · rename_i row hrow
      cases h
      have hd : retryAt ≠ task.dlqRetryAt := fun he => hne (by rw [he])
      refine .inr ⟨row, retryAt, hrow, ?_⟩
      simp [Task.merge, Task.touch, mergeColumn_of_ne _ hd]

theorem recordFailure_ok {cfg : Settings} {now : Time} {db db' : Database} {w : WorkerId}
    {held : Held} {error : String} {retryable : Bool} (hv : held.Valid w)
    (h : recordFailure cfg now db held error retryable = .ok db') :
    Outcome cfg now db held false db' := by
  obtain ⟨db₁, hattempt, h⟩ := bind_ok h
  obtain ⟨ha, rfl⟩ := flushAttempt_ok hattempt
  have hclose : ClosesAttempt held.attempt { held.attempt with
      status := .failed, errorMessage := some (truncateError error), finishedAt := some now } :=
    ⟨rfl, rfl, hv.opened, by simp⟩
  split at h
  · rename_i hrun
    cases h
    rw [stillRunning_closeHeld, Bool.not_eq_true] at hrun
    exact .refused ha hclose hrun
  · rename_i hrun
    rw [not_not] at hrun
    simp only [finishFailure, hv.same] at h
    split at h
    · rename_i hretry
      obtain ⟨⟨db₂, task⟩, hset, h⟩ := bind_ok h
      cases h
      exact (setStatus_held hv ha hclose hrun (.retry _ _ hretry.2) (by decide) hset).2 _ (.inl rfl)
    · split at h
      · obtain ⟨⟨db₂, task⟩, hset, h⟩ := bind_ok h
        obtain ⟨rfl, hout⟩ := setStatus_held hv ha hclose hrun (.deadLetter _)
          (by decide : Status.deadLetter = .success ↔ false = true) hset
        obtain ⟨⟨db₃, task⟩, hflush, h⟩ := bind_ok h
        cases h
        exact hout _ (flush_dlqRetryAt _ hflush)
      · obtain ⟨⟨db₂, task⟩, hset, h⟩ := bind_ok h
        cases h
        exact (setStatus_held hv ha hclose hrun (.failed _) (by decide) hset).2 _ (.inl rfl)

/-- The labels of an outcome of the task and attempt that a worker holds. -/
def IsOutcome (held : Held) (l : Label) : Prop :=
  l = .stamp held.task.id ∨ l = .close held.attemptId ∨ (∃ new, l = .settle held.task.id new) ∨ IsCascade l

theorem Stamped.trace {cfg : Settings} {now : Time} {id : TaskId} {db db' : Database}
    (h : Stamped now id db db') : ∃ ls, Trace (Change cfg) db ls db' ∧ ∀ l ∈ ls, l = .stamp id := by
  obtain rfl | ⟨row, dlqRetryAt, hrow, rfl⟩ := h
  · exact ⟨[], .nil _, by simp⟩
  · exact ⟨_, .single (.stamp now dlqRetryAt hrow), by simp⟩

/-- An outcome unblocks children of its own task, when it reports a success and is not refused. -/
theorem Outcome.labels {cfg : Settings} {now : Time} {db db' : Database} {w : WorkerId}
    {held : Held} {succeeds : Bool} (hv : held.Valid w) (h : Outcome cfg now db held succeeds db') :
    ∃ ls, Trace (Change cfg) db ls db' ∧ ∀ l ∈ ls, IsOutcome held l ∧
      ∀ child, l = .enqueue .unblock child → succeeds = true ∧
        stillRunning db held.task.id = true ∧ child ∈ db.childrenOf held.task.id := by
  cases h with
  | refused ha hclose _ =>
    refine ⟨_, .single (.close ha hclose), fun l hl => ?_⟩
    rw [List.mem_singleton.mp hl]
    exact ⟨.inr (.inl rfl), fun child he => by cases he⟩
  | @finished cur row task new eventType details n db₁ _ ha hclose hrow hrun hout hnew hcascade
      hstamp =>
    have hrow' : (closeHeld db held.attemptId held.attempt cur).tasks.get held.task.id = some row :=
      hrow
    obtain ⟨ls, htr, hls⟩ := change_cascade_trace
      (.finish now eventType details hv hrow' hrun hout) hcascade
    obtain ⟨ms, htr', hms⟩ := hstamp.trace
    refine ⟨_, .cons (.close ha hclose) (htr.append htr'), fun l hl => ?_⟩
    simp only [List.mem_cons, List.cons_append, List.mem_append] at hl
    rcases hl with rfl | rfl | hl | hl
    · exact ⟨.inr (.inl rfl), fun child he => by cases he⟩
    · exact ⟨.inr (.inr (.inl ⟨new, rfl⟩)), fun child he => by cases he⟩
    · refine ⟨.inr (.inr (.inr (hls l hl).isCascade)), ?_⟩
      rintro child rfl
      obtain ⟨i, he⟩ | ⟨hsuccess, c, hc, he⟩ := hls _ hl
      · cases he
      · cases he
        exact ⟨hnew.mp hsuccess, by simp [stillRunning, hrow, hrun], hc⟩
    · rw [hms l hl]
      exact ⟨.inl rfl, fun child he => by cases he⟩

theorem Outcome.trace {cfg : Settings} {now : Time} {db db' : Database} {w : WorkerId}
    {held : Held} {succeeds : Bool} (hv : held.Valid w) (h : Outcome cfg now db held succeeds db') :
    ∃ ls, Trace (Change cfg) db ls db' ∧ ∀ l ∈ ls, IsOutcome held l := by
  obtain ⟨ls, htr, hls⟩ := h.labels hv
  exact ⟨ls, htr, fun l hl => (hls l hl).1⟩

end TaskPlatform
