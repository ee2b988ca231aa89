import TaskPlatform.CascadeDepth
import TaskPlatform.WorkerTrace
import TaskPlatform.View

/-!
# Status changes through old objects

`set_status` works on an object that can be older than its row. Whatever became
of the row, it adds one event from the status of the object and leaves the task
in the new status; its cascade leaves both.
-/

namespace TaskPlatform

open Run

/-- One event from `old` was added, and the task is in `new`. -/
structure Moved (id : TaskId) (old new : Status) (db db' : Database) : Prop where
  event : ∃ e, db'.eventsOf id = db.eventsOf id ++ [e] ∧ e.oldStatus = old
  row : ∃ row, db'.tasks.get id = some row ∧ row.status = new

theorem Moved.of_left {id : TaskId} {old new : Status} {db₀ db db' : Database}
    (h : Moved id old new db db') (he : db.eventsOf id = db₀.eventsOf id) :
    Moved id old new db₀ db' := ⟨he ▸ h.event, h.row⟩

/-- A cascade leaves the view of every task that is not created. -/
theorem CascadeStep.frame_view {cfg : Settings} {db db' : Database} {l : Label}
    (h : CascadeStep cfg db l db') {id : TaskId} {row : Task} (hrow : db.tasks.get id = some row)
    (hs : row.status ≠ .created) : db'.view id = db.view id := by
  have hne : ∀ child childRow, db.tasks.get child = some childRow → childRow.status = .created →
      id ≠ child := by
    rintro child childRow hchild hc rfl
    rw [hrow] at hchild
    cases hchild
    exact hs hc
  cases h with
  | cancel now details hchild hc => exact view_move_of_ne now db _ _ _ _ (hne _ _ hchild hc)
  | unblock now details hchild hc hp => exact view_move_of_ne now db _ _ _ _ (hne _ _ hchild hc)

theorem CascadeStep.frame_view_trace {cfg : Settings} {db db' : Database} {ls : List Label}
    (h : Trace (CascadeStep cfg) db ls db') {id : TaskId} {row : Task}
    (hrow : db.tasks.get id = some row) (hs : row.status ≠ .created) :
    db'.view id = db.view id := by
  induction h with
  | nil db => rfl
  | cons hstep _ ih => exact (ih (hstep.frame hrow hs)).trans (hstep.frame_view hrow hs)

/-- The row that `set_status` leaves: what the object changed, over what became of the row. -/
theorem setStatusFuel_row {cfg : Settings} {now : Time} {levels : Nat} {db db' : Database}
    {task task' : Instance} {row : Task} {new : Status} {eventType : EventType}
    {details : Option Details} (hrow : db.tasks.get task.id = some row)
    (hst : task.loaded.status = task.cur.status) (ht : canTransition task.cur.status new = true)
    (h : setStatusFuel cfg now levels db task new eventType details = .ok (db', task')) :
    task' = Instance.fresh task.id (movedTask now task.cur new) ∧
      db'.view task.id = ((db.view task.id).record
        ⟨task.id, eventType, task.cur.status, new, details, now⟩).write
          ((Task.merge task.loaded (setStatusFields now task.cur new) row).touch now) := by
  obtain ⟨rfl, n, hcascade⟩ := setStatusFuel_ok hrow hst ht h
  obtain ⟨ls, htr⟩ := cascade_trace hcascade
  let merged := (Task.merge task.loaded (setStatusFields now task.cur new) row).touch now
  have hview := view_change_self now merged task.cur.status new eventType details
    (movedTask now task.cur new) hrow
  have hmerged : merged.status = new := by
    have hne : (setStatusFields now task.cur new).status ≠ task.loaded.status := by
      rw [setStatusFields_status, hst]
      exact (canTransition_ne ht).symm
    exact mergeColumn_of_ne row.status hne
  have hcreated : merged.status ≠ .created := by
    rw [hmerged]
    rintro rfl
    rw [canTransition_created] at ht
    cases ht
  have hget := congrArg View.row hview
  exact ⟨rfl, (CascadeStep.frame_view_trace htr hget hcreated).trans hview⟩

/-- `set_status` moves the task from the status of the object, whatever became of the row. -/
theorem setStatusFuel_moved {cfg : Settings} {now : Time} {levels : Nat} {db db' : Database}
    {task task' : Instance} {row : Task} {new : Status} {eventType : EventType}
    {details : Option Details} (hrow : db.tasks.get task.id = some row)
    (hst : task.loaded.status = task.cur.status) (ht : canTransition task.cur.status new = true)
    (h : setStatusFuel cfg now levels db task new eventType details = .ok (db', task')) :
    Moved task.id task.cur.status new db db' := by
  obtain ⟨-, hview⟩ := setStatusFuel_row hrow hst ht h
  have hne : (setStatusFields now task.cur new).status ≠ task.loaded.status := by
    rw [setStatusFields_status, hst]
    exact (canTransition_ne ht).symm
  refine ⟨⟨⟨task.id, eventType, task.cur.status, new, details, now⟩, ?_, rfl⟩,
    _, congrArg View.row hview, mergeColumn_of_ne row.status hne⟩
  exact congrArg View.log hview

theorem setStatus_moved {cfg : Settings} {now : Time} {db : Database} {task : Instance}
    {row : Task} {new : Status} (eventType : EventType) (details : Option Details)
    (hrow : db.tasks.get task.id = some row) (hst : task.loaded.status = task.cur.status)
    (ht : canTransition task.cur.status new = true) :
    ∃ db', setStatus cfg now db task new eventType details =
        .ok (db', Instance.fresh task.id (movedTask now task.cur new)) ∧
      Moved task.id task.cur.status new db db' := by
  obtain ⟨⟨db', task'⟩, hok⟩ : ∃ r, setStatus cfg now db task new eventType details = .ok r :=
    setStatus_total eventType details hrow hst ht
  obtain ⟨rfl, -⟩ := setStatusFuel_row hrow hst ht hok
  exact ⟨db', hok, setStatusFuel_moved hrow hst ht hok⟩

theorem setStatus_held_moved (cfg : Settings) {now : Time} {db : Database} {w : WorkerId}
    {held : Held} {row task : Task} {new : Status} (eventType : EventType)
    (details : Option Details) (hv : held.Valid w)
    (hrow : db.tasks.get held.task.id = some row)
    (hout : OutcomeFields now held.task.loaded new task) :
    ∃ db', setStatus cfg now db ⟨held.task.id, held.task.loaded, task⟩ new eventType details =
        .ok (db', Instance.fresh held.task.id (movedTask now task new)) ∧
      Moved held.task.id .running new db db' := by
  let object : Instance := ⟨held.task.id, held.task.loaded, task⟩
  have hst : object.cur.status = .running := hout.status.trans hv.running
  have hsame : object.loaded.status = object.cur.status := hv.running.trans hst.symm
  have ht : canTransition object.cur.status new = true := by rw [hst]; exact hout.transition
  have hobject : db.tasks.get object.id = some row := hrow
  obtain ⟨db', hok, hmoved⟩ : ∃ db', setStatus cfg now db object new eventType details = _ ∧
    Moved object.id object.cur.status new db db' := setStatus_moved eventType details hobject hsame ht
  rw [hst] at hmoved
  exact ⟨db', hok, hmoved⟩

/-- The worker that executed a task moves it out of `running`. -/
theorem finishSuccess_moved (cfg : Settings) (now : Time) {db : Database} {w : WorkerId}
    {held : Held} {row : Task} (result : Json) (hv : held.Valid w)
    (hrow : db.tasks.get held.task.id = some row) :
    ∃ db', finishSuccess cfg now db held result = .ok db' ∧
      Moved held.task.id .running .success db db' := by
  obtain ⟨db', hok, hmoved⟩ := setStatus_held_moved cfg .succeeded none hv hrow
    (.success result : OutcomeFields now held.task.loaded _ _)
  exact ⟨db', by simp only [finishSuccess, hv.same, bind, Except.bind, hok, pure, Except.pure],
    hmoved⟩

theorem flush_total (now : Time) {db : Database} (task : Instance)
    (h : (db.tasks.get task.id).isSome) : ∃ r, flush now db task = .ok r := by
  obtain ⟨row, hrow⟩ := Option.isSome_iff_exists.mp h
  unfold flush
  split
  · exact ⟨_, rfl⟩
  · rw [hrow]
    exact ⟨_, rfl⟩

/-- The flush of `dlq_retry_at` moves nothing. -/
theorem Moved.stamped {now : Time} {id : TaskId} {old new : Status} {db db₁ db' : Database}
    (h : Moved id old new db db₁) (hs : Stamped now id db₁ db') : Moved id old new db db' := by
  obtain rfl | ⟨row, dlqRetryAt, hrow, rfl⟩ := hs
  · exact h
  · obtain ⟨row', hrow', hnew⟩ := h.row
    rw [hrow] at hrow'
    cases hrow'
    exact ⟨h.event, _, get_setTask_self _ hrow, hnew⟩

theorem finishFailure_moved (cfg : Settings) (now : Time) {db : Database} {w : WorkerId}
    {held : Held} {row : Task} (error : String) (retryable : Bool) (hv : held.Valid w)
    (hrow : db.tasks.get held.task.id = some row) :
    ∃ db' new, finishFailure cfg now db held error retryable = .ok db' ∧ new ≠ .running ∧
      Moved held.task.id .running new db db' := by
  simp only [finishFailure, hv.same]
  split
  · rename_i hretry
    obtain ⟨db', hok, hmoved⟩ := setStatus_held_moved cfg .retryScheduled
      (some (.retryAt held.attempt.attemptNumber
        (computeRetryDelaySeconds cfg held.task.loaded.attempts)
        (now + timedelta (computeRetryDelaySeconds cfg held.task.loaded.attempts)))) hv hrow
      (.retry (truncateError error) (now + timedelta (computeRetryDelaySeconds cfg
        held.task.loaded.attempts)) hretry.2 : OutcomeFields now held.task.loaded _ _)
    exact ⟨db', _, by simp only [bind, Except.bind, hok, pure, Except.pure], by decide, hmoved⟩
  · split
    · obtain ⟨db₁, hok, hmoved⟩ := setStatus_held_moved cfg .deadLettered
        (some (.attemptError held.attempt.attemptNumber (truncateError error))) hv hrow
        (.deadLetter (truncateError error) : OutcomeFields now held.task.loaded _ _)
      let moved := movedTask now { held.task.loaded with lastError := some (truncateError error) }
        .deadLetter
      obtain ⟨row', hrow', -⟩ := hmoved.row
      obtain ⟨⟨db', task'⟩, hflush⟩ : ∃ r, flush now db₁ ⟨held.task.id, moved,
          { moved with dlqRetryAt := dlqRetryAtAfter cfg now moved }⟩ = .ok r :=
        flush_total now _ (by rw [hrow']; rfl)
      refine ⟨db', .deadLetter, ?_, by decide, hmoved.stamped (flush_dlqRetryAt _ hflush)⟩
      simp only [bind, Except.bind, hok, pure, Except.pure, Instance.fresh]
      rw [hflush]
    · obtain ⟨db', hok, hmoved⟩ := setStatus_held_moved cfg .failed
        (some (.attemptError held.attempt.attemptNumber (truncateError error))) hv hrow
        (.failed (truncateError error) : OutcomeFields now held.task.loaded _ _)
      exact ⟨db', _, by simp only [bind, Except.bind, hok, pure, Except.pure], by decide, hmoved⟩

end TaskPlatform
