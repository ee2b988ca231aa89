import TaskPlatform.View
import TaskPlatform.Cascade

/-!
# The lifecycle of one task

The invariant of the machine of one task: the row is well formed, the event log
is a history of its status, and the attempts are numbered by the row's counter,
which counts the starts in the log.
-/

namespace TaskPlatform

/-- The statuses that a task reaches only through a start. -/
def startedStatuses : List Status := [.running, .retryScheduled, .success, .failed, .deadLetter]

structure Task.WellFormed (row : Task) : Prop where
  leaseOwner : row.leaseOwner ≠ none ↔ row.status = .running
  leaseExpiresAt : row.leaseExpiresAt ≠ none ↔ row.status = .running
  finishedAt : row.finishedAt ≠ none ↔ row.status ∈ terminal
  scheduledAt : row.status ∈ dueStatuses → row.scheduledAt ≠ none
  unscheduled : row.status ∈ stuckStatuses → row.scheduledAt = none
  attempts : row.status ∈ startedStatuses → 1 ≤ row.attempts
  startedAt : row.status ∈ startedStatuses → row.startedAt ≠ none

/-- The event log as a history of the status. -/
abbrev Faithful (log : List TaskEvent) (status : Status) : Prop :=
  History TaskEvent.oldStatus TaskEvent.newStatus (fun a b => canTransition a b = true)
    .created log status

/-- A transition from `queued` to `running` in the log. -/
def isStart (e : TaskEvent) : Bool := e.oldStatus == .queued && e.newStatus == .running

/-- What holds of the view of a task that exists. -/
structure View.Sound (v : View) (row : Task) : Prop where
  wellFormed : row.WellFormed
  faithful : Faithful v.log row.status
  numbered : v.attempts.map (·.2.attemptNumber) = List.range' 1 row.attempts
  counted : (v.log.filter isStart).length = row.attempts
  unstarted : row.status = .created → row.attempts = 0

/-- The invariant of the machine of one task; a task that is gone leaves nothing behind. -/
def View.Ok (v : View) : Prop :=
  match v.row with
  | none => v.log = [] ∧ v.attempts = []
  | some row => v.Sound row

theorem View.Ok.sound {v : View} {row : Task} (h : v.Ok) (hrow : v.row = some row) :
    v.Sound row := by
  rw [View.Ok, hrow] at h
  exact h

theorem TaskSpec.row_wellFormed (cfg : Settings) (now : Time) (spec : TaskSpec) :
    (spec.row cfg now).WellFormed := by
  constructor <;> simp [TaskSpec.row, terminal, dueStatuses, stuckStatuses, startedStatuses]

/-- Leaving `running`, or never having been there, clears the lease. -/
theorem Task.WellFormed.moved_lease {row : Task} {new : Status} (h : row.WellFormed) (now : Time)
    (hnew : new ≠ .running) :
    (movedTask now row new).leaseOwner = none ∧ (movedTask now row new).leaseExpiresAt = none := by
  simp only [movedTask, Task.touch, setStatusFields_eq]
  by_cases hrun : row.status = .running
  · simp [hrun, hnew]
  · have howner : row.leaseOwner = none := by simpa [hrun] using h.leaseOwner
    have hexpires : row.leaseExpiresAt = none := by simpa [hrun] using h.leaseExpiresAt
    simp [hrun, howner, hexpires]

/-- The rows that a status change without a start or an outcome leaves. -/
theorem Task.WellFormed.moved {row : Task} {new : Status} (h : row.WellFormed) (now : Time)
    (ht : canTransition row.status new = true)
    (hnew : new = .queued ∨ new = .cancelled ∨ new = .scheduled ∧ row.scheduledAt ≠ none) :
    (movedTask now row new).WellFormed := by
  have hrun : new ≠ .running := by rcases hnew with rfl | rfl | ⟨rfl, -⟩ <;> decide
  have hstarted : new ∉ startedStatuses := by rcases hnew with rfl | rfl | ⟨rfl, -⟩ <;> decide
  have hopen : new ≠ .queued → row.finishedAt = none := by
    intro hq
    by_contra hf
    exact hq (canTransition_terminal ht (h.finishedAt.mp hf))
  obtain ⟨howner, hexpires⟩ := h.moved_lease now hrun
  constructor
  · simp [howner, hrun]
  · simp [hexpires, hrun]
  · simp only [movedTask, Task.touch, setStatusFields_eq]
    rcases hnew with rfl | rfl | ⟨rfl, -⟩
    · simp [terminal]
    · simp [terminal, hopen (by decide)]
    · simp [terminal, hopen (by decide)]
  · simp only [movedTask, Task.touch, setStatusFields_eq]
    rcases hnew with rfl | rfl | ⟨rfl, hat⟩
    · simp [dueStatuses]
    · simp [dueStatuses]
    · simp [hat]
  · simp only [movedTask, Task.touch, setStatusFields_eq]
    rcases hnew with rfl | rfl | ⟨rfl, -⟩
    · simp
    · simp [stuckStatuses]
    · simp [stuckStatuses]
  · exact fun hs => absurd hs hstarted
  · exact fun hs => absurd hs hstarted

/-- A lease of a well-formed row that has a time is the lease of a running task. -/
theorem running_of_stuck {now : Time} {row : Task} (hwf : row.WellFormed)
    (h : isStuck now row = true) : row.status = .running := by
  simp only [isStuck, Bool.and_eq_true, Option.any_eq_true] at h
  obtain ⟨⟨t, ht, -⟩, -⟩ := h
  exact hwf.leaseExpiresAt.mp (by rw [ht]; simp)

theorem Task.WellFormed.prepare {row : Task} (h : row.WellFormed) (cause : Cause) :
    (cause.prepare row).WellFormed := by
  cases cause
  case dlq => exact ⟨h.1, h.2, h.3, h.4, h.5, h.6, h.7⟩
  all_goals exact h

/-- The row of a start. -/
theorem Task.WellFormed.started {row : Task} (h : row.WellFormed) (hq : row.status = .queued)
    (now : Time) (w : WorkerId) (seconds : ℚ) : (startedTask now w seconds row).WellFormed := by
  have hopen : row.finishedAt = none := by simpa [hq, terminal] using h.finishedAt
  have hat : row.scheduledAt = none := h.unscheduled (by rw [hq]; decide)
  constructor
  · simp [startedTask]
  · simp [startedTask]
  · simp [startedTask, hopen, terminal]
  · simp [startedTask, dueStatuses]
  · simp [startedTask, hat]
  · simp [startedTask]
  · intro _
    simp only [startedTask]
    split
    · simp
    · assumption

/-- What an outcome writes through the worker's object: the status, a cleared lease, the end of a
task that is over and the time of a retry. -/
theorem Held.Valid.merge {task : Task} {new : Status} {w : WorkerId} {held : Held}
    (hv : held.Valid w) (row : Task) (now : Time) (hout : OutcomeFields now held.task.loaded new task) :
    let merged := Task.merge held.task.loaded (setStatusFields now task new) row
    merged.status = new ∧ merged.leaseOwner = none ∧ merged.leaseExpiresAt = none ∧
      merged.attempts = row.attempts ∧ merged.startedAt = row.startedAt ∧
      (if new = .retryScheduled then merged.scheduledAt ≠ none ∧ merged.finishedAt = row.finishedAt
        else merged.scheduledAt = row.scheduledAt ∧ merged.finishedAt ≠ none) := by
  have hrun := hv.running
  have howner := hv.owner
  have hexpires := hv.expires
  have hopen := hv.finished
  have hat := hv.scheduled
  cases hout <;>
    simp [Task.merge, setStatusFields_eq, mergeColumn, hrun, howner, hexpires.symm, hopen, hat,
      terminal]

/-- The row of an outcome, whatever became of the row since the start. -/
theorem Task.WellFormed.finished {row task : Task} {new : Status} {w : WorkerId} {held : Held}
    (h : row.WellFormed) (hrun : row.status = .running) (hv : held.Valid w) (now : Time)
    (hout : OutcomeFields now held.task.loaded new task) :
    ((Task.merge held.task.loaded (setStatusFields now task new) row).touch now).WellFormed := by
  have hopen : row.finishedAt = none := by simpa [hrun, terminal] using h.finishedAt
  have hat : row.scheduledAt = none := h.unscheduled (by rw [hrun]; decide)
  have hattempts : 1 ≤ row.attempts := h.attempts (by rw [hrun]; decide)
  have hstarted : row.startedAt ≠ none := h.startedAt (by rw [hrun]; decide)
  have hnew : new ≠ .running ∧ new ∉ stuckStatuses ∧ (new ∈ terminal ↔ new ≠ .retryScheduled) ∧
      (new ∈ dueStatuses → new = .retryScheduled) := by
    cases hout <;> decide
  obtain ⟨hnrun, hstuck, hterminal, hdue⟩ := hnew
  obtain ⟨hs, howner, hexpires, hnum, hstart, hrest⟩ := hv.merge row now hout
  constructor <;> simp only [Task.touch, hs, howner, hexpires, hnum, hstart]
  · simpa using hnrun
  · simpa using hnrun
  · rw [hterminal]
    split at hrest
    · rename_i hr
      rw [hrest.2, hopen]
      simp [hr]
    · rename_i hr
      simp [hr, hrest.2]
  · intro hd
    rw [if_pos (hdue hd)] at hrest
    exact hrest.1
  · exact fun hd => absurd hd hstuck
  · exact fun _ => hattempts
  · exact fun _ => hstarted

theorem Faithful.not_start {log : List TaskEvent} {e : TaskEvent} (h : e.newStatus ≠ .running) :
    ((log ++ [e]).filter isStart).length = (log.filter isStart).length := by
  have he : isStart e = false := by simp [isStart, h]
  simp [List.filter_append, he]

/-- An event and a new row, without a start. -/
theorem View.Sound.change {v : View} {row row' : Task} (h : v.Sound row) (e : TaskEvent)
    (hwf : row'.WellFormed) (hold : e.oldStatus = row.status) (hnew : e.newStatus = row'.status)
    (ht : canTransition row.status row'.status = true) (hrun : row'.status ≠ .running)
    (hnum : row'.attempts = row.attempts) : ((v.record e).write row').Ok where
  wellFormed := hwf
  faithful := by
    have hedge : canTransition e.oldStatus e.newStatus = true := by rw [hold, hnew]; exact ht
    rw [← hnew]
    exact h.faithful.append hold (fun _ => hedge)
  numbered := by rw [hnum]; exact h.numbered
  counted := by
    rw [hnum, ← h.counted]
    exact Faithful.not_start (by rw [hnew]; exact hrun)
  unstarted := by
    intro hc
    rw [hc, canTransition_created] at ht
    cases ht

/-- A new row of the same status, without an event. -/
theorem View.Sound.write {v : View} {row row' : Task} (h : v.Sound row) (hwf : row'.WellFormed)
    (hs : row'.status = row.status) (hnum : row'.attempts = row.attempts) :
    (v.write row').Ok where
  wellFormed := hwf
  faithful := by rw [hs]; exact h.faithful
  numbered := by rw [hnum]; exact h.numbered
  counted := by rw [hnum]; exact h.counted
  unstarted := by rw [hs, hnum]; exact h.unstarted

/-- Rewriting attempts without touching their numbers. -/
theorem View.rewrite_numbers (v : View) (attemptId : Nat) {f : TaskAttempt → TaskAttempt}
    (hf : ∀ a, (f a).attemptNumber = a.attemptNumber) :
    (v.rewrite attemptId f).attempts.map (·.2.attemptNumber) =
      v.attempts.map (·.2.attemptNumber) := by
  simp only [View.rewrite, List.map_map]
  apply List.map_congr_left
  intro r _
  simp only [Function.comp]
  split
  · exact hf r.2
  · rfl

theorem View.Sound.rewrite {v : View} {row : Task} (h : v.Sound row) (attemptId : Nat)
    {f : TaskAttempt → TaskAttempt} (hf : ∀ a, (f a).attemptNumber = a.attemptNumber) :
    (v.rewrite attemptId f).Sound row :=
  ⟨h.wellFormed, h.faithful, by rw [View.rewrite_numbers v attemptId hf]; exact h.numbered,
    h.counted, h.unstarted⟩

@[simp] theorem View.rewrite_row (v : View) (attemptId : Nat) (f : TaskAttempt → TaskAttempt) :
    (v.rewrite attemptId f).row = v.row := rfl

theorem View.Ok.rewrite {v : View} (h : v.Ok) (attemptId : Nat) {f : TaskAttempt → TaskAttempt}
    (hf : ∀ a, (f a).attemptNumber = a.attemptNumber) : (v.rewrite attemptId f).Ok := by
  cases hrow : v.row with
  | none =>
    rw [View.Ok, hrow] at h
    rw [View.Ok, View.rewrite_row, hrow]
    exact ⟨h.1, by rw [View.rewrite, h.2]; rfl⟩
  | some row =>
    rw [View.Ok, View.rewrite_row, hrow]
    exact (h.sound hrow).rewrite attemptId hf

theorem View.Sound.closeLast {v : View} {row : Task} (h : v.Sound row) (now : Time) :
    (v.closeLast now).Sound row := by
  unfold View.closeLast
  split
  · exact h
  · exact h.rewrite _ (fun _ => rfl)

/-- A start takes the next number and leaves the start in the log. -/
theorem View.Sound.started {v : View} {row : Task} (h : v.Sound row)
    (hq : row.status = .queued) (now : Time) (w : WorkerId) (id : TaskId) (attemptId : Nat)
    (seconds : ℚ) :
    (v.started now w id attemptId row (startedTask now w seconds row)).Ok where
  wellFormed := h.wellFormed.started hq now w seconds
  faithful := by
    have hrunning := h.faithful.append
      (e := ⟨id, .running, row.status, .running, none, now⟩) rfl (fun _ => by rw [hq]; rfl)
    exact hrunning.append (e := ⟨id, .attemptStarted, .running, .running,
      some (.attemptNumber (row.attempts + 1)), now⟩) rfl (fun hne => absurd rfl hne)
  numbered := by
    simp only [View.started, View.record, View.attempt, View.write, List.map_append, List.map_cons,
      List.map_nil, newAttempt, startedTask, h.numbered]
    rw [List.range'_concat]
    simp [Nat.add_comm]
  counted := by
    simp only [View.started, View.record, View.attempt, View.write, startedTask]
    simp [List.filter_append, isStart, hq, h.counted]
  unstarted := by
    intro hc
    cases hc

/-- The invariant is kept by every step. -/
theorem View.Step.ok {cfg : Settings} {id : TaskId} {v v' : View} {l : Label}
    (h : View.Step cfg id v l v') (hv : v.Ok) : v'.Ok := by
  cases h with
  | insert now spec hrow =>
    rw [View.Ok, hrow] at hv
    have hlog : (v.record ⟨id, .created, .created, .created, none, now⟩).log =
        [⟨id, .created, .created, .created, none, now⟩] := by
      rw [View.record, hv.1]; rfl
    refine View.Sound.mk (spec.row_wellFormed cfg now) ?_ ?_ ?_ ?_
    · simp only [View.write, hlog]
      exact History.start rfl rfl
    · simp [View.write, View.record, hv.2, TaskSpec.row]
    · simp only [View.write, hlog]
      rfl
    · exact fun _ => rfl
  | @block row now parents details hrow hs =>
    have hsound := hv.sound hrow
    rw [View.Ok, View.record, hrow]
    refine ⟨hsound.wellFormed, ?_, hsound.numbered, ?_, hsound.unstarted⟩
    · have h := hsound.faithful.append (e := ⟨id, .blocked, .created, .created, details, now⟩)
        hs.symm (fun hne => absurd rfl hne)
      rw [hs]
      exact h
    · rw [← hsound.counted]
      exact Faithful.not_start (by simp)
  | @schedule row now hrow hs hat =>
    have hsound := hv.sound hrow
    have ht : canTransition row.status .scheduled = true := by rw [hs]; rfl
    exact hsound.change _ (hsound.wellFormed.moved now ht (.inr (.inr ⟨rfl, hat⟩))) rfl rfl ht
      (by simp) (by simp)
  | @enqueue row now cause eventType details hrow hs =>
    have hsound := hv.sound hrow
    have hprepared := hsound.wellFormed.prepare cause
    have ht : canTransition (cause.prepare row).status .queued = true := by
      rw [Cause.prepare_status]
      exact Cause.sources_transition hs
    exact hsound.change _ (hprepared.moved now ht (.inl rfl)) (cause.prepare_status row) rfl
      (Cause.sources_transition hs) (by simp) (by simp)
  | @cancel row now details hrow hs =>
    have hsound := hv.sound hrow
    have ht : canTransition row.status .cancelled = true := (canTransition_cancelled _).mpr hs
    exact hsound.change _ (hsound.wellFormed.moved now ht (.inr (.inl rfl))) rfl rfl ht
      (by simp) (by simp)
  | @start row now w attemptId hrow hs hfree =>
    exact (hv.sound hrow).started hs now w id attemptId cfg.taskLeaseSeconds
  | @renew row now w hrow howner hs =>
    have hsound := hv.sound hrow
    obtain ⟨h1, -, h3, h4, h5, h6, h7⟩ := hsound.wellFormed
    exact hsound.write ⟨h1, by simp [renewed, hs], h3, h4, h5, h6, h7⟩ rfl rfl
  | close attemptId hclose => exact hv.rewrite attemptId hclose.merge_number
  | @finish row now w held task new eventType details hvalid hrow hs hout =>
    have hsound := hv.sound hrow
    have hmerge := hvalid.merge row now hout
    have hstatus : ((Task.merge held.task.loaded (setStatusFields now task new) row).touch
      now).status = new := hmerge.1
    refine hsound.change _ (hsound.wellFormed.finished hs hvalid now hout) hs.symm hstatus.symm ?_
      ?_ hmerge.2.2.2.1
    · rw [hstatus, hs]
      exact hout.transition
    · rw [hstatus]
      cases hout <;> decide
  | @stamp row now dlqRetryAt hrow =>
    have hsound := hv.sound hrow
    obtain ⟨h1, h2, h3, h4, h5, h6, h7⟩ := hsound.wellFormed
    exact hsound.write ⟨h1, h2, h3, h4, h5, h6, h7⟩ rfl rfl
  | @recover row now details hrow hs hexpired =>
    have hsound := (hv.sound hrow).closeLast now
    have ht : canTransition row.status .queued = true := by rw [hs]; rfl
    exact hsound.change _ (hsound.wellFormed.moved now ht (.inl rfl)) rfl rfl ht
      (by simp) (by simp)
  | @release row now hrow hs hlease =>
    have hsound := hv.sound hrow
    obtain ⟨-, -, h3, h4, h5, h6, h7⟩ := hsound.wellFormed
    exact hsound.write ⟨by simp [hs], by simp [hs], h3, h4, h5, h6, h7⟩ rfl rfl
  | delete hrow hfin => exact ⟨rfl, rfl⟩

end TaskPlatform
