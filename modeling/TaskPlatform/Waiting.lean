import TaskPlatform.DeadLetters
import TaskPlatform.Fencing
import TaskPlatform.Lease
import TaskPlatform.Lib.Backlog
import TaskPlatform.ScheduleAt
import TaskPlatform.Ticks

/-!
# Waiting for the coordinator

A tick takes the rows with the earliest times first, and a task that starts to
wait now gets a time from now on. So no load that comes later keeps a due task,
or one whose lease has expired, from its tick for more than a bounded number of
ticks.
-/

namespace TaskPlatform

open Run Backlog

/-- The durations by which the configuration puts a time off are no negative ones. -/
structure Settings.Periods (cfg : Settings) : Prop where
  lease : 0 ≤ cfg.taskLeaseSeconds
  base : 0 ≤ cfg.retryBaseSeconds
  factor : 0 ≤ cfg.retryBackoffFactor
  cap : 0 ≤ cfg.retryMaxDelaySeconds

theorem timedelta_nonneg {seconds : ℚ} (h : 0 ≤ seconds) : 0 ≤ timedelta seconds := by
  have hfloor : 0 ≤ (seconds * 1000000).floor := by
    have hmicros : 0 ≤ seconds * 1000000 := mul_nonneg h (by norm_num)
    exact Int.floor_nonneg.mpr hmicros
  unfold timedelta
  simp only
  split
  · exact hfloor
  · split
    · exact Int.add_nonneg hfloor (by decide)
    · split
      · exact hfloor
      · exact Int.add_nonneg hfloor (by decide)

theorem Settings.Periods.delay {cfg : Settings} (h : cfg.Periods) (attempts : Nat) :
    0 ≤ timedelta (computeRetryDelaySeconds cfg attempts) :=
  timedelta_nonneg (le_min (mul_nonneg h.base (zpow_nonneg h.factor _)) h.cap)

section

variable {cfg : Settings} {loop : Loop} {K now : Time} {row row' : Task}

theorem Loop.key_le (h : loop.cond cfg K row = true) : loop.key row ≤ K := by
  cases loop with
  | due =>
    simp only [cond, isDue, Bool.and_eq_true, Option.any_eq_true, decide_eq_true_eq] at h
    obtain ⟨-, t, ht, hle⟩ := h
    simpa [key, ht] using hle
  | dlq =>
    simp only [cond, isDlqDue, Bool.and_eq_true, Option.any_eq_true, decide_eq_true_eq] at h
    obtain ⟨⟨-, t, ht, hle⟩, -⟩ := h
    simpa [key, ht] using hle
  | stuck =>
    simp only [cond, isStuck, Bool.and_eq_true, Option.any_eq_true, decide_eq_true_eq] at h
    obtain ⟨⟨t, ht, hlt⟩, -⟩ := h
    simpa [key, ht] using le_of_lt hlt

/-- A row that the query finds later, with an earlier time, was found already. -/
theorem Loop.cond_of_le (h : loop.cond cfg now row = true) (h' : loop.cond cfg K row' = true)
    (hkey : loop.key row ≤ loop.key row') : loop.cond cfg K row = true := by
  cases loop with
  | due =>
    simp only [cond, isDue, Bool.and_eq_true, Option.any_eq_true, decide_eq_true_eq] at h h' ⊢
    obtain ⟨hs, t, ht, -⟩ := h
    obtain ⟨-, t', ht', hle⟩ := h'
    exact ⟨hs, t, ht, le_trans (by simpa [key, ht, ht'] using hkey) hle⟩
  | dlq =>
    simp only [cond, isDlqDue, Bool.and_eq_true, Option.any_eq_true, decide_eq_true_eq] at h h' ⊢
    obtain ⟨⟨hs, t, ht, -⟩, hcount⟩ := h
    obtain ⟨⟨-, t', ht', hle⟩, -⟩ := h'
    exact ⟨⟨hs, t, ht, le_trans (by simpa [key, ht, ht'] using hkey) hle⟩, hcount⟩
  | stuck =>
    simp only [cond, isStuck, Bool.and_eq_true, Option.any_eq_true, decide_eq_true_eq] at h h' ⊢
    obtain ⟨⟨t, ht, -⟩, hs⟩ := h
    obtain ⟨⟨t', ht', hlt⟩, -⟩ := h'
    exact ⟨⟨t, ht, lt_of_le_of_lt (by simpa [key, ht, ht'] using hkey) hlt⟩, hs⟩

theorem Loop.cond_mono (h : loop.cond cfg K row = true) (hK : K ≤ now) :
    loop.cond cfg now row = true := by
  cases loop with
  | due =>
    simp only [cond, isDue, Bool.and_eq_true, Option.any_eq_true, decide_eq_true_eq] at h ⊢
    obtain ⟨hs, t, ht, hle⟩ := h
    exact ⟨hs, t, ht, le_trans hle hK⟩
  | dlq =>
    simp only [cond, isDlqDue, Bool.and_eq_true, Option.any_eq_true, decide_eq_true_eq] at h ⊢
    obtain ⟨⟨hs, t, ht, hle⟩, hcount⟩ := h
    exact ⟨⟨hs, t, ht, le_trans hle hK⟩, hcount⟩
  | stuck =>
    simp only [cond, isStuck, Bool.and_eq_true, Option.any_eq_true, decide_eq_true_eq] at h ⊢
    obtain ⟨⟨t, ht, hlt⟩, hs⟩ := h
    exact ⟨⟨t, ht, lt_of_lt_of_le hlt hK⟩, hs⟩

end

section

variable {cfg : Settings} {now : Time} {db db' : Database} {id : TaskId} {row row' : Task}
  {loop : Loop} {p : Platform} {a : Action}

/-- A change that brings no time to the task. -/
def Timeless (id : TaskId) (l : Label) : Prop :=
  l ≠ .other ∧ l ≠ .stamp id ∧ l ≠ .settle id .retryScheduled ∧ ∀ w, l ≠ .start w id

theorem Task.Step.timeless {l : Label} (h : Task.Step cfg id row l row') (hloop : loop ≠ .dlq)
    (hl : Timeless id l) (hs : row'.status ∈ loop.statuses) : row' = row := by
  obtain ⟨hother, hstamp, hretry, hstart⟩ := hl
  have hnot : ∀ s, s ∉ dueStatuses → s ≠ .running → s ∉ loop.statuses := by
    intro s hdue hrun
    cases loop with
    | due => exact hdue
    | dlq => exact absurd rfl hloop
    | stuck => simpa [Loop.statuses] using hrun
  cases h with
  | same => rfl
  | schedule => exact absurd rfl hother
  | enqueue now cause hsource => exact absurd hs (hnot .queued (by decide) (by decide))
  | cancel now hsource => exact absurd hs (hnot .cancelled (by decide) (by decide))
  | start now w hq => exact absurd rfl (hstart w)
  | renew => exact absurd rfl hother
  | @finish now w held task new hv hrun hout =>
    have hnew : new ∈ loop.statuses := (hv.merge row now hout).1 ▸ hs
    cases hout with
    | retry => exact absurd rfl hretry
    | success => exact absurd hnew (hnot _ (by decide) (by decide))
    | deadLetter => exact absurd hnew (hnot _ (by decide) (by decide))
    | failed => exact absurd hnew (hnot _ (by decide) (by decide))
  | stamp => exact absurd rfl hstamp
  | recover now hrun => exact absurd hs (hnot .queued (by decide) (by decide))
  | release => exact absurd rfl hother

/-- A creation writes its own row only. -/
theorem createTask_others {spec : TaskSpec} {i : TaskId}
    (h : createTask cfg now db spec = .ok (db', i)) (hid : id ≠ db.tasks.next) :
    db'.tasks.get id = db.tasks.get id := by
  have hinsert : (insertTask cfg now db spec).tasks.get id = db.tasks.get id :=
    (Table.get_insert _ _ _).trans (if_neg hid)
  simp only [createTask] at h
  split at h
  · cases h
  · split at h
    · obtain ⟨db₁, hdeps, hdb⟩ := bind_ok h
      cases hdb
      obtain ⟨rfl, -⟩ := registerDependencies_ok hdeps
      exact hinsert
    · split at h
      · cases h
      split at h
      · obtain ⟨⟨db₁, task⟩, hset, hdb⟩ := bind_ok h
        cases hdb
        exact (setStatus_frame (by decide) hset id hid).trans hinsert
      · obtain ⟨⟨db₁, task⟩, hset, hdb⟩ := bind_ok h
        cases hdb
        exact (setStatus_frame (by decide) hset id hid).trans hinsert

/-- A new task that waits, waits for a time after its creation. -/
theorem createTask_key {spec : TaskSpec} {i : TaskId} (hloop : loop ≠ .dlq)
    (h : createTask cfg now db spec = .ok (db', i))
    (hrow' : db'.tasks.get db.tasks.next = some row') (hs : row'.status ∈ loop.statuses) :
    now ≤ loop.key row' := by
  have hrow := insertTask_get cfg now db spec
  simp only [createTask] at h
  split at h
  · cases h
  · split at h
    · obtain ⟨db₁, hreg, hdb⟩ := bind_ok h
      cases hdb
      obtain ⟨rfl, -⟩ := registerDependencies_ok hreg
      obtain rfl := Option.some.inj (hrow.symm.trans hrow')
      cases loop <;> simp [Loop.statuses, dueStatuses, TaskSpec.row] at hs
    · split at h
      · cases h
      split at h
      · rename_i hlater
        obtain ⟨⟨db₁, task⟩, hset, hdb⟩ := bind_ok h
        cases hdb
        obtain ⟨rfl, rfl⟩ := setStatus_ok hrow rfl rfl (by decide) hset
        obtain rfl := Option.some.inj ((get_setTask_self _ hrow).symm.trans hrow')
        obtain ⟨t, ht, hlt⟩ := Option.any_eq_true _ _ |>.mp hlater
        cases loop with
        | due =>
          have hat : (movedTask now (spec.row cfg now) .scheduled).scheduledAt = some t := by
            simp [movedTask, Task.touch, setStatusFields_eq, TaskSpec.row, ht]
          simpa [Loop.key, hat] using le_of_lt (of_decide_eq_true hlt)
        | dlq => exact absurd rfl hloop
        | stuck => simp [Loop.statuses] at hs
      · obtain ⟨⟨db₁, task⟩, hset, hdb⟩ := bind_ok h
        cases hdb
        obtain ⟨rfl, rfl⟩ := setStatus_ok hrow rfl rfl (by decide) hset
        obtain rfl := Option.some.inj ((get_setTask_self _ hrow).symm.trans hrow')
        cases loop <;> simp [Loop.statuses, dueStatuses] at hs

theorem Held.Valid.merged_status {w : WorkerId} {held : Held} {task : Task} {new : Status}
    (hv : held.Valid w) (row : Task) (hout : OutcomeFields now held.task.loaded new task) :
    ((Task.merge held.task.loaded (setStatusFields now task new) row).touch now).status = new :=
  (hv.merge row now hout).1

theorem flush_status_row {task : Task} {task' : Instance} {retryAt : Option Time}
    (hrow : db.tasks.get id = some row)
    (h : flush now db ⟨id, task, { task with dlqRetryAt := retryAt }⟩ = .ok (db', task')) :
    ∃ row', db'.tasks.get id = some row' ∧ row'.status = row.status := by
  unfold flush at h
  split at h
  · cases h
    exact ⟨row, hrow, rfl⟩
  · rw [hrow] at h
    cases h
    refine ⟨_, get_setTask_self _ hrow, ?_⟩
    simp [Task.merge, Task.touch]

/-- What an outcome makes of the row of its task, as far as a tick looks at it. -/
def Settled (cfg : Settings) (now : Time) (held : Held) (row row' : Task) : Prop :=
  row' = row ∨ row'.status ∈ terminal ∨ row'.status = .retryScheduled ∧ row'.scheduledAt =
    some (now + timedelta (computeRetryDelaySeconds cfg held.task.loaded.attempts))

section

variable {w : WorkerId} {held : Held} (hv : held.Valid w)
  (hrow : db.tasks.get held.task.id = some row)

include hv hrow

theorem finishSuccess_settled {result : Json} (h : finishSuccess cfg now db held result = .ok db') :
    ∃ row', db'.tasks.get held.task.id = some row' ∧ Settled cfg now held row row' := by
  simp only [finishSuccess, hv.same] at h
  obtain ⟨⟨db₁, task⟩, hset, h⟩ := bind_ok h
  cases h
  have hout : OutcomeFields now held.task.loaded .success _ := .success result
  refine ⟨_, (setStatus_held_row hv hrow hout hset).2, .inr (.inl ?_)⟩
  rw [hv.merged_status row hout]
  decide

/-- The pause is the one of the attempt. -/
theorem finishFailure_settled {error : String} {retryable : Bool}
    (h : finishFailure cfg now db held error retryable = .ok db') :
    ∃ row', db'.tasks.get held.task.id = some row' ∧ Settled cfg now held row row' := by
  simp only [finishFailure, hv.same] at h
  split at h
  · rename_i hretry
    obtain ⟨⟨db₁, task⟩, hset, h⟩ := bind_ok h
    cases h
    let t := now + timedelta (computeRetryDelaySeconds cfg held.task.loaded.attempts)
    have hout : OutcomeFields now held.task.loaded .retryScheduled _ :=
      .retry (truncateError error) t hretry.2
    refine ⟨_, (setStatus_held_row hv hrow hout hset).2,
      .inr (.inr ⟨hv.merged_status row hout, ?_⟩)⟩
    have hat : (setStatusFields now { held.task.loaded with
        lastError := some (truncateError error), scheduledAt := some t }
          .retryScheduled).scheduledAt = some t := by
      simp [setStatusFields_eq]
    refine (mergeColumn_of_ne row.scheduledAt ?_).trans hat
    rw [hat, hv.scheduled]
    exact Option.some_ne_none _
  · split at h
    · obtain ⟨⟨db₁, task⟩, hset, h⟩ := bind_ok h
      have hout : OutcomeFields now held.task.loaded .deadLetter _ :=
        .deadLetter (truncateError error)
      obtain ⟨rfl, hrow₁⟩ := setStatus_held_row hv hrow hout hset
      obtain ⟨⟨db₂, task⟩, hflush, h⟩ := bind_ok h
      cases h
      obtain ⟨row', hrow', hs⟩ := flush_status_row hrow₁ hflush
      refine ⟨row', hrow', .inr (.inl ?_)⟩
      rw [hs, hv.merged_status row hout]
      decide
    · obtain ⟨⟨db₁, task⟩, hset, h⟩ := bind_ok h
      cases h
      have hout : OutcomeFields now held.task.loaded .failed _ := .failed (truncateError error)
      refine ⟨_, (setStatus_held_row hv hrow hout hset).2, .inr (.inl ?_)⟩
      rw [hv.merged_status row hout]
      decide

theorem recordSuccess_settled {result : Json}
    (h : recordSuccess cfg now db held result = .ok db') :
    ∃ row', db'.tasks.get held.task.id = some row' ∧ Settled cfg now held row row' := by
  obtain ⟨db₁, hclose, h⟩ := bind_ok h
  obtain ⟨-, rfl⟩ := flushAttempt_ok hclose
  split at h
  · cases h
    exact ⟨row, hrow, .inl rfl⟩
  · refine finishSuccess_settled hv ?_ h
    exact hrow

theorem recordFailure_settled {error : String} {retryable : Bool}
    (h : recordFailure cfg now db held error retryable = .ok db') :
    ∃ row', db'.tasks.get held.task.id = some row' ∧ Settled cfg now held row row' := by
  obtain ⟨db₁, hclose, h⟩ := bind_ok h
  obtain ⟨-, rfl⟩ := flushAttempt_ok hclose
  split at h
  · cases h
    exact ⟨row, hrow, .inl rfl⟩
  · refine finishFailure_settled hv ?_ h
    exact hrow

end

/-- Retention brings nothing. -/
theorem purgeOldData_old {limit : Option Nat}
    (h : (purgeOldData cfg now limit db).tasks.get id = some row') :
    db.tasks.get id = some row' := by
  refine purgeOldData_keeps
    (R := fun db db' => db'.tasks.get id = some row' → db.tasks.get id = some row')
    (fun db hget => hget) (fun h₁ h₂ hget => h₁ (h₂ hget)) (fun db ids _ hget => ?_)
    (fun n db hget => ?_) (fun n db hget => ?_) limit db h
  · rw [deleteTasks, Table.get_erase, Option.filter_eq_some_iff] at hget
    exact hget.1
  · obtain ⟨outbox, he⟩ := purgeOutbox_eq cfg now n db
    rw [he] at hget
    exact hget
  · obtain ⟨auditLogs, he⟩ := purgeAudit_eq cfg now n db
    rw [he] at hget
    exact hget

/-- The labels of an action that is no outcome of the task, and no creation, start or renewal. -/
theorem Action.Allows.timeless {l : Label} (h : a.Allows cfg p l)
    (hout : ¬ ∃ w held, a.outcomeOf = some w ∧ p.holding w = some held ∧ held.task.id = id)
    (hother : l ≠ .other) (hstart : ∀ now w i, a ≠ .start now w i) : Timeless id l := by
  refine ⟨hother, ?_, ?_, fun w => h.not_start hstart w id⟩
  · rintro rfl
    exact hout h.stamp
  · rintro rfl
    exact hout (h.settle (by decide))

theorem Settled.key {held : Held} (h : Settled cfg now held row row')
    (hperiods : cfg.Periods) (hloop : loop ≠ .dlq) (hs : row'.status ∈ loop.statuses) :
    row' = row ∨ now ≤ loop.key row' := by
  obtain hsame | hterm | ⟨hretry, hat⟩ := h
  · exact .inl hsame
  · exfalso
    cases loop with
    | due => revert hs hterm; cases row'.status <;> decide
    | dlq => exact hloop rfl
    | stuck => revert hs hterm; cases row'.status <;> decide
  · cases loop with
    | due =>
      refine .inr ?_
      simp only [Loop.key, hat, Option.getD_some]
      exact le_add_of_nonneg_right (hperiods.delay _)
    | dlq => exact absurd rfl hloop
    | stuck => rw [hretry] at hs; exact absurd hs (by decide)

/-- What a row that waits after a step comes from. -/
def Comes (loop : Loop) (a : Action) (row : Option Task) (row' : Task) : Prop :=
  row = some row' ∨ ∃ now ∈ a.clock, now ≤ loop.key row'

/-- The outcome of the task itself. -/
theorem step_outcome_key {w : WorkerId} {held : Held} (h : p.Sound) (hperiods : cfg.Periods)
    (hloop : loop ≠ .dlq) (ha : a.outcomeOf = some w) (hheld : p.holding w = some held)
    (hrow' : (p.step cfg a).db.tasks.get held.task.id = some row')
    (hs : row'.status ∈ loop.statuses) :
    Comes loop a (p.db.tasks.get held.task.id) row' := by
  have hv := h.held w held hheld
  obtain hsame | ⟨-, row, -, -, -, hrow, -⟩ := step_outcome_cases cfg h ha hheld
  · rw [hsame] at hrow'
    exact .inl hrow'
  · have hsettled : ∀ now, Settled cfg now held row row' → now ∈ a.clock →
        Comes loop a (p.db.tasks.get held.task.id) row' := by
      intro now hsettled hclock
      obtain rfl | hkey := hsettled.key hperiods hloop hs
      · exact .inl hrow
      · exact .inr ⟨now, hclock, hkey⟩
    cases a with
    | recordSuccess now w' result =>
      cases ha
      simp only [Platform.step, finishStep_db, hheld] at hrow'
      cases hbody : recordSuccess cfg now p.db held result with
      | error e => rw [hbody] at hrow'; exact .inl hrow'
      | ok db' =>
        rw [hbody, commit] at hrow'
        obtain ⟨row₁, hrow₁, hcases⟩ := recordSuccess_settled hv hrow hbody
        obtain rfl := Option.some.inj (hrow₁.symm.trans hrow')
        exact hsettled now hcases rfl
    | recordFailure now w' error retryable =>
      cases ha
      simp only [Platform.step, finishStep_db, hheld] at hrow'
      cases hbody : recordFailure cfg now p.db held error retryable with
      | error e => rw [hbody] at hrow'; exact .inl hrow'
      | ok db' =>
        rw [hbody, commit] at hrow'
        obtain ⟨row₁, hrow₁, hcases⟩ := recordFailure_settled hv hrow hbody
        obtain rfl := Option.some.inj (hrow₁.symm.trans hrow')
        exact hsettled now hcases rfl
    | _ => cases ha

/-- A tick leaves no task that it selected waiting. -/
theorem Ticked.not_waiting {sel : List (TaskId × Task)} {cycles : Nat}
    {holding : WorkerId → Option Held} {r : TaskId × Task} (h : Ticked sel cycles holding db db')
    (hloop : loop ≠ .dlq) (hr : r ∈ sel) (hrow' : db'.tasks.get r.1 = some row') :
    row'.status ∉ loop.statuses := by
  obtain ⟨row₁, hrow₁, hq, -⟩ := (h.requeued r hr).queued
  obtain rfl := Option.some.inj (hrow₁.symm.trans hrow')
  rw [hq]
  cases loop with
  | due => decide
  | dlq => exact absurd rfl hloop
  | stuck => decide

/-- The labels that put a row into a waiting period are those of the outcome, of a creation, a start
and a renewal; none of the others does. -/
theorem step_timeless (h : p.Sound) (hloop : loop ≠ .dlq)
    (hlabels : ∀ l, a.Allows cfg p l → Timeless id l)
    (hrow' : (p.step cfg a).db.tasks.get id = some row') (hs : row'.status ∈ loop.statuses) :
    p.db.tasks.get id = some row' := by
  obtain ⟨ls, htr, hls⟩ : ∃ ls, Trace (Change cfg) p.db ls (p.step cfg a).db ∧
    ∀ l ∈ ls, a.Allows cfg p l := step_trace h.foreignKeys h.held a
  refine row_trace (P := fun r => r.status ∈ loop.statuses → p.db.tasks.get id = some r) htr
    (fun l hl => hlabels l (hls l hl)) (fun r l r' hstep hl hr hs => ?_)
    (fun hother => absurd rfl hother.1) (fun r hr _ => hr) row' hrow' hs
  obtain rfl := hstep.timeless hloop hl hs
  exact hr hs

/-- A start and a renewal give a lease from now on. -/
theorem startStep_key {w : WorkerId} {i : TaskId} (hperiods : cfg.Periods) (hloop : loop ≠ .dlq)
    (hrow' : (startStep cfg now w i p).db.tasks.get id = some row')
    (hs : row'.status ∈ loop.statuses) :
    p.db.tasks.get id = some row' ∨ now ≤ loop.key row' := by
  obtain hsame | ⟨row, seen, -, hrow, -, -, hstep⟩ := startStep_cases cfg now w i p
  · rw [hsame] at hrow'
    exact .inl hrow'
  · rw [hstep] at hrow'
    have hdb : (startedDb now p.db w i row (startedTask now w cfg.taskLeaseSeconds row)
      seen).tasks.get id = some row' := hrow'
    by_cases hid : id = i
    · subst hid
      have hget := congrArg View.row (view_startedDb_self now w
        (startedTask now w cfg.taskLeaseSeconds row) seen hrow)
      obtain rfl := Option.some.inj (hdb.symm.trans hget)
      cases loop with
      | due => exact absurd hs (show Status.running ∉ dueStatuses by decide)
      | dlq => exact absurd rfl hloop
      | stuck => exact .inr (le_add_of_nonneg_right (timedelta_nonneg hperiods.lease))
    · have hget := congrArg View.row (view_startedDb_of_ne now p.db w row
        (startedTask now w cfg.taskLeaseSeconds row) seen hid)
      exact .inl (hget.symm.trans hdb)

theorem renewLease_key {w : WorkerId} {i : TaskId} (hperiods : cfg.Periods) (hloop : loop ≠ .dlq)
    (hrow' : (renewLease now db i w cfg.taskLeaseSeconds).1.tasks.get id = some row')
    (hs : row'.status ∈ loop.statuses) :
    db.tasks.get id = some row' ∨ now ≤ loop.key row' := by
  unfold renewLease at hrow'
  split at hrow'
  · exact .inl hrow'
  · rename_i row hrow
    split at hrow'
    · rename_i hc
      by_cases hid : id = i
      · subst hid
        obtain rfl := Option.some.inj ((get_setTask_self _ hrow).symm.trans hrow')
        cases loop with
        | due =>
          have hrun : row.status ∈ dueStatuses := hs
          rw [hc.2] at hrun
          exact absurd hrun (by decide)
        | dlq => exact absurd rfl hloop
        | stuck => exact .inr (le_add_of_nonneg_right (timedelta_nonneg hperiods.lease))
      · exact .inl ((get_setTask_of_ne db _ hid).symm.trans hrow')
    · exact .inl hrow'

/-- A row that waits after a step was there before, or waits for a time after the step. -/
theorem step_key (h : p.Sound) (hperiods : cfg.Periods) (hloop : loop ≠ .dlq)
    (hrow' : (p.step cfg a).db.tasks.get id = some row') (hs : row'.status ∈ loop.statuses) :
    Comes loop a (p.db.tasks.get id) row' := by
  by_cases hout : ∃ w held, a.outcomeOf = some w ∧ p.holding w = some held ∧ held.task.id = id
  · obtain ⟨w, held, ha, hheld, rfl⟩ := hout
    exact step_outcome_key h hperiods hloop ha hheld hrow' hs
  have hmoves : (∀ l, a.Allows cfg p l → l ≠ .other) → (∀ now w i, a ≠ .start now w i) →
      Comes loop a (p.db.tasks.get id) row' :=
    fun hother hstart => .inl (step_timeless h hloop
      (fun l hl => hl.timeless hout (hother l hl) hstart) hrow' hs)
  cases a with
  | createTask now spec =>
    simp only [Platform.step] at hrow'
    cases hbody : createTask cfg now p.db spec with
    | error e => rw [hbody] at hrow'; exact .inl hrow'
    | ok r =>
      obtain ⟨db', i⟩ := r
      rw [hbody] at hrow'
      by_cases hid : id = p.db.tasks.next
      · subst hid
        exact .inr ⟨now, rfl, createTask_key hloop hbody hrow' hs⟩
      · exact .inl ((createTask_others hbody hid).symm.trans hrow')
  | start now w i =>
    obtain hsame | hkey := startStep_key hperiods hloop hrow' hs
    · exact .inl hsame
    · exact .inr ⟨now, rfl, hkey⟩
  | renewLease now w i =>
    obtain hsame | hkey := renewLease_key hperiods hloop hrow' hs
    · exact .inl hsame
    · exact .inr ⟨now, rfl, hkey⟩
  | recoverStuck now limit locked =>
    obtain ⟨db', hok, hticked⟩ : ∃ db', recoverStuckTasks cfg now limit locked p.db = .ok db' ∧
      Ticked (selectLocked p.db (isStuck now) (fun t => t.leaseExpiresAt.getD 0) limit locked) 0
        p.holding p.db db' := recoverStuckTasks_ticked h
    simp only [Platform.step, hok, commit] at hrow'
    by_cases hid : id ∈ (selectLocked p.db (isStuck now) (fun t => t.leaseExpiresAt.getD 0) limit
        locked).map Prod.fst
    · obtain ⟨r, hr, rfl⟩ := List.mem_map.mp hid
      exact absurd hs (hticked.not_waiting hloop hr hrow')
    · exact .inl ((congrArg Entry.row (hticked.others id hid)).symm.trans hrow')
  | requeueOrphaned now limit locked =>
    have hok : requeueOrphanedQueuedTasks cfg now limit locked p.db = .ok _ := rfl
    simp only [Platform.step, hok, commit] at hrow'
    exact .inl (requeueOrphaned_tasks hok ▸ hrow')
  | purgeOldData now limit => exact .inl (purgeOldData_old hrow')
  | heartbeat now w =>
    simp only [Platform.step, heartbeat] at hrow'
    split at hrow' <;> exact .inl hrow'
  | putWebhook i sub => cases i <;> exact .inl hrow'
  | deleteWebhook i => exact .inl hrow'
  | audit now action => exact .inl hrow'
  | crash w => exact .inl hrow'
  | _ =>
    refine hmoves (fun l hl => ?_) (by simp)
    rintro rfl
    simp [Action.Allows, IsCascade, IsOutcome] at hl

/-- The tasks that the loop would select at `K`. -/
def Loop.backlog (cfg : Settings) (K : Time) (loop : Loop) (p : Platform) : Set TaskId :=
  selected p.db.tasks fun r => loop.cond cfg K r.2

/-- A tick of the loop that takes `n` tasks if there are so many, and finds `id` unlocked. -/
def Action.ticks (loop : Loop) (id : TaskId) (n : Nat) : Action → Bool
  | .requeueDue _ limit locked => decide (loop = .due ∧ n ≤ limit) && !locked id
  | .recoverStuck _ limit locked => decide (loop = .stuck ∧ n ≤ limit) && !locked id
  | _ => false

theorem step_ticked (cfg : Settings) {n : Nat} (h : p.Sound) (hticks : a.ticks loop id n = true) :
    ∃ now limit locked, a.clock = some now ∧ n ≤ limit ∧ locked id = false ∧
      Ticked (selectLocked p.db (loop.cond cfg now) loop.key limit locked) 0 p.holding p.db
        (p.step cfg a).db := by
  cases a with
  | requeueDue now limit locked =>
    simp only [Action.ticks, Bool.and_eq_true, decide_eq_true_eq, Bool.not_eq_true'] at hticks
    obtain ⟨⟨rfl, hn⟩, hunlocked⟩ := hticks
    obtain ⟨db', hok, hticked⟩ : ∃ db', requeueDueTasks cfg now limit locked p.db = .ok db' ∧
      Ticked _ 0 p.holding p.db db' := requeueDueTasks_ticked h
    refine ⟨now, limit, locked, rfl, hn, hunlocked, ?_⟩
    simp only [Platform.step, hok, commit]
    exact hticked
  | recoverStuck now limit locked =>
    simp only [Action.ticks, Bool.and_eq_true, decide_eq_true_eq, Bool.not_eq_true'] at hticks
    obtain ⟨⟨rfl, hn⟩, hunlocked⟩ := hticks
    obtain ⟨db', hok, hticked⟩ : ∃ db', recoverStuckTasks cfg now limit locked p.db = .ok db' ∧
      Ticked _ 0 p.holding p.db db' := recoverStuckTasks_ticked h
    refine ⟨now, limit, locked, rfl, hn, hunlocked, ?_⟩
    simp only [Platform.step, hok, commit]
    exact hticked
  | _ => cases hticks

/-- What the query takes instead of a waiting task that it finds unlocked. -/
theorem select_before {K : Time} {limit : Nat} {locked : TaskId → Bool}
    (hrow : db.tasks.get id = some row) (hwaits : loop.cond cfg K row = true) (hK : K ≤ now)
    (hunlocked : locked id = false)
    (hnot : (id, row) ∉ selectLocked db (loop.cond cfg now) loop.key limit locked) :
    (selectLocked db (loop.cond cfg now) loop.key limit locked).length = limit ∧
      ∀ r ∈ selectLocked db (loop.cond cfg now) loop.key limit locked,
        loop.cond cfg K r.2 = true := by
  let rows := (db.tasks.select (fun r => loop.cond cfg now r.2 && !locked r.1)).insertionSort
    (fun a b => loop.key a.2 ≤ loop.key b.2)
  have hsorted : rows.Pairwise (fun a b => loop.key a.2 ≤ loop.key b.2) :=
    List.pairwise_insertionSort _ _
  have hmem : (id, row) ∈ rows := by
    refine (List.mem_insertionSort _).mpr ((Table.mem_select _ _ _ _).mpr ⟨hrow, ?_⟩)
    simp [hunlocked, loop.cond_mono hwaits hK]
  obtain ⟨hlength, hbefore⟩ := take_before hsorted hmem hnot
  refine ⟨hlength, fun r hr => ?_⟩
  exact loop.cond_of_le (mem_selectLocked hr).2.1 hwaits (hbefore r hr)

/-- No later load comes before a task that waits already. -/
theorem ticks_drain (hperiods : cfg.Periods) (hloop : loop ≠ .dlq) (K : Time) (id : TaskId)
    (n : Nat) :
    Drains (Platform.step cfg) Platform.Sound (fun _ a => ∀ now ∈ a.clock, K < now)
      (loop.backlog cfg K) id (Action.ticks loop id n) n where
  keeps := fun p a h _ => h.step cfg a
  finite := fun p _ => selected_finite _ _
  shrinks := by
    rintro p a h hclock i ⟨row, hrow, hwaits⟩
    have hs := loop.status_mem ((h.step cfg a).row hrow).wellFormed hwaits
    obtain hsame | ⟨now, hnow, hkey⟩ := step_key h hperiods hloop hrow hs
    · exact ⟨row, hsame, hwaits⟩
    · exact absurd (lt_of_lt_of_le (hclock now hnow) hkey) (not_lt.mpr (loop.key_le hwaits))
  takes := by
    rintro p a h hclock hticks ⟨row, hrow, hwaits⟩
    obtain ⟨now, limit, locked, hnow, hn, hunlocked, hticked⟩ := step_ticked cfg h hticks
    have hs := loop.status_mem ((h.step cfg a).row hrow).wellFormed hwaits
    let sel := selectLocked p.db (loop.cond cfg now) loop.key limit locked
    have hid : id ∉ sel.map Prod.fst := by
      intro hid
      obtain ⟨r, hr, rfl⟩ := List.mem_map.mp hid
      exact hticked.not_waiting hloop hr hrow hs
    have hbefore : p.db.tasks.get id = some row :=
      (congrArg Entry.row (hticked.others id hid)).symm.trans hrow
    obtain ⟨hlength, hwaited⟩ := select_before hbefore hwaits (le_of_lt (hclock now hnow)) hunlocked
      fun hmem => hid (List.mem_map_of_mem hmem)
    refine ⟨(sel.map Prod.fst).toFinset, ?_, fun i hi => ?_⟩
    · rw [List.toFinset_card_of_nodup (selectLocked_nodup _ _ _ _ _), List.length_map, hlength]
      exact hn
    · obtain ⟨r, hr, rfl⟩ := List.mem_map.mp (List.mem_toFinset.mp hi)
      refine ⟨⟨r.2, (mem_selectLocked hr).1, hwaited r hr⟩, ?_⟩
      rintro ⟨row', hrow', hwaits'⟩
      exact hticked.not_waiting hloop hr hrow'
        (loop.status_mem ((h.step cfg a).row hrow').wellFormed hwaits')

end

/-- A task that is due at `K`, or whose lease has expired then, waits for a bounded number of ticks:
they need only take as many tasks as were due with it, whatever other transactions run in between,
other tasks being due, failing and losing their lease. -/
theorem coordinator_reaches_within (cfg : Settings) (hperiods : cfg.Periods)
    (before later : List Action) {loop : Loop} (hloop : loop ≠ .dlq) {K : Time} {id : TaskId}
    (n : Nat) (hclock : ∀ a ∈ later, ∀ now ∈ a.clock, K < now)
    (hticks : ((Platform.after cfg before).db.tasks.select fun r => loop.cond cfg K r.2).length ≤
      later.countP (Action.ticks loop id n) * n) {row : Task}
    (hrow : (Platform.after cfg (before ++ later)).db.tasks.get id = some row) :
    loop.cond cfg K row = false := by
  have htaken := (ticks_drain hperiods hloop K id n).taken (Platform.after_sound cfg before)
    (along_of_forall hclock) ((selected_ncard _ _).trans_le hticks)
  rw [Platform.after, run_append] at hrow
  exact Bool.eq_false_iff.mpr fun hwaits => htaken ⟨row, hrow, hwaits⟩

/-- Two tasks are due at 10; a third becomes due between the ticks, and each tick takes one task. -/
def twoDueRun : List Action :=
  [.createTask 0 { plainSpec with scheduleAt := some 5 },
    .createTask 0 { plainSpec with scheduleAt := some 6 }]

def twoTicks : List Action :=
  [.requeueDue 11 1 (fun _ => false), .createTask 12 { plainSpec with scheduleAt := some 13 },
    .requeueDue 14 1 (fun _ => false)]

theorem coordinator_reaches_within_twoTicks :
    ∃ row, (Platform.after .default (twoDueRun ++ twoTicks)).db.tasks.get 2 = some row ∧
      Loop.due.cond .default 10 row = false := by
  obtain ⟨row, hrow⟩ := Option.isSome_iff_exists.mp (by decide +kernel :
    ((Platform.after .default (twoDueRun ++ twoTicks)).db.tasks.get 2).isSome = true)
  have hperiods : Settings.default.Periods := by
    constructor <;> decide +kernel
  exact ⟨row, hrow, coordinator_reaches_within .default hperiods twoDueRun twoTicks (by decide) 1
    (by simp [twoTicks, Action.clock]) (by decide +kernel) hrow⟩

end TaskPlatform
