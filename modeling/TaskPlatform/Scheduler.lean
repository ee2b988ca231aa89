import TaskPlatform.Attempts

/-!
# The coordinator and the retention job

`worker/services/scheduler.py`. A coordinator query takes its rows with
`FOR UPDATE SKIP LOCKED`: `locked` names the rows that other transactions hold,
which the query passes over. Each function is the body of one transaction.
-/

namespace TaskPlatform

/-- `select(Task).where(...).order_by(key).limit(limit)` with `SKIP LOCKED`. -/
def selectLocked (db : Database) (cond : Task → Bool) (key : Task → Time) (limit : Nat)
    (locked : TaskId → Bool) : List (TaskId × Task) :=
  ((db.tasks.select (fun r => cond r.2 && !locked r.1)).insertionSort
    (fun a b => key a.2 ≤ key b.2)).take limit

/-- The condition of `requeue_orphaned_queued_tasks`. -/
def isOrphaned (cfg : Settings) (now : Time) (row : Task) : Bool :=
  row.status == .queued && row.updatedAt ≤ now - timedelta cfg.queuedReconcileSeconds &&
    leaseFree now row

/-- `requeue_orphaned_queued_tasks` -/
def requeueOrphanedQueuedTasks (cfg : Settings) (now : Time) (limit : Nat)
    (locked : TaskId → Bool) (db : Database) : Except TaskError Database :=
  let stuck := selectLocked db (isOrphaned cfg now) (·.updatedAt) limit locked
  .ok (stuck.foldl (fun db r => addOutbox cfg db r.1 r.2 true) db)

/-- The condition of `requeue_due_tasks`. -/
def isDue (now : Time) (row : Task) : Bool :=
  decide (row.status ∈ dueStatuses) && row.scheduledAt.any (fun t => t ≤ now)

/-- One turn of the loop of `requeue_due_tasks`. -/
def requeueDue (cfg : Settings) (now : Time) (db : Database) (r : TaskId × Task) :
    Except TaskError Database := do
  let eventType := if r.2.status = .retryScheduled then EventType.retried else .queued
  let (db, task) ← setStatus cfg now db (Instance.fresh r.1 r.2) .queued eventType
    (some (.attemptsSoFar r.2.attempts))
  return addOutbox cfg db r.1 task.cur true

/-- `requeue_due_tasks` -/
def requeueDueTasks (cfg : Settings) (now : Time) (limit : Nat) (locked : TaskId → Bool)
    (db : Database) : Except TaskError Database :=
  (selectLocked db (isDue now) (fun t => t.scheduledAt.getD 0) limit locked).foldlM
    (requeueDue cfg now) db

/-- The condition of `requeue_dlq_tasks`. -/
def isDlqDue (cfg : Settings) (now : Time) (row : Task) : Bool :=
  row.status == .deadLetter && row.dlqRetryAt.any (fun t => t ≤ now) &&
    decide (row.dlqRequeueCount < cfg.dlqRetryMaxCycles)

/-- One turn of the loop of `requeue_dlq_tasks`. -/
def requeueDlq (cfg : Settings) (now : Time) (db : Database) (r : TaskId × Task) :
    Except TaskError Database := do
  let cur := { r.2 with dlqRequeueCount := r.2.dlqRequeueCount + 1 }
  let (db, task) ← setStatus cfg now db ⟨r.1, r.2, cur⟩ .queued .dlqRequeued
    (some (.dlqCycle cur.dlqRequeueCount cfg.dlqRetryMaxCycles))
  return addOutbox cfg db r.1 task.cur true

/-- `requeue_dlq_tasks` -/
def requeueDlqTasks (cfg : Settings) (now : Time) (limit : Nat) (locked : TaskId → Bool)
    (db : Database) : Except TaskError Database :=
  if cfg.dlqRetryEnabled then
    (selectLocked db (isDlqDue cfg now) (fun t => t.dlqRetryAt.getD 0) limit locked).foldlM
      (requeueDlq cfg now) db
  else .ok db

/-- The condition of `recover_stuck_tasks`. -/
def isStuck (now : Time) (row : Task) : Bool :=
  row.leaseExpiresAt.any (fun t => t < now) && decide (row.status ∈ stuckStatuses)

/-- The running attempt with the highest number. -/
def lastRunning (attempts : List (Nat × TaskAttempt)) : Option (Nat × TaskAttempt) :=
  ((attempts.filter (fun a => a.2.status == .running)).insertionSort
    (fun a b => b.2.attemptNumber ≤ a.2.attemptNumber)).head?

def lastRunningAttempt (db : Database) (id : TaskId) : Option (Nat × TaskAttempt) :=
  lastRunning (db.attemptsOf id)

def leaseExpiredMessage : String := "Lease прострочився — задачу повернуто в чергу"

/-- What recovery writes into the attempt that it closes. -/
def closedAttempt (now : Time) (attempt : TaskAttempt) : TaskAttempt :=
  { attempt with
    status := .failed
    errorMessage := some leaseExpiredMessage
    finishedAt := some now }

/-- Close the attempt of an expired lease. -/
def closeLastAttempt (now : Time) (db : Database) (id : TaskId) : Database :=
  match lastRunningAttempt db id with
  | none => db
  | some a => { db with attempts := db.attempts.modify a.1 (closedAttempt now) }

@[simp] theorem closeLastAttempt_tasks (now : Time) (db : Database) (id : TaskId) :
    (closeLastAttempt now db id).tasks = db.tasks := by
  unfold closeLastAttempt
  split <;> rfl

@[simp] theorem closeLastAttempt_deps (now : Time) (db : Database) (id : TaskId) :
    (closeLastAttempt now db id).deps = db.deps := by
  unfold closeLastAttempt
  split <;> rfl

/-- One turn of the loop of `recover_stuck_tasks`. -/
def recoverStuck (cfg : Settings) (now : Time) (db : Database) (r : TaskId × Task) :
    Except TaskError Database :=
  if r.2.status = .running then do
    let number := (lastRunningAttempt db r.1).map (·.2.attemptNumber)
    let (db, task) ← setStatus cfg now (closeLastAttempt now db r.1) (Instance.fresh r.1 r.2)
      .queued .requeued (some (.leaseExpired r.2.leaseOwner number))
    return addOutbox cfg db r.1 task.cur true
  else do
    let cur := { r.2 with leaseOwner := none, leaseExpiresAt := none }
    let (db, task) ← flush now db ⟨r.1, r.2, cur⟩
    return addOutbox cfg db r.1 task.cur true

/-- The first statement of `recover_stuck_tasks`: workers without a heartbeat are dead. -/
def markDeadWorkers (cfg : Settings) (now : Time) (db : Database) : Database :=
  let cutoff := now - timedelta cfg.workerHeartbeatTimeoutSeconds
  let dead := db.workers.select (fun r => decide (r.2.lastHeartbeatAt < cutoff) && r.2.alive)
  let mark := fun (t : Table Worker) (r : Nat × Worker) =>
    t.modify r.1 (fun w => { w with alive := false })
  { db with workers := dead.foldl mark db.workers }

/-- `recover_stuck_tasks` -/
def recoverStuckTasks (cfg : Settings) (now : Time) (limit : Nat) (locked : TaskId → Bool)
    (db : Database) : Except TaskError Database :=
  let db := markDeadWorkers cfg now db
  (selectLocked db (isStuck now) (fun t => t.leaseExpiresAt.getD 0) limit locked).foldlM
    (recoverStuck cfg now) db

/-- `delete(Task)` with the `ON DELETE CASCADE` of attempts, events and dependencies. -/
def deleteTasks (db : Database) (ids : List TaskId) : Database :=
  { db with
    tasks := db.tasks.erase (fun r => decide (r.1 ∈ ids))
    attempts := db.attempts.erase (fun r => decide (r.2.taskId ∈ ids))
    events := db.events.erase (fun r => decide (r.2.taskId ∈ ids))
    deps := db.deps.filter (fun d => decide (d.parentTaskId ∉ ids ∧ d.childTaskId ∉ ids)) }

/-- The ids, in id order and at most `limit`, of the rows that satisfy a condition. -/
def selectIds {α : Type} (t : Table α) (cond : α → Bool) (limit : Nat) : List Nat :=
  ((t.select (fun r => cond r.2)).map Prod.fst).take limit

/-- The rows that the first branch of `purge_old_data` deletes. -/
def isOldDone (cutoff : Time) (row : Task) : Bool := row.finishedAt.any (fun t => t ≤ cutoff)

/-- The rows that the dead-letter branch deletes. -/
def isOldDeadLetter (cutoff : Time) (row : Task) : Bool :=
  row.status == .deadLetter && row.dlqRetryAt.isNone && row.finishedAt.any (fun t => t ≤ cutoff)

def purgeDoneTasks (cfg : Settings) (now : Time) (limit : Nat) (db : Database) : Database :=
  if 0 < cfg.retentionDoneTasksDays then
    deleteTasks db
      (selectIds db.tasks (isOldDone (now - timedeltaDays cfg.retentionDoneTasksDays)) limit)
  else db

def purgeDlqTasks (cfg : Settings) (now : Time) (limit : Nat) (db : Database) : Database :=
  if 0 < cfg.retentionDlqTasksDays then
    deleteTasks db
      (selectIds db.tasks (isOldDeadLetter (now - timedeltaDays cfg.retentionDlqTasksDays)) limit)
  else db

def purgeOutbox (cfg : Settings) (now : Time) (limit : Nat) (db : Database) : Database :=
  if 0 < cfg.retentionOutboxSentDays then
    let cutoff := now - timedeltaDays cfg.retentionOutboxSentDays
    let ids := selectIds db.outbox (fun e => e.processedAt.any (fun t => t ≤ cutoff)) limit
    { db with outbox := db.outbox.erase (fun r => decide (r.1 ∈ ids)) }
  else db

def purgeAudit (cfg : Settings) (now : Time) (limit : Nat) (db : Database) : Database :=
  if 0 < cfg.retentionAuditDays then
    let cutoff := now - timedeltaDays cfg.retentionAuditDays
    let ids := selectIds db.auditLogs (fun a => decide (a.createdAt ≤ cutoff)) limit
    { db with auditLogs := db.auditLogs.erase (fun r => decide (r.1 ∈ ids)) }
  else db

/-- `purge_old_data`; a missing or zero limit is the configured one. -/
def purgeOldData (cfg : Settings) (now : Time) (limit : Option Nat) (db : Database) : Database :=
  let limit := if limit.getD 0 = 0 then cfg.retentionCleanupBatchSize else limit.getD 0
  purgeAudit cfg now limit (purgeOutbox cfg now limit
    (purgeDlqTasks cfg now limit (purgeDoneTasks cfg now limit db)))

end TaskPlatform
