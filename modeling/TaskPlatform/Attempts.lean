import TaskPlatform.Tasks

/-!
# Leases and attempts

`worker/services/attempts.py`, and the two transactions that `handle_message`
of `worker/main.py` makes of it: the first acquires the lease and starts an
attempt, the second records the outcome through the objects that the first one
left in the session.
-/

namespace TaskPlatform

/-- `_still_running` reads the status from the database, not from the object. -/
def stillRunning (db : Database) (id : TaskId) : Bool :=
  match db.tasks.get id with
  | none => false
  | some row => row.status == .running

/-- The lease part of the condition of `try_acquire_lease`. -/
def leaseFree (now : Time) (row : Task) : Bool :=
  row.leaseOwner.isNone || row.leaseExpiresAt.isNone || row.leaseExpiresAt.any (fun t => t < now)

/-- The values that `try_acquire_lease` writes. -/
def leased (now : Time) (workerId : WorkerId) (leaseSeconds : ℚ) (row : Task) : Task :=
  { row with
    leaseOwner := some workerId
    leaseExpiresAt := some (now + timedelta leaseSeconds)
    updatedAt := now }

/-- `try_acquire_lease`: one guarded `UPDATE`; the answer is whether it hit the row. -/
def tryAcquireLease (now : Time) (db : Database) (id : TaskId) (workerId : WorkerId)
    (leaseSeconds : ℚ) : Database × Bool :=
  match db.tasks.get id with
  | none => (db, false)
  | some row =>
    if row.status = .queued ∧ leaseFree now row then
      (db.setTask id (leased now workerId leaseSeconds row), true)
    else (db, false)

/-- The value that `renew_lease` writes. -/
def renewed (now : Time) (leaseSeconds : ℚ) (row : Task) : Task :=
  { row with leaseExpiresAt := some (now + timedelta leaseSeconds), updatedAt := now }

/-- `renew_lease` -/
def renewLease (now : Time) (db : Database) (id : TaskId) (workerId : WorkerId)
    (leaseSeconds : ℚ) : Database × Bool :=
  match db.tasks.get id with
  | none => (db, false)
  | some row =>
    if row.leaseOwner = some workerId ∧ row.status = .running then
      (db.setTask id (renewed now leaseSeconds row), true)
    else (db, false)

/-- The objects that a worker keeps from its first transaction to its second. -/
structure Held where
  task : Instance
  attemptId : Nat
  attempt : TaskAttempt
  deriving DecidableEq, Repr

/-- `start_attempt`, with the `worker_id` that the caller sets before the commit. -/
def startAttempt (cfg : Settings) (now : Time) (db : Database) (task : Instance)
    (workerId : WorkerId) : Except TaskError (Database × Held) := do
  let (db, task) ← setStatus cfg now db task .running .running none
  let number := task.cur.attempts + 1
  let (db, task) ← flush now db { task with cur := { task.cur with
    attempts := number
    startedAt := if task.cur.startedAt.isNone then some now else task.cur.startedAt } }
  let attemptId := db.attempts.next
  let attempt : TaskAttempt :=
    { taskId := task.id
      attemptNumber := number
      workerId := some workerId
      status := .running
      errorMessage := none
      result := none
      startedAt := some now
      finishedAt := none }
  let db := { db with attempts := db.attempts.insert attempt }
  let db := recordEvent now db task.id task.cur.status .attemptStarted .running
    (some (.attemptNumber number))
  return (db, ⟨task, attemptId, attempt⟩)

/-- The first transaction of `handle_message`; `none` when the lease is denied. -/
def startTask (cfg : Settings) (now : Time) (db : Database) (workerId : WorkerId) (id : TaskId) :
    Except TaskError (Option (Database × Held)) :=
  match tryAcquireLease now db id workerId cfg.taskLeaseSeconds with
  | (_, false) => .ok none
  | (db, true) =>
    match db.tasks.get id with
    | none => .ok none
    | some row => do
      let r ← startAttempt cfg now db (Instance.fresh id row) workerId
      return some r

/-- The flush of the attempt in `record_success`. -/
def closeSuccess (now : Time) (db : Database) (held : Held) (result : Json) :
    Except TaskError Database :=
  flushAttempt db held.attemptId held.attempt
    { held.attempt with status := .success, result := some result, finishedAt := some now }

/-- `record_success` after `_still_running`. -/
def finishSuccess (cfg : Settings) (now : Time) (db : Database) (held : Held) (result : Json) :
    Except TaskError Database := do
  let task := { held.task with cur :=
    { held.task.cur with result := some result, finishedAt := some now } }
  let (db, _) ← setStatus cfg now db task .success .succeeded none
  return db

/-- `record_success` -/
def recordSuccess (cfg : Settings) (now : Time) (db : Database) (held : Held) (result : Json) :
    Except TaskError Database := do
  let db ← closeSuccess now db held result
  if ¬ stillRunning db held.task.id then return db
  else finishSuccess cfg now db held result

/-- `error[:2000]` -/
def truncateError (error : String) : String := String.ofList (error.toList.take 2000)

/-- The flush of the attempt in `record_failure`. -/
def closeFailure (now : Time) (db : Database) (held : Held) (error : String) :
    Except TaskError Database :=
  flushAttempt db held.attemptId held.attempt
    { held.attempt with
      status := .failed, errorMessage := some (truncateError error), finishedAt := some now }

/-- What `record_failure` assigns to `dlq_retry_at` after a dead letter. -/
def dlqRetryAtAfter (cfg : Settings) (now : Time) (task : Task) : Option Time :=
  if cfg.dlqRetryEnabled ∧ task.dlqRequeueCount < cfg.dlqRetryMaxCycles then
    some (now + timedelta cfg.dlqRetryIntervalSeconds)
  else none

/-- `record_failure` after `_still_running`. -/
def finishFailure (cfg : Settings) (now : Time) (db : Database) (held : Held) (error : String)
    (retryable : Bool) : Except TaskError Database := do
  let error := truncateError error
  let number := held.attempt.attemptNumber
  let task := { held.task with cur := { held.task.cur with lastError := some error } }
  if retryable ∧ task.cur.attempts < task.cur.maxAttempts then
    let backoff := computeRetryDelaySeconds cfg task.cur.attempts
    let scheduled := now + timedelta backoff
    let task := { task with cur := { task.cur with scheduledAt := some scheduled } }
    let (db, _) ← setStatus cfg now db task .retryScheduled .retryScheduled
      (some (.retryAt number backoff scheduled))
    return db
  else if retryable then
    let (db, task) ← setStatus cfg now db task .deadLetter .deadLettered
      (some (.attemptError number error))
    let (db, _) ← flush now db
      { task with cur := { task.cur with dlqRetryAt := dlqRetryAtAfter cfg now task.cur } }
    return db
  else
    let (db, _) ← setStatus cfg now db task .failed .failed (some (.attemptError number error))
    return db

/-- `record_failure` -/
def recordFailure (cfg : Settings) (now : Time) (db : Database) (held : Held) (error : String)
    (retryable : Bool) : Except TaskError Database := do
  let db ← closeFailure now db held error
  if ¬ stillRunning db held.task.id then return db
  else finishFailure cfg now db held error retryable

end TaskPlatform
