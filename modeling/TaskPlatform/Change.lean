import TaskPlatform.Platform

/-!
# What a transaction can do to the database

Every transaction of the platform is a sequence of the changes listed here.
One constructor stands for one place of the source that writes, with the guard
that the source checks there, so an invariant that every change keeps is kept
by every transaction. A label names what a conditional argument has to know
about a change.
-/

namespace TaskPlatform

/-- Why a task that is not running enters the queue. -/
inductive Cause where
  | create | unblock | retry | due | dlq
  deriving DecidableEq, Repr

inductive Label where
  | block (id : TaskId) (parents : List TaskId)
  | enqueue (cause : Cause) (id : TaskId)
  | start (workerId : WorkerId) (id : TaskId)
  | close (attemptId : Nat)
  | settle (id : TaskId) (status : Status)
  | stamp (id : TaskId)
  | recover (id : TaskId)
  | other
  deriving DecidableEq, Repr

/-- The row after a status change through an object as new as the row. -/
def movedTask (now : Time) (task : Task) (new : Status) : Task :=
  (setStatusFields now task new).touch now

/-- One status change: the event, the row and the webhooks of the object `seen`. -/
def Database.change (now : Time) (db : Database) (id : TaskId) (row : Task) (old new : Status)
    (eventType : EventType) (details : Option Details) (seen : Task) : Database :=
  enqueueFor now ((recordEvent now db id old eventType new details).setTask id row)
    eventType id seen

/-- A status change through an object as new as the row. -/
def Database.move (now : Time) (db : Database) (id : TaskId) (task : Task) (new : Status)
    (eventType : EventType) (details : Option Details) : Database :=
  db.change now id (movedTask now task new) task.status new eventType details
    (movedTask now task new)

/-- The statuses from which a task is put into the queue. -/
def Cause.sources : Cause → List Status
  | .create => [.created]
  | .unblock => [.created]
  | .retry => retryable
  | .due => dueStatuses
  | .dlq => [.deadLetter]

theorem Cause.sources_transition {cause : Cause} {old : Status} (h : old ∈ cause.sources) :
    canTransition old .queued = true := by
  cases cause <;> cases old <;>
    simp_all [Cause.sources, retryable, dueStatuses, canTransition, validTransitions]

/-- The causes that put a task back, other than those of its first entry. -/
def Cause.requeues : Cause → Bool
  | .create | .unblock => false
  | .retry | .due | .dlq => true

theorem Cause.created_of_first (cause : Cause) (h : cause.requeues = false) {old : Status}
    (hold : old ∈ cause.sources) : old = .created := by
  cases cause <;> simp_all [Cause.requeues, Cause.sources]

/-- What is checked of the parents before a task is put into the queue. -/
def Cause.Ready (db : Database) (id : TaskId) : Cause → Prop
  | .create => db.parentsOf id = []
  | .unblock => allParentsSucceeded db id = true
  | _ => True

/-- What is assigned to the task object before its status is set. -/
def Cause.prepare (row : Task) : Cause → Task
  | .dlq => { row with dlqRequeueCount := row.dlqRequeueCount + 1 }
  | _ => row

@[simp] theorem Cause.prepare_status (cause : Cause) (row : Task) :
    (cause.prepare row).status = row.status := by cases cause <;> rfl

@[simp] theorem Cause.prepare_attempts (cause : Cause) (row : Task) :
    (cause.prepare row).attempts = row.attempts := by cases cause <;> rfl

/-- What `record_success` and `record_failure` assign before they set the status. -/
inductive OutcomeFields (now : Time) (task : Task) : Status → Task → Prop where
  | success (result : Json) : OutcomeFields now task .success
      { task with result := some result, finishedAt := some now }
  | retry (error : String) (scheduled : Time) : task.attempts < task.maxAttempts →
      OutcomeFields now task .retryScheduled
        { task with lastError := some error, scheduledAt := some scheduled }
  | deadLetter (error : String) :
      OutcomeFields now task .deadLetter { task with lastError := some error }
  | failed (error : String) :
      OutcomeFields now task .failed { task with lastError := some error }

theorem OutcomeFields.status {now : Time} {task task' : Task} {new : Status}
    (h : OutcomeFields now task new task') : task'.status = task.status := by
  cases h <;> rfl

theorem OutcomeFields.transition {now : Time} {task task' : Task} {new : Status}
    (h : OutcomeFields now task new task') : canTransition .running new = true := by
  cases h <;> rfl

/-- A change of the attempt row that ends the attempt and keeps its task and number. -/
structure ClosesAttempt (loaded cur : TaskAttempt) : Prop where
  taskId : cur.taskId = loaded.taskId
  number : cur.attemptNumber = loaded.attemptNumber
  opened : loaded.status = .running
  closed : cur.status ≠ .running

/-- What is known of the objects that a worker holds, whatever happened to their rows since. -/
structure Held.Valid (w : WorkerId) (held : Held) : Prop where
  same : held.task.cur = held.task.loaded
  running : held.task.loaded.status = .running
  owner : held.task.loaded.leaseOwner = some w
  expires : held.task.loaded.leaseExpiresAt ≠ none
  finished : held.task.loaded.finishedAt = none
  scheduled : held.task.loaded.scheduledAt = none
  taskId : held.attempt.taskId = held.task.id
  number : held.attempt.attemptNumber = held.task.loaded.attempts
  opened : held.attempt.status = .running

/-- The row that a worker's start leaves. -/
def startedTask (now : Time) (w : WorkerId) (leaseSeconds : ℚ) (row : Task) : Task :=
  { row with
    status := .running
    attempts := row.attempts + 1
    startedAt := if row.startedAt = none then some now else row.startedAt
    leaseOwner := some w
    leaseExpiresAt := some (now + timedelta leaseSeconds)
    updatedAt := now }

def newAttempt (now : Time) (w : WorkerId) (id : TaskId) (number : Nat) : TaskAttempt where
  taskId := id
  attemptNumber := number
  workerId := some w
  status := .running
  errorMessage := none
  result := none
  startedAt := some now
  finishedAt := none

/-- The database that a worker's start leaves; `seen` is the object when webhooks were queued. -/
def startedDb (now : Time) (db : Database) (w : WorkerId) (id : TaskId) (row started seen : Task) :
    Database :=
  let db := db.change now id started row.status .running .running none seen
  recordEvent now { db with attempts := db.attempts.insert (newAttempt now w id (row.attempts + 1)) }
    id .running .attemptStarted .running (some (.attemptNumber (row.attempts + 1)))

/-- Write a closed attempt through an old object. -/
def closeHeld (db : Database) (attemptId : Nat) (loaded cur : TaskAttempt) : Database :=
  { db with attempts := db.attempts.modify attemptId (TaskAttempt.merge loaded cur) }

inductive Change (cfg : Settings) : Database → Label → Database → Prop where
  | skip {db} : Change cfg db .other db.skipTaskId
  | insert {db} (now : Time) (spec : TaskSpec) : Change cfg db .other (insertTask cfg now db spec)
  | block {db} (now : Time) {id : TaskId} {row : Task} (parents : List TaskId)
      (details : Option Details) : db.tasks.get id = some row → row.status = .created →
      (∀ p ∈ parents, p ≠ id ∧ (db.tasks.get p).isSome) →
      Change cfg db (.block id parents) (recordEvent now
        { db with deps := db.deps ++ parents.map (fun p => ⟨p, id⟩) }
        id .created .blocked .created details)
  | schedule {db} (now : Time) {id : TaskId} {row : Task} : db.tasks.get id = some row →
      row.status = .created → row.scheduledAt ≠ none → db.parentsOf id = [] →
      Change cfg db .other (db.move now id row .scheduled .scheduled none)
  | enqueue {db} (now : Time) {id : TaskId} {row : Task} (cause : Cause) (eventType : EventType)
      (details : Option Details) (reattempt : Bool) : db.tasks.get id = some row →
      row.status ∈ cause.sources → cause.Ready db id →
      Change cfg db (.enqueue cause id)
        (addOutbox cfg (db.move now id (cause.prepare row) .queued eventType details) id
          (movedTask now (cause.prepare row) .queued) reattempt)
  | cancel {db} (now : Time) {id : TaskId} {row : Task} (details : Option Details) :
      db.tasks.get id = some row → row.status ∈ cancelable →
      Change cfg db (.settle id .cancelled) (db.move now id row .cancelled .cancelled details)
  | start {db} (now : Time) (w : WorkerId) {id : TaskId} {row : Task} (seen : Task) :
      db.tasks.get id = some row → row.status = .queued → leaseFree now row = true →
      Change cfg db (.start w id)
        (startedDb now db w id row (startedTask now w cfg.taskLeaseSeconds row) seen)
  | renew {db} (now : Time) (w : WorkerId) {id : TaskId} {row : Task} :
      db.tasks.get id = some row → row.leaseOwner = some w → row.status = .running →
      Change cfg db .other (db.setTask id (renewed now cfg.taskLeaseSeconds row))
  | close {db} {attemptId : Nat} {loaded cur : TaskAttempt} :
      (db.attempts.get attemptId).isSome → ClosesAttempt loaded cur →
      Change cfg db (.close attemptId) (closeHeld db attemptId loaded cur)
  | finish {db} (now : Time) {w : WorkerId} {held : Held} {row task : Task} {new : Status}
      (eventType : EventType) (details : Option Details) : held.Valid w →
      db.tasks.get held.task.id = some row → row.status = .running →
      OutcomeFields now held.task.loaded new task →
      Change cfg db (.settle held.task.id new)
        (db.change now held.task.id
          ((Task.merge held.task.loaded (setStatusFields now task new) row).touch now)
          .running new eventType details (movedTask now task new))
  | stamp {db} (now : Time) {id : TaskId} {row : Task} (dlqRetryAt : Option Time) :
      db.tasks.get id = some row →
      Change cfg db (.stamp id) (db.setTask id { row with dlqRetryAt := dlqRetryAt, updatedAt := now })
  | recover {db} (now : Time) {id : TaskId} {row : Task} (details : Option Details) :
      db.tasks.get id = some row → row.status = .running →
      row.leaseExpiresAt.any (fun t => t < now) = true →
      Change cfg db (.recover id)
        (addOutbox cfg ((closeLastAttempt now db id).move now id row .queued .requeued details) id
          (movedTask now row .queued) true)
  | release {db} (now : Time) {id : TaskId} {row : Task} : db.tasks.get id = some row →
      row.status = .queued → row.leaseExpiresAt ≠ none →
      Change cfg db .other
        (addOutbox cfg (db.setTask id
          { row with leaseOwner := none, leaseExpiresAt := none, updatedAt := now }) id
          { row with leaseOwner := none, leaseExpiresAt := none, updatedAt := now } true)
  | republish {db} {id : TaskId} {row : Task} : row.status = .queued →
      Change cfg db .other (addOutbox cfg db id row true)
  | deleteTasks {db} (ids : List TaskId) :
      (∀ i ∈ ids, ∃ row, db.tasks.get i = some row ∧ row.finishedAt ≠ none) →
      Change cfg db .other (TaskPlatform.deleteTasks db ids)
  | deleteOutbox {db} (ids : List Nat) :
      (∀ k ∈ ids, ∃ e, db.outbox.get k = some e ∧ e.processedAt ≠ none) →
      Change cfg db .other { db with outbox := db.outbox.erase (fun r => decide (r.1 ∈ ids)) }
  | side {db} (subscriptions : Table WebhookSubscription) (deliveries : Table WebhookDelivery)
      (workers : Table Worker) (auditLogs : Table AuditLog) :
      Change cfg db .other
        { db with
          subscriptions := subscriptions
          deliveries := deliveries
          workers := workers
          auditLogs := auditLogs }

/-- What is known of a task that is put into the queue. -/
theorem Change.enqueue_row {cfg : Settings} {db db' : Database} {cause : Cause} {id : TaskId}
    (h : Change cfg db (.enqueue cause id) db') :
    ∃ row, db.tasks.get id = some row ∧ row.status ∈ cause.sources ∧ cause.Ready db id := by
  cases h with
  | @enqueue now id row cause eventType details reattempt hrow hs hready =>
    exact ⟨row, hrow, hs, hready⟩

end TaskPlatform
