import TaskPlatform.Database

/-!
# The ORM session

The code reads a row into an instance, assigns attributes and flushes. A flush
writes only the columns whose value differs from the one last read or written,
so an instance that is older than its row overwrites exactly what it assigned.
The session factory keeps instances alive over a commit (`expire_on_commit` is
off), which is how a worker comes to hold such an old copy.
-/

namespace TaskPlatform

/-- What a transaction can raise; `recursion` is the cascade running out of depth. -/
inductive TaskError where
  | invalidTransition (message : String)
  | taskConflict (message : String)
  | integrity
  | staleData
  | dataError
  | typeError
  | recursion
  deriving DecidableEq, Repr

/-- A task object of a session: the columns as last read or written, and the attributes now. -/
structure Instance where
  id : TaskId
  loaded : Task
  cur : Task
  deriving DecidableEq, Repr

/-- The object that a query returns for a row not yet in the session. -/
def Instance.fresh (id : TaskId) (row : Task) : Instance := ⟨id, row, row⟩

/-- One column of an `UPDATE`: written only if the attribute changed. -/
def mergeColumn {α : Type} [DecidableEq α] (loaded cur row : α) : α :=
  if cur = loaded then row else cur

@[simp] theorem mergeColumn_row {α : Type} [DecidableEq α] (row cur : α) :
    mergeColumn row cur row = cur := by
  unfold mergeColumn; split <;> simp_all

@[simp] theorem mergeColumn_same {α : Type} [DecidableEq α] (loaded row : α) :
    mergeColumn loaded loaded row = row := by simp [mergeColumn]

theorem mergeColumn_of_ne {α : Type} [DecidableEq α] {loaded cur : α} (row : α)
    (h : cur ≠ loaded) : mergeColumn loaded cur row = cur := by simp [mergeColumn, h]

def Task.merge (loaded cur row : Task) : Task where
  taskType := mergeColumn loaded.taskType cur.taskType row.taskType
  payload := mergeColumn loaded.payload cur.payload row.payload
  status := mergeColumn loaded.status cur.status row.status
  priority := mergeColumn loaded.priority cur.priority row.priority
  maxAttempts := mergeColumn loaded.maxAttempts cur.maxAttempts row.maxAttempts
  attempts := mergeColumn loaded.attempts cur.attempts row.attempts
  idempotencyKey := mergeColumn loaded.idempotencyKey cur.idempotencyKey row.idempotencyKey
  scheduledAt := mergeColumn loaded.scheduledAt cur.scheduledAt row.scheduledAt
  startedAt := mergeColumn loaded.startedAt cur.startedAt row.startedAt
  finishedAt := mergeColumn loaded.finishedAt cur.finishedAt row.finishedAt
  leaseOwner := mergeColumn loaded.leaseOwner cur.leaseOwner row.leaseOwner
  leaseExpiresAt := mergeColumn loaded.leaseExpiresAt cur.leaseExpiresAt row.leaseExpiresAt
  result := mergeColumn loaded.result cur.result row.result
  lastError := mergeColumn loaded.lastError cur.lastError row.lastError
  createdBy := mergeColumn loaded.createdBy cur.createdBy row.createdBy
  batchId := mergeColumn loaded.batchId cur.batchId row.batchId
  dlqRequeueCount := mergeColumn loaded.dlqRequeueCount cur.dlqRequeueCount row.dlqRequeueCount
  dlqRetryAt := mergeColumn loaded.dlqRetryAt cur.dlqRetryAt row.dlqRetryAt
  createdAt := mergeColumn loaded.createdAt cur.createdAt row.createdAt
  updatedAt := mergeColumn loaded.updatedAt cur.updatedAt row.updatedAt

/-- An instance as old as its row writes itself. -/
@[simp] theorem Task.merge_row (row cur : Task) : Task.merge row cur row = cur := by
  simp [Task.merge]

def TaskAttempt.merge (loaded cur row : TaskAttempt) : TaskAttempt where
  taskId := mergeColumn loaded.taskId cur.taskId row.taskId
  attemptNumber := mergeColumn loaded.attemptNumber cur.attemptNumber row.attemptNumber
  workerId := mergeColumn loaded.workerId cur.workerId row.workerId
  status := mergeColumn loaded.status cur.status row.status
  errorMessage := mergeColumn loaded.errorMessage cur.errorMessage row.errorMessage
  result := mergeColumn loaded.result cur.result row.result
  startedAt := mergeColumn loaded.startedAt cur.startedAt row.startedAt
  finishedAt := mergeColumn loaded.finishedAt cur.finishedAt row.finishedAt

/-- Every `UPDATE` of a task row refreshes `updated_at` (`onupdate=func.now()`). -/
def Task.touch (now : Time) (row : Task) : Task := { row with updatedAt := now }

def Database.setTask (db : Database) (id : TaskId) (row : Task) : Database :=
  { db with tasks := db.tasks.modify id (fun _ => row) }

/-- Write the changed columns of a task object; its row must still be there. -/
def flush (now : Time) (db : Database) (task : Instance) :
    Except TaskError (Database × Instance) :=
  if task.cur = task.loaded then .ok (db, task)
  else match db.tasks.get task.id with
    | none => .error .staleData
    | some row =>
      .ok (db.setTask task.id ((Task.merge task.loaded task.cur row).touch now),
        Instance.fresh task.id (task.cur.touch now))

/-- Write the changed columns of an attempt object. -/
def flushAttempt (db : Database) (id : Nat) (loaded cur : TaskAttempt) :
    Except TaskError Database :=
  match db.attempts.get id with
  | none => .error .staleData
  | some _ => .ok { db with attempts := db.attempts.modify id (TaskAttempt.merge loaded cur) }

/-- `_record_event`; `oldStatus` is the status of the task object at that moment. -/
def recordEvent (now : Time) (db : Database) (id : TaskId) (oldStatus : Status)
    (eventType : EventType) (newStatus : Status) (details : Option Details) : Database :=
  { db with events := db.events.insert ⟨id, eventType, oldStatus, newStatus, details, now⟩ }

/-- `session.add(OutboxEvent(...))` with the payload that every place builds from the task. -/
def addOutbox (cfg : Settings) (db : Database) (id : TaskId) (task : Task) (reattempt : Bool) :
    Database :=
  let event : OutboxEvent :=
    { routingKey := cfg.routingKeyTaskCreated
      payload := ⟨id, task.taskType, task.payload, task.priority, reattempt⟩
      status := .pending
      attempts := 0
      processedAt := none
      lastError := none }
  { db with outbox := db.outbox.insert event }

/-- A flush through a fresh object that changed stores the object's attributes. -/
theorem flush_fresh {now : Time} {db : Database} {id : TaskId} {row cur : Task}
    (hrow : db.tasks.get id = some row) (hne : cur ≠ row) :
    flush now db ⟨id, row, cur⟩ =
      .ok (db.setTask id (cur.touch now), Instance.fresh id (cur.touch now)) := by
  simp [flush, hrow, hne]

theorem get_setTask (db : Database) (id : TaskId) (row : Task) (i : TaskId) :
    (db.setTask id row).tasks.get i =
      if i = id then (db.tasks.get i).map (fun _ => row) else db.tasks.get i :=
  Table.get_modify _ _ _ _

/-- The row that was written is the row that is read back. -/
theorem get_setTask_self {db : Database} {id : TaskId} {old : Task} (row : Task)
    (h : db.tasks.get id = some old) : (db.setTask id row).tasks.get id = some row := by
  simp [get_setTask, h]

theorem get_setTask_of_ne (db : Database) {id i : TaskId} (row : Task) (h : i ≠ id) :
    (db.setTask id row).tasks.get i = db.tasks.get i := by
  simp [get_setTask, h]

end TaskPlatform
