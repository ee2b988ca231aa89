import TaskPlatform.StatusChange

/-!
# Task operations

`services/tasks.py`: creation with its dependency registration, the operator's
retry and cancellation, and their bulk forms. Each function is the body of one
transaction; an exception leaves through `Except` and the caller rolls back.
-/

namespace TaskPlatform

/-- The arguments of `create_task`. A `schedule_at` without a time zone is the time that the driver
stores for it, in UTC, with `scheduleNaive`. -/
structure TaskSpec where
  taskType : String
  payload : Json
  priority : Priority := .normal
  maxAttempts : Option Nat := none
  idempotencyKey : Option String := none
  createdBy : Option Nat := none
  scheduleAt : Option Time := none
  scheduleNaive : Bool := false
  batchId : Option Nat := none
  dependsOn : Option (List TaskId) := none
  deriving DecidableEq, Repr

/-- `str(list)` of Python. -/
def pyList (xs : List String) : String := "[" ++ ", ".intercalate xs ++ "]"

/-- `sorted(...)` of a set of statuses, as an error message shows it. -/
def sortedStatuses (statuses : List Status) : String :=
  pyList (((statuses.map Status.value).insertionSort (· ≤ ·)).map (fun s => "'" ++ s ++ "'"))

def selfDependencyMessage : String := "Задача не може залежати від самої себе"

def missingParentsMessage (missing : List TaskId) : String :=
  "Батьківські задачі не знайдено: " ++ pyList (missing.map toString)

def cycleMessage : String := "Виявлено циклічну залежність задач"

def retryConflictMessage (status : Status) : String :=
  "Повтор дозволений лише для " ++ sortedStatuses retryable ++ ", статус: " ++ status.value

def cancelConflictMessage (status : Status) : String :=
  "Скасувати можна лише " ++ sortedStatuses cancelable ++ ", статус: " ++ status.value

/-- The loop of `_ensure_no_cycle`. The end of the Python list is the head of `queue`. Each turn
takes one entry off, so the entries that can ever be on the list bound the turns. -/
def ensureNoCycleLoop (db : Database) (taskId : TaskId) :
    Nat → List TaskId → List TaskId → Except TaskError Unit
  | _, _, [] => .ok ()
  | 0, _, _ :: _ => .error .recursion
  | fuel + 1, seen, current :: queue =>
    if current = taskId then .error (.taskConflict cycleMessage)
    else if current ∈ seen then ensureNoCycleLoop db taskId fuel seen queue
    else if taskId ∈ db.parentsOf current then .error (.taskConflict cycleMessage)
    else ensureNoCycleLoop db taskId fuel (current :: seen)
      ((db.parentsOf current).reverse ++ queue)

/-- `_ensure_no_cycle` -/
def ensureNoCycle (db : Database) (taskId : TaskId) (parentIds : List TaskId) :
    Except TaskError Unit :=
  ensureNoCycleLoop db taskId (parentIds.length + db.deps.length) [] parentIds.reverse

/-- The insertion of edges, under the primary key and the foreign keys of `task_dependencies`. -/
def insertEdges (db : Database) (edges : List TaskDependency) : Except TaskError Database :=
  if edges.any (fun d => decide (d ∈ db.deps) || (db.tasks.get d.parentTaskId).isNone ||
      (db.tasks.get d.childTaskId).isNone) then .error .integrity
  else .ok { db with deps := db.deps ++ edges }

/-- `register_dependencies`, with the flush of the edges that it adds. -/
def registerDependencies (db : Database) (taskId : TaskId) (parentIds : List TaskId) :
    Except TaskError Database :=
  let parentIds := parentIds.eraseDups
  let missing := parentIds.filter (fun p => (db.tasks.get p).isNone)
  if taskId ∈ parentIds then .error (.taskConflict selfDependencyMessage)
  else if missing ≠ [] then .error (.taskConflict (missingParentsMessage missing))
  else do
    ensureNoCycle db taskId parentIds
    insertEdges db (parentIds.map (fun p => ⟨p, taskId⟩))

/-- The row that the constructor call of `create_task` inserts. -/
def TaskSpec.row (cfg : Settings) (now : Time) (spec : TaskSpec) : Task where
  taskType := spec.taskType
  payload := spec.payload
  status := .created
  priority := spec.priority
  maxAttempts := spec.maxAttempts.getD cfg.taskMaxAttempts
  attempts := 0
  idempotencyKey := spec.idempotencyKey
  scheduledAt := spec.scheduleAt
  startedAt := none
  finishedAt := none
  leaseOwner := none
  leaseExpiresAt := none
  result := none
  lastError := none
  createdBy := spec.createdBy
  batchId := spec.batchId
  dlqRequeueCount := 0
  dlqRetryAt := none
  createdAt := now
  updatedAt := now

/-- The unique constraint on `idempotency_key`. -/
def keyTaken (db : Database) (key : Option String) : Bool :=
  match key with
  | none => false
  | some k => db.tasks.rows.any (fun r => r.2.idempotencyKey == some k)

/-- The insertion of the row and of its first event. -/
def insertTask (cfg : Settings) (now : Time) (db : Database) (spec : TaskSpec) : Database :=
  let id := db.tasks.next
  recordEvent now { db with tasks := db.tasks.insert (spec.row cfg now) } id
    .created .created .created none

/-- What an `INSERT` that is rolled back leaves behind: the sequence gives its id to no other task. -/
def Database.skipTaskId (db : Database) : Database := { db with tasks := db.tasks.skip }

/-- The comparison with `datetime.now(UTC)` raises `TypeError`. -/
def TaskSpec.incomparable (spec : TaskSpec) : Bool := spec.scheduleNaive && spec.scheduleAt.isSome

/-- `create_task`; returns the new id too. -/
def createTask (cfg : Settings) (now : Time) (db : Database) (spec : TaskSpec) :
    Except TaskError (Database × TaskId) :=
  let id := db.tasks.next
  let task := Instance.fresh id (spec.row cfg now)
  if keyTaken db spec.idempotencyKey then .error .integrity
  else
    let db := insertTask cfg now db spec
    match spec.dependsOn with
    | some (p :: ps) => do
      let db ← registerDependencies db id (p :: ps)
      return (recordEvent now db id .created .blocked .created (some (.waitingFor (p :: ps))), id)
    | _ =>
      if spec.incomparable then .error .typeError
      else if spec.scheduleAt.any (fun t => decide (now < t)) then do
        let (db, _) ← setStatus cfg now db task .scheduled .scheduled none
        return (db, id)
      else do
        let (db, task) ← setStatus cfg now db task .queued .queued none
        return (addOutbox cfg db id task.cur false, id)

/-- `manual_retry`; `none` when there is no such task. -/
def manualRetry (cfg : Settings) (now : Time) (db : Database) (id : TaskId) :
    Except TaskError (Option Database) :=
  match db.tasks.get id with
  | none => .ok none
  | some row =>
    if row.status ∉ retryable then .error (.taskConflict (retryConflictMessage row.status))
    else do
      let (db, task) ← setStatus cfg now db (Instance.fresh id row) .queued .retried
        (some (.attemptsSoFar row.attempts))
      return some (addOutbox cfg db id task.cur true)

/-- The body of `cancel_task`. -/
def cancelTaskBody (setStatus : SetStatus) (db : Database) (id : TaskId) :
    Except TaskError (Option Database) :=
  match db.tasks.get id with
  | none => .ok none
  | some row =>
    if row.status ∉ cancelable then .error (.taskConflict (cancelConflictMessage row.status))
    else do
      let (db, _) ← setStatus db (Instance.fresh id row) .cancelled .cancelled none
      return some db

/-- `cancel_task` where the stack has room for the cascade. -/
def cancelTask (cfg : Settings) (now : Time) : Database → TaskId →
    Except TaskError (Option Database) :=
  cancelTaskBody (setStatus cfg now)

/-- `cancel_task` where the stack has room for so many nested calls of `set_status`. -/
def cancelTaskFuel (cfg : Settings) (now : Time) (levels : Nat) : Database → TaskId →
    Except TaskError (Option Database) :=
  cancelTaskBody (setStatusFuel cfg now levels)

/-- What a bulk operation answers: the database, `succeeded` and `conflicts` with their reasons. -/
structure BulkResult where
  db : Database
  succeeded : List TaskId
  conflicts : List (TaskId × String)

/-- The ids that the driver takes for an `INTEGER` column. -/
def idBound : Nat := 2 ^ 31

/-- One turn of the loop of `bulk_retry` and `bulk_cancel`: a conflict is reported and the loop
goes on, any other exception leaves it. -/
def bulkTurn (op : Database → TaskId → Except TaskError (Option Database)) (r : BulkResult)
    (id : TaskId) : Except TaskError BulkResult :=
  if idBound ≤ id then .error .dataError
  else match op r.db id with
  | .ok none => .ok { r with conflicts := r.conflicts ++ [(id, "task not found")] }
  | .ok (some db) => .ok { r with db := db, succeeded := r.succeeded ++ [id] }
  | .error (.taskConflict reason) => .ok { r with conflicts := r.conflicts ++ [(id, reason)] }
  | .error e => .error e

/-- `bulk_retry` -/
def bulkRetry (cfg : Settings) (now : Time) (db : Database) (ids : List TaskId) :
    Except TaskError BulkResult :=
  ids.foldlM (bulkTurn (manualRetry cfg now)) ⟨db, [], []⟩

/-- `bulk_cancel` where the stack has room for every cascade. -/
def bulkCancel (cfg : Settings) (now : Time) (db : Database) (ids : List TaskId) :
    Except TaskError BulkResult :=
  ids.foldlM (bulkTurn (cancelTask cfg now)) ⟨db, [], []⟩

/-- `bulk_cancel` where the stack has room for so many nested calls of `set_status`. -/
def bulkCancelFuel (cfg : Settings) (now : Time) (levels : Nat) (db : Database)
    (ids : List TaskId) : Except TaskError BulkResult :=
  ids.foldlM (bulkTurn (cancelTaskFuel cfg now levels)) ⟨db, [], []⟩

end TaskPlatform
