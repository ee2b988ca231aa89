import TaskPlatform.Tasks

/-!
# Bulk creation and batches

`bulk_create` of `services/tasks.py` and `services/batches.py`. A bulk creation
puts each task into a savepoint of its own; a batch is one transaction with its
own row in `task_batches`.
-/

namespace TaskPlatform

structure TaskBatch where
  name : String
  createdBy : Option Nat
  deriving DecidableEq, Repr

/-- What `bulk_create` answers; the reason of a conflict is the text of the driver's exception. -/
structure BulkCreated where
  db : Database
  created : List TaskId
  conflicts : List TaskSpec

/-- One turn of the loop of `bulk_create`. The savepoint undoes what a failed creation wrote, but for
the id that its `INSERT` has drawn; only `IntegrityError` is caught. -/
def bulkCreateTurn (cfg : Settings) (now : Time) (r : BulkCreated) (spec : TaskSpec) :
    Except TaskError BulkCreated :=
  match createTask cfg now r.db spec with
  | .ok (db, id) => .ok ⟨db, r.created ++ [id], r.conflicts⟩
  | .error .integrity => .ok ⟨r.db.skipTaskId, r.created, r.conflicts ++ [spec]⟩
  | .error e => .error e

/-- `bulk_create` -/
def bulkCreate (cfg : Settings) (now : Time) (db : Database) (specs : List TaskSpec) :
    Except TaskError BulkCreated :=
  specs.foldlM (bulkCreateTurn cfg now) ⟨db, [], []⟩

def batchNotFoundMessage : String := "Батч не знайдено"

/-- What `cancel_batch` answers. -/
structure BatchCancelled where
  db : Database
  cancelled : Nat
  conflicts : List (TaskId × String)

/-- One turn of the loop of `cancel_batch`. -/
def cancelBatchTurn (cancelTask : Database → TaskId → Except TaskError (Option Database))
    (r : BatchCancelled) (id : TaskId) : Except TaskError BatchCancelled :=
  match cancelTask r.db id with
  | .ok found => .ok { r with db := found.getD r.db, cancelled := r.cancelled + 1 }
  | .error (.taskConflict reason) => .ok { r with conflicts := r.conflicts ++ [(id, reason)] }
  | .error e => .error e

/-- The tasks of a batch, in the `order` in which the query without `ORDER BY` returns them. -/
def batchTasks (order : List (TaskId × Task) → List (TaskId × Task)) (db : Database)
    (batchId : Nat) : List TaskId :=
  (order (db.tasks.select (fun r => r.2.batchId == some batchId))).map Prod.fst

/-- The body of `cancel_batch`. -/
def cancelBatchBody (cancelTask : Database → TaskId → Except TaskError (Option Database))
    (order : List (TaskId × Task) → List (TaskId × Task)) (batches : Table TaskBatch)
    (db : Database) (batchId : Nat) : Except TaskError BatchCancelled :=
  match batches.get batchId with
  | none => .error (.taskConflict batchNotFoundMessage)
  | some _ => (batchTasks order db batchId).foldlM (cancelBatchTurn cancelTask) ⟨db, 0, []⟩

/-- `cancel_batch` where the stack has room for every cascade. -/
def cancelBatch (cfg : Settings) (now : Time)
    (order : List (TaskId × Task) → List (TaskId × Task)) (batches : Table TaskBatch)
    (db : Database) (batchId : Nat) : Except TaskError BatchCancelled :=
  cancelBatchBody (cancelTask cfg now) order batches db batchId

/-- `cancel_batch` where the stack has room for so many nested calls of `set_status`. -/
def cancelBatchFuel (cfg : Settings) (now : Time) (levels : Nat)
    (order : List (TaskId × Task) → List (TaskId × Task)) (batches : Table TaskBatch)
    (db : Database) (batchId : Nat) : Except TaskError BatchCancelled :=
  cancelBatchBody (cancelTaskFuel cfg now levels) order batches db batchId

end TaskPlatform
