import TaskPlatform.Lib.Run
import TaskPlatform.Scheduler

/-!
# The platform as a state machine

The state is the committed database and what each worker process holds between
its two transactions. An action is one whole transaction with its clock value
and everything else that the environment decides; a transaction that raises is
rolled back. A worker is known by its `worker_id`, which is unique to a process,
and handles one message at a time. The stack has room for every cascade.
-/

namespace TaskPlatform

structure Platform where
  db : Database
  holding : WorkerId → Option Held

def Platform.initial : Platform := ⟨.empty, fun _ => none⟩

inductive Action where
  | createTask (now : Time) (spec : TaskSpec)
  | manualRetry (now : Time) (id : TaskId)
  | cancelTask (now : Time) (id : TaskId)
  | bulkRetry (now : Time) (ids : List TaskId)
  | bulkCancel (now : Time) (ids : List TaskId)
  | start (now : Time) (workerId : WorkerId) (id : TaskId)
  | renewLease (now : Time) (workerId : WorkerId) (id : TaskId)
  | recordSuccess (now : Time) (workerId : WorkerId) (result : Json)
  | recordFailure (now : Time) (workerId : WorkerId) (error : String) (retryable : Bool)
  | crash (workerId : WorkerId)
  | requeueOrphaned (now : Time) (limit : Nat) (locked : TaskId → Bool)
  | requeueDue (now : Time) (limit : Nat) (locked : TaskId → Bool)
  | requeueDlq (now : Time) (limit : Nat) (locked : TaskId → Bool)
  | recoverStuck (now : Time) (limit : Nat) (locked : TaskId → Bool)
  | purgeOldData (now : Time) (limit : Option Nat)
  | heartbeat (now : Time) (workerId : WorkerId)
  | putWebhook (webhookId : Option Nat) (sub : WebhookSubscription)
  | deleteWebhook (webhookId : Nat)
  | audit (now : Time) (action : String)

/-- `datetime.now(UTC)` of the transaction, where it reads the clock. -/
def Action.clock : Action → Option Time
  | .createTask now _ | .manualRetry now _ | .cancelTask now _ | .bulkRetry now _
  | .bulkCancel now _ | .start now _ _ | .renewLease now _ _ | .recordSuccess now _ _
  | .recordFailure now _ _ _ | .requeueOrphaned now _ _ | .requeueDue now _ _
  | .requeueDlq now _ _ | .recoverStuck now _ _ | .purgeOldData now _ | .heartbeat now _
  | .audit now _ => some now
  | .crash _ | .putWebhook _ _ | .deleteWebhook _ => none

/-- Commit the result of a transaction body, or roll back. -/
def commit (db : Database) : Except TaskError Database → Database
  | .ok db' => db'
  | .error _ => db

/-- Commit a creation, or roll it back; then its id is lost. -/
def commitCreated (db : Database) : Except TaskError (Database × TaskId) → Database
  | .ok (db', _) => db'
  | .error _ => db.skipTaskId

theorem commitCreated_of {P : Database → Prop} {db : Database}
    {body : Except TaskError (Database × TaskId)} (hskip : P db.skipTaskId)
    (h : ∀ db' id, body = .ok (db', id) → P db') : P (commitCreated db body) := by
  cases body with
  | error e => exact hskip
  | ok r => exact h r.1 r.2 rfl

/-- Commit a body that can find its task missing. -/
def commitFound (db : Database) : Except TaskError (Option Database) → Database
  | .ok (some db') => db'
  | _ => db

/-- `heartbeat`, or `register_worker` when there is no row yet. -/
def heartbeat (now : Time) (workerId : WorkerId) (db : Database) : Database :=
  match db.workers.select (fun r => r.2.workerId == workerId) with
  | [] => { db with workers := db.workers.insert ⟨workerId, true, now⟩ }
  | r :: _ => { db with workers := db.workers.modify r.1 (fun _ => ⟨workerId, true, now⟩) }

/-- `create_webhook` and `update_webhook`. -/
def putWebhook (webhookId : Option Nat) (sub : WebhookSubscription) (db : Database) : Database :=
  match webhookId with
  | none => { db with subscriptions := db.subscriptions.insert sub }
  | some i => { db with subscriptions := db.subscriptions.modify i (fun _ => sub) }

/-- `delete_webhook`, with the `ON DELETE CASCADE` of its deliveries. -/
def deleteWebhook (webhookId : Nat) (db : Database) : Database :=
  { db with
    subscriptions := db.subscriptions.erase (fun r => r.1 == webhookId)
    deliveries := db.deliveries.erase (fun r => r.2.subscriptionId == webhookId) }

def Platform.setHolding (p : Platform) (workerId : WorkerId) (held : Option Held) : Platform :=
  { p with holding := fun w => if w = workerId then held else p.holding w }

/-- The first transaction of a worker that handles no other message. -/
def startStep (cfg : Settings) (now : Time) (w : WorkerId) (id : TaskId) (p : Platform) :
    Platform :=
  match p.holding w with
  | some _ => p
  | none =>
    match startTask cfg now p.db w id with
    | .ok (some (db, held)) => Platform.setHolding { p with db := db } w (some held)
    | _ => p

/-- The second transaction of a worker; afterwards it holds nothing. -/
def finishStep (body : Held → Except TaskError Database) (w : WorkerId) (p : Platform) :
    Platform :=
  match p.holding w with
  | none => p
  | some held => Platform.setHolding { p with db := commit p.db (body held) } w none

def Platform.step (cfg : Settings) (p : Platform) : Action → Platform
  | .createTask now spec => { p with db := commitCreated p.db (createTask cfg now p.db spec) }
  | .manualRetry now id => { p with db := commitFound p.db (manualRetry cfg now p.db id) }
  | .cancelTask now id => { p with db := commitFound p.db (cancelTask cfg now p.db id) }
  | .bulkRetry now ids =>
    { p with db := commit p.db ((bulkRetry cfg now p.db ids).map (·.db)) }
  | .bulkCancel now ids =>
    { p with db := commit p.db ((bulkCancel cfg now p.db ids).map (·.db)) }
  | .start now w id => startStep cfg now w id p
  | .renewLease now w id => { p with db := (renewLease now p.db id w cfg.taskLeaseSeconds).1 }
  | .recordSuccess now w result =>
    finishStep (fun held => recordSuccess cfg now p.db held result) w p
  | .recordFailure now w error retryable =>
    finishStep (fun held => recordFailure cfg now p.db held error retryable) w p
  | .crash w => p.setHolding w none
  | .requeueOrphaned now limit locked =>
    { p with db := commit p.db (requeueOrphanedQueuedTasks cfg now limit locked p.db) }
  | .requeueDue now limit locked =>
    { p with db := commit p.db (requeueDueTasks cfg now limit locked p.db) }
  | .requeueDlq now limit locked =>
    { p with db := commit p.db (requeueDlqTasks cfg now limit locked p.db) }
  | .recoverStuck now limit locked =>
    { p with db := commit p.db (recoverStuckTasks cfg now limit locked p.db) }
  | .purgeOldData now limit => { p with db := purgeOldData cfg now limit p.db }
  | .heartbeat now w => { p with db := heartbeat now w p.db }
  | .putWebhook i sub => { p with db := putWebhook i sub p.db }
  | .deleteWebhook i => { p with db := deleteWebhook i p.db }
  | .audit now action =>
    { p with db := { p.db with auditLogs := p.db.auditLogs.insert ⟨action, now⟩ } }

/-- The state after a run from the empty database. -/
def Platform.after (cfg : Settings) (acts : List Action) : Platform :=
  Run.run (Platform.step cfg) Platform.initial acts

end TaskPlatform
