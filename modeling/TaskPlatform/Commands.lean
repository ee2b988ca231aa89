import TaskPlatform.Access
import TaskPlatform.Requests
import TaskPlatform.Webhooks

/-!
# Commands of the API

The requests of `routes/tasks.py`, `routes/batches.py` and `routes/webhooks.py` that
write. Each needs a role, and is then one transaction with its audit row. The
`Site` puts the requests, the accounts and the platform behind them together.
-/

namespace TaskPlatform.Api

open Access (Audited UserId)
open Requests (Config)

/-- The tables that commands write, but for the audit log. -/
structure Tables where
  db : Database
  batches : Table TaskBatch

/-- The bodies and path parameters of the requests. The name, the URL and the secret of a webhook
are left out. -/
inductive Command where
  | createTask (spec : TaskSpec)
  | bulkCreate (specs : List TaskSpec)
  | retryTask (id : TaskId)
  | cancelTask (id : TaskId)
  | bulkRetry (ids : List TaskId)
  | bulkCancel (ids : List TaskId)
  | createBatch (name : String) (specs : List TaskSpec)
  | cancelBatch (batchId : Nat)
  | createWebhook (events : List String)
  | updateWebhook (webhookId : Nat) (events : Option (List String)) (isActive : Option Bool)
  | deleteWebhook (webhookId : Nat)
  | testWebhook (webhookId : Nat)

/-- `OPERATOR` and `ADMIN` -/
def Command.roles : Command → List String
  | .createWebhook _ | .updateWebhook _ _ _ | .deleteWebhook _ | .testWebhook _ => ["admin"]
  | _ => ["operator", "admin"]

def Command.audited : Command → Audited
  | .createTask _ => .command "task.create" "task"
  | .bulkCreate _ => .command "task.bulk_create" "task"
  | .retryTask _ => .command "task.retry" "task"
  | .cancelTask _ => .command "task.cancel" "task"
  | .bulkRetry _ => .command "task.bulk_retry" "task"
  | .bulkCancel _ => .command "task.bulk_cancel" "task"
  | .createBatch _ _ => .command "batch.create" "batch"
  | .cancelBatch _ => .command "batch.cancel" "batch"
  | .createWebhook _ => .command "webhook.create" "webhook"
  | .updateWebhook _ _ _ => .command "webhook.update" "webhook"
  | .deleteWebhook _ => .command "webhook.delete" "webhook"
  | .testWebhook _ => .command "webhook.test" "webhook"

/-- `TaskCreate` -/
def validSpec (spec : TaskSpec) : Bool :=
  decide (1 ≤ spec.taskType.length ∧ spec.taskType.length ≤ 100) &&
    spec.maxAttempts.all (fun n => decide (1 ≤ n ∧ n ≤ 10)) &&
    spec.idempotencyKey.all (fun key => decide (key.length ≤ 255)) &&
    spec.dependsOn.all (fun parents => decide (parents.length ≤ 100))

/-- A list in a body: `Field(min_length=1, max_length=1000)`. -/
def validLength {α : Type} (items : List α) : Bool :=
  decide (1 ≤ items.length ∧ items.length ≤ 1000)

def Command.valid : Command → Bool
  | .createTask spec => validSpec spec
  | .bulkCreate specs => validLength specs && specs.all validSpec
  | .bulkRetry ids | .bulkCancel ids => validLength ids
  | .createBatch name specs =>
    decide (name.length ≤ 255) && validLength specs && specs.all validSpec
  | _ => true

inductive Answer where
  | refused (code : Nat)
  | replayed (id : TaskId)
  | done (tables : Tables) (resourceId : Option Nat)

/-- The arguments of `create_task` in `routes/tasks.py`, which gives neither a batch nor a user. -/
def posted (spec : TaskSpec) : TaskSpec := { spec with batchId := none, createdBy := none }

/-- `get_by_idempotency_key` -/
def getByIdempotencyKey (db : Database) (key : String) : Option TaskId :=
  (db.tasks.rows.find? (fun r => r.2.idempotencyKey == some key)).map Prod.fst

/-- The route `create_task`. -/
def createTask (cfg : Config) (now : Time) (t : Tables) (spec : TaskSpec) : Answer :=
  match spec.idempotencyKey.bind (getByIdempotencyKey t.db) with
  | some id => .replayed id
  | none =>
    match TaskPlatform.createTask cfg.settings now t.db (posted spec) with
    | .ok (db, id) => .done { t with db := db } (some id)
    | .error .integrity | .error (.taskConflict _) => .refused 409
    | .error _ => .refused 500

/-- The routes `retry_task` and `cancel_task` after the call of the service. -/
def answerOne (t : Tables) (id : TaskId) : Except TaskError (Option Database) → Answer
  | .ok (some db) => .done { t with db := db } (some id)
  | .ok none => .refused 404
  | .error (.taskConflict _) => .refused 409
  | .error _ => .refused 500

/-- A call of the service whose exceptions the route does not catch. -/
def answerAll (t : Tables) (resourceId : Option Nat) : Except TaskError Database → Answer
  | .ok db => .done { t with db := db } resourceId
  | .error _ => .refused 500

/-- One turn of the loop of `create_batch`. -/
def createBatchTurn (cfg : Settings) (now : Time) (batchId createdBy : Nat) (db : Database)
    (spec : TaskSpec) : Except TaskError Database :=
  (TaskPlatform.createTask cfg now db
    { spec with batchId := some batchId, createdBy := some createdBy }).map Prod.fst

/-- The route `create_batch`, where every exception of the service is an answer 400. -/
def createBatch (cfg : Config) (now : Time) (t : Tables) (name : String) (specs : List TaskSpec)
    (createdBy : UserId) : Answer :=
  if cfg.batchMaxTasks < specs.length then .refused 400
  else
    match specs.foldlM (createBatchTurn cfg.settings now t.batches.next createdBy) t.db with
    | .ok db => .done ⟨db, t.batches.insert ⟨name, some createdBy⟩⟩ (some t.batches.next)
    | .error _ => .refused 400

/-- The route `cancel_batch`. -/
def cancelBatch (cfg : Config) (now : Time)
    (order : List (TaskId × Task) → List (TaskId × Task)) (t : Tables) (batchId : Nat) : Answer :=
  match TaskPlatform.cancelBatch cfg.settings now order t.batches t.db batchId with
  | .ok r => .done { t with db := r.db } (some batchId)
  | .error (.taskConflict _) => .refused 404
  | .error _ => .refused 500

/-- The route `update_webhook` with the subscription that it has read. -/
def updateWebhook (t : Tables) (webhookId : Nat) (sub : WebhookSubscription)
    (events : Option (List String)) (isActive : Option Bool) : Answer :=
  match events.elim (.ok ()) validateEvents with
  | .error _ => .refused 400
  | .ok () =>
    let updated : WebhookSubscription := ⟨events.getD sub.events, isActive.getD sub.isActive⟩
    .done { t with db := putWebhook (some webhookId) updated t.db } (some webhookId)

/-- The transaction of a command; `admitted` is the answer of `task_create_allowed`, and `order` the
order in which a query without `ORDER BY` returns its rows. -/
def Command.execute (cfg : Config) (now : Time) (admitted : Bool)
    (order : List (TaskId × Task) → List (TaskId × Task)) (actor : UserId) (t : Tables) :
    Command → Answer
  | .createTask spec => if admitted then Api.createTask cfg now t spec else .refused 429
  | .bulkCreate specs =>
    if admitted then
      answerAll t none
        ((TaskPlatform.bulkCreate cfg.settings now t.db (specs.map posted)).map (·.db))
    else .refused 429
  | .retryTask id => answerOne t id (manualRetry cfg.settings now t.db id)
  | .cancelTask id => answerOne t id (TaskPlatform.cancelTask cfg.settings now t.db id)
  | .bulkRetry ids =>
    answerAll t none ((TaskPlatform.bulkRetry cfg.settings now t.db ids).map (·.db))
  | .bulkCancel ids =>
    answerAll t none ((TaskPlatform.bulkCancel cfg.settings now t.db ids).map (·.db))
  | .createBatch name specs => Api.createBatch cfg now t name specs actor
  | .cancelBatch batchId => Api.cancelBatch cfg now order t batchId
  | .createWebhook events =>
    match validateEvents events with
    | .error _ => .refused 400
    | .ok () =>
      .done { t with db := putWebhook none ⟨events, true⟩ t.db } (some t.db.subscriptions.next)
  | .updateWebhook id events isActive =>
    match t.db.subscriptions.get id with
    | none => .refused 404
    | some sub => Api.updateWebhook t id sub events isActive
  | .deleteWebhook id =>
    match t.db.subscriptions.get id with
    | none => .refused 404
    | some _ => .done { t with db := TaskPlatform.deleteWebhook id t.db } (some id)
  | .testWebhook id =>
    match t.db.subscriptions.get id with
    | none => .refused 404
    | some _ => .done t (some id)

/-- `commands` are those of the requests, by their place among the sessions. -/
structure Site where
  accounts : Access.State
  platform : Platform
  batches : Table TaskBatch
  commands : Nat → Option Command

def Site.initial : Site := ⟨.initial, .initial, .empty, fun _ => none⟩

/-- What workers and coordinators do. -/
def internal : TaskPlatform.Action → Bool
  | .createTask _ _ | .manualRetry _ _ | .cancelTask _ _ | .bulkRetry _ _ | .bulkCancel _ _
  | .putWebhook _ _ | .deleteWebhook _ | .audit _ _ => false
  | _ => true

inductive Action where
  | access (a : Access.Action)
  | request (credentials : Option String) (command : Command)
  | service (a : TaskPlatform.Action)
  | perform (session : Nat) (now : Time) (admitted : Bool)
    (order : List (TaskId × Task) → List (TaskId × Task))

/-- The request has come to the stage. -/
def Site.settle (s : Site) (i : Nat) (c : Access.Session) (stage : Access.Stage) : Site :=
  { s with
    accounts :=
      { s.accounts with sessions := s.accounts.sessions.set i { c with stage := stage } } }

/-- The transaction of a permitted request: it commits its writes with its audit row, or nothing. -/
def Site.perform (cfg : Config) (s : Site) (i : Nat) (now : Time) (admitted : Bool)
    (order : List (TaskId × Task) → List (TaskId × Task)) (c : Access.Session) (actor : UserId)
    (row : Access.User) (command : Command) : Site :=
  if !command.valid then s.settle i c (.refused 422)
  else
    match command.execute cfg now admitted order actor ⟨s.platform.db, s.batches⟩ with
    | .refused code => s.settle i c (.refused code)
    | .replayed _ => s.settle i c .committed
    | .done tables resourceId =>
      { s.settle i c .committed with
        accounts :=
          { (s.settle i c .committed).accounts with
            db := Access.record s.accounts.db actor row command.audited resourceId }
        platform := { s.platform with db := tables.db }
        batches := tables.batches }

def Site.step (env : Access.Env) (cfg : Config) (s : Site) : Action → Site
  | .access a => { s with accounts := s.accounts.step env a }
  | .request credentials command =>
    { s with
      accounts := s.accounts.step env (.arrive ⟨credentials, .command command.roles⟩)
      commands := Function.update s.commands s.accounts.sessions.length (some command) }
  | .service a => if internal a then { s with platform := s.platform.step cfg.settings a } else s
  | .perform i now admitted order =>
    match s.accounts.sessions[i]?, s.commands i with
    | some c, some command =>
      match c.stage with
      | .permitted actor row => s.perform cfg i now admitted order c actor row command
      | _ => s
    | _, _ => s

def Site.after (env : Access.Env) (cfg : Config) (acts : List Action) : Site :=
  Run.run (Site.step env cfg) Site.initial acts

end TaskPlatform.Api
