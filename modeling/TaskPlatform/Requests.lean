import TaskPlatform.Batches
import TaskPlatform.Change

/-!
# Creation requests, statement by statement

`POST /tasks`, `POST /tasks/bulk` and `POST /batches`, cut at their statements, with
any number of them running at the same time. What a request has written is seen by
others only after its commit, but for one thing: the unique index on
`idempotency_key` lets an `INSERT` wait for another transaction that has inserted the
key. A request that the rate limiter refuses does not get here.
-/

namespace TaskPlatform.Requests

structure Config where
  settings : Settings
  batchMaxTasks : Nat

/-- Rows of the tables that a creation writes. -/
structure Rows where
  batches : List (Nat × TaskBatch) := []
  tasks : List (TaskId × Task) := []
  events : List TaskEvent := []
  outbox : List OutboxEvent := []
  deliveries : List WebhookDelivery := []
  deps : List TaskDependency := []
  deriving DecidableEq, Repr

def Rows.append (r r' : Rows) : Rows where
  batches := r.batches ++ r'.batches
  tasks := r.tasks ++ r'.tasks
  events := r.events ++ r'.events
  outbox := r.outbox ++ r'.outbox
  deliveries := r.deliveries ++ r'.deliveries
  deps := r.deps ++ r'.deps

instance : Append Rows := ⟨Rows.append⟩

/-- What a row is about: a task or a batch. -/
inductive Subject where
  | task (id : TaskId)
  | batch (id : Nat)
  deriving DecidableEq, Repr

/-- The subject of each row; an edge is a row of the child. -/
def Rows.subjects (r : Rows) : List Subject :=
  r.batches.map (fun b => Subject.batch b.1) ++ r.tasks.map (fun t => Subject.task t.1) ++
    r.events.map (fun e => Subject.task e.taskId) ++
    r.outbox.map (fun e => Subject.task e.payload.taskId) ++
    r.deliveries.map (fun d => Subject.task d.taskId) ++ r.deps.map (fun d => Subject.task d.childTaskId)

/-- The idempotency keys that are taken. -/
def Rows.keys (r : Rows) : List String := r.tasks.filterMap (·.2.idempotencyKey)

/-- `get_by_idempotency_key` -/
def Rows.getByIdempotencyKey (r : Rows) (key : String) : Option TaskId :=
  (r.tasks.find? (fun t => t.2.idempotencyKey == some key)).map Prod.fst

def Rows.parentsOf (r : Rows) (id : TaskId) : List TaskId :=
  (r.deps.filter (fun d => d.childTaskId == id)).map (·.parentTaskId)

/-- A row that waits for a flush. -/
inductive Statement where
  | event (e : TaskEvent)
  | update (task : Task)
  | delivery (now : Time) (eventType : EventType) (task : Task) (subscriptionId : Nat)
  | outbox (e : OutboxEvent)
  | dependency (parent : TaskId)
  deriving DecidableEq, Repr

/-- The statement for the task `id`; `deliveryId` is the next key of `webhook_deliveries`. -/
def Rows.write (id : TaskId) (deliveryId : Nat) (r : Rows) : Statement → Rows
  | .event e => { r with events := r.events ++ [e] }
  | .update task => { r with tasks := r.tasks.map (fun t => if t.1 = id then (id, task) else t) }
  | .delivery now eventType task subscriptionId =>
    { r with deliveries := r.deliveries ++
        [newDelivery now eventType id task subscriptionId deliveryId] }
  | .outbox e => { r with outbox := r.outbox ++ [e] }
  | .dependency parent => { r with deps := r.deps ++ [⟨parent, id⟩] }

/-- The keys of `webhook_deliveries` that a statement draws. -/
def Statement.deliveries : Statement → Nat
  | .delivery _ _ _ _ => 1
  | _ => 0

/-- The outbox row of `create_task`. -/
def newOutbox (cfg : Settings) (id : TaskId) (task : Task) : OutboxEvent where
  routingKey := cfg.routingKeyTaskCreated
  payload := ⟨id, task.taskType, task.payload, task.priority, false⟩
  status := .pending
  attempts := 0
  processedAt := none
  lastError := none

inductive Request where
  | single (spec : TaskSpec)
  | bulk (specs : List TaskSpec)
  | batch (name : String) (createdBy : Option Nat) (specs : List TaskSpec)
  deriving DecidableEq, Repr

/-- The exceptions that the three paths tell apart; `database` is any other of the driver. -/
inductive Raised where
  | integrity
  | taskConflict (message : String)
  | batchLimit (message : String)
  | typeError
  | database
  deriving DecidableEq, Repr

/-- The answers 200, 201, 409, 400 and 500; 201 comes with the conflicts of a bulk creation. -/
inductive Answer where
  | replayed (id : TaskId)
  | created (ids : List TaskId) (conflicts : List TaskSpec)
  | conflict (message : String)
  | badRequest (e : Raised)
  | error
  deriving DecidableEq, Repr

def keyConflictMessage : String := "Задача з таким idempotency_key вже існує"

def batchLimitMessage (count max : Nat) : String :=
  "Забагато задач у батчі: " ++ toString count ++ " > " ++ toString max

/-- What `create_task` goes on with when its rows are flushed: `register_dependencies`, the loop of
`_ensure_no_cycle` with the end of the Python list at the head, or `enqueue_for` with the rows that
are added after it. -/
inductive Next where
  | parents (parentIds : List TaskId)
  | climb (parentIds seen queue : List TaskId)
  | notify (eventType : EventType) (task : Task) (rest : List Statement)
  | done
  deriving DecidableEq, Repr

/-- How far a request is: before its first statement, between two specs, at the `INSERT` of a task,
at the unique index with the id that the `INSERT` has drawn, in the flushes after it, or answered. -/
inductive Stage where
  | begun
  | turn
  | insert (spec : TaskSpec)
  | check (id : TaskId) (spec : TaskSpec)
  | write (id : TaskId) (spec : TaskSpec) (queue : List Statement) (next : Next)
  | answered (answer : Answer)
  deriving DecidableEq, Repr

/-- The session of a request. `done` are its uncommitted rows of finished creations, `current` those
since the last savepoint, or since the last finished creation where there are no savepoints. The ids
that its `INSERT`s have drawn are kept for the statements about a request. -/
structure Session where
  request : Request
  stage : Stage
  todo : List TaskSpec
  done : Rows
  current : Rows
  created : List TaskId
  conflicts : List (TaskId × TaskSpec)
  drawn : List Subject
  deriving DecidableEq, Repr

def Request.specs : Request → List TaskSpec
  | .single spec => [spec]
  | .bulk specs => specs
  | .batch _ _ _ => []

def Request.start (request : Request) : Session :=
  ⟨request, .begun, request.specs, {}, {}, [], [], []⟩

/-- Roll back and answer. -/
def Session.close (c : Session) (answer : Answer) : Session :=
  { c with stage := .answered answer, done := {}, current := {} }

/-- An exception that no savepoint stops. -/
def Session.raise (c : Session) (e : Raised) : Session :=
  match c.request, e with
  | .single _, .integrity => c.close (.conflict keyConflictMessage)
  | .single _, .taskConflict message => c.close (.conflict message)
  | .single _, _ => c.close .error
  | .bulk _, _ => c.close .error
  | .batch _ _ _, e => c.close (.badRequest e)

/-- The `IntegrityError` of a creation; `bulk_create` rolls back to its savepoint and goes on. -/
def Session.violate (c : Session) (id : TaskId) (spec : TaskSpec) : Session :=
  match c.request with
  | .bulk _ =>
    { c with stage := .turn, current := {}, conflicts := c.conflicts ++ [(id, spec)] }
  | _ => c.raise .integrity

/-- A statement that fails for another reason; the commit is outside every `try`. -/
def Session.fail (c : Session) : Session :=
  match c.stage, c.todo with
  | .answered _, _ => c
  | .turn, [] => c.close .error
  | _, _ => c.raise .database

/-- The rows of `create_task` that the first flush after the `INSERT` writes, and what follows. -/
def creation (cfg : Settings) (now : Time) (id : TaskId) (spec : TaskSpec) :
    List Statement × Next :=
  let row := spec.row cfg now
  let created : TaskEvent := ⟨id, .created, .created, .created, none, now⟩
  match spec.dependsOn with
  | some (p :: ps) => ([.event created], .parents (p :: ps))
  | _ =>
    if spec.scheduleAt.any (fun t => decide (now < t)) then
      let task := movedTask now row .scheduled
      ([.update task, .event created, .event ⟨id, .scheduled, .created, .scheduled, none, now⟩],
        .notify .scheduled task [])
    else
      let task := movedTask now row .queued
      ([.update task, .event created, .event ⟨id, .queued, .created, .queued, none, now⟩],
        .notify .queued task [.outbox (newOutbox cfg id task)])

/-- What `create_task` does when nothing waits for a flush: a `SELECT` over the rows that the request
sees, and the rows it adds then. -/
def Session.proceed (c : Session) (now : Time) (seen : Rows)
    (subs : List (Nat × WebhookSubscription)) (id : TaskId) (spec : TaskSpec) : Next → Session
  | .parents parentIds =>
    let parentIds := parentIds.eraseDups
    let missing := parentIds.filter (fun p => seen.tasks.all (fun t => t.1 != p))
    if id ∈ parentIds then c.raise (.taskConflict selfDependencyMessage)
    else if missing ≠ [] then c.raise (.taskConflict (missingParentsMessage missing))
    else { c with stage := .write id spec [] (.climb parentIds [] parentIds.reverse) }
  | .climb parentIds _ [] =>
    let blocked : TaskEvent := ⟨id, .blocked, .created, .created,
      some (.waitingFor (spec.dependsOn.getD [])), now⟩
    { c with stage := .write id spec (parentIds.map .dependency ++ [.event blocked]) .done }
  | .climb parentIds visited (current :: queue) =>
    if current = id then c.raise (.taskConflict cycleMessage)
    else if current ∈ visited then
      { c with stage := .write id spec [] (.climb parentIds visited queue) }
    else if id ∈ seen.parentsOf current then c.raise (.taskConflict cycleMessage)
    else
      { c with
        stage := .write id spec []
          (.climb parentIds (current :: visited) ((seen.parentsOf current).reverse ++ queue)) }
  | .notify eventType task rest =>
    let matching := subs.filter (fun r => r.2.isActive && r.2.matches eventType)
    { c with
      stage := .write id spec (matching.map (fun r => .delivery now eventType task r.1) ++ rest)
        .done }
  | .done =>
    { c with
      stage := .turn
      done := c.done ++ c.current
      current := {}
      created := c.created ++ [id] }

/-- The committed rows, the sequences of the keys, and the requests so far. -/
structure Service where
  committed : Rows
  nextTask : TaskId
  nextBatch : Nat
  nextDelivery : Nat
  sessions : List Session
  deriving DecidableEq, Repr

def Service.initial : Service := ⟨{}, 1, 1, 1, []⟩

def Service.put (s : Service) (i : Nat) (c : Session) : Service :=
  { s with sessions := s.sessions.set i c }

/-- Some other transaction has inserted the key and is not over. -/
def Service.heldByOther (s : Service) (i : Nat) (key : String) : Bool :=
  s.sessions.zipIdx.any (fun r => r.2 != i && decide (key ∈ (r.1.done ++ r.1.current).keys))

/-- The first statement of a request. -/
def Service.begin (cfg : Config) (s : Service) (i : Nat) (c : Session) : Service :=
  match c.request with
  | .single spec =>
    match spec.idempotencyKey.bind s.committed.getByIdempotencyKey with
    | some id => s.put i { c with stage := .answered (.replayed id) }
    | none => s.put i { c with stage := .turn }
  | .bulk _ => s.put i { c with stage := .turn }
  | .batch name createdBy specs =>
    if cfg.batchMaxTasks < specs.length then
      s.put i (c.raise (.batchLimit (batchLimitMessage specs.length cfg.batchMaxTasks)))
    else
      Service.put { s with nextBatch := s.nextBatch + 1 } i
        { c with
          stage := .turn
          todo := specs.map (fun spec =>
            { spec with batchId := some s.nextBatch, createdBy := createdBy })
          done := c.done ++ { batches := [(s.nextBatch, ⟨name, createdBy⟩)] }
          drawn := c.drawn ++ [.batch s.nextBatch] }

/-- The `INSERT` of a task at the unique index: its request waits for another transaction with the
key, is told of the violation, or has inserted its row. Without parents `create_task` then compares
`schedule_at` with the clock. -/
def Service.check (cfg : Config) (s : Service) (i : Nat) (c : Session) (now : Time) (id : TaskId)
    (spec : TaskSpec) : Service :=
  if spec.idempotencyKey.any (fun k => decide (k ∈ (s.committed ++ c.done).keys)) then
    s.put i (c.violate id spec)
  else if spec.idempotencyKey.any (s.heldByOther i) then s
  else if spec.dependsOn.getD [] = [] ∧ spec.incomparable then s.put i (c.raise .typeError)
  else
    s.put i { c with
      stage := .write id spec (creation cfg.settings now id spec).1
        (creation cfg.settings now id spec).2
      current := { tasks := [(id, spec.row cfg.settings now)] } }

/-- The next statement of a request. -/
def Service.advance (cfg : Config) (s : Service) (i : Nat) (c : Session) (now : Time)
    (subs : List (Nat × WebhookSubscription)) : Service :=
  match c.stage with
  | .begun => s.begin cfg i c
  | .turn =>
    match c.todo with
    | spec :: todo => s.put i { c with stage := .insert spec, todo := todo }
    | [] =>
      Service.put { s with committed := s.committed ++ c.done } i
        (c.close (.created c.created (c.conflicts.map Prod.snd)))
  | .insert spec =>
    Service.put { s with nextTask := s.nextTask + 1 } i
      { c with stage := .check s.nextTask spec, drawn := c.drawn ++ [.task s.nextTask] }
  | .check id spec => s.check cfg i c now id spec
  | .write id spec (statement :: queue) next =>
    Service.put { s with nextDelivery := s.nextDelivery + statement.deliveries } i
      { c with
        stage := .write id spec queue next
        current := c.current.write id s.nextDelivery statement }
  | .write id spec [] next =>
    s.put i (c.proceed now (s.committed ++ c.done ++ c.current) subs id spec next)
  | .answered _ => s

inductive Action where
  | arrive (request : Request)
  | advance (i : Nat) (now : Time) (subs : List (Nat × WebhookSubscription))
  | fail (i : Nat)
  deriving DecidableEq, Repr

def Service.step (cfg : Config) (s : Service) : Action → Service
  | .arrive request => { s with sessions := s.sessions ++ [request.start] }
  | .advance i now subs =>
    match s.sessions[i]? with
    | none => s
    | some c => s.advance cfg i c now subs
  | .fail i =>
    match s.sessions[i]? with
    | none => s
    | some c => s.put i c.fail

/-- The service after a run from an empty database. -/
def Service.after (cfg : Config) (acts : List Action) : Service :=
  Run.run (Service.step cfg) Service.initial acts

end TaskPlatform.Requests
