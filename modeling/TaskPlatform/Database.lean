import TaskPlatform.Lib.Table
import TaskPlatform.Status

/-!
# The PostgreSQL schema

One table for each model class that the task operations read or write. A
primary key is the key of its `Table`. Times are the microseconds of a
`datetime`; a JSON column is its text, which no task operation looks into.
-/

namespace TaskPlatform

abbrev Time := Int
abbrev Json := String
abbrev WorkerId := String
abbrev TaskId := Nat

structure Task where
  taskType : String
  payload : Json
  status : Status
  priority : Priority
  maxAttempts : Nat
  attempts : Nat
  idempotencyKey : Option String
  scheduledAt : Option Time
  startedAt : Option Time
  finishedAt : Option Time
  leaseOwner : Option WorkerId
  leaseExpiresAt : Option Time
  result : Option Json
  lastError : Option String
  createdBy : Option Nat
  batchId : Option Nat
  dlqRequeueCount : Nat
  dlqRetryAt : Option Time
  createdAt : Time
  updatedAt : Time
  deriving DecidableEq, Repr

inductive AttemptStatus where
  | running | success | failed
  deriving DecidableEq, Repr

structure TaskAttempt where
  taskId : TaskId
  attemptNumber : Nat
  workerId : Option WorkerId
  status : AttemptStatus
  errorMessage : Option String
  result : Option Json
  startedAt : Option Time
  finishedAt : Option Time
  deriving DecidableEq, Repr

/-- The `metadata` dictionaries that the code writes, one constructor a shape. -/
inductive Details where
  | waitingFor (parents : List TaskId)
  | attemptsSoFar (attempts : Nat)
  | attemptNumber (number : Nat)
  | retryAt (number : Nat) (backoffSeconds : ℚ) (retryAt : Time)
  | attemptError (number : Nat) (error : String)
  | dlqCycle (dlqRequeueCount maxCycles : Nat)
  | leaseExpired (leaseOwner : Option WorkerId) (number : Option Nat)
  | unblockedBy (parent : TaskId)
  | parentTerminal (parent : TaskId) (parentStatus : Status)
  deriving DecidableEq, Repr

structure TaskEvent where
  taskId : TaskId
  eventType : EventType
  oldStatus : Status
  newStatus : Status
  details : Option Details
  createdAt : Time
  deriving DecidableEq, Repr

inductive OutboxStatus where
  | pending | sent
  deriving DecidableEq, Repr

structure OutboxPayload where
  taskId : TaskId
  taskType : String
  payload : Json
  priority : Priority
  reattempt : Bool
  deriving DecidableEq, Repr

structure OutboxEvent where
  routingKey : String
  payload : OutboxPayload
  status : OutboxStatus
  attempts : Nat
  processedAt : Option Time
  lastError : Option String
  deriving DecidableEq, Repr

structure TaskDependency where
  parentTaskId : TaskId
  childTaskId : TaskId
  deriving DecidableEq, Repr

structure WebhookSubscription where
  events : List String
  isActive : Bool
  deriving DecidableEq, Repr

inductive DeliveryStatus where
  | pending | sent | failed
  deriving DecidableEq, Repr

structure DeliveryPayload where
  event : EventType
  subscriptionId : Nat
  deliveryId : Nat
  timestamp : Time
  taskId : TaskId
  taskType : String
  status : Status
  priority : Priority
  attempts : Nat
  deriving DecidableEq, Repr

structure WebhookDelivery where
  subscriptionId : Nat
  eventType : EventType
  taskId : TaskId
  payload : DeliveryPayload
  status : DeliveryStatus
  attempts : Nat
  nextRetryAt : Time
  lastError : Option String
  deriving DecidableEq, Repr

structure Worker where
  workerId : WorkerId
  alive : Bool
  lastHeartbeatAt : Time
  deriving DecidableEq, Repr

structure AuditLog where
  action : String
  createdAt : Time
  deriving DecidableEq, Repr

structure Database where
  tasks : Table Task
  attempts : Table TaskAttempt
  events : Table TaskEvent
  outbox : Table OutboxEvent
  deps : List TaskDependency
  subscriptions : Table WebhookSubscription
  deliveries : Table WebhookDelivery
  workers : Table Worker
  auditLogs : Table AuditLog

def Database.empty : Database :=
  ⟨.empty, .empty, .empty, .empty, [], .empty, .empty, .empty, .empty⟩

/-- The settings that the task operations read; durations are in seconds. -/
structure Settings where
  taskMaxAttempts : Nat
  routingKeyTaskCreated : String
  retryBaseSeconds : ℚ
  retryBackoffFactor : ℚ
  retryMaxDelaySeconds : ℚ
  dlqRetryEnabled : Bool
  dlqRetryIntervalSeconds : ℚ
  dlqRetryMaxCycles : Nat
  queuedReconcileSeconds : ℚ
  workerHeartbeatTimeoutSeconds : ℚ
  taskLeaseSeconds : ℚ
  retentionCleanupBatchSize : Nat
  retentionDoneTasksDays : Int
  retentionDlqTasksDays : Int
  retentionOutboxSentDays : Int
  retentionAuditDays : Int

/-- The defaults of `core/config.py`. -/
def Settings.default : Settings where
  taskMaxAttempts := 3
  routingKeyTaskCreated := "task_created"
  retryBaseSeconds := 1
  retryBackoffFactor := 2
  retryMaxDelaySeconds := 300
  dlqRetryEnabled := true
  dlqRetryIntervalSeconds := 300
  dlqRetryMaxCycles := 3
  queuedReconcileSeconds := 60
  workerHeartbeatTimeoutSeconds := 60
  taskLeaseSeconds := 60
  retentionCleanupBatchSize := 200
  retentionDoneTasksDays := 30
  retentionDlqTasksDays := 30
  retentionOutboxSentDays := 7
  retentionAuditDays := 365

/-- `timedelta(seconds=…)`: whole microseconds, halves to even. -/
def timedelta (seconds : ℚ) : Time :=
  let micros := (seconds * 1000000).floor
  let rest := seconds * 1000000 - micros
  if rest < 1 / 2 then micros
  else if 1 / 2 < rest then micros + 1
  else if micros % 2 = 0 then micros else micros + 1

/-- `timedelta(days=…)` -/
def timedeltaDays (days : Int) : Time := days * 86400000000

/-- `compute_retry_delay_seconds`, in exact arithmetic; the `OverflowError` of the float power, by
default from attempt 1025 on, is left out. -/
def computeRetryDelaySeconds (cfg : Settings) (attempts : Nat) : ℚ :=
  min (cfg.retryBaseSeconds * cfg.retryBackoffFactor ^ ((attempts : ℤ) - 1))
    cfg.retryMaxDelaySeconds

/-- The rows of `task_events` of one task, in id order. -/
def Database.eventsOf (db : Database) (id : TaskId) : List TaskEvent :=
  (db.events.select (fun r => r.2.taskId == id)).map Prod.snd

/-- The rows of `task_attempts` of one task, with their keys, in id order. -/
def Database.attemptsOf (db : Database) (id : TaskId) : List (Nat × TaskAttempt) :=
  db.attempts.select (fun r => r.2.taskId == id)

/-- The outbox rows of one task. -/
def Database.outboxOf (db : Database) (id : TaskId) : List (Nat × OutboxEvent) :=
  db.outbox.select (fun r => r.2.payload.taskId == id)

/-- `_children_of` -/
def Database.childrenOf (db : Database) (id : TaskId) : List TaskId :=
  (db.deps.filter (fun d => d.parentTaskId == id)).map (·.childTaskId)

def Database.parentsOf (db : Database) (id : TaskId) : List TaskId :=
  (db.deps.filter (fun d => d.childTaskId == id)).map (·.parentTaskId)

theorem Database.mem_childrenOf (db : Database) (p c : TaskId) :
    c ∈ db.childrenOf p ↔ ⟨p, c⟩ ∈ db.deps := by
  simp only [childrenOf, List.mem_map, List.mem_filter, beq_iff_eq]
  constructor
  · rintro ⟨⟨q, d⟩, ⟨hm, hq⟩, hd⟩
    simp only at hq hd
    rw [← hq, ← hd]
    exact hm
  · intro h
    exact ⟨⟨p, c⟩, ⟨h, rfl⟩, rfl⟩

theorem Database.mem_parentsOf (db : Database) (p c : TaskId) :
    p ∈ db.parentsOf c ↔ ⟨p, c⟩ ∈ db.deps := by
  simp only [parentsOf, List.mem_map, List.mem_filter, beq_iff_eq]
  constructor
  · rintro ⟨⟨q, d⟩, ⟨hm, hd⟩, hq⟩
    simp only at hq hd
    rw [← hq, ← hd]
    exact hm
  · intro h
    exact ⟨⟨p, c⟩, ⟨h, rfl⟩, rfl⟩

end TaskPlatform
