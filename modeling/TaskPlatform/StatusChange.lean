import TaskPlatform.Session

/-!
# Changing a status

`set_status` of `services/tasks.py` with what it calls: the webhook outbox of
`services/webhooks.py` and the DAG cascade of `services/dependencies.py`. The
source's recursion `set_status → _after_status_change → advance_children →
set_status` is open here: each function takes the `set_status` that it calls,
and `setStatusFuel` ties the knot for a stack of a given depth.
-/

namespace TaskPlatform

/-- The attributes that `set_status` assigns before it flushes. -/
def setStatusFields (now : Time) (task : Task) (new : Status) : Task :=
  let task := if new ∈ terminal ∧ task.finishedAt = none then { task with finishedAt := some now }
    else task
  let task := if new = .running ∧ task.startedAt = none then { task with startedAt := some now }
    else task
  let task := if new = .queued then { task with finishedAt := none, scheduledAt := none }
    else task
  let task := if task.status = .running ∧ new ≠ .running then
      { task with leaseOwner := none, leaseExpiresAt := none }
    else task
  { task with status := new }

/-- `_matches` -/
def WebhookSubscription.matches (sub : WebhookSubscription) (eventType : EventType) : Bool :=
  decide ("*" ∈ sub.events) || decide (eventType.value ∈ sub.events)

/-- The delivery that `enqueue_for` writes for one subscription under the key `deliveryId`. -/
def newDelivery (now : Time) (eventType : EventType) (id : TaskId) (task : Task)
    (subscriptionId deliveryId : Nat) : WebhookDelivery where
  subscriptionId := subscriptionId
  eventType := eventType
  taskId := id
  payload := ⟨eventType, subscriptionId, deliveryId, now, id, task.taskType, task.status,
    task.priority, task.attempts⟩
  status := .pending
  attempts := 0
  nextRetryAt := now
  lastError := none

/-- `enqueue_for`: one pending delivery for each active subscription that matches. -/
def enqueueFor (now : Time) (db : Database) (eventType : EventType) (id : TaskId) (task : Task) :
    Database :=
  let subs := db.subscriptions.select (fun r => r.2.isActive && r.2.matches eventType)
  let enqueue := fun (t : Table WebhookDelivery) (sub : Nat × WebhookSubscription) =>
    t.insert (newDelivery now eventType id task sub.1 t.next)
  { db with deliveries := subs.foldl enqueue db.deliveries }

/-- `_all_parents_succeeded` -/
def allParentsSucceeded (db : Database) (childId : TaskId) : Bool :=
  let parentIds := db.parentsOf childId
  if parentIds.isEmpty then true
  else
    let statuses := (parentIds.filterMap (fun p => (db.tasks.get p).map (·.status))).eraseDups
    statuses.length == 1 && statuses.contains .success

abbrev SetStatus := Database → Instance → Status → EventType → Option Details →
  Except TaskError (Database × Instance)

/-- `_unblock` -/
def unblock (setStatus : SetStatus) (cfg : Settings) (db : Database) (child : Instance)
    (byTaskId : TaskId) : Except TaskError Database := do
  let (db, child) ← setStatus db child .queued .unblocked (some (.unblockedBy byTaskId))
  return addOutbox cfg db child.id child.cur false

/-- `_cancel_blocked`; an invalid transition is logged and passed over. -/
def cancelBlocked (setStatus : SetStatus) (db : Database) (child : Instance)
    (parentId : TaskId) (parentStatus : Status) : Except TaskError Database :=
  match setStatus db child .cancelled .cancelled (some (.parentTerminal parentId parentStatus)) with
  | .ok (db, _) => .ok db
  | .error (.invalidTransition _) => .ok db
  | .error e => .error e

/-- The body of the loop of `advance_children` for one child. -/
def advanceChild (setStatus : SetStatus) (cfg : Settings) (taskId : TaskId) (status : Status)
    (db : Database) (childId : TaskId) : Except TaskError Database :=
  match db.tasks.get childId with
  | none => .ok db
  | some child =>
    if child.status ≠ .created then .ok db
    else if status = .success then
      if allParentsSucceeded db childId then
        unblock setStatus cfg db (Instance.fresh childId child) taskId
      else .ok db
    else cancelBlocked setStatus db (Instance.fresh childId child) taskId status

/-- `advance_children` -/
def advanceChildren (setStatus : SetStatus) (cfg : Settings) (db : Database) (taskId : TaskId)
    (status : Status) : Except TaskError Database :=
  (db.childrenOf taskId).foldlM (advanceChild setStatus cfg taskId status) db

/-- `_after_status_change` -/
def afterStatusChange (setStatus : SetStatus) (cfg : Settings) (now : Time) (db : Database)
    (task : Instance) (eventType : EventType) (new : Status) : Except TaskError Database :=
  let db := enqueueFor now db eventType task.id task.cur
  if new ∈ terminal then advanceChildren setStatus cfg db task.id task.cur.status else .ok db

/-- The message of `InvalidTransitionError`. -/
def invalidTransitionMessage (id : TaskId) (old new : Status) : String :=
  "Перехід '" ++ old.value ++ "' -> '" ++ new.value ++ "' заборонений для задачі " ++ toString id

/-- The body of `set_status`. -/
def setStatusBody (setStatus : SetStatus) (cfg : Settings) (now : Time) : SetStatus :=
  fun db task new eventType details =>
    if task.cur.status = new then .ok (db, task)
    else if ¬ canTransition task.cur.status new then
      .error (.invalidTransition (invalidTransitionMessage task.id task.cur.status new))
    else do
      let db := recordEvent now db task.id task.cur.status eventType new details
      let (db, task) ← flush now db { task with cur := setStatusFields now task.cur new }
      let db ← afterStatusChange setStatus cfg now db task eventType new
      return (db, task)

/-- `set_status` where the interpreter's stack has room for so many nested calls of it, each with
four frames. The call beyond them raises `RecursionError`, which nothing on the way catches. -/
def setStatusFuel (cfg : Settings) (now : Time) : Nat → SetStatus
  | 0 => fun _ _ _ _ _ => .error .recursion
  | fuel + 1 => setStatusBody (setStatusFuel cfg now fuel) cfg now

/-- `set_status` where the stack has room for the whole cascade: every level takes one task out of
`created`, so the number of tasks bounds the depth. -/
def setStatus (cfg : Settings) (now : Time) : SetStatus := fun db =>
  setStatusFuel cfg now (db.tasks.rows.length + 1) db

end TaskPlatform
