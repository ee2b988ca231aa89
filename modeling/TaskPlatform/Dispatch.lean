import TaskPlatform.Lib.Retry
import TaskPlatform.Webhooks

/-!
# The webhook dispatcher

`dispatch_due` of `services/webhooks.py`. A tick takes the pending deliveries that are due, POSTs each of
them to its subscription and writes down how that ended; it is one transaction. Between the ticks the
platform queues deliveries, and its operators put, switch off and delete subscriptions.
-/

namespace TaskPlatform

open Run

/-- The settings of the dispatcher. -/
structure WebhookSettings where
  webhookMaxAttempts : Nat
  webhookRetryBackoffSeconds : ℚ

/-- The defaults of `core/config.py`. -/
def WebhookSettings.default : WebhookSettings := ⟨5, 60⟩

/-- What `send_now` answers, without the HTTP status, which the dispatcher does not read. -/
structure Sent where
  ok : Bool
  error : String
  deriving DecidableEq, Repr

/-- A POST that a tick made; `now` is the time that the tick started. -/
structure Post where
  deliveryId : Nat
  now : Time
  ok : Bool
  deriving DecidableEq, Repr

/-- The platform, and the POSTs that its dispatcher has made so far. -/
structure Dispatcher where
  platform : Platform
  posts : List Post

def Dispatcher.initial : Dispatcher := ⟨Platform.initial, []⟩

def Dispatcher.delivery (s : Dispatcher) (id : Nat) : Option WebhookDelivery :=
  s.platform.db.deliveries.get id

def Dispatcher.postsOf (s : Dispatcher) (id : Nat) : List Post :=
  s.posts.filter (·.deliveryId == id)

/-- `_retry_delay` -/
def retryDelay (ws : WebhookSettings) (attemptsSoFar : Nat) : Time :=
  timedelta (ws.webhookRetryBackoffSeconds * 2 ^ ((attemptsSoFar : ℤ) - 1))

def subscriptionGoneMessage : String := "Підписку видалено або деактивовано"

/-- A delivery without an active subscription. -/
def WebhookDelivery.abandoned (delivery : WebhookDelivery) : WebhookDelivery :=
  { delivery with status := .failed, lastError := some subscriptionGoneMessage }

/-- A delivery after its POST. -/
def WebhookDelivery.answered (ws : WebhookSettings) (now : Time) (sent : Sent)
    (delivery : WebhookDelivery) : WebhookDelivery :=
  if sent.ok then { delivery with status := .sent, lastError := none }
  else
    let attempts := delivery.attempts + 1
    let lastError := some (String.ofList (sent.error.toList.take 1000))
    if ws.webhookMaxAttempts ≤ attempts then
      { delivery with attempts := attempts, lastError := lastError, status := .failed }
    else
      { delivery with
        attempts := attempts
        lastError := lastError
        nextRetryAt := now + retryDelay ws attempts }

/-- `sub is not None and sub.is_active` -/
def hasSubscription (db : Database) (delivery : WebhookDelivery) : Bool :=
  (db.subscriptions.get delivery.subscriptionId).any (·.isActive)

def Dispatcher.setDelivery (s : Dispatcher) (id : Nat) (delivery : WebhookDelivery) : Dispatcher :=
  { s with
    platform := { s.platform with
      db := { s.platform.db with
        deliveries := s.platform.db.deliveries.modify id (fun _ => delivery) } } }

/-- One turn of the loop of `dispatch_due`; `send` says how the POST of a delivery ends. -/
def dispatchTurn (ws : WebhookSettings) (now : Time) (send : Nat → Sent) (s : Dispatcher)
    (r : Nat × WebhookDelivery) : Dispatcher :=
  if hasSubscription s.platform.db r.2 then
    { s.setDelivery r.1 (r.2.answered ws now (send r.1)) with
      posts := s.posts ++ [⟨r.1, now, (send r.1).ok⟩] }
  else s.setDelivery r.1 r.2.abandoned

/-- The condition of `dispatch_due`. -/
def isDeliverable (now : Time) (delivery : WebhookDelivery) : Bool :=
  delivery.status == .pending && delivery.nextRetryAt ≤ now

/-- The deliveries that a tick takes with `SKIP LOCKED`. -/
def dueDeliveries (now : Time) (limit : Nat) (locked : Nat → Bool) (db : Database) :
    List (Nat × WebhookDelivery) :=
  (db.deliveries.select fun r => isDeliverable now r.2 && !locked r.1).take limit

/-- `dispatch_due` -/
def dispatchDue (ws : WebhookSettings) (now : Time) (limit : Nat) (locked : Nat → Bool)
    (send : Nat → Sent) (s : Dispatcher) : Dispatcher :=
  (dueDeliveries now limit locked s.platform.db).foldl (dispatchTurn ws now send) s

inductive DispatcherAction where
  | run (a : Action)
  | dispatchDue (now : Time) (limit : Nat) (locked : Nat → Bool) (send : Nat → Sent)

/-- The time of a tick. -/
def DispatcherAction.tick : DispatcherAction → Option Time
  | .run _ => none
  | .dispatchDue now _ _ _ => some now

def Dispatcher.step (cfg : Settings) (ws : WebhookSettings) (s : Dispatcher) :
    DispatcherAction → Dispatcher
  | .run a => { s with platform := s.platform.step cfg a }
  | .dispatchDue now limit locked send => TaskPlatform.dispatchDue ws now limit locked send s

def Dispatcher.after (cfg : Settings) (ws : WebhookSettings) (acts : List DispatcherAction) :
    Dispatcher :=
  Run.run (Dispatcher.step cfg ws) Dispatcher.initial acts

/-- Deliveries stay as they are, or are deleted, or are new. -/
structure Queues (db db' : Database) : Prop where
  next : db.deliveries.next ≤ db'.deliveries.next
  rows : ∀ id delivery, db'.deliveries.get id = some delivery →
    db.deliveries.get id = some delivery ∨
      db.deliveries.next ≤ id ∧ delivery.status = .pending ∧ delivery.attempts = 0

theorem Queues.of_same {db db' : Database} (h : db'.deliveries = db.deliveries) :
    Queues db db' := by
  refine ⟨by rw [h], fun id delivery hget => ?_⟩
  rw [h] at hget
  exact .inl hget

theorem Queues.trans {db₁ db₂ db₃ : Database} (h₁ : Queues db₁ db₂) (h₂ : Queues db₂ db₃) :
    Queues db₁ db₃ := by
  refine ⟨h₁.next.trans h₂.next, fun id delivery hget => ?_⟩
  obtain hold | ⟨hid, hnew⟩ := h₂.rows id delivery hget
  · exact h₁.rows id delivery hold
  · exact .inr ⟨h₁.next.trans hid, hnew⟩

/-- `enqueue_for` only adds pending deliveries. -/
theorem Queues.enqueueFor (now : Time) (db : Database) (eventType : EventType) (id : TaskId)
    (task : Task) : Queues db (enqueueFor now db eventType id task) := by
  simp only [TaskPlatform.enqueueFor]
  generalize db.subscriptions.select (fun r => r.2.isActive && r.2.matches eventType) = subs
  induction subs generalizing db with
  | nil => exact .of_same rfl
  | cons sub subs ih =>
    let db₁ : Database := { db with
      deliveries := db.deliveries.insert
        (newDelivery now eventType id task sub.1 db.deliveries.next) }
    have hfirst : Queues db db₁ := by
      refine ⟨Nat.le_succ _, fun i delivery hget => ?_⟩
      rw [Table.get_insert] at hget
      split at hget
      · rename_i hi
        cases hget
        exact .inr ⟨hi.ge, rfl, rfl⟩
      · exact .inl hget
    exact hfirst.trans (ih db₁)

theorem queues_footprint (now : Time) : Footprint now Queues where
  refl _ := .of_same rfl
  trans h₁ h₂ := h₁.trans h₂
  flush h := by
    obtain ⟨-, tasks, rfl⟩ := flush_tables h
    exact .of_same rfl
  change := by
    intro db db₁ task task₁ cur eventType new details h
    obtain ⟨-, tasks, rfl⟩ := flush_tables h
    have hevent : Queues db { recordEvent now db task.id task.cur.status eventType new details with
        tasks := tasks } := .of_same rfl
    exact hevent.trans (.enqueueFor now _ eventType task₁.id task₁.cur)
  outbox _ _ _ _ _ := .of_same rfl
  attempts _ _ := .of_same rfl
  workers _ _ := .of_same rfl

theorem createTask_queues {cfg : Settings} {now : Time} {db db' : Database} {spec : TaskSpec}
    {id : TaskId} (h : createTask cfg now db spec = .ok (db', id)) : Queues db db' := by
  have hinsert : Queues db (insertTask cfg now db spec) := .of_same rfl
  obtain ⟨-, hrest⟩ | ⟨p, ps, deps, -, rfl⟩ := (queues_footprint now).createTask h
  · exact hinsert.trans hrest
  · exact .of_same rfl

theorem startTask_queues {cfg : Settings} {now : Time} {db db' : Database} {w : WorkerId}
    {id : TaskId} {held : Held} (h : startTask cfg now db w id = .ok (some (db', held))) :
    Queues db db' := by
  obtain ⟨row, db₁, number, -, hrest, rfl⟩ := (queues_footprint now).startTask h
  have hleased : Queues db (db.setTask id (leased now w cfg.taskLeaseSeconds row)) := .of_same rfl
  exact (hleased.trans hrest).trans (.of_same rfl)

theorem purgeOldData_queues (cfg : Settings) (now : Time) (limit : Option Nat) (db : Database) :
    Queues db (purgeOldData cfg now limit db) := by
  refine purgeOldData_keeps (fun db => .of_same rfl) (fun h₁ h₂ => h₁.trans h₂)
    (fun db ids _ => .of_same rfl) (fun n db => ?_) (fun n db => ?_) limit db
  · obtain ⟨outbox, he⟩ := purgeOutbox_eq cfg now n db
    rw [he]
    exact .of_same rfl
  · obtain ⟨auditLogs, he⟩ := purgeAudit_eq cfg now n db
    rw [he]
    exact .of_same rfl

/-- A deleted subscription takes its deliveries with it. -/
theorem deleteWebhook_queues (webhookId : Nat) (db : Database) :
    Queues db (deleteWebhook webhookId db) := by
  refine ⟨le_rfl, fun id delivery hget => ?_⟩
  rw [deleteWebhook, Table.get_erase, Option.filter_eq_some_iff] at hget
  exact .inl hget.1

theorem step_queues (cfg : Settings) (p : Platform) (a : Action) :
    Queues p.db (p.step cfg a).db := by
  have hR := queues_footprint
  cases a with
  | createTask now spec =>
    refine commitCreated_of (P := Queues p.db) (.of_same rfl) fun db' i hcreate => ?_
    exact createTask_queues hcreate
  | manualRetry now i => exact (hR now).commitFound fun _ => (hR now).manualRetry
  | cancelTask now i => exact (hR now).commitFound fun _ => (hR now).cancelTask
  | bulkRetry now ids =>
    refine (hR now).commit fun db' hok => ?_
    obtain ⟨r, hbulk, rfl⟩ := map_ok hok
    exact (hR now).bulk (fun _ _ _ => (hR now).manualRetry) hbulk
  | bulkCancel now ids =>
    refine (hR now).commit fun db' hok => ?_
    obtain ⟨r, hbulk, rfl⟩ := map_ok hok
    exact (hR now).bulk (fun _ _ _ => (hR now).cancelTask) hbulk
  | start now w i =>
    simp only [Platform.step, startStep]
    split
    · exact .of_same rfl
    · split
      · rename_i db held hstart
        exact startTask_queues hstart
      · exact .of_same rfl
  | renewLease now w i =>
    simp only [Platform.step, renewLease]
    split
    · exact .of_same rfl
    · split <;> exact .of_same rfl
  | recordSuccess now w result => exact (hR now).finishStep fun held db' => (hR now).recordSuccess
  | recordFailure now w error retryable =>
    exact (hR now).finishStep fun held db' => (hR now).recordFailure
  | requeueOrphaned now limit locked => exact (hR now).commit fun _ => (hR now).requeueOrphaned
  | requeueDue now limit locked => exact (hR now).commit fun _ => (hR now).requeueDueTasks
  | requeueDlq now limit locked => exact (hR now).commit fun _ => (hR now).requeueDlqTasks
  | recoverStuck now limit locked => exact (hR now).commit fun _ => (hR now).recoverStuckTasks
  | purgeOldData now limit => exact purgeOldData_queues cfg now limit p.db
  | heartbeat now w =>
    simp only [Platform.step, heartbeat]
    split <;> exact .of_same rfl
  | audit now action => exact .of_same rfl
  | crash w => exact .of_same rfl
  | putWebhook i sub =>
    simp only [Platform.step, putWebhook]
    split <;> exact .of_same rfl
  | deleteWebhook i => exact deleteWebhook_queues i p.db

end TaskPlatform
