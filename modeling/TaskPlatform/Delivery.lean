import TaskPlatform.Platform

/-!
# The outbox relay and the broker

`services/outbox.py` and the message handling of `worker/main.py`, over the
platform. The broker keeps a published message until it is acknowledged, and
gives an unacknowledged one to any worker, also more than once. A relay or a
worker can crash between any two steps.
-/

namespace TaskPlatform

abbrev RelayId := Nat

/-- How `exchange.publish` ended; one that raised can have reached the broker or not. -/
inductive PublishOutcome where
  | sent (now : Time)
  | failed (arrived : Bool) (error : String)
  deriving DecidableEq, Repr

def PublishOutcome.arrived : PublishOutcome → Bool
  | .sent _ => true
  | .failed arrived _ => arrived

/-- What `publish_pending_events` assigns after publishing one event. -/
def PublishOutcome.apply (outbox : OutboxEvent) : PublishOutcome → OutboxEvent
  | .sent now => { outbox with
      status := .sent
      processedAt := some now
      lastError := none
      attempts := outbox.attempts + 1 }
  | .failed _ error => { outbox with
      attempts := outbox.attempts + 1
      lastError := some (String.ofList (error.toList.take 1000)) }

/-- The `UPDATE` of a flush writes the columns that were assigned. -/
def OutboxEvent.merge (loaded cur row : OutboxEvent) : OutboxEvent where
  routingKey := mergeColumn loaded.routingKey cur.routingKey row.routingKey
  payload := mergeColumn loaded.payload cur.payload row.payload
  status := mergeColumn loaded.status cur.status row.status
  attempts := mergeColumn loaded.attempts cur.attempts row.attempts
  processedAt := mergeColumn loaded.processedAt cur.processedAt row.processedAt
  lastError := mergeColumn loaded.lastError cur.lastError row.lastError

/-- A call of `publish_pending_events`: the events it has still to publish, and how the others
ended. -/
structure Relay where
  events : List (Nat × OutboxEvent)
  done : List (Nat × OutboxEvent × PublishOutcome)

def flushOutbox (db : Database) (id : Nat) (loaded cur : OutboxEvent) :
    Except TaskError Database :=
  match db.outbox.get id with
  | none => .error .staleData
  | some _ => .ok { db with outbox := db.outbox.modify id (OutboxEvent.merge loaded cur) }

/-- The flush of `session.commit()` at the end of `publish_pending_events`. -/
def flushRelay (db : Database) (done : List (Nat × OutboxEvent × PublishOutcome)) :
    Except TaskError Database :=
  done.foldlM (fun db e => flushOutbox db e.1 e.2.1 (e.2.2.apply e.2.1)) db

/-- Where `handle_message` stands. -/
inductive Phase where
  | received | denied | working | recorded
  deriving DecidableEq, Repr

structure Handling where
  message : Nat
  taskId : TaskId
  phase : Phase
  deriving DecidableEq, Repr

/-- The platform with its relays and its broker; `messages` are the unacknowledged ones, and
`published` records the outbox rows whose message reached the broker. -/
structure Bus where
  platform : Platform
  relays : RelayId → Option Relay
  messages : Table OutboxPayload
  handling : WorkerId → Option Handling
  published : List Nat

def Bus.initial : Bus := ⟨.initial, fun _ => none, .empty, fun _ => none, []⟩

/-- How the execution of a task ended. -/
inductive Execution where
  | success (result : Json)
  | failure (error : String) (retryable : Bool)
  deriving DecidableEq, Repr

def Execution.action (now : Time) (w : WorkerId) : Execution → Action
  | .success result => .recordSuccess now w result
  | .failure error retryable => .recordFailure now w error retryable

inductive Event where
  | act (a : Action)
  | relayRead (r : RelayId) (limit : Nat)
  | relayPublish (r : RelayId) (o : PublishOutcome)
  | relayCommit (r : RelayId)
  | relayCrash (r : RelayId)
  | deliver (w : WorkerId) (message : Nat)
  | start (now : Time) (w : WorkerId)
  | finish (now : Time) (w : WorkerId) (execution : Execution)
  | ack (w : WorkerId)
  | crash (w : WorkerId)

/-- The steps of a worker itself, which it takes only with a message. -/
def Action.byWorker : Action → Bool
  | .start _ _ _ | .recordSuccess _ _ _ | .recordFailure _ _ _ _ | .crash _ => true
  | _ => false

namespace Bus

def setRelay (b : Bus) (r : RelayId) (relay : Option Relay) : Bus :=
  { b with relays := Function.update b.relays r relay }

def setHandling (b : Bus) (w : WorkerId) (h : Option Handling) : Bus :=
  { b with handling := Function.update b.handling w h }

/-- The query of `publish_pending_events`. -/
def relayRead (r : RelayId) (limit : Nat) (b : Bus) : Bus :=
  match b.relays r with
  | some _ => b
  | none =>
    match (b.platform.db.outbox.select (fun e => e.2.status == .pending)).take limit with
    | [] => b
    | events => b.setRelay r (some ⟨events, []⟩)

/-- One turn of the loop of `publish_pending_events`. -/
def relayPublish (r : RelayId) (o : PublishOutcome) (b : Bus) : Bus :=
  match b.relays r with
  | some ⟨(id, outbox) :: events, done⟩ =>
    { b.setRelay r (some ⟨events, done ++ [(id, outbox, o)]⟩) with
      messages := if o.arrived then b.messages.insert outbox.payload else b.messages
      published := if o.arrived then id :: b.published else b.published }
  | _ => b

def relayCommit (r : RelayId) (b : Bus) : Bus :=
  match b.relays r with
  | some ⟨[], done⟩ =>
    { b.setRelay r none with
      platform := { b.platform with db := commit b.platform.db (flushRelay b.platform.db done) } }
  | _ => b

/-- The broker hands a message to a worker that handles none. -/
def deliver (w : WorkerId) (message : Nat) (b : Bus) : Bus :=
  match b.handling w, b.messages.get message with
  | none, some payload => b.setHandling w (some ⟨message, payload.taskId, .received⟩)
  | _, _ => b

/-- The first transaction of `handle_message`. An exception of it would drop the message; no run
with one is looked at. -/
def start (cfg : Settings) (now : Time) (w : WorkerId) (b : Bus) : Bus :=
  match b.handling w with
  | some ⟨message, id, .received⟩ =>
    match startTask cfg now b.platform.db w id with
    | .error _ => b
    | .ok none => b.setHandling w (some ⟨message, id, .denied⟩)
    | .ok (some _) =>
      { b.setHandling w (some ⟨message, id, .working⟩) with
        platform := b.platform.step cfg (.start now w id) }
  | _ => b

/-- The second transaction of `handle_message`. -/
def finish (cfg : Settings) (now : Time) (w : WorkerId) (execution : Execution) (b : Bus) : Bus :=
  match b.handling w with
  | some ⟨message, id, .working⟩ =>
    { b.setHandling w (some ⟨message, id, .recorded⟩) with
      platform := b.platform.step cfg (execution.action now w) }
  | _ => b

/-- `message.ack()` after a denied lease or a recorded outcome. -/
def ack (w : WorkerId) (b : Bus) : Bus :=
  match b.handling w with
  | some ⟨message, _, .denied⟩ | some ⟨message, _, .recorded⟩ =>
    { b.setHandling w none with messages := b.messages.erase (fun r => r.1 == message) }
  | _ => b

def step (cfg : Settings) (b : Bus) : Event → Bus
  | .act a => if a.byWorker then b else { b with platform := b.platform.step cfg a }
  | .relayRead r limit => b.relayRead r limit
  | .relayPublish r o => b.relayPublish r o
  | .relayCommit r => b.relayCommit r
  | .relayCrash r => b.setRelay r none
  | .deliver w message => b.deliver w message
  | .start now w => b.start cfg now w
  | .finish now w execution => b.finish cfg now w execution
  | .ack w => b.ack w
  | .crash w => { b.setHandling w none with platform := b.platform.step cfg (.crash w) }

def after (cfg : Settings) (events : List Event) : Bus := Run.run (Bus.step cfg) Bus.initial events

end Bus

end TaskPlatform
