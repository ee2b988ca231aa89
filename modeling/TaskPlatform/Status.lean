import Mathlib

/-!
# Task statuses and their transitions

The tables of `services/tasks.py` and the vocabularies of `models/task.py` and
`models/event.py`. Python keeps these as strings; `value` gives the string.
-/

namespace TaskPlatform

inductive Status where
  | created | queued | running | retryScheduled | scheduled
  | success | failed | cancelled | deadLetter | timeout
  deriving DecidableEq, Repr

def Status.value : Status → String
  | .created => "created"
  | .queued => "queued"
  | .running => "running"
  | .retryScheduled => "retry_scheduled"
  | .scheduled => "scheduled"
  | .success => "success"
  | .failed => "failed"
  | .cancelled => "cancelled"
  | .deadLetter => "dead_letter"
  | .timeout => "timeout"

/-- `VALID_TRANSITIONS`; a status without an entry has no successor. -/
def validTransitions : Status → List Status
  | .created => [.queued, .scheduled, .cancelled]
  | .queued => [.running, .cancelled]
  | .running => [.success, .failed, .retryScheduled, .cancelled, .deadLetter, .queued]
  | .retryScheduled => [.queued, .cancelled]
  | .scheduled => [.queued, .cancelled]
  | .failed => [.queued]
  | .cancelled => [.queued]
  | .deadLetter => [.queued]
  | .success => []
  | .timeout => []

def canTransition (old new : Status) : Bool := decide (new ∈ validTransitions old)

/-- `TERMINAL` -/
def terminal : List Status := [.success, .failed, .cancelled, .deadLetter]
/-- `CANCELABLE` -/
def cancelable : List Status := [.created, .queued, .running, .retryScheduled, .scheduled]
/-- `RETRYABLE` -/
def retryable : List Status := [.failed, .cancelled, .deadLetter]
/-- `DUE_STATUSES` -/
def dueStatuses : List Status := [.retryScheduled, .scheduled]
/-- `STUCK_STATUSES` -/
def stuckStatuses : List Status := [.queued, .running]

inductive EventType where
  | created | queued | scheduled | invalidated | running | attemptStarted | attemptFailed
  | succeeded | failed | cancelled | retried | retryScheduled | requeued | deadLettered
  | dlqRequeued | blocked | unblocked
  deriving DecidableEq, Repr

def EventType.value : EventType → String
  | .created => "task.created"
  | .queued => "task.queued"
  | .scheduled => "task.scheduled"
  | .invalidated => "task.invalidated"
  | .running => "task.running"
  | .attemptStarted => "task.attempt_started"
  | .attemptFailed => "task.attempt_failed"
  | .succeeded => "task.succeeded"
  | .failed => "task.failed"
  | .cancelled => "task.cancelled"
  | .retried => "task.retried"
  | .retryScheduled => "task.retry_scheduled"
  | .requeued => "task.requeued"
  | .deadLettered => "task.dead_lettered"
  | .dlqRequeued => "task.dlq_requeued"
  | .blocked => "task.blocked"
  | .unblocked => "task.unblocked"

inductive Priority where
  | critical | high | normal | low
  deriving DecidableEq, Repr

/-- No transition leaves a status for itself. -/
theorem canTransition_ne {old new : Status} (h : canTransition old new = true) : old ≠ new := by
  cases old <;> cases new <;> simp_all [canTransition, validTransitions]

/-- A task that succeeded cannot be moved. -/
theorem canTransition_success (new : Status) : canTransition .success new = false := rfl

/-- Nothing returns to `created`. -/
theorem canTransition_created (old : Status) : canTransition old .created = false := by
  cases old <;> rfl

/-- A terminal status is left for the queue only. -/
theorem canTransition_terminal {old new : Status} (h : canTransition old new = true)
    (hold : old ∈ terminal) : new = .queued := by
  cases old <;> simp_all [canTransition, validTransitions, terminal]

/-- Cancellation is allowed from exactly the cancelable statuses. -/
theorem canTransition_cancelled (old : Status) :
    canTransition old .cancelled = true ↔ old ∈ cancelable := by
  cases old <;> simp [canTransition, validTransitions, cancelable]

/-- An operator's retry is allowed from every retryable status. -/
theorem canTransition_retry {old : Status} (h : old ∈ retryable) :
    canTransition old .queued = true := by
  cases old <;> simp_all [canTransition, validTransitions, retryable]

end TaskPlatform
