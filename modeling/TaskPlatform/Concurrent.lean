import TaskPlatform.Lib.Interleave
import TaskPlatform.Fencing

/-!
# Status changes statement by statement

The transactions that change the status of one task, cut where PostgreSQL can run
another one in between: the statement that reads the task, with the guard after
it; the `UPDATE` by primary key, which goes through the object that was read; and
the commit. The operator's actions and the worker's outcome read without a lock,
the coordinator with `FOR UPDATE SKIP LOCKED`; of its loop this is the turn of the
task. What a transaction does after its `UPDATE` is written at its commit, since
until then it has the row lock.
-/

namespace TaskPlatform

open Interleave

/-- The task, if the reading statement or the guard after it accepts its row. -/
def readTask (db : Database) (id : TaskId) (cond : Task → Bool) : Option Task :=
  (db.tasks.get id).filter cond

/-- The two actions of an operator. -/
inductive Operator where
  | cancel (now : Time)
  | retry (now : Time)

/-- The transactions that can run beside one of an operator. -/
inductive Rival where
  | operator (o : Operator)
  | success (now : Time) (held : Held) (result : Json)
  | failure (now : Time) (held : Held) (error : String) (retryable : Bool)
  | due (now : Time)
  | dlq (now : Time)
  | recover (now : Time)

def Operator.transaction (cfg : Settings) (id : TaskId) : Operator → Transaction Database Task
  | .cancel now => {
      locks := false
      read := fun db => readTask db id (fun row => decide (row.status ∈ cancelable))
      write := fun db row => commit db
        ((setStatus cfg now db (Instance.fresh id row) .cancelled .cancelled none).map Prod.fst)
      refuse := fun db => db }
  | .retry now => {
      locks := false
      read := fun db => readTask db id (fun row => decide (row.status ∈ retryable))
      write := fun db row => commit db
        ((setStatus cfg now db (Instance.fresh id row) .queued .retried
          (some (.attemptsSoFar row.attempts))).map
            (fun r => addOutbox cfg r.1 id r.2.cur true))
      refuse := fun db => db }

def Rival.transaction (cfg : Settings) (id : TaskId) : Rival → Transaction Database Task
  | .operator o => o.transaction cfg id
  | .success now held result => {
      locks := false
      read := fun db => readTask db id (fun row => row.status == .running)
      write := fun db _ => commit db
        (closeSuccess now db held result >>= fun db => finishSuccess cfg now db held result)
      refuse := fun db => commit db (closeSuccess now db held result) }
  | .failure now held error retryable => {
      locks := false
      read := fun db => readTask db id (fun row => row.status == .running)
      write := fun db _ => commit db
        (closeFailure now db held error >>= fun db => finishFailure cfg now db held error retryable)
      refuse := fun db => commit db (closeFailure now db held error) }
  | .due now => {
      locks := true
      read := fun db => readTask db id (isDue now)
      write := fun db row => commit db (requeueDue cfg now db (id, row))
      refuse := fun db => db }
  | .dlq now => {
      locks := true
      read := fun db => if cfg.dlqRetryEnabled then readTask db id (isDlqDue cfg now) else none
      write := fun db row => commit db (requeueDlq cfg now db (id, row))
      refuse := fun db => db }
  | .recover now => {
      locks := true
      read := fun db => readTask db id (isStuck now)
      write := fun db row => commit db (recoverStuck cfg now db (id, row))
      refuse := fun db => db }

/-- The operator's action on the left, the other transaction on the right. -/
def pair (cfg : Settings) (id : TaskId) (o : Operator) (r : Rival) :
    Side → Transaction Database Task
  | .left => o.transaction cfg id
  | .right => r.transaction cfg id

/-- An outcome is recorded by a worker that holds the task. -/
def Rival.Of (p : Platform) (id : TaskId) : Rival → Prop
  | .success _ held _ => ∃ w, p.holding w = some held ∧ held.task.id = id
  | .failure _ held _ _ => ∃ w, p.holding w = some held ∧ held.task.id = id
  | _ => True

def Operator.action (id : TaskId) : Operator → Action
  | .cancel now => .cancelTask now id
  | .retry now => .manualRetry now id

theorem readTask_some {db : Database} {id : TaskId} {cond : Task → Bool} {row : Task} :
    readTask db id cond = some row ↔ db.tasks.get id = some row ∧ cond row = true := by
  rw [readTask, Option.filter_eq_some_iff]

theorem Operator.alone_step (cfg : Settings) (id : TaskId) (o : Operator) (p : Platform) :
    (o.transaction cfg id).alone p.db = (p.step cfg (o.action id)).db := by
  cases o with
  | cancel now =>
    simp only [Transaction.alone, transaction, action, Platform.step, cancelTask,
      cancelTaskBody, readTask]
    cases hget : p.db.tasks.get id with
    | none => rfl
    | some row =>
      by_cases hs : row.status ∈ cancelable
      · simp only [Option.filter, hs, decide_true, if_true, not_true_eq_false, if_false,
          Transaction.finish]
        cases setStatus cfg now p.db (Instance.fresh id row) .cancelled .cancelled none <;> rfl
      · simp only [Option.filter, hs, decide_false, Bool.false_eq_true, if_false,
          not_false_eq_true, if_true, Transaction.finish]
        rfl
  | retry now =>
    simp only [Transaction.alone, transaction, action, Platform.step, manualRetry, readTask]
    cases hget : p.db.tasks.get id with
    | none => rfl
    | some row =>
      by_cases hs : row.status ∈ retryable
      · simp only [Option.filter, hs, decide_true, if_true, not_true_eq_false, if_false,
          Transaction.finish]
        cases setStatus cfg now p.db (Instance.fresh id row) .queued .retried
          (some (.attemptsSoFar row.attempts)) <;> rfl
      · simp only [Option.filter, hs, decide_false, Bool.false_eq_true, if_false,
          not_false_eq_true, if_true, Transaction.finish]
        rfl

/-- The answer of `_still_running` is the guard of the read. -/
theorem readTask_running (db : Database) (id : TaskId) :
    (readTask db id (fun row => row.status == .running)).isSome = stillRunning db id := by
  unfold readTask stillRunning
  cases db.tasks.get id with
  | none => rfl
  | some row => cases hs : row.status == .running <;> simp [Option.filter, hs]

/-- A transaction that looks at the task before it closes the attempt does what one does that looks
after it. -/
theorem alone_close {t : Transaction Database Task} {db : Database} {held : Held}
    {cur : TaskAttempt} {close : Except TaskError Database}
    {finish : Database → Except TaskError Database}
    (hclose : ∀ db', close = .ok db' → db' = closeHeld db held.attemptId held.attempt cur)
    (hread : t.read db = readTask db held.task.id (fun row => row.status == .running))
    (hwrite : ∀ row, t.write db row = commit db (close >>= finish))
    (hrefuse : t.refuse db = commit db close) :
    t.alone db = commit db (do
      let db' ← close
      if ¬ stillRunning db' held.task.id then return db' else finish db') := by
  have hstill := readTask_running db held.task.id
  rw [Transaction.alone, hread]
  cases hok : close with
  | error e =>
    cases readTask db held.task.id (fun row => row.status == .running) with
    | none => rw [Transaction.finish, hrefuse, hok]; rfl
    | some row => rw [Transaction.finish, hwrite, hok]; rfl
  | ok db' =>
    have hsame : stillRunning db' held.task.id = stillRunning db held.task.id := by
      rw [hclose db' hok, stillRunning_closeHeld]
    cases hrow : readTask db held.task.id (fun row => row.status == .running) with
    | none =>
      rw [hrow] at hstill
      rw [Transaction.finish, hrefuse, hok]
      simp [bind, Except.bind, hsame, ← hstill, pure, Except.pure]
    | some row =>
      rw [hrow] at hstill
      rw [Transaction.finish, hwrite, hok]
      simp [bind, Except.bind, hsame, ← hstill]

/-- The outcome of a worker alone is its second transaction. -/
theorem Rival.alone_success (cfg : Settings) (now : Time) (held : Held) (result : Json)
    (db : Database) :
    ((Rival.success now held result).transaction cfg held.task.id).alone db =
      commit db (recordSuccess cfg now db held result) :=
  alone_close (fun _ hok => (flushAttempt_ok hok).2) rfl (fun _ => rfl) rfl

theorem Rival.alone_failure (cfg : Settings) (now : Time) (held : Held) (error : String)
    (retryable : Bool) (db : Database) :
    ((Rival.failure now held error retryable).transaction cfg held.task.id).alone db =
      commit db (recordFailure cfg now db held error retryable) :=
  alone_close (fun _ hok => (flushAttempt_ok hok).2) rfl (fun _ => rfl) rfl

end TaskPlatform
