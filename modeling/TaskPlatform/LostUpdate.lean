import TaskPlatform.Concurrent

/-!
# Lost updates

An operator's action beside another status change of the same task. When each of
them reads before the other commits and both guards accept what was read, both
write an event from the same status, which no serial order does. In every other
interleaving the result is that of a serial order.
-/

namespace TaskPlatform

open Run Interleave

def Operator.target : Operator → Status
  | .cancel _ => .cancelled
  | .retry _ => .queued

theorem Operator.read_some {cfg : Settings} {id : TaskId} {o : Operator} {db : Database}
    {row : Task} (h : (o.transaction cfg id).read db = some row) :
    db.tasks.get id = some row ∧ canTransition row.status o.target = true := by
  cases o with
  | cancel now =>
    obtain ⟨hrow, hs⟩ := readTask_some.mp h
    exact ⟨hrow, (canTransition_cancelled _).mpr (by simpa using hs)⟩
  | retry now =>
    obtain ⟨hrow, hs⟩ := readTask_some.mp h
    exact ⟨hrow, canTransition_retry (by simpa using hs)⟩

theorem Operator.refuse_eq (cfg : Settings) (id : TaskId) (o : Operator) (db : Database) :
    (o.transaction cfg id).refuse db = db := by cases o <;> rfl

theorem Operator.moved {cfg : Settings} {id : TaskId} (o : Operator) {db : Database}
    {row cur : Task} (ht : canTransition row.status o.target = true)
    (hcur : db.tasks.get id = some cur) :
    Moved id row.status o.target db ((o.transaction cfg id).write db row) := by
  have hobject : db.tasks.get (Instance.fresh id row).id = some cur := hcur
  cases o with
  | cancel now =>
    obtain ⟨db', hok, hmoved⟩ : ∃ db', setStatus cfg now db (Instance.fresh id row) .cancelled
        .cancelled none = .ok (db', _) ∧ Moved id row.status .cancelled db db' :=
      setStatus_moved .cancelled none hobject rfl ht
    simp only [Operator.transaction, hok, Except.map, commit]
    exact hmoved
  | retry now =>
    obtain ⟨db', hok, hmoved⟩ : ∃ db', setStatus cfg now db (Instance.fresh id row) .queued
        .retried (some (.attemptsSoFar row.attempts)) = .ok (db', _) ∧
          Moved id row.status .queued db db' :=
      setStatus_moved .retried _ hobject rfl ht
    simp only [Operator.transaction, hok, Except.map, commit]
    exact ⟨hmoved.event, hmoved.row⟩

/-- The attempt that an outcome closes is there. -/
def Rival.HasAttempt (db : Database) : Rival → Prop
  | .success _ held _ => (db.attempts.get held.attemptId).isSome
  | .failure _ held _ _ => (db.attempts.get held.attemptId).isSome
  | _ => True

theorem Platform.Fencing.hasAttempt {p : Platform} (hf : p.Fencing) {id : TaskId} {r : Rival}
    (hr : r.Of p id) {row : Task} (hrow : p.db.tasks.get id = some row) :
    r.HasAttempt p.db := by
  have hattempt : ∀ held, (∃ w, p.holding w = some held ∧ held.task.id = id) →
      (p.db.attempts.get held.attemptId).isSome := by
    rintro held ⟨w, hheld, rfl⟩
    obtain ⟨att, hmem, -⟩ := (hf.linked w held hheld).2.2.attempt row hrow
    rw [((p.db.attempts.mem_select _ _ _).mp hmem).1]
    rfl
  cases r with
  | success now held result => exact hattempt held hr
  | failure now held error retryable => exact hattempt held hr
  | _ => trivial

/-- What the operations of the coordinator move, they move into the queue. -/
theorem requeue_moved (cfg : Settings) (now : Time) {db : Database} {id : TaskId}
    {row loaded cur : Task} (eventType : EventType) (details : Option Details)
    (hrow : db.tasks.get id = some row) (hst : loaded.status = cur.status)
    (ht : canTransition cur.status .queued = true) :
    ∃ db', setStatus cfg now db ⟨id, loaded, cur⟩ .queued eventType details =
        .ok (db', Instance.fresh id (movedTask now cur .queued)) ∧
      Moved id cur.status .queued db db' := by
  have hobject : db.tasks.get (Instance.mk id loaded cur).id = some row := hrow
  exact setStatus_moved eventType details hobject hst ht

section

variable {cfg : Settings} {db : Database} {id : TaskId} {w : WorkerId} {held : Held}
  {row cur : Task}

theorem success_moved (now : Time) (result : Json) (hv : held.Valid w)
    (hcur : db.tasks.get held.task.id = some cur) (ha : (db.attempts.get held.attemptId).isSome)
    (row : Task) :
    Moved held.task.id .running .success db
      (((Rival.success now held result).transaction cfg held.task.id).write db row) := by
  obtain ⟨db', hok, hmoved⟩ := finishSuccess_moved cfg now result hv
    (show (closeHeld db held.attemptId held.attempt { held.attempt with
      status := .success, result := some result, finishedAt := some now }).tasks.get
        held.task.id = some cur from hcur)
  have hclose : closeSuccess now db held result = .ok _ := flushAttempt_total _ _ ha
  simp only [Rival.transaction, hclose, bind, Except.bind, hok, commit]
  exact hmoved.of_left rfl

theorem failure_moved (now : Time) (error : String) (retryable : Bool) (hv : held.Valid w)
    (hcur : db.tasks.get held.task.id = some cur) (ha : (db.attempts.get held.attemptId).isSome)
    (row : Task) : ∃ new, new ≠ .running ∧ Moved held.task.id .running new db
      (((Rival.failure now held error retryable).transaction cfg held.task.id).write db row) := by
  obtain ⟨db', new, hok, hnew, hmoved⟩ := finishFailure_moved cfg now error retryable hv
    (show (closeHeld db held.attemptId held.attempt { held.attempt with
      status := .failed, errorMessage := some (truncateError error),
      finishedAt := some now }).tasks.get held.task.id = some cur from hcur)
  have hclose : closeFailure now db held error = .ok _ := flushAttempt_total _ _ ha
  refine ⟨new, hnew, ?_⟩
  simp only [Rival.transaction, hclose, bind, Except.bind, hok, commit]
  exact hmoved.of_left rfl

theorem due_moved (now : Time) (hcur : db.tasks.get id = some cur)
    (ht : canTransition row.status .queued = true) :
    Moved id row.status .queued db (((Rival.due now).transaction cfg id).write db row) := by
  obtain ⟨db', hok, hmoved⟩ := requeue_moved cfg now
    (if row.status = .retryScheduled then EventType.retried else .queued)
    (some (.attemptsSoFar row.attempts)) hcur rfl ht
  simp only [Rival.transaction, requeueDue, Instance.fresh, bind, Except.bind, hok, commit, pure,
    Except.pure]
  exact ⟨hmoved.event, hmoved.row⟩

theorem dlq_moved (now : Time) (hcur : db.tasks.get id = some cur)
    (ht : canTransition row.status .queued = true) :
    Moved id row.status .queued db (((Rival.dlq now).transaction cfg id).write db row) := by
  obtain ⟨db', hok, hmoved⟩ : ∃ db', setStatus cfg now db
      ⟨id, row, { row with dlqRequeueCount := row.dlqRequeueCount + 1 }⟩ .queued .dlqRequeued
        (some (.dlqCycle (row.dlqRequeueCount + 1) cfg.dlqRetryMaxCycles)) = .ok (db', _) ∧
      Moved id row.status .queued db db' := requeue_moved cfg now _ _ hcur rfl ht
  simp only [Rival.transaction, requeueDlq, bind, Except.bind, hok, commit, pure, Except.pure]
  exact ⟨hmoved.event, hmoved.row⟩

theorem recover_moved (now : Time) (hcur : db.tasks.get id = some cur)
    (hrun : row.status = .running) :
    Moved id .running .queued db (((Rival.recover now).transaction cfg id).write db row) := by
  have ht : canTransition row.status .queued = true := by rw [hrun]; rfl
  have hcur' : (closeLastAttempt now db id).tasks.get id = some cur := by
    rw [closeLastAttempt_tasks, hcur]
  obtain ⟨db', hok, hmoved⟩ := requeue_moved cfg now .requeued
    (some (.leaseExpired row.leaseOwner ((lastRunningAttempt db id).map (·.2.attemptNumber))))
    hcur' rfl ht
  have hsame : (closeLastAttempt now db id).eventsOf id = db.eventsOf id := by
    unfold closeLastAttempt
    split <;> rfl
  have hmoved' : Moved id row.status .queued db
      (addOutbox cfg db' id (movedTask now row .queued) true) :=
    Moved.of_left ⟨hmoved.event, hmoved.row⟩ hsame
  rw [hrun] at hmoved'
  simp only [Rival.transaction, recoverStuck, hrun, if_true, Instance.fresh, bind, Except.bind,
    hok, commit, pure, Except.pure]
  exact hmoved'

end

/-- The guard of the other transaction accepts the committed row, and then it moves the task from
the status of this row, whatever the row has become. -/
theorem Rival.moved {cfg : Settings} {p : Platform} (hp : p.Sound) {id : TaskId} {r : Rival}
    (hr : r.Of p id) {row : Task} (hread : (r.transaction cfg id).read p.db = some row) :
    p.db.tasks.get id = some row ∧ ∀ db, (db.tasks.get id).isSome → r.HasAttempt db →
      ∃ new, new ≠ row.status ∧ Moved id row.status new db ((r.transaction cfg id).write db row) := by
  cases r with
  | operator o =>
    obtain ⟨hrow, ht⟩ := Operator.read_some hread
    refine ⟨hrow, fun db hsome _ => ⟨o.target, (canTransition_ne ht).symm, ?_⟩⟩
    obtain ⟨cur, hcur⟩ := Option.isSome_iff_exists.mp hsome
    exact o.moved ht hcur
  | success now held result =>
    obtain ⟨w, hheld, rfl⟩ := hr
    obtain ⟨hrow, hrun⟩ := readTask_some.mp hread
    rw [beq_iff_eq] at hrun
    refine ⟨hrow, fun db hsome ha => ⟨.success, by rw [hrun]; decide, ?_⟩⟩
    obtain ⟨cur, hcur⟩ := Option.isSome_iff_exists.mp hsome
    rw [hrun]
    exact success_moved now result (hp.held w held hheld) hcur ha row
  | failure now held error retryable =>
    obtain ⟨w, hheld, rfl⟩ := hr
    obtain ⟨hrow, hrun⟩ := readTask_some.mp hread
    rw [beq_iff_eq] at hrun
    refine ⟨hrow, fun db hsome ha => ?_⟩
    obtain ⟨cur, hcur⟩ := Option.isSome_iff_exists.mp hsome
    rw [hrun]
    exact failure_moved now error retryable (hp.held w held hheld) hcur ha row
  | due now =>
    obtain ⟨hrow, hdue⟩ := readTask_some.mp hread
    simp only [isDue, Bool.and_eq_true, decide_eq_true_eq] at hdue
    have hsource : row.status ∈ Cause.due.sources := hdue.1
    have ht := Cause.sources_transition hsource
    refine ⟨hrow, fun db hsome _ => ⟨.queued, (canTransition_ne ht).symm, ?_⟩⟩
    obtain ⟨cur, hcur⟩ := Option.isSome_iff_exists.mp hsome
    exact due_moved now hcur ht
  | dlq now =>
    simp only [Rival.transaction] at hread
    split at hread
    · obtain ⟨hrow, hdue⟩ := readTask_some.mp hread
      simp only [isDlqDue, Bool.and_eq_true, beq_iff_eq] at hdue
      have ht : canTransition row.status .queued = true := by rw [hdue.1.1]; rfl
      refine ⟨hrow, fun db hsome _ => ⟨.queued, (canTransition_ne ht).symm, ?_⟩⟩
      obtain ⟨cur, hcur⟩ := Option.isSome_iff_exists.mp hsome
      exact dlq_moved now hcur ht
    · cases hread
  | recover now =>
    obtain ⟨hrow, hstuck⟩ := readTask_some.mp hread
    have hrun := running_of_stuck (hp.row hrow).wellFormed hstuck
    refine ⟨hrow, fun db hsome _ => ⟨.queued, by rw [hrun]; decide, ?_⟩⟩
    obtain ⟨cur, hcur⟩ := Option.isSome_iff_exists.mp hsome
    rw [hrun]
    exact recover_moved now hcur hrun

/-- A transaction that refuses leaves the tasks and their events. -/
theorem Rival.refuse_frame (cfg : Settings) (id : TaskId) (r : Rival) (db : Database) :
    ((r.transaction cfg id).refuse db).tasks = db.tasks ∧
      ((r.transaction cfg id).refuse db).events = db.events := by
  have hclose : ∀ {attemptId : Nat} {loaded cur : TaskAttempt},
      (commit db (flushAttempt db attemptId loaded cur)).tasks = db.tasks ∧
        (commit db (flushAttempt db attemptId loaded cur)).events = db.events := by
    intro attemptId loaded cur
    cases hok : flushAttempt db attemptId loaded cur with
    | error e => exact ⟨rfl, rfl⟩
    | ok db' =>
      obtain ⟨-, rfl⟩ := flushAttempt_ok hok
      exact ⟨rfl, rfl⟩
  cases r with
  | operator o => rw [show (Rival.operator o).transaction cfg id = o.transaction cfg id from rfl,
      Operator.refuse_eq]; exact ⟨rfl, rfl⟩
  | success now held result => exact hclose
  | failure now held error retryable => exact hclose
  | _ => exact ⟨rfl, rfl⟩

/-- After an action of the operator the guard of no worker or coordinator accepts the task. -/
theorem Rival.read_none (cfg : Settings) {p : Platform} (hp : p.Sound) {id : TaskId} {row : Task}
    (hrow : p.db.tasks.get id = some row) {o : Operator} (hs : row.status = o.target) {r : Rival}
    (hr : ∀ o', r ≠ .operator o') : (r.transaction cfg id).read p.db = none := by
  have hstatus : row.status = .cancelled ∨ row.status = .queued := by
    cases o with
    | cancel now => exact .inl hs
    | retry now => exact .inr hs
  have hnone : ∀ {cond : Task → Bool}, cond row = false → readTask p.db id cond = none := by
    intro cond hc
    rw [readTask, hrow, Option.filter, if_neg (by simp [hc])]
  cases r with
  | operator o' => exact absurd rfl (hr o')
  | success now held result =>
    refine hnone ?_
    obtain hs | hs := hstatus <;> rw [hs] <;> rfl
  | failure now held error retryable =>
    refine hnone ?_
    obtain hs | hs := hstatus <;> rw [hs] <;> rfl
  | due now =>
    refine hnone ?_
    obtain hs | hs := hstatus <;> simp [isDue, dueStatuses, hs]
  | dlq now =>
    simp only [Rival.transaction]
    split
    · refine hnone ?_
      obtain hs | hs := hstatus <;> simp [isDlqDue, hs]
    · rfl
  | recover now =>
    refine hnone ?_
    by_contra hstuck
    rw [Bool.not_eq_false] at hstuck
    have hrun := running_of_stuck (hp.row hrow).wellFormed hstuck
    rw [hrun] at hstatus
    obtain hs | hs := hstatus <;> cases hs

/-- The task was moved twice, both times from the same status. -/
def Doubled (id : TaskId) (old : Status) (db db' : Database) : Prop :=
  ∃ db₁ mid new, Moved id old mid db db₁ ∧ Moved id old new db₁ db'

/-- The task was moved from this status, and afterwards at most from another one. -/
def Chained (id : TaskId) (old : Status) (db db' : Database) : Prop :=
  ∃ db₁ mid, Moved id old mid db db₁ ∧
    (db'.eventsOf id = db₁.eventsOf id ∨ ∃ old' new, old' ≠ old ∧ Moved id old' new db₁ db')

theorem Doubled.not_chained {id : TaskId} {old : Status} {db db' : Database}
    (h : Doubled id old db db') : ¬ Chained id old db db' := by
  obtain ⟨db₁, mid, new, h₁, h₂⟩ := h
  rintro ⟨db₂, mid', hfirst, hrest⟩
  obtain ⟨e₁, he₁, -⟩ := h₁.event
  obtain ⟨e₂, he₂, hold⟩ := h₂.event
  obtain ⟨f₁, hf₁, -⟩ := hfirst.event
  rw [he₁, List.append_assoc] at he₂
  obtain hsame | ⟨old', new', hne, hsecond⟩ := hrest
  · rw [he₂, hf₁, List.append_cancel_left_eq] at hsame
    cases hsame
  · obtain ⟨f₂, hf₂, hold'⟩ := hsecond.event
    rw [hf₁, List.append_assoc, he₂, List.append_cancel_left_eq] at hf₂
    simp only [List.cons_append, List.nil_append, List.cons.injEq, and_true] at hf₂
    apply hne
    rw [← hold', ← hf₂.2, hold]

theorem Operator.step_holding (cfg : Settings) (id : TaskId) (o : Operator) (p : Platform) :
    (p.step cfg (o.action id)).holding = p.holding := by cases o <;> rfl

theorem Rival.Of.step {p : Platform} {id : TaskId} {r : Rival} (hr : r.Of p id) (cfg : Settings)
    (o : Operator) : r.Of (p.step cfg (o.action id)) id := by
  cases r with
  | success now held result => rwa [Rival.Of, Operator.step_holding]
  | failure now held error retryable => rwa [Rival.Of, Operator.step_holding]
  | _ => trivial

section

variable {cfg : Settings} {p : Platform} {id : TaskId} {o : Operator} {r : Rival}

/-- The other transaction after the operator's action moves the task from where that left it. -/
theorem chained_operator_first (hf : p.Fencing) (hr : r.Of p id) {row : Task}
    (hread : (o.transaction cfg id).read p.db = some row) :
    Chained id row.status p.db
      ((r.transaction cfg id).alone ((o.transaction cfg id).alone p.db)) := by
  obtain ⟨hrow, ht⟩ := Operator.read_some hread
  have hmoved : Moved id row.status o.target p.db ((o.transaction cfg id).alone p.db) := by
    rw [Transaction.alone_some hread]
    exact o.moved ht hrow
  have hnext : (p.step cfg (o.action id)).Fencing := hf.step cfg (o.action id)
  have hdb := o.alone_step cfg id p
  refine ⟨_, _, hmoved, ?_⟩
  obtain ⟨row₁, hrow₁, hs₁⟩ := hmoved.row
  rw [hdb] at hrow₁ ⊢
  cases hread₁ : (r.transaction cfg id).read (p.step cfg (o.action id)).db with
  | none =>
    rw [Transaction.alone_none hread₁]
    refine .inl ?_
    unfold Database.eventsOf
    rw [(r.refuse_frame cfg id _).2]
  | some row' =>
    obtain ⟨hrow', hmove⟩ := Rival.moved hnext.sound (hr.step cfg o) hread₁
    have hsame : row' = row₁ := Option.some.inj (hrow'.symm.trans hrow₁)
    subst hsame
    obtain ⟨new, -, hsecond⟩ := hmove _ (by rw [hrow']; rfl)
      (hnext.hasAttempt (hr.step cfg o) hrow')
    rw [Transaction.alone_some hread₁]
    refine .inr ⟨_, _, ?_, hsecond⟩
    rw [hs₁]
    exact (canTransition_ne ht).symm

/-- So does the operator's action after the other transaction. -/
theorem chained_rival_first (hf : p.Fencing) (hr : r.Of p id) {row : Task}
    (hread : (r.transaction cfg id).read p.db = some row) :
    Chained id row.status p.db
      ((o.transaction cfg id).alone ((r.transaction cfg id).alone p.db)) := by
  obtain ⟨hrow, hmove⟩ := Rival.moved hf.sound hr hread
  obtain ⟨new, hne, hmoved⟩ := hmove p.db (by rw [hrow]; rfl) (hf.hasAttempt hr hrow)
  rw [Transaction.alone_some hread]
  refine ⟨_, _, hmoved, ?_⟩
  obtain ⟨row₁, hrow₁, hs₁⟩ := hmoved.row
  cases hread₁ : (o.transaction cfg id).read ((r.transaction cfg id).write p.db row) with
  | none =>
    rw [Transaction.alone_none hread₁, o.refuse_eq]
    exact .inl rfl
  | some row' =>
    obtain ⟨hrow', ht⟩ := Operator.read_some hread₁
    have hsame : row' = row₁ := Option.some.inj (hrow'.symm.trans hrow₁)
    subst hsame
    rw [Transaction.alone_some hread₁]
    exact .inr ⟨_, _, by rwa [hs₁], o.moved ht hrow'⟩

/-- Both transactions go through the row that they both read. -/
theorem doubled_of_both_read (hf : p.Fencing) (hr : r.Of p id) {row row' : Task}
    (hl : (o.transaction cfg id).read p.db = some row)
    (hread : (r.transaction cfg id).read p.db = some row') :
    Doubled id row.status p.db
        ((r.transaction cfg id).write ((o.transaction cfg id).alone p.db) row') ∧
      Doubled id row.status p.db
        ((o.transaction cfg id).write ((r.transaction cfg id).write p.db row') row) := by
  obtain ⟨hrow, ht⟩ := Operator.read_some hl
  obtain ⟨hrow', hmove⟩ := Rival.moved hf.sound hr hread
  have hsame : row' = row := Option.some.inj (hrow'.symm.trans hrow)
  subst hsame
  have hmovedL : Moved id row'.status o.target p.db ((o.transaction cfg id).alone p.db) := by
    rw [Transaction.alone_some hl]
    exact o.moved ht hrow
  obtain ⟨new, -, hmovedR⟩ := hmove p.db (by rw [hrow]; rfl) (hf.hasAttempt hr hrow)
  constructor
  · have hnext : (p.step cfg (o.action id)).Fencing := hf.step cfg (o.action id)
    obtain ⟨row₁, hrow₁, -⟩ := hmovedL.row
    obtain ⟨new', -, hsecond⟩ := hmove ((o.transaction cfg id).alone p.db) (by rw [hrow₁]; rfl) (by
      rw [o.alone_step] at hrow₁ ⊢
      exact hnext.hasAttempt (hr.step cfg o) hrow₁)
    exact ⟨_, _, _, hmovedL, hsecond⟩
  · obtain ⟨row₁, hrow₁, -⟩ := hmovedR.row
    exact ⟨_, _, _, hmovedR, o.moved ht hrow₁⟩

/-- When one guard refuses what was read at the start, both results are serial. -/
theorem serial_of_refused (hf : p.Fencing)
    (h : (o.transaction cfg id).read p.db = none ∨ (r.transaction cfg id).read p.db = none) :
    let left := o.transaction cfg id
    let right := r.transaction cfg id
    (right.finish (right.read p.db) (left.alone p.db) = right.alone (left.alone p.db) ∨
      right.finish (right.read p.db) (left.alone p.db) = left.alone (right.alone p.db)) ∧
    (left.finish (left.read p.db) (right.finish (right.read p.db) p.db) =
        right.alone (left.alone p.db) ∨
      left.finish (left.read p.db) (right.finish (right.read p.db) p.db) =
        left.alone (right.alone p.db)) := by
  intro left right
  have hrefuse : ∀ db, left.refuse db = db := o.refuse_eq cfg id
  cases hl : left.read p.db with
  | none =>
    have halone : left.alone p.db = p.db := by rw [Transaction.alone_none hl, hrefuse]
    rw [halone, Transaction.finish_none, hrefuse]
    exact ⟨.inl rfl, .inl rfl⟩
  | some row =>
    obtain hnone | hnone := h
    · rw [show left.read p.db = none from hnone] at hl
      cases hl
    · have hnone' : right.read p.db = none := hnone
      rw [hnone', Transaction.finish_none, Transaction.finish_none, Transaction.alone_none hnone']
      constructor
      · -- what refuses after the operator: the worker's guard, or nothing is written at all
        obtain ⟨hrow, ht⟩ := Operator.read_some hl
        by_cases hoperator : ∃ o', r = .operator o'
        · obtain ⟨o', rfl⟩ := hoperator
          have hid : ∀ db, right.refuse db = db := o'.refuse_eq cfg id
          rw [hid, hid]
          exact .inr rfl
        · rw [not_exists] at hoperator
          obtain ⟨row₁, hrow₁, hs₁⟩ := (@Operator.moved cfg id o p.db _ _ ht hrow).row
          have hdb : left.alone p.db = (p.step cfg (o.action id)).db := o.alone_step cfg id p
          have hget : (p.step cfg (o.action id)).db.tasks.get id = some row₁ := by
            rw [← hdb, Transaction.alone_some hl]
            exact hrow₁
          have hread : right.read (left.alone p.db) = none := by
            rw [hdb]
            exact Rival.read_none cfg (hf.step cfg _).sound hget hs₁ hoperator
          exact .inl (Transaction.alone_none hread).symm
      · have htasks : (right.refuse p.db).tasks = p.db.tasks := (r.refuse_frame cfg id p.db).1
        have hread : left.read (right.refuse p.db) = some row := by
          rw [← hl]
          cases o <;> simp only [left, Operator.transaction, readTask, htasks]
        rw [Transaction.finish, Transaction.alone_some hread]
        exact .inr rfl

/-- A coordinator that passed over the task leaves the result of a serial order. -/
theorem serial_of_skipped (hf : p.Fencing) (hlocks : (r.transaction cfg id).locks = true)
    (hread : ((o.transaction cfg id).read p.db).isSome) :
    let left := o.transaction cfg id
    let right := r.transaction cfg id
    right.finish none (left.alone p.db) = right.alone (left.alone p.db) ∧
      left.finish (left.read p.db) (right.finish none p.db) = right.alone (left.alone p.db) := by
  intro left right
  obtain ⟨row, hl⟩ := Option.isSome_iff_exists.mp hread
  obtain ⟨hrow, ht⟩ := Operator.read_some hl
  have hrefuse : ∀ db, right.refuse db = db := by
    intro db
    cases r with
    | operator o' => exact o'.refuse_eq cfg id db
    | success now held result => cases hlocks
    | failure now held error retryable => cases hlocks
    | _ => rfl
  have hoperator : ∀ o', r ≠ .operator o' := by
    rintro o' rfl
    cases o' <;> cases hlocks
  have hdb : left.alone p.db = (p.step cfg (o.action id)).db := o.alone_step cfg id p
  obtain ⟨row₁, hrow₁, hs₁⟩ := (@Operator.moved cfg id o p.db _ _ ht hrow).row
  have hget : (p.step cfg (o.action id)).db.tasks.get id = some row₁ := by
    rw [← hdb, Transaction.alone_some hl]
    exact hrow₁
  have hnone : right.read (left.alone p.db) = none := by
    rw [hdb]
    exact Rival.read_none cfg (hf.step cfg _).sound hget hs₁ hoperator
  rw [Transaction.alone_none hnone, Transaction.finish_none, Transaction.finish_none, hrefuse,
    hrefuse]
  exact ⟨rfl, rfl⟩

end

/-- Two complete transactions on a task of a reachable state, one of them an operator's action,
have the result of a serial order exactly if not both of them read before the other commits and
accept what they read. -/
theorem concurrent_serial_iff (cfg : Settings) (acts : List Action) (id : TaskId) (o : Operator)
    (r : Rival) (hr : r.Of (Platform.after cfg acts) id) (σ : Statements)
    (s : State Database Task)
    (h : exec (step (pair cfg id o r)) (State.start (Platform.after cfg acts).db) σ = some s)
    (hdone : ∀ x, s.stage x = .committed) :
    let db := (Platform.after cfg acts).db
    let left := o.transaction cfg id
    let right := r.transaction cfg id
    (s.db = right.alone (left.alone db) ∨ s.db = left.alone (right.alone db)) ↔
      ¬ (Overlap right.locks σ ∧ (left.read db).isSome ∧ (right.read db).isSome) := by
  intro db left right
  have hf : (Platform.after cfg acts).Fencing := Platform.after_fencing cfg acts
  have hlocks : (pair cfg id o r .left).locks = false := by cases o <;> rfl
  have hcases := result_cases hlocks h hdone
  constructor
  · rintro hserial ⟨hoverlap, hl, hread⟩
    obtain ⟨row, hrow⟩ := Option.isSome_iff_exists.mp hl
    obtain ⟨row', hrow'⟩ := Option.isSome_iff_exists.mp hread
    have hsame : row' = row := Option.some.inj
      ((Rival.moved hf.sound hr hrow').1.symm.trans (Operator.read_some hrow).1)
    have hchained : Chained id row.status db s.db := by
      obtain hs | hs := hserial
      · rw [hs]
        exact chained_operator_first hf hr hrow
      · rw [hs, ← hsame]
        exact chained_rival_first hf hr hrow'
    have hdoubled : Doubled id row.status db s.db := by
      obtain ⟨hnot, -⟩ | ⟨x, ⟨-, hx⟩ | ⟨hnot, -⟩, hs⟩ := hcases
      · exact absurd hoverlap hnot
      · obtain ⟨h₁, h₂⟩ := doubled_of_both_read hf hr hrow hrow'
        have hx' : x = some row' := hx.trans hrow'
        subst hx'
        obtain hs | hs := hs
        · rw [hs]
          exact h₁
        · rw [hs, show (pair cfg id o r .left).read _ = some row from hrow]
          exact h₂
      · exact absurd hoverlap hnot
    exact hdoubled.not_chained hchained
  · intro hnot
    obtain ⟨-, hserial⟩ | ⟨x, ⟨hoverlap, hx⟩ | ⟨-, hlock, hx, hl⟩, hs⟩ := hcases
    · exact hserial
    · subst hx
      have hrefused : left.read db = none ∨ right.read db = none := by
        by_contra hboth
        rw [not_or] at hboth
        exact hnot ⟨hoverlap, Option.isSome_iff_ne_none.mpr hboth.1,
          Option.isSome_iff_ne_none.mpr hboth.2⟩
      have hserial := serial_of_refused hf hrefused
      obtain hs | hs := hs
      · rw [hs]
        exact hserial.1
      · rw [hs]
        exact hserial.2
    · subst hx
      have hserial := serial_of_skipped hf hlock hl
      obtain hs | hs := hs
      · exact .inl (hs.trans hserial.1)
      · exact .inl (hs.trans hserial.2)

/-- A worker has started the task that the operator cancels. -/
def raceRun : List Action := [.createTask 0 plainSpec, .start 1 "w1" 1]

def raceHeld : Held := ((Platform.after .default raceRun).holding "w1").get (by decide +kernel)

theorem raceHeld_of : (Rival.success 3 raceHeld "{}").Of (Platform.after .default raceRun) 1 :=
  ⟨"w1", (Option.some_get _).symm, by decide +kernel⟩

def race (σ : Statements) : Option (State Database Task) :=
  exec (step (pair .default 1 (.cancel 2) (.success 3 raceHeld "{}")))
    (State.start (Platform.after .default raceRun).db) σ

/-- The operator's action is committed before the worker reads the status. -/
def orderedSchedule : Statements :=
  [(.left, .read), (.left, .write), (.left, .commit), (.right, .read), (.right, .commit)]

theorem orderedSchedule_runs : (race orderedSchedule).isSome := by decide +kernel

theorem concurrent_serial_iff_orderedSchedule :
    ∃ s, race orderedSchedule = some s ∧
      let db := (Platform.after .default raceRun).db
      let left := Operator.transaction .default 1 (.cancel 2)
      let right := Rival.transaction .default 1 (.success 3 raceHeld "{}")
      (s.db = right.alone (left.alone db) ∨ s.db = left.alone (right.alone db)) := by
  refine ⟨_, (Option.some_get orderedSchedule_runs).symm, ?_⟩
  refine (concurrent_serial_iff .default raceRun 1 (.cancel 2) (.success 3 raceHeld "{}")
    raceHeld_of orderedSchedule _ (Option.some_get orderedSchedule_runs).symm ?_).mpr ?_
  · intro x
    cases x <;> decide +kernel
  · intro hoverlap
    exact absurd hoverlap.1 (by decide)

/-- Both read the running task; then the operator commits, and the worker goes on. -/
def raceSchedule : Statements :=
  [(.left, .read), (.right, .read), (.left, .write), (.left, .commit), (.right, .write),
    (.right, .commit)]

theorem raceSchedule_runs : (race raceSchedule).isSome := by decide +kernel

theorem raceSchedule_events :
    (((race raceSchedule).get raceSchedule_runs).db.eventsOf 1).map
        (fun e => (e.oldStatus, e.newStatus)) =
      [(.created, .created), (.created, .queued), (.queued, .running), (.running, .running),
        (.running, .cancelled), (.running, .success)] := by decide +kernel

/-- The task is cancelled and succeeds, both times out of `running`. -/
theorem raceSchedule_lost_update :
    ¬ ∀ (cfg : Settings) (acts : List Action) (id : TaskId) (o : Operator) (r : Rival),
      r.Of (Platform.after cfg acts) id → ∀ (σ : Statements) (s : State Database Task),
      exec (step (pair cfg id o r)) (State.start (Platform.after cfg acts).db) σ = some s →
      (∀ x, s.stage x = .committed) →
      s.db = (r.transaction cfg id).alone
          ((o.transaction cfg id).alone (Platform.after cfg acts).db) ∨
        s.db = (o.transaction cfg id).alone
          ((r.transaction cfg id).alone (Platform.after cfg acts).db) := by
  intro hserial
  have h := hserial .default raceRun 1 (.cancel 2) (.success 3 raceHeld "{}") raceHeld_of
    raceSchedule _ (Option.some_get raceSchedule_runs).symm (by intro x; cases x <;> decide +kernel)
  have hlength := congrArg List.length raceSchedule_events
  rw [List.length_map] at hlength
  obtain h | h := h
  · have hfirst : (((Rival.transaction .default 1 (.success 3 raceHeld "{}")).alone
        ((Operator.transaction .default 1 (.cancel 2)).alone
          (Platform.after .default raceRun).db)).eventsOf 1).length = 5 := by decide +kernel
    rw [← h] at hfirst
    exact absurd (hfirst.symm.trans hlength) (by decide)
  · have hfirst : (((Operator.transaction .default 1 (.cancel 2)).alone
        ((Rival.transaction .default 1 (.success 3 raceHeld "{}")).alone
          (Platform.after .default raceRun).db)).eventsOf 1).length = 5 := by decide +kernel
    rw [← h] at hfirst
    exact absurd (hfirst.symm.trans hlength) (by decide)

end TaskPlatform
