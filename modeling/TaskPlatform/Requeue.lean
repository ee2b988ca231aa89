import TaskPlatform.RowStep

/-!
# What a coordinator's loop does

Each turn of the loops of `requeue_due_tasks`, `requeue_dlq_tasks` and
`recover_stuck_tasks` moves one task to the queue, with one event and one outbox
row, and touches no other task; so the loop does this for every task that it
selected. Recovery reads the attempt that it closes in a statement of its own.
-/

namespace TaskPlatform

open Run

/-- The coordinator's functions that change statuses. -/
inductive Loop where
  | due | dlq | stuck
  deriving DecidableEq, Repr

/-- The `WHERE` of the function's query. -/
def Loop.cond (cfg : Settings) (now : Time) : Loop → Task → Bool
  | .due => isDue now
  | .dlq => isDlqDue cfg now
  | .stuck => isStuck now

/-- The `ORDER BY` of the function's query. -/
def Loop.key : Loop → Task → Time
  | .due => fun t => t.scheduledAt.getD 0
  | .dlq => fun t => t.dlqRetryAt.getD 0
  | .stuck => fun t => t.leaseExpiresAt.getD 0

/-- The statuses of the period that the function ends. -/
def Loop.statuses : Loop → List Status
  | .due => dueStatuses
  | .dlq => [.deadLetter]
  | .stuck => [.running]

/-- What the function adds to `dlq_requeue_count`. -/
def Loop.cycles : Loop → Nat
  | .dlq => 1
  | _ => 0

/-- A selected row, with the attempt that its turn read. -/
structure Turned where
  row : TaskId × Task
  attempt : Option (Nat × TaskAttempt)
  deriving DecidableEq

/-- The `UPDATE` of the attempt that was read. -/
def closeAttempt (now : Time) (attempt : Option (Nat × TaskAttempt)) (db : Database) : Database :=
  match attempt with
  | none => db
  | some a => closeHeld db a.1 a.2 (closedAttempt now a.2)

/-- One turn of the loop of `recover_stuck_tasks` after the `SELECT` of the attempt. -/
def recoverStuckFrom (cfg : Settings) (now : Time) (attempt : Option (Nat × TaskAttempt))
    (db : Database) (r : TaskId × Task) : Except TaskError Database :=
  if r.2.status = .running then do
    let number := attempt.map (·.2.attemptNumber)
    let (db, task) ← setStatus cfg now (closeAttempt now attempt db) (Instance.fresh r.1 r.2)
      .queued .requeued (some (.leaseExpired r.2.leaseOwner number))
    return addOutbox cfg db r.1 task.cur true
  else do
    let cur := { r.2 with leaseOwner := none, leaseExpiresAt := none }
    let (db, task) ← flush now db ⟨r.1, r.2, cur⟩
    return addOutbox cfg db r.1 task.cur true

theorem TaskAttempt.merge_row (row cur : TaskAttempt) : TaskAttempt.merge row cur row = cur := by
  simp [TaskAttempt.merge]

theorem closeAttempt_lastRunning (now : Time) (db : Database) (id : TaskId) :
    closeAttempt now (lastRunningAttempt db id) db = closeLastAttempt now db id := by
  cases ha : lastRunningAttempt db id with
  | none => simp only [closeAttempt, closeLastAttempt, ha]
  | some a =>
    have hget := ((db.attempts.mem_select _ a.1 a.2).mp (lastRunning_mem ha).1).1
    have hsame : db.attempts.modify a.1 (TaskAttempt.merge a.2 (closedAttempt now a.2)) =
        db.attempts.modify a.1 (closedAttempt now) :=
      Table.modify_congr hget (TaskAttempt.merge_row a.2 _)
    simp only [closeAttempt, closeLastAttempt, ha, closeHeld, hsame]

/-- The turn is the one of the source if the attempt is read right before the write. -/
theorem recoverStuckFrom_lastRunning (cfg : Settings) (now : Time) (db : Database)
    (r : TaskId × Task) :
    recoverStuckFrom cfg now (lastRunningAttempt db r.1) db r = recoverStuck cfg now db r := by
  rw [recoverStuckFrom, recoverStuck, closeAttempt_lastRunning]

/-- What one turn writes. -/
def Loop.write (cfg : Settings) (now : Time) :
    Loop → Database → Turned → Except TaskError Database
  | .due => fun db t => requeueDue cfg now db t.row
  | .dlq => fun db t => requeueDlq cfg now db t.row
  | .stuck => fun db t => recoverStuckFrom cfg now t.attempt db t.row

theorem closeAttempt_entry (now : Time) (attempt : Option (Nat × TaskAttempt)) (db : Database) :
    (closeAttempt now attempt db).tasks = db.tasks ∧
      (closeAttempt now attempt db).events = db.events ∧
      (closeAttempt now attempt db).outbox = db.outbox ∧
      (closeAttempt now attempt db).deps = db.deps := by
  cases attempt <;> exact ⟨rfl, rfl, rfl, rfl⟩

/-- What the coordinator's loops write of one task. -/
structure Entry where
  row : Option Task
  log : List TaskEvent
  outbox : List (Nat × OutboxEvent)

def Database.entry (db : Database) (id : TaskId) : Entry :=
  ⟨db.tasks.get id, db.eventsOf id, db.outboxOf id⟩

/-- From `x` to `y` the task was put into the queue once, with one event and one outbox row;
`cycles` were added to its counter. -/
structure Requeued (id : TaskId) (row : Task) (cycles : Nat) (x y : Entry) : Prop where
  queued : ∃ row', y.row = some row' ∧ row'.status = .queued ∧
    row'.dlqRequeueCount = row.dlqRequeueCount + cycles
  event : ∃ e, y.log = x.log ++ [e] ∧ e.oldStatus = row.status ∧ e.newStatus = .queued
  outbox : ∃ e, y.outbox = x.outbox ++ [e] ∧ e.2.payload.taskId = id ∧ e.2.status = .pending

theorem outboxOf_addOutbox_self (cfg : Settings) (db : Database) (id : TaskId) (task : Task)
    (reattempt : Bool) : ∃ e, (addOutbox cfg db id task reattempt).outboxOf id =
      db.outboxOf id ++ [e] ∧ e.2.payload.taskId = id ∧ e.2.status = .pending := by
  let e : OutboxEvent := ⟨cfg.routingKeyTaskCreated,
    ⟨id, task.taskType, task.payload, task.priority, reattempt⟩, .pending, 0, none, none⟩
  refine ⟨(db.outbox.next, e), ?_, rfl, rfl⟩
  exact Table.select_insert_of_true (t := db.outbox) (a := e)
    (p := fun r => r.2.payload.taskId == id) (by simp [e])

theorem outboxOf_addOutbox_of_ne (cfg : Settings) (db : Database) {id i : TaskId} (task : Task)
    (reattempt : Bool) (h : i ≠ id) :
    (addOutbox cfg db id task reattempt).outboxOf i = db.outboxOf i := by
  simp only [Database.outboxOf, addOutbox]
  rw [Table.select_insert_of_false (by simpa using h.symm)]

/-- A status change through an object as new as the row, up to the columns `cur` of the object. -/
theorem setStatus_queued {cfg : Settings} {now : Time} {db : Database} {id : TaskId}
    {row cur : Task} (eventType : EventType) (details : Option Details)
    (hrow : db.tasks.get id = some row) (hst : row.status = cur.status)
    (ht : canTransition cur.status .queued = true) :
    setStatus cfg now db ⟨id, row, cur⟩ .queued eventType details =
      .ok (db.move now id cur .queued eventType details,
        Instance.fresh id (movedTask now cur .queued)) :=
  setStatusFuel_fresh _ _ _ hrow hst ht (by decide)

/-- The move and the outbox row of one turn. -/
theorem requeued_move (cfg : Settings) {now : Time} {db : Database} {id : TaskId} {row cur : Task}
    {cycles : Nat} (eventType : EventType) (details : Option Details) (task : Task)
    (hrow : db.tasks.get id = some row) (hst : cur.status = row.status)
    (hcount : cur.dlqRequeueCount = row.dlqRequeueCount + cycles) :
    let db' := addOutbox cfg (db.move now id cur .queued eventType details) id task true
    Requeued id row cycles (db.entry id) (db'.entry id) ∧
      ∀ i, i ≠ id → db'.entry i = db.entry i := by
  intro db'
  have hview : db'.view id = View.move now id (db.view id) cur .queued eventType details :=
    view_move_self now cur .queued eventType details hrow
  have hcur : (movedTask now cur .queued).dlqRequeueCount = row.dlqRequeueCount + cycles := by
    rw [← hcount]
    simp [movedTask, Task.touch, setStatusFields_eq]
  refine ⟨⟨⟨_, congrArg View.row hview, rfl, hcur⟩,
    ⟨_, congrArg View.log hview, hst, rfl⟩, outboxOf_addOutbox_self _ _ _ _ _⟩, fun i hi => ?_⟩
  have hother : db'.view i = db.view i := view_move_of_ne _ _ _ _ _ _ hi
  have houtbox : db'.outboxOf i = db.outboxOf i := outboxOf_addOutbox_of_ne _ _ _ _ hi
  have hrow' : db'.tasks.get i = db.tasks.get i := congrArg View.row hother
  have hlog : db'.eventsOf i = db.eventsOf i := congrArg View.log hother
  rw [Database.entry, hrow', hlog, houtbox]
  rfl

/-- The state stays sound when a running task is put back. -/
theorem Platform.Sound.recovered {cfg : Settings} {now : Time} {db : Database}
    {holding : WorkerId → Option Held} {id : TaskId} {row : Task} (h : Platform.Sound ⟨db, holding⟩)
    (hrow : db.tasks.get id = some row) (hrun : row.status = .running)
    (attempt : Option (Nat × TaskAttempt)) (hopen : ∀ a ∈ attempt, a.2.status = .running)
    (details : Option Details) (task : Task) :
    Platform.Sound ⟨addOutbox cfg ((closeAttempt now attempt db).move now id row .queued .requeued
      details) id task true, holding⟩ := by
  have hclosed : Platform.Sound ⟨closeAttempt now attempt db, holding⟩ := by
    cases attempt with
    | none => exact h
    | some a =>
      refine ⟨h.foreignKeys, fun i => ?_, h.held⟩
      have hcloses : ClosesAttempt a.2 (closedAttempt now a.2) :=
        ⟨rfl, rfl, hopen a rfl, by simp [closedAttempt]⟩
      rw [closeAttempt, view_closeHeld _ _ hcloses]
      exact (h.views i).rewrite a.1 hcloses.merge_number
  have hrow' : (closeAttempt now attempt db).tasks.get id = some row := by
    rw [(closeAttempt_entry now attempt db).1]
    exact hrow
  refine ⟨fun d hd => ?_, fun i => ?_, hclosed.held⟩
  · obtain ⟨hp, hc⟩ := hclosed.foreignKeys d hd
    exact ⟨(isSome_setTask _ _ _ _).trans hp, (isSome_setTask _ _ _ _).trans hc⟩
  · rw [view_addOutbox]
    by_cases hi : i = id
    · subst hi
      have hsound := hclosed.row hrow'
      have ht : canTransition row.status .queued = true := by rw [hrun]; rfl
      rw [view_move_self now row _ _ _ hrow']
      exact hsound.change _ (hsound.wellFormed.moved now ht (.inl rfl)) rfl rfl ht
        (by simp) (by simp)
    · rw [view_move_of_ne _ _ _ _ _ _ hi]
      exact hclosed.views i

/-- What a turn over a selected row does: it succeeds, requeues the task, leaves all others and
keeps the state sound. -/
def Turn (body : Database → Turned → Except TaskError Database) (cycles : Nat)
    (holding : WorkerId → Option Held) (t : Turned) : Prop :=
  ∀ db, db.tasks.get t.row.1 = some t.row.2 → Platform.Sound ⟨db, holding⟩ →
    ∃ db', body db t = .ok db' ∧
      Requeued t.row.1 t.row.2 cycles (db.entry t.row.1) (db'.entry t.row.1) ∧
      (∀ i, i ≠ t.row.1 → db'.entry i = db.entry i) ∧ Platform.Sound ⟨db', holding⟩

theorem requeueDue_turn (cfg : Settings) (now : Time) {t : Turned} (h : isDue now t.row.2 = true)
    (holding : WorkerId → Option Held) : Turn (Loop.due.write cfg now) 0 holding t := by
  obtain ⟨r, attempt⟩ := t
  intro db (hrow : db.tasks.get r.1 = some r.2) hsound
  simp only [isDue, Bool.and_eq_true, decide_eq_true_eq] at h
  have hsource : r.2.status ∈ Cause.due.sources := h.1
  let eventType : EventType := if r.2.status = .retryScheduled then .retried else .queued
  let details : Details := .attemptsSoFar r.2.attempts
  have hset : setStatus cfg now db ⟨r.1, r.2, r.2⟩ .queued eventType (some details) = _ :=
    setStatus_queued eventType (some details) hrow rfl (Cause.sources_transition hsource)
  have hok : requeueDue cfg now db r =
      .ok (addOutbox cfg (db.move now r.1 r.2 .queued eventType (some details)) r.1
        (movedTask now r.2 .queued) true) := by
    rw [requeueDue, Instance.fresh, hset]
    rfl
  obtain ⟨hrequeued, hframe⟩ := requeued_move cfg eventType (some details)
    (movedTask now r.2 .queued) hrow rfl (Nat.add_zero _).symm
  exact ⟨_, hok, hrequeued, hframe, hsound.of_trace (.single (requeueDue_ok hrow h.1 hok).1)⟩

theorem requeueDlq_turn (cfg : Settings) (now : Time) {t : Turned}
    (h : isDlqDue cfg now t.row.2 = true) (holding : WorkerId → Option Held) :
    Turn (Loop.dlq.write cfg now) 1 holding t := by
  obtain ⟨r, attempt⟩ := t
  intro db (hrow : db.tasks.get r.1 = some r.2) hsound
  simp only [isDlqDue, Bool.and_eq_true, beq_iff_eq] at h
  have hdead : r.2.status = .deadLetter := h.1.1
  let cur : Task := Cause.dlq.prepare r.2
  let details : Details := .dlqCycle cur.dlqRequeueCount cfg.dlqRetryMaxCycles
  have hst : cur.status = r.2.status := rfl
  have hcount : cur.dlqRequeueCount = r.2.dlqRequeueCount + 1 := rfl
  have ht : canTransition cur.status .queued = true := by
    rw [hst, hdead]
    rfl
  have hset : setStatus cfg now db ⟨r.1, r.2, cur⟩ .queued .dlqRequeued (some details) = _ :=
    setStatus_queued .dlqRequeued (some details) hrow rfl ht
  have hturn : requeueDlq cfg now db r =
      (setStatus cfg now db ⟨r.1, r.2, cur⟩ .queued .dlqRequeued (some details)).map
        (fun x => addOutbox cfg x.1 r.1 x.2.cur true) := by
    cases hset : setStatus cfg now db ⟨r.1, r.2, cur⟩ .queued .dlqRequeued (some details) <;>
      exact congrArg (fun x => x >>= _) hset
  have hok : requeueDlq cfg now db r =
      .ok (addOutbox cfg (db.move now r.1 cur .queued .dlqRequeued (some details)) r.1
        (movedTask now cur .queued) true) := by
    rw [hturn, hset]
    rfl
  obtain ⟨hrequeued, hframe⟩ := requeued_move cfg .dlqRequeued (some details)
    (movedTask now cur .queued) hrow hst hcount
  exact ⟨_, hok, hrequeued, hframe, hsound.of_trace (.single (requeueDlq_ok hrow hdead hok).1)⟩

theorem recoverStuckFrom_eq (cfg : Settings) (now : Time) (attempt : Option (Nat × TaskAttempt))
    {db : Database} {r : TaskId × Task} (hrow : db.tasks.get r.1 = some r.2)
    (hrun : r.2.status = .running) :
    recoverStuckFrom cfg now attempt db r =
      .ok (addOutbox cfg ((closeAttempt now attempt db).move now r.1 r.2 .queued .requeued
        (some (.leaseExpired r.2.leaseOwner (attempt.map (·.2.attemptNumber))))) r.1
          (movedTask now r.2 .queued) true) := by
  let details : Details := .leaseExpired r.2.leaseOwner (attempt.map (·.2.attemptNumber))
  have hclosed : (closeAttempt now attempt db).tasks.get r.1 = some r.2 := by
    rw [(closeAttempt_entry now attempt db).1]
    exact hrow
  have ht : canTransition r.2.status .queued = true := by rw [hrun]; rfl
  have hset : setStatus cfg now (closeAttempt now attempt db) ⟨r.1, r.2, r.2⟩ .queued .requeued
      (some details) = _ := setStatus_queued .requeued (some details) hclosed rfl ht
  have hturn : recoverStuckFrom cfg now attempt db r =
      (setStatus cfg now (closeAttempt now attempt db) ⟨r.1, r.2, r.2⟩ .queued .requeued
        (some details)).map (fun x => addOutbox cfg x.1 r.1 x.2.cur true) := by
    rw [recoverStuckFrom, if_pos hrun]
    cases hset : setStatus cfg now (closeAttempt now attempt db) ⟨r.1, r.2, r.2⟩ .queued
      .requeued (some details) <;> exact congrArg (fun x => x >>= _) hset
  rw [hturn, hset]
  rfl

theorem recoverStuckFrom_turn (cfg : Settings) (now : Time) {t : Turned}
    (h : isStuck now t.row.2 = true) (hopen : ∀ a ∈ t.attempt, a.2.status = .running)
    (holding : WorkerId → Option Held) : Turn (Loop.stuck.write cfg now) 0 holding t := by
  obtain ⟨r, attempt⟩ := t
  intro db (hrow : db.tasks.get r.1 = some r.2) hsound
  have hrun : r.2.status = .running := running_of_stuck (hsound.row hrow).wellFormed h
  obtain ⟨htasks, hevents, houtbox, -⟩ := closeAttempt_entry now attempt db
  have hentry : ∀ i, (closeAttempt now attempt db).entry i = db.entry i := by
    intro i
    simp only [Database.entry, Database.eventsOf, Database.outboxOf, htasks, hevents, houtbox]
  have hclosed : (closeAttempt now attempt db).tasks.get r.1 = some r.2 := by
    rw [htasks]
    exact hrow
  obtain ⟨hrequeued, hframe⟩ := requeued_move cfg .requeued
    (some (.leaseExpired r.2.leaseOwner (attempt.map (·.2.attemptNumber))))
    (movedTask now r.2 .queued) hclosed rfl (Nat.add_zero _).symm
  rw [hentry] at hrequeued
  exact ⟨_, recoverStuckFrom_eq cfg now attempt hrow hrun, hrequeued,
    fun i hi => (hframe i hi).trans (hentry i), hsound.recovered hrow hrun attempt hopen _ _⟩

/-- Every turn of every loop. -/
theorem Loop.turn (cfg : Settings) (now : Time) (loop : Loop) {t : Turned}
    (h : loop.cond cfg now t.row.2 = true) (hopen : ∀ a ∈ t.attempt, a.2.status = .running)
    (holding : WorkerId → Option Held) : Turn (loop.write cfg now) loop.cycles holding t := by
  cases loop with
  | due => exact requeueDue_turn cfg now h holding
  | dlq => exact requeueDlq_turn cfg now h holding
  | stuck => exact recoverStuckFrom_turn cfg now h hopen holding

/-- A selected row of a sound state is in the period that the loop ends. -/
theorem Loop.status_mem {cfg : Settings} {now : Time} {loop : Loop} {row : Task}
    (hwf : row.WellFormed) (h : loop.cond cfg now row = true) : row.status ∈ loop.statuses := by
  cases loop with
  | due =>
    simp only [cond, isDue, Bool.and_eq_true, decide_eq_true_eq] at h
    exact h.1
  | dlq =>
    simp only [cond, isDlqDue, Bool.and_eq_true, beq_iff_eq] at h
    exact List.mem_singleton.mpr h.1.1
  | stuck => exact List.mem_singleton.mpr (running_of_stuck hwf h)

/-- The loop over selected rows succeeds, requeues each of their tasks once and leaves all
others. -/
theorem fold_turns {body : Database → Turned → Except TaskError Database} {cycles : Nat}
    {holding : WorkerId → Option Held} {sel : List Turned}
    (hbody : ∀ t ∈ sel, Turn body cycles holding t) (hnodup : (sel.map (·.row.1)).Nodup)
    {db : Database} (hrows : ∀ t ∈ sel, db.tasks.get t.row.1 = some t.row.2)
    (hsound : Platform.Sound ⟨db, holding⟩) :
    ∃ db', sel.foldlM body db = .ok db' ∧
      (∀ t ∈ sel, Requeued t.row.1 t.row.2 cycles (db.entry t.row.1) (db'.entry t.row.1)) ∧
      (∀ i, i ∉ sel.map (·.row.1) → db'.entry i = db.entry i) ∧
      Platform.Sound ⟨db', holding⟩ := by
  induction sel generalizing db with
  | nil => exact ⟨db, rfl, by simp, fun _ _ => rfl, hsound⟩
  | cons t sel ih =>
    obtain ⟨ht, hnodup⟩ := List.nodup_cons.mp hnodup
    obtain ⟨db₁, hturn, hrequeued, hframe, hsound₁⟩ := hbody t List.mem_cons_self db
      (hrows t List.mem_cons_self) hsound
    have hne : ∀ x ∈ sel, x.row.1 ≠ t.row.1 := by
      intro x hx he
      exact ht (List.mem_map.mpr ⟨x, hx, he⟩)
    have hrows₁ : ∀ x ∈ sel, db₁.tasks.get x.row.1 = some x.row.2 := by
      intro x hx
      have hsame := congrArg Entry.row (hframe x.row.1 (hne x hx))
      exact hsame.trans (hrows x (List.mem_cons_of_mem _ hx))
    obtain ⟨db', hfold, hall, hothers, hsound'⟩ :=
      ih (fun x hx => hbody x (List.mem_cons_of_mem _ hx)) hnodup hrows₁ hsound₁
    refine ⟨db', ?_, fun x hx => ?_, fun i hi => ?_, hsound'⟩
    · rw [List.foldlM_cons, hturn]
      exact hfold
    · rcases List.mem_cons.mp hx with rfl | hx
      · rw [hothers _ ht]
        exact hrequeued
      · rw [← hframe _ (hne x hx)]
        exact hall x hx
    · rw [List.map_cons, List.mem_cons, not_or] at hi
      rw [hothers i hi.2, hframe i hi.1]

end TaskPlatform
