import TaskPlatform.Change
import TaskPlatform.Lib.History

/-!
# One task

What the database holds of one task: its row, its event log and its attempts.
Every change of the database is, for each task, either nothing or one step of
the machine `View.Step`, which knows only that one task.
-/

namespace TaskPlatform

structure View where
  row : Option Task
  log : List TaskEvent
  attempts : List (Nat × TaskAttempt)
  deriving DecidableEq

def Database.view (db : Database) (id : TaskId) : View :=
  ⟨db.tasks.get id, db.eventsOf id, db.attemptsOf id⟩

@[simp] theorem view_row (db : Database) (id : TaskId) : (db.view id).row = db.tasks.get id := rfl

/-- A transaction does not write the task: neither its row, events and attempts nor its edges. -/
def Untouched (db db' : Database) (id : TaskId) : Prop :=
  db'.view id = db.view id ∧ db'.childrenOf id = db.childrenOf id ∧
    db'.parentsOf id = db.parentsOf id

instance (db db' : Database) (id : TaskId) : Decidable (Untouched db db' id) := by
  unfold Untouched; infer_instance

def View.record (v : View) (e : TaskEvent) : View := { v with log := v.log ++ [e] }

def View.write (v : View) (row : Task) : View := { v with row := some row }

/-- One key of the attempt rows rewritten. -/
def View.rewrite (v : View) (attemptId : Nat) (f : TaskAttempt → TaskAttempt) : View :=
  { v with attempts := v.attempts.map (fun r => if r.1 = attemptId then (r.1, f r.2) else r) }

theorem view_recordEvent_self (now : Time) (db : Database) (id : TaskId) (old new : Status)
    (eventType : EventType) (details : Option Details) :
    (recordEvent now db id old eventType new details).view id =
      (db.view id).record ⟨id, eventType, old, new, details, now⟩ := by
  simp [Database.view, recordEvent, Database.eventsOf, Database.attemptsOf, View.record,
    Table.select_insert]

theorem view_recordEvent_of_ne (now : Time) (db : Database) {id i : TaskId} (old new : Status)
    (eventType : EventType) (details : Option Details) (h : i ≠ id) :
    (recordEvent now db id old eventType new details).view i = db.view i := by
  simp [Database.view, recordEvent, Database.eventsOf, Database.attemptsOf, Table.select_insert,
    h.symm]

theorem view_setTask_self {db : Database} {id : TaskId} {old : Task} (row : Task)
    (h : db.tasks.get id = some old) : (db.setTask id row).view id = (db.view id).write row := by
  simp only [Database.view, View.write, get_setTask_self row h]
  rfl

theorem view_setTask_of_ne (db : Database) {id i : TaskId} (row : Task) (h : i ≠ id) :
    (db.setTask id row).view i = db.view i := by
  simp only [Database.view, get_setTask_of_ne db row h]
  rfl

@[simp] theorem view_enqueueFor (now : Time) (db : Database) (eventType : EventType) (id : TaskId)
    (task : Task) (i : TaskId) : (enqueueFor now db eventType id task).view i = db.view i := rfl

@[simp] theorem view_addOutbox (cfg : Settings) (db : Database) (id : TaskId) (task : Task)
    (reattempt : Bool) (i : TaskId) : (addOutbox cfg db id task reattempt).view i = db.view i := rfl

theorem view_change_self (now : Time) {db : Database} {id : TaskId} {before : Task} (row : Task)
    (old new : Status) (eventType : EventType) (details : Option Details) (seen : Task)
    (h : db.tasks.get id = some before) :
    (db.change now id row old new eventType details seen).view id =
      ((db.view id).record ⟨id, eventType, old, new, details, now⟩).write row := by
  have hrow : (recordEvent now db id old eventType new details).tasks.get id = some before := h
  rw [Database.change, view_enqueueFor, view_setTask_self row hrow, view_recordEvent_self]

theorem view_change_of_ne (now : Time) (db : Database) {id i : TaskId} (row : Task)
    (old new : Status) (eventType : EventType) (details : Option Details) (seen : Task)
    (h : i ≠ id) : (db.change now id row old new eventType details seen).view i = db.view i := by
  rw [Database.change, view_enqueueFor, view_setTask_of_ne _ row h,
    view_recordEvent_of_ne _ _ _ _ _ _ h]

/-- A closed attempt keeps its task and its number, and is closed. -/
theorem ClosesAttempt.merge_taskId {loaded cur : TaskAttempt} (h : ClosesAttempt loaded cur)
    (row : TaskAttempt) : (TaskAttempt.merge loaded cur row).taskId = row.taskId := by
  simp [TaskAttempt.merge, h.taskId]

theorem ClosesAttempt.merge_number {loaded cur : TaskAttempt} (h : ClosesAttempt loaded cur)
    (row : TaskAttempt) :
    (TaskAttempt.merge loaded cur row).attemptNumber = row.attemptNumber := by
  simp [TaskAttempt.merge, h.number]

theorem ClosesAttempt.merge_status {loaded cur : TaskAttempt} (h : ClosesAttempt loaded cur)
    (row : TaskAttempt) : (TaskAttempt.merge loaded cur row).status ≠ .running := by
  have hne : cur.status ≠ loaded.status := by rw [h.opened]; exact h.closed
  simpa [TaskAttempt.merge, mergeColumn_of_ne _ hne] using h.closed

/-- Rewriting an attempt row without touching its task. -/
theorem view_modify_attempt (db : Database) (attemptId : Nat) (f : TaskAttempt → TaskAttempt)
    (hf : ∀ a, (f a).taskId = a.taskId) (i : TaskId) :
    ({ db with attempts := db.attempts.modify attemptId f } : Database).view i =
      (db.view i).rewrite attemptId f := by
  simp only [Database.view, Database.eventsOf, Database.attemptsOf, View.rewrite]
  rw [Table.select_modify]
  intro a
  simp only [hf]

theorem view_closeHeld (db : Database) (attemptId : Nat) {loaded cur : TaskAttempt}
    (h : ClosesAttempt loaded cur) (i : TaskId) :
    (closeHeld db attemptId loaded cur).view i =
      (db.view i).rewrite attemptId (TaskAttempt.merge loaded cur) :=
  view_modify_attempt db attemptId _ h.merge_taskId i

/-- Recovery closes the running attempt with the highest number. -/
def View.closeLast (now : Time) (v : View) : View :=
  match lastRunning v.attempts with
  | none => v
  | some a => v.rewrite a.1 (closedAttempt now)

theorem view_closeLastAttempt_self (now : Time) (db : Database) (id : TaskId) :
    (closeLastAttempt now db id).view id = (db.view id).closeLast now := by
  cases ha : lastRunning (db.attemptsOf id) with
  | none => simp only [closeLastAttempt, lastRunningAttempt, View.closeLast, Database.view, ha]
  | some a =>
    have hview := view_modify_attempt db a.1 (closedAttempt now) (fun _ => rfl) id
    simpa only [closeLastAttempt, lastRunningAttempt, View.closeLast, Database.view, ha] using hview

theorem lastRunning_mem {attempts : List (Nat × TaskAttempt)} {a : Nat × TaskAttempt}
    (h : lastRunning attempts = some a) : a ∈ attempts ∧ a.2.status = .running := by
  have hm := (List.mem_insertionSort _).mp (List.mem_of_mem_head? h)
  rw [List.mem_filter, beq_iff_eq] at hm
  exact hm

theorem view_closeLastAttempt_of_ne (now : Time) (db : Database) {id i : TaskId} (h : i ≠ id) :
    (closeLastAttempt now db id).view i = db.view i := by
  cases ha : lastRunningAttempt db id with
  | none => simp only [closeLastAttempt, ha]
  | some a =>
    have hmem := (db.attempts.mem_select _ a.1 a.2).mp (lastRunning_mem ha).1
    -- no attempt of another task has the key that is rewritten
    have hkey : ∀ r ∈ db.attemptsOf i, r.1 ≠ a.1 := by
      intro r hr he
      have hr := (db.attempts.mem_select _ r.1 r.2).mp hr
      rw [he, hmem.1, Option.some.injEq, beq_iff_eq] at hr
      rw [beq_iff_eq] at hmem
      exact h (by rw [← hr.2, ← hr.1, ← hmem.2])
    have hid : (db.attemptsOf i).map
        (fun r => if r.1 = a.1 then (r.1, closedAttempt now r.2) else r) = db.attemptsOf i :=
      (List.map_congr_left (fun r hr => if_neg (hkey r hr))).trans (List.map_id' _)
    have hview := view_modify_attempt db a.1 (closedAttempt now) (fun _ => rfl) i
    rw [closeLastAttempt, ha, hview, View.rewrite]
    simp only [Database.view, hid]

theorem view_insertTask_self (cfg : Settings) (now : Time) (db : Database) (spec : TaskSpec) :
    (insertTask cfg now db spec).view db.tasks.next =
      ((db.view db.tasks.next).record
        ⟨db.tasks.next, .created, .created, .created, none, now⟩).write (spec.row cfg now) := by
  rw [insertTask, view_recordEvent_self]
  simp only [Database.view, View.write, View.record, Table.get_insert_next]
  rfl

theorem view_insertTask_of_ne (cfg : Settings) (now : Time) (db : Database) (spec : TaskSpec)
    {i : TaskId} (h : i ≠ db.tasks.next) :
    (insertTask cfg now db spec).view i = db.view i := by
  rw [insertTask, view_recordEvent_of_ne _ _ _ _ _ _ h]
  simp only [Database.view, Table.get_insert, h, if_false]
  rfl

/-- A new attempt under the next key. -/
def View.attempt (v : View) (attemptId : Nat) (attempt : TaskAttempt) : View :=
  { v with attempts := v.attempts ++ [(attemptId, attempt)] }

theorem view_insertAttempt (db : Database) (attempt : TaskAttempt) (i : TaskId) :
    ({ db with attempts := db.attempts.insert attempt } : Database).view i =
      if i = attempt.taskId then (db.view i).attempt db.attempts.next attempt else db.view i := by
  by_cases h : i = attempt.taskId
  · simp [Database.view, Database.eventsOf, Database.attemptsOf, View.attempt, Table.select_insert,
      h]
  · simp [Database.view, Database.eventsOf, Database.attemptsOf, Table.select_insert, h,
      Ne.symm h]

/-- What a start does to the view of its task. -/
def View.started (now : Time) (w : WorkerId) (id : TaskId) (v : View) (attemptId : Nat)
    (row started : Task) : View :=
  (((v.record ⟨id, .running, row.status, .running, none, now⟩).write started).attempt attemptId
    (newAttempt now w id (row.attempts + 1))).record
      ⟨id, .attemptStarted, .running, .running, some (.attemptNumber (row.attempts + 1)), now⟩

theorem view_startedDb_self (now : Time) {db : Database} (w : WorkerId) {id : TaskId}
    {row : Task} (started seen : Task) (h : db.tasks.get id = some row) :
    (startedDb now db w id row started seen).view id =
      View.started now w id (db.view id) db.attempts.next row started := by
  have hid : id = (newAttempt now w id (row.attempts + 1)).taskId := rfl
  rw [startedDb, view_recordEvent_self, view_insertAttempt, if_pos hid,
    view_change_self now started row.status .running .running none seen h]
  rfl

theorem view_startedDb_of_ne (now : Time) (db : Database) (w : WorkerId) {id i : TaskId}
    (row started seen : Task) (h : i ≠ id) :
    (startedDb now db w id row started seen).view i = db.view i := by
  have hid : i ≠ (newAttempt now w id (row.attempts + 1)).taskId := h
  rw [startedDb, view_recordEvent_of_ne _ _ _ _ _ _ h, view_insertAttempt, if_neg hid,
    view_change_of_ne _ _ _ _ _ _ _ _ h]

def View.empty : View := ⟨none, [], []⟩

theorem view_deleteTasks (db : Database) (ids : List TaskId) (i : TaskId) :
    (deleteTasks db ids).view i = if i ∈ ids then View.empty else db.view i := by
  split
  · rename_i h
    have hrow : (deleteTasks db ids).tasks.get i = none := by
      simp [deleteTasks, Table.get_erase, h]
    have hevents : (deleteTasks db ids).eventsOf i = [] := by
      rw [Database.eventsOf, deleteTasks, Table.select_erase_of_true]
      · rfl
      · intro r hr
        rw [beq_iff_eq] at hr
        simpa [hr] using h
    have hattempts : (deleteTasks db ids).attemptsOf i = [] := by
      rw [Database.attemptsOf, deleteTasks, Table.select_erase_of_true]
      intro r hr
      rw [beq_iff_eq] at hr
      simpa [hr] using h
    simp only [Database.view, View.empty, hrow, hevents, hattempts]
  · rename_i h
    have hrow : (deleteTasks db ids).tasks.get i = db.tasks.get i := by
      cases hg : db.tasks.get i <;> simp [deleteTasks, Table.get_erase, hg, h]
    have hevents : (deleteTasks db ids).eventsOf i = db.eventsOf i := by
      rw [Database.eventsOf, deleteTasks, Table.select_erase_of_false]
      · rfl
      · intro r hr
        rw [beq_iff_eq] at hr
        simpa [hr] using h
    have hattempts : (deleteTasks db ids).attemptsOf i = db.attemptsOf i := by
      rw [Database.attemptsOf, deleteTasks, Table.select_erase_of_false]
      · rfl
      · intro r hr
        rw [beq_iff_eq] at hr
        simpa [hr] using h
    simp only [Database.view, hrow, hevents, hattempts]

/-- A status change through an object as new as the row. -/
def View.move (now : Time) (id : TaskId) (v : View) (task : Task) (new : Status)
    (eventType : EventType) (details : Option Details) : View :=
  (v.record ⟨id, eventType, task.status, new, details, now⟩).write (movedTask now task new)

theorem view_move_self (now : Time) {db : Database} {id : TaskId} {row : Task} (task : Task)
    (new : Status) (eventType : EventType) (details : Option Details)
    (h : db.tasks.get id = some row) :
    (db.move now id task new eventType details).view id =
      View.move now id (db.view id) task new eventType details :=
  view_change_self now _ _ _ _ _ _ h

theorem view_move_of_ne (now : Time) (db : Database) {id i : TaskId} (task : Task)
    (new : Status) (eventType : EventType) (details : Option Details) (h : i ≠ id) :
    (db.move now id task new eventType details).view i = db.view i :=
  view_change_of_ne _ _ _ _ _ _ _ _ h

inductive View.Step (cfg : Settings) (id : TaskId) : View → Label → View → Prop where
  | insert {v} (now : Time) (spec : TaskSpec) : v.row = none →
      Step cfg id v .other
        ((v.record ⟨id, .created, .created, .created, none, now⟩).write (spec.row cfg now))
  | block {v row} (now : Time) (parents : List TaskId) (details : Option Details) :
      v.row = some row → row.status = .created →
      Step cfg id v (.block id parents)
        (v.record ⟨id, .blocked, .created, .created, details, now⟩)
  | schedule {v row} (now : Time) : v.row = some row → row.status = .created →
      row.scheduledAt ≠ none → Step cfg id v .other (v.move now id row .scheduled .scheduled none)
  | enqueue {v row} (now : Time) (cause : Cause) (eventType : EventType)
      (details : Option Details) : v.row = some row → row.status ∈ cause.sources →
      Step cfg id v (.enqueue cause id)
        (v.move now id (cause.prepare row) .queued eventType details)
  | cancel {v row} (now : Time) (details : Option Details) : v.row = some row →
      row.status ∈ cancelable →
      Step cfg id v (.settle id .cancelled) (v.move now id row .cancelled .cancelled details)
  | start {v row} (now : Time) (w : WorkerId) (attemptId : Nat) : v.row = some row →
      row.status = .queued → leaseFree now row = true →
      Step cfg id v (.start w id)
        (v.started now w id attemptId row (startedTask now w cfg.taskLeaseSeconds row))
  | renew {v row} (now : Time) (w : WorkerId) : v.row = some row → row.leaseOwner = some w →
      row.status = .running →
      Step cfg id v .other (v.write (renewed now cfg.taskLeaseSeconds row))
  | close {v} (attemptId : Nat) {loaded cur : TaskAttempt} : ClosesAttempt loaded cur →
      Step cfg id v (.close attemptId) (v.rewrite attemptId (TaskAttempt.merge loaded cur))
  | finish {v row} (now : Time) {w : WorkerId} {held : Held} {task : Task} {new : Status}
      (eventType : EventType) (details : Option Details) : held.Valid w → v.row = some row →
      row.status = .running → OutcomeFields now held.task.loaded new task →
      Step cfg id v (.settle id new)
        ((v.record ⟨id, eventType, .running, new, details, now⟩).write
          ((Task.merge held.task.loaded (setStatusFields now task new) row).touch now))
  | stamp {v row} (now : Time) (dlqRetryAt : Option Time) : v.row = some row →
      Step cfg id v (.stamp id) (v.write { row with dlqRetryAt := dlqRetryAt, updatedAt := now })
  | recover {v row} (now : Time) (details : Option Details) : v.row = some row →
      row.status = .running → row.leaseExpiresAt.any (fun t => t < now) = true →
      Step cfg id v (.recover id) ((v.closeLast now).move now id row .queued .requeued details)
  | release {v row} (now : Time) : v.row = some row → row.status = .queued →
      row.leaseExpiresAt ≠ none →
      Step cfg id v .other
        (v.write { row with leaseOwner := none, leaseExpiresAt := none, updatedAt := now })
  | delete {v row} : v.row = some row → row.finishedAt ≠ none → Step cfg id v .other View.empty

/-- A change of the database is nothing or one step for each task. -/
theorem view_change {cfg : Settings} {db db' : Database} {l : Label} (h : Change cfg db l db')
    (i : TaskId) : db'.view i = db.view i ∨ View.Step cfg i (db.view i) l (db'.view i) := by
  cases h with
  | skip => exact .inl rfl
  | insert now spec =>
    by_cases hi : i = db.tasks.next
    · subst hi
      rw [view_insertTask_self]
      exact .inr (.insert now spec (Table.get_of_le (le_refl _)))
    · exact .inl (view_insertTask_of_ne cfg now db spec hi)
  | @block now id row parents details hrow hs hparents =>
    by_cases hi : i = id
    · subst hi
      rw [view_recordEvent_self]
      exact .inr (.block now parents details hrow hs)
    · rw [view_recordEvent_of_ne _ _ _ _ _ _ hi]
      exact .inl rfl
  | @schedule now id row hrow hs hat hparents =>
    by_cases hi : i = id
    · subst hi
      rw [view_move_self now row _ _ _ hrow]
      exact .inr (.schedule now hrow hs hat)
    · exact .inl (view_move_of_ne _ _ _ _ _ _ hi)
  | @enqueue now id row cause eventType details reattempt hrow hs hready =>
    rw [view_addOutbox]
    by_cases hi : i = id
    · subst hi
      rw [view_move_self now (cause.prepare row) _ _ _ hrow]
      exact .inr (.enqueue now cause eventType details hrow hs)
    · exact .inl (view_move_of_ne _ _ _ _ _ _ hi)
  | @cancel now id row details hrow hs =>
    by_cases hi : i = id
    · subst hi
      rw [view_move_self now row _ _ _ hrow]
      exact .inr (.cancel now details hrow hs)
    · exact .inl (view_move_of_ne _ _ _ _ _ _ hi)
  | @start now w id row seen hrow hs hfree =>
    by_cases hi : i = id
    · subst hi
      rw [view_startedDb_self now w _ seen hrow]
      exact .inr (.start now w _ hrow hs hfree)
    · exact .inl (view_startedDb_of_ne _ _ _ _ _ _ hi)
  | @renew now w id row hrow howner hs =>
    by_cases hi : i = id
    · subst hi
      rw [view_setTask_self _ hrow]
      exact .inr (.renew now w hrow howner hs)
    · exact .inl (view_setTask_of_ne _ _ hi)
  | @close attemptId loaded cur hsome hclose =>
    rw [view_closeHeld _ _ hclose]
    exact .inr (.close attemptId hclose)
  | @finish now w held row task new eventType details hv hrow hs hout =>
    by_cases hi : i = held.task.id
    · subst hi
      rw [view_change_self now _ _ _ _ _ _ hrow]
      exact .inr (.finish now eventType details hv hrow hs hout)
    · exact .inl (view_change_of_ne _ _ _ _ _ _ _ _ hi)
  | @stamp now id row dlqRetryAt hrow =>
    by_cases hi : i = id
    · subst hi
      rw [view_setTask_self _ hrow]
      exact .inr (.stamp now dlqRetryAt hrow)
    · exact .inl (view_setTask_of_ne _ _ hi)
  | @recover now id row details hrow hs hexpired =>
    rw [view_addOutbox]
    by_cases hi : i = id
    · subst hi
      have hrow' : (closeLastAttempt now db i).tasks.get i = some row := by
        rw [closeLastAttempt_tasks]; exact hrow
      rw [view_move_self now row _ _ _ hrow', view_closeLastAttempt_self]
      exact .inr (.recover now details hrow hs hexpired)
    · rw [view_move_of_ne _ _ _ _ _ _ hi, view_closeLastAttempt_of_ne _ _ hi]
      exact .inl rfl
  | @release now id row hrow hs hlease =>
    rw [view_addOutbox]
    by_cases hi : i = id
    · subst hi
      rw [view_setTask_self _ hrow]
      exact .inr (.release now hrow hs hlease)
    · exact .inl (view_setTask_of_ne _ _ hi)
  | republish hs => exact .inl rfl
  | deleteTasks ids hids =>
    rw [view_deleteTasks]
    split
    · rename_i hi
      obtain ⟨row, hrow, hfin⟩ := hids i hi
      exact .inr (.delete hrow hfin)
    · exact .inl rfl
  | deleteOutbox ids hids => exact .inl rfl
  | side subscriptions deliveries workers auditLogs => exact .inl rfl

end TaskPlatform
