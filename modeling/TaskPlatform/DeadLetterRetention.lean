import TaskPlatform.Retention

/-!
# Retention and the dead-letter setting

`purge_old_data` has a setting of its own for dead letters and a branch that obeys it. Its first branch
asks for no status and deletes every task that finished long ago, dead letters included. They are
deleted as their setting says exactly in the databases where the first branch finds no dead letter
that is too young for it.
-/

namespace TaskPlatform

/-- `finished_at` is set exactly in the terminal statuses. -/
def Database.FinishedTerminal (db : Database) : Prop :=
  ∀ r ∈ db.tasks.rows, r.2.finishedAt ≠ none ↔ r.2.status ∈ terminal

/-- Retention is on, and the task finished at least so many days ago. -/
def FinishedFor (days : Int) (now : Time) (row : Task) : Prop :=
  0 < days ∧ row.finishedAt.any (fun t => t ≤ now - timedeltaDays days) = true

/-- The settings let retention delete the task. -/
def MayPurge (cfg : Settings) (now : Time) (row : Task) : Prop :=
  if row.status = .deadLetter then FinishedFor cfg.retentionDlqTasksDays now row
  else row.status ∈ terminal ∧ FinishedFor cfg.retentionDoneTasksDays now row

/-- `purge_old_data` deletes no task that the settings keep. -/
def RespectsSettings (cfg : Settings) (now : Time) (limit : Option Nat) (db : Database) : Prop :=
  ∀ r ∈ db.tasks.rows, (purgeOldData cfg now limit db).tasks.get r.1 = none → MayPurge cfg now r.2

/-- `limit or settings.retention_cleanup_batch_size` -/
def purgeLimit (cfg : Settings) (limit : Option Nat) : Nat :=
  if limit.getD 0 = 0 then cfg.retentionCleanupBatchSize else limit.getD 0

/-- The tasks with smaller ids that finished long enough ago for the first branch. -/
def finishedBefore (cfg : Settings) (now : Time) (db : Database) (id : TaskId) :
    List (TaskId × Task) :=
  db.tasks.select fun r => decide (r.1 < id) &&
    isOldDone (now - timedeltaDays cfg.retentionDoneTasksDays) r.2

/-- Every dead letter that is old enough for the first branch, and comes within its limit, is old
enough for the setting of dead letters too. -/
def SparesDeadLetters (cfg : Settings) (now : Time) (limit : Option Nat) (db : Database) : Prop :=
  ∀ r ∈ db.tasks.rows, r.2.status = .deadLetter →
    FinishedFor cfg.retentionDoneTasksDays now r.2 →
    (finishedBefore cfg now db r.1).length < purgeLimit cfg limit →
    FinishedFor cfg.retentionDlqTasksDays now r.2

instance (db : Database) : Decidable db.FinishedTerminal := by
  unfold Database.FinishedTerminal; infer_instance

instance (cfg : Settings) (now : Time) (row : Task) : Decidable (MayPurge cfg now row) := by
  unfold MayPurge FinishedFor; infer_instance

instance (cfg : Settings) (now : Time) (limit : Option Nat) (db : Database) :
    Decidable (RespectsSettings cfg now limit db) := by
  unfold RespectsSettings; infer_instance

variable {cfg : Settings} {now : Time} {limit : Option Nat} {db : Database}

/-- The first branch deletes what is old enough for it and comes within the limit. -/
theorem mem_selectDone {n : Nat} {id : TaskId} {row : Task} (hrow : db.tasks.get id = some row) :
    id ∈ selectDone cfg now n db ↔
      FinishedFor cfg.retentionDoneTasksDays now row ∧ (finishedBefore cfg now db id).length < n := by
  unfold selectDone FinishedFor
  split
  · rename_i hdays
    rw [selectIds, Table.mem_take_select, hrow]
    simp only [Option.some.injEq, exists_eq_left', hdays, true_and]
    rfl
  · rename_i hdays
    simp [hdays]

/-- The dead-letter branch keeps to its setting. -/
theorem mem_selectDlq {n : Nat} {id : TaskId} (h : id ∈ selectDlq cfg now n db) :
    ∃ row, db.tasks.get id = some row ∧ row.status = .deadLetter ∧
      FinishedFor cfg.retentionDlqTasksDays now row := by
  unfold selectDlq at h
  split at h
  · rename_i hdays
    obtain ⟨row, hrow, hold⟩ := mem_selectIds h
    simp only [isOldDeadLetter, Bool.and_eq_true, beq_iff_eq] at hold
    exact ⟨row, hrow, hold.1.1, hdays, hold.2⟩
  · cases h

theorem deleteTasks_gone {ids : List TaskId} {id : TaskId} :
    (deleteTasks db ids).tasks.get id = none ↔ db.tasks.get id = none ∨ id ∈ ids := by
  have hview := congrArg View.row (view_deleteTasks db ids id)
  rw [view_row] at hview
  rw [hview]
  split
  · rename_i hid
    exact iff_of_true rfl (.inr hid)
  · rename_i hid
    rw [view_row]
    exact (or_iff_left hid).symm

/-- A task is gone if one of the two branches has selected it. -/
theorem purgeOldData_gone {r : TaskId × Task} (hr : r ∈ db.tasks.rows) :
    (purgeOldData cfg now limit db).tasks.get r.1 = none ↔
      r.1 ∈ selectDone cfg now (purgeLimit cfg limit) db ∨
        r.1 ∈ selectDlq cfg now (purgeLimit cfg limit)
          (deleteTasks db (selectDone cfg now (purgeLimit cfg limit) db)) := by
  have hrow := (Table.get_eq_some_iff _ _ _).mpr hr
  have hpurge : (purgeOldData cfg now limit db).tasks =
      (purgeDlqTasks cfg now (purgeLimit cfg limit)
        (purgeDoneTasks cfg now (purgeLimit cfg limit) db)).tasks := by
    rw [purgeOldData, purgeAudit_tasks, purgeOutbox_tasks]
    rfl
  rw [hpurge, purgeDlqTasks_eq, purgeDoneTasks_eq, deleteTasks_gone, deleteTasks_gone, hrow]
  simp

theorem MayPurge.of_deadLetter {row : Task} (hs : row.status = .deadLetter) :
    MayPurge cfg now row ↔ FinishedFor cfg.retentionDlqTasksDays now row := by
  rw [MayPurge, if_pos hs]

/-- The first branch errs with dead letters only. -/
theorem MayPurge.of_done (hfinished : db.FinishedTerminal) {r : TaskId × Task}
    (hr : r ∈ db.tasks.rows) (hold : FinishedFor cfg.retentionDoneTasksDays now r.2)
    (hs : r.2.status ≠ .deadLetter) : MayPurge cfg now r.2 := by
  rw [MayPurge, if_neg hs]
  exact ⟨(hfinished r hr).mp (ne_none_of_any hold.2), hold⟩

/-- Retention keeps to both settings if and only if its first branch comes across no dead letter that
its own setting keeps. -/
theorem retention_respects_settings (cfg : Settings) (now : Time) (limit : Option Nat)
    (db : Database) (hfinished : db.FinishedTerminal) :
    RespectsSettings cfg now limit db ↔ SparesDeadLetters cfg now limit db := by
  constructor
  · intro h r hr hs hold hfew
    have hrow := (Table.get_eq_some_iff _ _ _).mpr hr
    have hselected := (mem_selectDone hrow).mpr ⟨hold, hfew⟩
    exact (MayPurge.of_deadLetter hs).mp (h r hr ((purgeOldData_gone hr).mpr (.inl hselected)))
  · intro h r hr hgone
    have hrow := (Table.get_eq_some_iff _ _ _).mpr hr
    obtain hdone | hdlq := (purgeOldData_gone hr).mp hgone
    · obtain ⟨hold, hfew⟩ := (mem_selectDone hrow).mp hdone
      by_cases hs : r.2.status = .deadLetter
      · exact (MayPurge.of_deadLetter hs).mpr (h r hr hs hold hfew)
      · exact MayPurge.of_done hfinished hr hold hs
    · obtain ⟨row, hleft, hs, hold⟩ := mem_selectDlq hdlq
      have hsame := (get_of_deleteTasks hleft).1
      rw [hrow] at hsame
      cases hsame
      exact (MayPurge.of_deadLetter hs).mpr hold

/-- A dead letter that finished forty days ago and has used up its requeues. -/
def oldDeadLetter : Task where
  taskType := "fail"
  payload := "{}"
  status := .deadLetter
  priority := .normal
  maxAttempts := 1
  attempts := 1
  idempotencyKey := none
  scheduledAt := none
  startedAt := some 0
  finishedAt := some 0
  leaseOwner := none
  leaseExpiresAt := none
  result := none
  lastError := some "x"
  createdBy := none
  batchId := none
  dlqRequeueCount := 3
  dlqRetryAt := none
  createdAt := 0
  updatedAt := 0

def oldDeadLetterDatabase : Database :=
  { Database.empty with tasks := Table.empty.insert oldDeadLetter }

/-- With equal settings the first branch takes no dead letter too early. -/
theorem retention_respects_settings_default :
    RespectsSettings .default (timedeltaDays 40) none oldDeadLetterDatabase ↔
      SparesDeadLetters .default (timedeltaDays 40) none oldDeadLetterDatabase :=
  retention_respects_settings .default (timedeltaDays 40) none oldDeadLetterDatabase (by decide)

/-- Dead letters are to be kept, but the first branch deletes one. -/
theorem kept_dead_letter_purged :
    oldDeadLetterDatabase.FinishedTerminal ∧
      ¬ RespectsSettings { Settings.default with retentionDlqTasksDays := 0 } (timedeltaDays 40) none
        oldDeadLetterDatabase := by
  decide +kernel

end TaskPlatform
