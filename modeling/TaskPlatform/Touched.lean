import TaskPlatform.Footprint
import TaskPlatform.Invariant

/-!
# When a row was written

Every `UPDATE` of a task refreshes `updated_at` (`onupdate=func.now()`), and an
insertion sets it. So a row that a transaction leaves is either the row that was
there or carries the time of the transaction.
-/

namespace TaskPlatform

open Run

/-- Every row of `db'` that `db` has not was written at `now`. -/
def Touched (now : Time) (db db' : Database) : Prop :=
  ∀ id row', db'.tasks.get id = some row' → db.tasks.get id = some row' ∨ row'.updatedAt = now

theorem Touched.of_tasks (now : Time) {db db' : Database} (h : db'.tasks = db.tasks) :
    Touched now db db' := by
  intro id row' hrow'
  rw [h] at hrow'
  exact .inl hrow'

theorem Touched.refl (now : Time) (db : Database) : Touched now db db := .of_tasks now rfl

theorem Touched.trans {now : Time} {db₁ db₂ db₃ : Database} (h₁ : Touched now db₁ db₂)
    (h₂ : Touched now db₂ db₃) : Touched now db₁ db₃ := by
  intro id row' hrow'
  obtain hold | hnow := h₂ id row' hrow'
  · exact h₁ id row' hold
  · exact .inr hnow

theorem Touched.with_tasks {now : Time} {db db₁ db₂ : Database} (h : Touched now db db₁)
    (htasks : db₂.tasks = db₁.tasks) : Touched now db db₂ := h.trans (.of_tasks now htasks)

theorem Touched.setTask (db : Database) (id : TaskId) (row : Task) :
    Touched row.updatedAt db (db.setTask id row) := by
  intro i row' hrow'
  rw [get_setTask] at hrow'
  split at hrow'
  · obtain ⟨_, -, rfl⟩ := Option.map_eq_some_iff.mp hrow'
    exact .inr rfl
  · exact .inl hrow'

theorem Touched.insertTask (cfg : Settings) (now : Time) (db : Database) (spec : TaskSpec) :
    Touched now db (insertTask cfg now db spec) := by
  intro i row' hrow'
  rw [show (TaskPlatform.insertTask cfg now db spec).tasks = db.tasks.insert (spec.row cfg now)
    from rfl, Table.get_insert] at hrow'
  split at hrow'
  · cases hrow'
    exact .inr rfl
  · exact .inl hrow'

theorem Touched.deleteTasks (now : Time) (db : Database) (ids : List TaskId) :
    Touched now db (deleteTasks db ids) := by
  intro i row' hrow'
  rw [show (TaskPlatform.deleteTasks db ids).tasks = db.tasks.erase (fun r => decide (r.1 ∈ ids))
    from rfl, Table.get_erase, Option.filter_eq_some_iff] at hrow'
  exact .inl hrow'.1

theorem flush_touched {now : Time} {db db' : Database} {task task' : Instance}
    (h : flush now db task = .ok (db', task')) : Touched now db db' := by
  unfold flush at h
  split at h
  · cases h
    exact .refl now db
  · split at h
    · cases h
    · cases h
      exact .setTask db task.id _

/-- Every common write of a transaction is stamped with its time. -/
theorem touched_footprint (now : Time) : Footprint now (Touched now) where
  refl := .refl now
  trans h₁ h₂ := h₁.trans h₂
  flush := flush_touched
  change := by
    intro db db₁ task task₁ cur eventType new details h
    have hevent : Touched now db (recordEvent now db task.id task.cur.status eventType new
      details) := .of_tasks now rfl
    exact (hevent.trans (flush_touched h)).with_tasks rfl
  outbox _ _ _ _ _ := .of_tasks now rfl
  attempts _ _ := .of_tasks now rfl
  workers _ _ := .of_tasks now rfl

theorem createTask_touched {cfg : Settings} {now : Time} {db db' : Database} {spec : TaskSpec}
    {id : TaskId} (h : createTask cfg now db spec = .ok (db', id)) : Touched now db db' := by
  have hinsert := Touched.insertTask cfg now db spec
  obtain ⟨-, hrest⟩ | ⟨p, ps, deps, -, rfl⟩ := (touched_footprint now).createTask h
  · exact hinsert.trans hrest
  · exact hinsert.with_tasks rfl

theorem startTask_touched {cfg : Settings} {now : Time} {db db' : Database} {w : WorkerId}
    {id : TaskId} {held : Held} (h : startTask cfg now db w id = .ok (some (db', held))) :
    Touched now db db' := by
  obtain ⟨row, db₁, number, -, hrest, rfl⟩ := (touched_footprint now).startTask h
  have hleased : Touched now db (db.setTask id (leased now w cfg.taskLeaseSeconds row)) :=
    .setTask db id _
  exact (hleased.trans hrest).with_tasks rfl

theorem renewLease_touched (now : Time) (db : Database) (id : TaskId) (w : WorkerId)
    (seconds : ℚ) : Touched now db (renewLease now db id w seconds).1 := by
  unfold renewLease
  split
  · exact .refl now db
  · split
    · exact .setTask db id _
    · exact .refl now db

theorem purgeOldData_touched (cfg : Settings) (now : Time) (limit : Option Nat) (db : Database) :
    Touched now db (purgeOldData cfg now limit db) := by
  refine purgeOldData_keeps (Touched.refl now) (fun h₁ h₂ => h₁.trans h₂)
    (fun db ids _ => .deleteTasks now db ids) (fun n db => ?_) (fun n db => ?_) limit db
  · obtain ⟨outbox, he⟩ := purgeOutbox_eq cfg now n db
    rw [he]
    exact .of_tasks now rfl
  · obtain ⟨auditLogs, he⟩ := purgeAudit_eq cfg now n db
    rw [he]
    exact .of_tasks now rfl

/-- A row that a step leaves is the row that was there, or carries the time of the step. -/
theorem step_touched (cfg : Settings) (p : Platform) (a : Action) {id : TaskId} {row' : Task}
    (h : (p.step cfg a).db.tasks.get id = some row') :
    p.db.tasks.get id = some row' ∨ a.clock = some row'.updatedAt := by
  have hclock : ∀ now, a.clock = some now → Touched now p.db (p.step cfg a).db →
      p.db.tasks.get id = some row' ∨ a.clock = some row'.updatedAt := by
    intro now hnow ht
    obtain hold | hstamp := ht id row' h
    · exact .inl hold
    · exact .inr (hnow.trans (congrArg some hstamp.symm))
  have hR := touched_footprint
  cases a with
  | createTask now spec =>
    refine hclock now rfl (commitCreated_of (P := Touched now p.db) ?_ fun db' i hcreate => ?_)
    · exact fun _ _ hrow => .inl hrow
    · exact createTask_touched hcreate
  | manualRetry now i => exact hclock now rfl ((hR now).commitFound fun _ => (hR now).manualRetry)
  | cancelTask now i => exact hclock now rfl ((hR now).commitFound fun _ => (hR now).cancelTask)
  | bulkRetry now ids =>
    refine hclock now rfl ((hR now).commit fun db' hok => ?_)
    obtain ⟨r, hbulk, rfl⟩ := map_ok hok
    exact (hR now).bulk (fun _ _ _ => (hR now).manualRetry) hbulk
  | bulkCancel now ids =>
    refine hclock now rfl ((hR now).commit fun db' hok => ?_)
    obtain ⟨r, hbulk, rfl⟩ := map_ok hok
    exact (hR now).bulk (fun _ _ _ => (hR now).cancelTask) hbulk
  | start now w i =>
    refine hclock now rfl ?_
    simp only [Platform.step, startStep]
    split
    · exact .refl now p.db
    · split
      · rename_i db held hstart
        exact startTask_touched hstart
      · exact .refl now p.db
  | renewLease now w i => exact hclock now rfl (renewLease_touched now p.db i w _)
  | recordSuccess now w result =>
    exact hclock now rfl ((hR now).finishStep fun held db' => (hR now).recordSuccess)
  | recordFailure now w error retryable =>
    exact hclock now rfl ((hR now).finishStep fun held db' => (hR now).recordFailure)
  | requeueOrphaned now limit locked =>
    exact hclock now rfl ((hR now).commit fun _ => (hR now).requeueOrphaned)
  | requeueDue now limit locked =>
    exact hclock now rfl ((hR now).commit fun _ => (hR now).requeueDueTasks)
  | requeueDlq now limit locked =>
    exact hclock now rfl ((hR now).commit fun _ => (hR now).requeueDlqTasks)
  | recoverStuck now limit locked =>
    exact hclock now rfl ((hR now).commit fun _ => (hR now).recoverStuckTasks)
  | purgeOldData now limit => exact hclock now rfl (purgeOldData_touched cfg now limit p.db)
  | heartbeat now w =>
    refine hclock now rfl (.of_tasks now ?_)
    simp only [Platform.step, heartbeat]
    split <;> rfl
  | audit now action => exact hclock now rfl (.of_tasks now rfl)
  | crash w => exact .inl h
  | putWebhook i sub =>
    refine .inl (Eq.trans ?_ h)
    simp only [Platform.step, putWebhook]
    split <;> rfl
  | deleteWebhook i => exact .inl h

end TaskPlatform
