import TaskPlatform.Requeue

/-!
# Whole ticks of the coordinator

A tick runs one of the loops over the rows that its query selected. In a sound
state no tick raises, and it puts every selected task into the queue once and
leaves all others.
-/

namespace TaskPlatform

open Run

/-- What a tick over the rows `sel` did. -/
structure Ticked (sel : List (TaskId × Task)) (cycles : Nat) (holding : WorkerId → Option Held)
    (db db' : Database) : Prop where
  requeued : ∀ r ∈ sel, Requeued r.1 r.2 cycles (db.entry r.1) (db'.entry r.1)
  others : ∀ i, i ∉ sel.map Prod.fst → db'.entry i = db.entry i
  sound : Platform.Sound ⟨db', holding⟩

section

variable {cfg : Settings} {now : Time} {limit : Nat} {locked : TaskId → Bool} {db : Database}
  {holding : WorkerId → Option Held}

theorem fold_ticked {body : Database → TaskId × Task → Except TaskError Database} {cycles : Nat}
    {sel : List (TaskId × Task)}
    (hbody : ∀ r ∈ sel, Turn (fun db t => body db t.row) cycles holding ⟨r, none⟩)
    (hnodup : (sel.map Prod.fst).Nodup) (hrows : ∀ r ∈ sel, db.tasks.get r.1 = some r.2)
    (h : Platform.Sound ⟨db, holding⟩) :
    ∃ db', sel.foldlM body db = .ok db' ∧ Ticked sel cycles holding db db' := by
  have hkeys : (sel.map (fun r => (⟨r, none⟩ : Turned))).map (·.row.1) = sel.map Prod.fst := by
    rw [List.map_map]
    rfl
  have hturns : ∀ t ∈ sel.map (fun r => (⟨r, none⟩ : Turned)),
      Turn (fun db t => body db t.row) cycles holding t := by
    intro t ht
    obtain ⟨r, hr, rfl⟩ := List.mem_map.mp ht
    exact hbody r hr
  have hfound : ∀ t ∈ sel.map (fun r => (⟨r, none⟩ : Turned)),
      db.tasks.get t.row.1 = some t.row.2 := by
    intro t ht
    obtain ⟨r, hr, rfl⟩ := List.mem_map.mp ht
    exact hrows r hr
  obtain ⟨db', hfold, hall, hothers, hsound⟩ := fold_turns hturns (hkeys ▸ hnodup) hfound h
  rw [List.foldlM_map] at hfold
  exact ⟨db', hfold, fun r hr => hall _ (List.mem_map_of_mem hr),
    fun i hi => hothers i (hkeys.symm ▸ hi), hsound⟩

theorem requeueDueTasks_ticked (h : Platform.Sound ⟨db, holding⟩) :
    ∃ db', requeueDueTasks cfg now limit locked db = .ok db' ∧
      Ticked (selectLocked db (isDue now) (fun t => t.scheduledAt.getD 0) limit locked) 0 holding
        db db' :=
  fold_ticked (fun _ hr => requeueDue_turn cfg now (mem_selectLocked hr).2.1 holding)
    (selectLocked_nodup _ _ _ _ _) (fun _ hr => (mem_selectLocked hr).1) h

theorem requeueDlqTasks_ticked (henabled : cfg.dlqRetryEnabled = true)
    (h : Platform.Sound ⟨db, holding⟩) :
    ∃ db', requeueDlqTasks cfg now limit locked db = .ok db' ∧
      Ticked (selectLocked db (isDlqDue cfg now) (fun t => t.dlqRetryAt.getD 0) limit locked) 1
        holding db db' := by
  rw [requeueDlqTasks, if_pos henabled]
  exact fold_ticked (fun _ hr => requeueDlq_turn cfg now (mem_selectLocked hr).2.1 holding)
    (selectLocked_nodup _ _ _ _ _) (fun _ hr => (mem_selectLocked hr).1) h

/-- Recovery reads the attempt right before it writes it. -/
theorem recoverStuck_turn {r : TaskId × Task} (h : isStuck now r.2 = true) :
    Turn (fun db t => recoverStuck cfg now db t.row) 0 holding ⟨r, none⟩ := by
  intro db (hrow : db.tasks.get r.1 = some r.2) hsound
  let t : Turned := ⟨r, lastRunningAttempt db r.1⟩
  have hstuck : isStuck now t.row.2 = true := h
  have hopen : ∀ a ∈ t.attempt, a.2.status = .running := fun a ha => (lastRunning_mem ha).2
  obtain ⟨db', hok, hturn⟩ := recoverStuckFrom_turn cfg now hstuck hopen holding db hrow hsound
  exact ⟨db', (recoverStuckFrom_lastRunning cfg now db r).symm.trans hok, hturn⟩

theorem recoverStuckTasks_ticked (h : Platform.Sound ⟨db, holding⟩) :
    ∃ db', recoverStuckTasks cfg now limit locked db = .ok db' ∧
      Ticked (selectLocked db (isStuck now) (fun t => t.leaseExpiresAt.getD 0) limit locked) 0
        holding db db' := by
  have hmarked : Platform.Sound ⟨markDeadWorkers cfg now db, holding⟩ :=
    ⟨h.foreignKeys, h.views, h.held⟩
  have hrows : ∀ r ∈ selectLocked db (isStuck now) (fun t => t.leaseExpiresAt.getD 0) limit locked,
      (markDeadWorkers cfg now db).tasks.get r.1 = some r.2 :=
    fun r hr => (mem_selectLocked hr).1
  obtain ⟨db', hok, hticked⟩ := fold_ticked
    (fun _ hr => recoverStuck_turn (mem_selectLocked hr).2.1) (selectLocked_nodup _ _ _ _ _) hrows
    hmarked
  exact ⟨db', hok, hticked.requeued, hticked.others, hticked.sound⟩

end

end TaskPlatform
