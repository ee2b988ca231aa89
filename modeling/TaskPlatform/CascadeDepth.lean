import TaskPlatform.Cascade

/-!
# A stack with room

Every level of the cascade takes one task out of `created`, so the number of
created tasks bounds the depth. Where the stack has room for as many calls as
there are tasks, an allowed status change of an existing row succeeds.
-/

namespace TaskPlatform

open Run

/-- The tasks that a cascade can still take out of `created`. -/
def Database.createdTasks (db : Database) : List (TaskId × Task) :=
  db.tasks.select (fun r => r.2.status == .created)

/-- A status change of a created task leaves one created task less. -/
theorem createdTasks_move {db : Database} {id : TaskId} {row : Task} (now : Time)
    (task : Task) {new : Status} (eventType : EventType) (details : Option Details)
    (hrow : db.tasks.get id = some row) (hs : row.status = .created) (hnew : new ≠ .created) :
    (db.move now id task new eventType details).createdTasks.length < db.createdTasks.length := by
  have hselect : (db.move now id task new eventType details).createdTasks =
      db.createdTasks.filter (fun r => decide (r.1 ≠ id)) := by
    refine Table.select_modify_of_false db.tasks id _ _ fun a => ?_
    simpa using hnew
  rw [hselect, List.length_filter_lt_length_iff_exists]
  refine ⟨(id, row), (db.tasks.mem_select _ id row).mpr ⟨hrow, by simpa using hs⟩, by simp⟩

theorem CascadeStep.createdTasks {cfg : Settings} {db db' : Database} {l : Label}
    (h : CascadeStep cfg db l db') : db'.createdTasks.length < db.createdTasks.length := by
  cases h with
  | cancel now details hrow hs => exact createdTasks_move now _ _ _ hrow hs (by decide)
  | unblock now details hrow hs hp => exact createdTasks_move now _ _ _ hrow hs (by decide)

theorem createdTasks_trace {cfg : Settings} {db db' : Database} {ls : List Label}
    (h : Trace (CascadeStep cfg) db ls db') :
    db'.createdTasks.length ≤ db.createdTasks.length := by
  induction h with
  | nil db => exact le_refl _
  | cons hstep _ ih => exact le_trans ih (le_of_lt hstep.createdTasks)

/-- One turn of `advance_children` succeeds, if the cascades one level down do. -/
theorem advanceChild_total {cfg : Settings} {now : Time} {n : Nat} {db : Database} (id : TaskId)
    (status : Status) (child : TaskId) (hle : db.createdTasks.length ≤ n)
    (ih : ∀ m < n, ∀ db id, db.createdTasks.length ≤ m →
      ∃ db', cascade cfg now m db id .cancelled = .ok db') :
    ∃ db', advanceChild (setStatusFuel cfg now n) cfg id status db child = .ok db' := by
  unfold advanceChild
  split
  · exact ⟨_, rfl⟩
  · rename_i row hrow
    split
    · exact ⟨_, rfl⟩
    · rename_i hcreated
      rw [not_not] at hcreated
      have hpos : 0 < n := by
        refine Nat.lt_of_lt_of_le (List.length_pos_of_mem (a := (child, row)) ?_) hle
        exact (db.tasks.mem_select _ child row).mpr ⟨hrow, by simpa using hcreated⟩
      obtain ⟨m, rfl⟩ := Nat.exists_eq_succ_of_ne_zero (Nat.ne_of_gt hpos)
      split
      · split
        · exact ⟨_, unblock_created m id hrow hcreated⟩
        · exact ⟨_, rfl⟩
      · have hmove := createdTasks_move now row .cancelled (some (.parentTerminal id status)) hrow
          hcreated (by decide : Status.cancelled ≠ .created)
        obtain ⟨db', hdb'⟩ := ih m (Nat.lt_succ_self m) (db.move now child row .cancelled .cancelled
          (some (.parentTerminal id status))) child (by omega)
        rw [cancelBlocked, setStatusFuel_cancelled m _ hrow hcreated, hdb']
        exact ⟨_, rfl⟩

theorem cascade_total {cfg : Settings} {now : Time} (n : Nat) {db : Database} (id : TaskId)
    (new : Status) (hle : db.createdTasks.length ≤ n) :
    ∃ db', cascade cfg now n db id new = .ok db' := by
  induction n using Nat.strong_induction_on generalizing db id new with
  | _ n ih =>
    unfold cascade
    split
    · unfold advanceChildren
      generalize db.childrenOf id = children
      induction children generalizing db with
      | nil => exact ⟨db, rfl⟩
      | cons child children ihc =>
        obtain ⟨db₁, hchild⟩ := advanceChild_total id new child hle
          (fun m hm db id hdb => ih m hm id .cancelled hdb)
        obtain ⟨ls, htr⟩ := (advanceChild_ok hchild).trace
        obtain ⟨db', hrest⟩ := ihc (le_trans (createdTasks_trace htr) hle)
        exact ⟨db', by rw [List.foldlM_cons, hchild]; exact hrest⟩
    · exact ⟨db, rfl⟩

/-- An allowed status change of an existing row succeeds. -/
theorem setStatus_total {cfg : Settings} {now : Time} {db : Database} {task : Instance}
    {row : Task} {new : Status} (eventType : EventType) (details : Option Details)
    (hrow : db.tasks.get task.id = some row) (hst : task.loaded.status = task.cur.status)
    (ht : canTransition task.cur.status new = true) :
    ∃ r, setStatus cfg now db task new eventType details = .ok r := by
  rw [setStatus, setStatusFuel_succ _ _ _ hrow hst ht]
  have hle : (db.change now task.id
      ((Task.merge task.loaded (setStatusFields now task.cur new) row).touch now)
      task.cur.status new eventType details (movedTask now task.cur new)).createdTasks.length ≤
      db.tasks.rows.length := by
    refine le_trans (List.length_filter_le _ _) ?_
    simp [Database.change, enqueueFor, Database.setTask, recordEvent, Table.modify]
  obtain ⟨db', hdb'⟩ : ∃ db', cascade cfg now _ _ task.id new = .ok db' :=
    cascade_total _ task.id new hle
  exact ⟨_, by rw [hdb']; rfl⟩

end TaskPlatform
