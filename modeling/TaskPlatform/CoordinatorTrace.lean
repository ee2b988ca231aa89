import TaskPlatform.Cascade

/-!
# What the coordinator's transactions do

A coordinator step loads its rows once and then treats them one after another.
A turn writes no other loaded row, so every turn finds its row as it was loaded.
-/

namespace TaskPlatform

open Run

theorem mem_selectLocked {db : Database} {cond : Task → Bool} {key : Task → Time} {limit : Nat}
    {locked : TaskId → Bool} {r : TaskId × Task}
    (h : r ∈ selectLocked db cond key limit locked) :
    db.tasks.get r.1 = some r.2 ∧ cond r.2 = true ∧ locked r.1 = false := by
  have hm := (List.mem_insertionSort _).mp (List.mem_of_mem_take h)
  obtain ⟨hrow, hc⟩ := (db.tasks.mem_select _ r.1 r.2).mp hm
  rw [Bool.and_eq_true, Bool.not_eq_true'] at hc
  exact ⟨hrow, hc⟩

theorem selectLocked_nodup (db : Database) (cond : Task → Bool) (key : Task → Time) (limit : Nat)
    (locked : TaskId → Bool) : ((selectLocked db cond key limit locked).map Prod.fst).Nodup := by
  have hperm := (List.perm_insertionSort (fun a b : TaskId × Task => key a.2 ≤ key b.2)
    (db.tasks.select (fun r => cond r.2 && !locked r.1))).map Prod.fst
  exact (hperm.nodup_iff.mpr (db.tasks.select_nodup _)).sublist
    ((List.take_sublist _ _).map Prod.fst)

/-- The turns over rows that were all loaded before the first turn. -/
theorem loaded_trace {cfg : Settings} {Q : Label → Prop} {sel : List (TaskId × Task)}
    {body : Database → TaskId × Task → Except TaskError Database}
    (hbody : ∀ db r db', r ∈ sel → db.tasks.get r.1 = some r.2 → body db r = .ok db' →
      (∃ l, Change cfg db l db' ∧ Q l) ∧ ∀ i, i ≠ r.1 → db'.tasks.get i = db.tasks.get i)
    (hnodup : (sel.map Prod.fst).Nodup) {db db' : Database}
    (hrows : ∀ r ∈ sel, db.tasks.get r.1 = some r.2) (h : sel.foldlM body db = .ok db') :
    ∃ ls, Trace (Change cfg) db ls db' ∧ ∀ l ∈ ls, Q l := by
  refine trace_foldlM (fun db => db) (fun rest db => rest ⊆ sel ∧ (rest.map Prod.fst).Nodup ∧
    ∀ r ∈ rest, db.tasks.get r.1 = some r.2) ?_ sel ⟨List.Subset.refl _, hnodup, hrows⟩ h
  rintro db r rest db' ⟨hsub, hnd, hget⟩ hturn
  rw [List.map_cons, List.nodup_cons] at hnd
  obtain ⟨⟨l, hc, hq⟩, hframe⟩ :=
    hbody db r db' (hsub List.mem_cons_self) (hget r List.mem_cons_self) hturn
  refine ⟨⟨[l], .single hc, by simpa using hq⟩, fun x hx => hsub (List.mem_cons_of_mem _ hx),
    hnd.2, fun x hx => ?_⟩
  have hne : x.1 ≠ r.1 := fun he => hnd.1 (he ▸ List.mem_map_of_mem hx)
  rw [hframe x.1 hne]
  exact hget x (List.mem_cons_of_mem _ hx)

theorem requeueOrphaned_trace {cfg : Settings} {now : Time} {limit : Nat}
    {locked : TaskId → Bool} {db db' : Database}
    (h : requeueOrphanedQueuedTasks cfg now limit locked db = .ok db') :
    ∃ ls, Trace (Change cfg) db ls db' ∧ ∀ l ∈ ls, l = .other := by
  have hfold : (selectLocked db (isOrphaned cfg now) (·.updatedAt) limit locked).foldlM
      (fun db r => (pure (addOutbox cfg db r.1 r.2 true) : Except TaskError Database)) db
      = .ok db' := by
    rw [List.foldlM_pure]
    exact h
  refine loaded_trace (fun db₁ r db₂ hr _ hturn => ?_) (selectLocked_nodup _ _ _ _ _)
    (fun r hr => (mem_selectLocked hr).1) hfold
  cases hturn
  have hq : r.2.status = .queued := by
    have hc := (mem_selectLocked hr).2.1
    simp only [isOrphaned, Bool.and_eq_true, beq_iff_eq] at hc
    exact hc.1.1
  exact ⟨⟨_, .republish hq, rfl⟩, fun _ _ => rfl⟩

/-- Republishing writes no task. -/
theorem requeueOrphaned_tasks {cfg : Settings} {now : Time} {limit : Nat}
    {locked : TaskId → Bool} {db db' : Database}
    (h : requeueOrphanedQueuedTasks cfg now limit locked db = .ok db') :
    db'.tasks = db.tasks := by
  cases h
  generalize selectLocked db (isOrphaned cfg now) (·.updatedAt) limit locked = stuck
  induction stuck generalizing db with
  | nil => rfl
  | cons r stuck ih => exact ih

/-- The ids that a step of `requeue_due_tasks` requeues. -/
def dueIds (now : Time) (limit : Nat) (locked : TaskId → Bool) (db : Database) : List TaskId :=
  (selectLocked db (isDue now) (fun t => t.scheduledAt.getD 0) limit locked).map Prod.fst

theorem requeueDue_ok {cfg : Settings} {now : Time} {db db' : Database} {r : TaskId × Task}
    (hrow : db.tasks.get r.1 = some r.2) (hs : r.2.status ∈ dueStatuses)
    (h : requeueDue cfg now db r = .ok db') :
    Change cfg db (.enqueue .due r.1) db' ∧
      ∀ i, i ≠ r.1 → db'.tasks.get i = db.tasks.get i := by
  obtain ⟨⟨db₁, task⟩, hset, hdb⟩ := bind_ok h
  cases hdb
  have ht : canTransition r.2.status .queued = true := by
    simp only [dueStatuses, List.mem_cons, List.not_mem_nil, or_false] at hs
    rcases hs with hs | hs <;> rw [hs] <;> rfl
  obtain ⟨rfl, rfl⟩ := setStatus_ok hrow rfl ht (by decide) hset
  exact ⟨.enqueue now .due _ _ true hrow hs trivial, fun i hi => move_get_of_ne _ _ _ _ _ _ hi⟩

theorem requeueDueTasks_trace {cfg : Settings} {now : Time} {limit : Nat}
    {locked : TaskId → Bool} {db db' : Database}
    (h : requeueDueTasks cfg now limit locked db = .ok db') :
    ∃ ls, Trace (Change cfg) db ls db' ∧
      ∀ l ∈ ls, ∃ id ∈ dueIds now limit locked db, l = .enqueue .due id := by
  refine loaded_trace (fun db₁ r db₂ hr hrow hturn => ?_) (selectLocked_nodup _ _ _ _ _)
    (fun r hr => (mem_selectLocked hr).1) h
  have hs : r.2.status ∈ dueStatuses := by
    have hc := (mem_selectLocked hr).2.1
    simp only [isDue, Bool.and_eq_true, decide_eq_true_eq] at hc
    exact hc.1
  obtain ⟨hc, hframe⟩ := requeueDue_ok hrow hs hturn
  exact ⟨⟨_, hc, r.1, List.mem_map_of_mem hr, rfl⟩, hframe⟩

/-- The ids that a step of `requeue_dlq_tasks` requeues. -/
def dlqIds (cfg : Settings) (now : Time) (limit : Nat) (locked : TaskId → Bool) (db : Database) :
    List TaskId :=
  if cfg.dlqRetryEnabled then
    (selectLocked db (isDlqDue cfg now) (fun t => t.dlqRetryAt.getD 0) limit locked).map Prod.fst
  else []

theorem mem_dlqIds {cfg : Settings} {now : Time} {limit : Nat} {locked : TaskId → Bool}
    {db : Database} {id : TaskId} (h : id ∈ dlqIds cfg now limit locked db) :
    ∃ row, db.tasks.get id = some row ∧ isDlqDue cfg now row = true := by
  unfold dlqIds at h
  split at h
  · obtain ⟨r, hr, rfl⟩ := List.mem_map.mp h
    exact ⟨r.2, (mem_selectLocked hr).1, (mem_selectLocked hr).2.1⟩
  · cases h

theorem requeueDlq_ok {cfg : Settings} {now : Time} {db db' : Database} {r : TaskId × Task}
    (hrow : db.tasks.get r.1 = some r.2) (hs : r.2.status = .deadLetter)
    (h : requeueDlq cfg now db r = .ok db') :
    Change cfg db (.enqueue .dlq r.1) db' ∧
      ∀ i, i ≠ r.1 → db'.tasks.get i = db.tasks.get i := by
  obtain ⟨⟨db₁, task⟩, hset, hdb⟩ := bind_ok h
  cases hdb
  have hst : r.2.status = (Cause.dlq.prepare r.2).status := rfl
  have ht : canTransition (Cause.dlq.prepare r.2).status .queued = true := by
    rw [← hst, hs]; rfl
  obtain ⟨rfl, rfl⟩ := setStatus_ok hrow hst ht (by decide) hset
  have hsource : r.2.status ∈ Cause.dlq.sources := by rw [hs]; exact List.mem_cons_self
  exact ⟨.enqueue now .dlq _ _ true hrow hsource trivial, fun i hi => move_get_of_ne _ _ _ _ _ _ hi⟩

theorem requeueDlqTasks_trace {cfg : Settings} {now : Time} {limit : Nat}
    {locked : TaskId → Bool} {db db' : Database}
    (h : requeueDlqTasks cfg now limit locked db = .ok db') :
    ∃ ls, Trace (Change cfg) db ls db' ∧
      ∀ l ∈ ls, ∃ id ∈ dlqIds cfg now limit locked db, l = .enqueue .dlq id := by
  unfold requeueDlqTasks at h
  unfold dlqIds
  split at h
  · rename_i henabled
    rw [if_pos henabled]
    refine loaded_trace (fun db₁ r db₂ hr hrow hturn => ?_) (selectLocked_nodup _ _ _ _ _)
      (fun r hr => (mem_selectLocked hr).1) h
    have hs : r.2.status = .deadLetter := by
      have hc := (mem_selectLocked hr).2.1
      simp only [isDlqDue, Bool.and_eq_true, beq_iff_eq] at hc
      exact hc.1.1
    obtain ⟨hc, hframe⟩ := requeueDlq_ok hrow hs hturn
    exact ⟨⟨_, hc, r.1, List.mem_map_of_mem hr, rfl⟩, hframe⟩
  · cases h
    exact ⟨[], .nil _, by simp⟩

/-- The ids that a step of `recover_stuck_tasks` looks at. -/
def stuckIds (now : Time) (limit : Nat) (locked : TaskId → Bool) (db : Database) : List TaskId :=
  (selectLocked db (isStuck now) (fun t => t.leaseExpiresAt.getD 0) limit locked).map Prod.fst

theorem recoverStuck_ok {cfg : Settings} {now : Time} {db db' : Database} {r : TaskId × Task}
    (hrow : db.tasks.get r.1 = some r.2) (hs : isStuck now r.2 = true)
    (h : recoverStuck cfg now db r = .ok db') :
    (∃ l, Change cfg db l db' ∧ (l = .other ∨ l = .recover r.1)) ∧
      ∀ i, i ≠ r.1 → db'.tasks.get i = db.tasks.get i := by
  simp only [isStuck, Bool.and_eq_true, decide_eq_true_eq] at hs
  obtain ⟨hexpired, hstatus⟩ := hs
  unfold recoverStuck at h
  split at h
  · rename_i hrun
    obtain ⟨⟨db₁, task⟩, hset, hdb⟩ := bind_ok h
    cases hdb
    have hrow' : (closeLastAttempt now db r.1).tasks.get r.1 = some r.2 := by
      rw [closeLastAttempt_tasks]; exact hrow
    have ht : canTransition r.2.status .queued = true := by rw [hrun]; rfl
    obtain ⟨rfl, rfl⟩ := setStatus_ok hrow' rfl ht (by decide) hset
    refine ⟨⟨_, .recover now _ hrow hrun hexpired, .inr rfl⟩, fun i hi => ?_⟩
    rw [addOutbox_tasks, move_get_of_ne _ _ _ _ _ _ hi, closeLastAttempt_tasks]
  · rename_i hrun
    have hq : r.2.status = .queued := by
      simp only [stuckStatuses, List.mem_cons, List.not_mem_nil, or_false] at hstatus
      exact hstatus.resolve_right hrun
    have hlease : r.2.leaseExpiresAt ≠ none := by
      intro hnone
      rw [hnone] at hexpired
      cases hexpired
    obtain ⟨⟨db₁, task⟩, hflush, hdb⟩ := bind_ok h
    cases hdb
    rw [flush_fresh hrow (fun he => hlease (congrArg Task.leaseExpiresAt he).symm)] at hflush
    cases hflush
    have hrelease : Change cfg db .other _ := .release now hrow hq hlease
    exact ⟨⟨_, hrelease, .inl rfl⟩, fun i hi => get_setTask_of_ne db _ hi⟩

theorem recoverStuckTasks_trace {cfg : Settings} {now : Time} {limit : Nat}
    {locked : TaskId → Bool} {db db' : Database}
    (h : recoverStuckTasks cfg now limit locked db = .ok db') :
    ∃ ls, Trace (Change cfg) db ls db' ∧
      ∀ l ∈ ls, l = .other ∨ ∃ id ∈ stuckIds now limit locked db, l = .recover id := by
  have hdead : Change cfg db .other (markDeadWorkers cfg now db) := .side _ _ _ _
  obtain ⟨ls, htr, hls⟩ : ∃ ls, Trace (Change cfg) (markDeadWorkers cfg now db) ls db' ∧
      ∀ l ∈ ls, l = .other ∨ ∃ id ∈ stuckIds now limit locked db, l = .recover id := loaded_trace
    (fun db₁ r db₂ hr hrow hturn => by
      obtain ⟨⟨l, hc, hl⟩, hframe⟩ := recoverStuck_ok hrow (mem_selectLocked hr).2.1 hturn
      exact ⟨⟨l, hc, hl.imp_right fun hl => ⟨r.1, List.mem_map_of_mem hr, hl⟩⟩, hframe⟩)
    (selectLocked_nodup _ _ _ _ _) (fun r hr => (mem_selectLocked hr).1) h
  refine ⟨_, .cons hdead htr, fun l hl => ?_⟩
  rcases List.mem_cons.mp hl with rfl | hl
  · exact .inl rfl
  · exact hls l hl

theorem mem_selectIds {α : Type} {t : Table α} {cond : α → Bool} {limit i : Nat}
    (h : i ∈ selectIds t cond limit) : ∃ a, t.get i = some a ∧ cond a = true := by
  obtain ⟨⟨j, a⟩, hm, rfl⟩ := List.mem_map.mp (List.mem_of_mem_take h)
  exact ⟨a, (t.mem_select _ j a).mp hm⟩

theorem ne_none_of_any {α : Type} {o : Option α} {p : α → Bool} (h : o.any p = true) :
    o ≠ none := by
  intro hnone
  rw [hnone] at h
  cases h

/-- `purge_old_data` keeps what the deletion of finished tasks, the purge of the outbox and the purge of
the audit log keep. -/
theorem purgeOldData_keeps {R : Database → Database → Prop} (hrefl : ∀ db, R db db)
    (htrans : ∀ {db₁ db₂ db₃ : Database}, R db₁ db₂ → R db₂ db₃ → R db₁ db₃)
    (hdelete : ∀ db ids,
      (∀ i ∈ ids, ∃ row, db.tasks.get i = some row ∧ row.finishedAt ≠ none) →
        R db (deleteTasks db ids)) {cfg : Settings} {now : Time}
    (houtbox : ∀ n db, R db (purgeOutbox cfg now n db))
    (haudit : ∀ n db, R db (purgeAudit cfg now n db)) (limit : Option Nat) (db : Database) :
    R db (purgeOldData cfg now limit db) := by
  have hdone : ∀ n db, R db (purgeDoneTasks cfg now n db) := by
    intro n db
    unfold purgeDoneTasks
    split
    · refine hdelete db _ fun i hi => ?_
      obtain ⟨row, hrow, hold⟩ := mem_selectIds hi
      exact ⟨row, hrow, ne_none_of_any hold⟩
    · exact hrefl db
  have hdlq : ∀ n db, R db (purgeDlqTasks cfg now n db) := by
    intro n db
    unfold purgeDlqTasks
    split
    · refine hdelete db _ fun i hi => ?_
      obtain ⟨row, hrow, hold⟩ := mem_selectIds hi
      rw [isOldDeadLetter, Bool.and_eq_true] at hold
      exact ⟨row, hrow, ne_none_of_any hold.2⟩
    · exact hrefl db
  exact htrans (htrans (htrans (hdone _ db) (hdlq _ _)) (houtbox _ _)) (haudit _ _)

theorem purgeOutbox_eq (cfg : Settings) (now : Time) (limit : Nat) (db : Database) :
    ∃ outbox, purgeOutbox cfg now limit db = { db with outbox := outbox } := by
  unfold purgeOutbox
  split <;> exact ⟨_, rfl⟩

theorem purgeAudit_eq (cfg : Settings) (now : Time) (limit : Nat) (db : Database) :
    ∃ auditLogs, purgeAudit cfg now limit db = { db with auditLogs := auditLogs } := by
  unfold purgeAudit
  split <;> exact ⟨_, rfl⟩

theorem purgeOutbox_trace (cfg : Settings) (now : Time) (limit : Nat) (db : Database) :
    ∃ ls, Trace (Change cfg) db ls (purgeOutbox cfg now limit db) ∧ ∀ l ∈ ls, l = .other := by
  unfold purgeOutbox
  split
  · refine ⟨_, .single (.deleteOutbox _ fun k hk => ?_), by simp⟩
    obtain ⟨e, he, hold⟩ := mem_selectIds hk
    exact ⟨e, he, ne_none_of_any hold⟩
  · exact ⟨[], .nil _, by simp⟩

theorem purgeAudit_trace (cfg : Settings) (now : Time) (limit : Nat) (db : Database) :
    ∃ ls, Trace (Change cfg) db ls (purgeAudit cfg now limit db) ∧ ∀ l ∈ ls, l = .other := by
  unfold purgeAudit
  split
  · exact ⟨_, .single (.side _ _ _ _), by simp⟩
  · exact ⟨[], .nil _, by simp⟩

theorem purgeOldData_trace (cfg : Settings) (now : Time) (limit : Option Nat) (db : Database) :
    ∃ ls, Trace (Change cfg) db ls (purgeOldData cfg now limit db) ∧ ∀ l ∈ ls, l = .other := by
  refine purgeOldData_keeps
    (R := fun db db' => ∃ ls, Trace (Change cfg) db ls db' ∧ ∀ l ∈ ls, l = .other)
    (fun db => ⟨[], .nil db, by simp⟩) ?_ (fun db ids hids => ?_) (purgeOutbox_trace cfg now)
    (purgeAudit_trace cfg now) limit db
  · rintro db₁ db₂ db₃ ⟨ls, htr, hls⟩ ⟨ms, htr', hms⟩
    refine ⟨ls ++ ms, htr.append htr', fun l hl => ?_⟩
    obtain hl | hl := List.mem_append.mp hl
    · exact hls l hl
    · exact hms l hl
  · exact ⟨_, .single (.deleteTasks ids hids), by simp⟩

end TaskPlatform
