import TaskPlatform.Execution

/-!
# A lease that is renewed in time

`try_acquire_lease`, `renew_lease` and `recover_stuck_tasks` each compare the
lease with their own clock. A running task is written only by an operator's
cancellation, an outcome, a recovery and a renewal; so as long as its worker
renews before any clock passes the end of the lease, nobody else gets the task.
-/

namespace TaskPlatform

open Run

theorem flush_frame {now : Time} {db db' : Database} {task task' : Instance}
    (h : flush now db task = .ok (db', task')) :
    task'.id = task.id ∧ ∀ i, i ≠ task.id → db'.tasks.get i = db.tasks.get i := by
  unfold flush at h
  split at h
  · cases h
    exact ⟨rfl, fun _ _ => rfl⟩
  · split at h
    · cases h
    · cases h
      exact ⟨rfl, fun i hi => get_setTask_of_ne db _ hi⟩

/-- A status change without a cascade writes its own task only. -/
theorem setStatus_frame {cfg : Settings} {now : Time} {db db' : Database} {task task' : Instance}
    {new : Status} {eventType : EventType} {details : Option Details} (hnew : new ∉ terminal)
    (h : setStatus cfg now db task new eventType details = .ok (db', task')) :
    ∀ i, i ≠ task.id → db'.tasks.get i = db.tasks.get i := by
  simp only [setStatus, setStatusFuel, setStatusBody] at h
  split at h
  · cases h
    exact fun _ _ => rfl
  · split at h
    · cases h
    · obtain ⟨⟨db₁, task₁⟩, hflush, h⟩ := bind_ok h
      rw [afterStatusChange, if_neg hnew] at h
      cases h
      exact (flush_frame hflush).2

theorem createTask_frame {cfg : Settings} {now : Time} {db db' : Database} {spec : TaskSpec}
    {id : TaskId} (h : createTask cfg now db spec = .ok (db', id)) {i : TaskId} {row : Task}
    (hrow : db.tasks.get i = some row) : db'.tasks.get i = some row := by
  have hne : i ≠ db.tasks.next := Nat.ne_of_lt (Table.get_lt hrow)
  have hinsert : (insertTask cfg now db spec).tasks.get i = some row :=
    Table.get_insert_of_some _ hrow
  simp only [createTask] at h
  split at h
  · cases h
  · split at h
    · obtain ⟨db₁, hdeps, hdb⟩ := bind_ok h
      cases hdb
      obtain ⟨rfl, -⟩ := registerDependencies_ok hdeps
      exact hinsert
    · split at h
      · cases h
      split at h
      · obtain ⟨⟨db₁, task⟩, hset, hdb⟩ := bind_ok h
        cases hdb
        exact (setStatus_frame (by decide) hset i hne).trans hinsert
      · obtain ⟨⟨db₁, task⟩, hset, hdb⟩ := bind_ok h
        cases hdb
        exact (setStatus_frame (by decide) hset i hne).trans hinsert

section

variable {cfg : Settings} {db db' : Database} {id : TaskId} {row : Task}
  (hrow : db.tasks.get id = some row)

include hrow

/-- Retention deletes finished tasks only. -/
theorem purgeOldData_frame (hfin : row.finishedAt = none) (now : Time) (limit : Option Nat) :
    (purgeOldData cfg now limit db).tasks.get id = some row := by
  refine purgeOldData_keeps
    (R := fun db db' => db.tasks.get id = some row → db'.tasks.get id = some row)
    (fun db hget => hget) (fun h₁ h₂ hget => h₂ (h₁ hget)) (fun db ids hids hget => ?_)
    (fun n db hget => ?_) (fun n db hget => ?_) limit db hrow
  · have hid : id ∉ ids := by
      intro hm
      obtain ⟨row₁, hrow₁, hfin₁⟩ := hids id hm
      rw [hget] at hrow₁
      cases hrow₁
      exact hfin₁ hfin
    have hview := view_deleteTasks db ids id
    rw [if_neg hid] at hview
    exact (congrArg View.row hview).trans hget
  · obtain ⟨outbox, he⟩ := purgeOutbox_eq cfg now n db
    rw [he]
    exact hget
  · obtain ⟨auditLogs, he⟩ := purgeAudit_eq cfg now n db
    rw [he]
    exact hget

theorem renewLease_frame {now : Time} {w : WorkerId} {i : TaskId} {seconds : ℚ}
    (h : id ≠ i ∨ row.leaseOwner ≠ some w) :
    (renewLease now db i w seconds).1.tasks.get id = some row := by
  unfold renewLease
  split
  · exact hrow
  · rename_i row₁ hrow₁
    split
    · rename_i hc
      by_cases hid : id = i
      · subst hid
        rw [hrow, Option.some.injEq] at hrow₁
        subst hrow₁
        exact absurd hc.1 (h.resolve_left fun hne => hne rfl)
      · exact (get_setTask_of_ne db _ hid).trans hrow
    · exact hrow

/-- Recovery writes the rows that it selects. -/
theorem recoverStuckTasks_frame {now : Time} {limit : Nat} {locked : TaskId → Bool}
    (hid : id ∉ stuckIds now limit locked db)
    (h : recoverStuckTasks cfg now limit locked db = .ok db') : db'.tasks.get id = some row := by
  have hfold : (selectLocked (markDeadWorkers cfg now db) (isStuck now)
      (fun t => t.leaseExpiresAt.getD 0) limit locked).foldlM (recoverStuck cfg now)
        (markDeadWorkers cfg now db) = .ok db' := h
  have hmarked : (markDeadWorkers cfg now db).tasks.get id = some row := hrow
  refine foldlM_invariant (P := fun db : Database => db.tasks.get id = some row) _ ?_ hmarked hfold
  intro db₁ r hr db₂ hget hturn
  have hne : id ≠ r.1 := fun he => hid (he ▸ List.mem_map_of_mem hr)
  unfold recoverStuck at hturn
  split at hturn
  · obtain ⟨⟨db₃, task⟩, hset, hdb⟩ := bind_ok hturn
    cases hdb
    have hclosed : (closeLastAttempt now db₁ r.1).tasks.get id = some row := by
      rw [closeLastAttempt_tasks]
      exact hget
    exact (setStatus_frame (by decide) hset id hne).trans hclosed
  · obtain ⟨⟨db₃, task⟩, hflush, hdb⟩ := bind_ok hturn
    cases hdb
    exact ((flush_frame hflush).2 id hne).trans hget

variable (hrun : row.status = .running)

include hrun

/-- Entries into the queue and starts find their task in another status. -/
theorem Change.running_frame {l : Label} (h : Change cfg db l db')
    (hl : (∃ cause i, l = .enqueue cause i) ∨ ∃ w i, l = .start w i) :
    db'.tasks.get id = some row := by
  obtain ⟨cause, i, rfl⟩ | ⟨w, i, rfl⟩ := hl
  · cases h with
    | @enqueue now _ row₁ _ eventType details reattempt hrow₁ hs hready =>
      have hne : id ≠ i := by
        rintro rfl
        rw [hrow] at hrow₁
        cases hrow₁
        rw [hrun] at hs
        cases cause <;> simp [Cause.sources, retryable, dueStatuses] at hs
      rw [addOutbox_tasks, move_get_of_ne _ _ _ _ _ _ hne, hrow]
  · cases h with
    | @start now _ _ row₁ seen hrow₁ hs hfree =>
      have hne : id ≠ i := by
        rintro rfl
        rw [hrow] at hrow₁
        cases hrow₁
        rw [hrun] at hs
        cases hs
      exact (congrArg View.row (view_startedDb_of_ne now db w row₁ _ seen hne)).trans hrow

theorem running_frame_trace {ls : List Label} (h : Trace (Change cfg) db ls db')
    (hls : ∀ l ∈ ls, (∃ cause i, l = .enqueue cause i) ∨ ∃ w i, l = .start w i) :
    db'.tasks.get id = some row :=
  h.invariant (P := fun db : Database => db.tasks.get id = some row)
    (fun _ _ _ hp hl hc => hc.running_frame hp hrun hl) hls hrow

/-- A cancellation of another task leaves a running one, since it cascades to created ones. -/
theorem cancelTask_frame {now : Time} {i : TaskId} (hne : id ≠ i)
    (h : cancelTask cfg now db i = .ok (some db')) : db'.tasks.get id = some row := by
  obtain ⟨row₁, hrow₁, -, n, hcascade⟩ := cancelTask_ok h
  obtain ⟨ls, htr⟩ := cascade_trace hcascade
  have hmoved : (db.move now i row₁ .cancelled .cancelled none).tasks.get id = some row := by
    rw [move_get_of_ne _ _ _ _ _ _ hne, hrow]
  exact CascadeStep.frame_trace htr hmoved (by rw [hrun]; decide)

theorem bulkCancel_frame {now : Time} {ids : List TaskId} (hid : id ∉ ids) {r : BulkResult}
    (h : bulkCancel cfg now db ids = .ok r) : r.db.tasks.get id = some row := by
  refine foldlM_invariant (P := fun r : BulkResult => r.db.tasks.get id = some row) ids ?_ hrow h
  intro r i hi r' hr hturn
  unfold bulkTurn at hturn
  split at hturn
  · cases hturn
  split at hturn
  · cases hturn
    exact hr
  · rename_i db₁ hok
    cases hturn
    exact cancelTask_frame hr hrun (fun he => hid (he ▸ hi)) hok
  · cases hturn
    exact hr
  · cases hturn

/-- So does an outcome of another task. -/
theorem Outcome.frame {now : Time} {held : Held} {succeeds : Bool}
    (h : Outcome cfg now db held succeeds db') (hne : id ≠ held.task.id) :
    db'.tasks.get id = some row := by
  cases h with
  | refused => exact hrow
  | @finished cur row₁ task new eventType details n db₁ _ ha hclose hrow₁ hrun₁ hout hnew
      hcascade hstamp =>
    obtain ⟨ls, htr⟩ := cascade_trace hcascade
    have hfinished : (finishedDb now (closeHeld db held.attemptId held.attempt cur) held row₁ task
        new eventType details).tasks.get id = some row :=
      (get_setTask_of_ne (recordEvent now (closeHeld db held.attemptId held.attempt cur)
        held.task.id .running eventType new details) _ hne).trans hrow
    have hcascaded := CascadeStep.frame_trace htr hfinished (by rw [hrun]; decide)
    obtain rfl | ⟨row₂, dlqRetryAt, hrow₂, rfl⟩ := hstamp
    · exact hcascaded
    · rw [get_setTask_of_ne _ _ hne, hcascaded]

end

/-- Nobody cancels the task, and no transaction records an outcome for it. -/
def Action.Spares (id : TaskId) (p : Platform) : Action → Prop
  | .cancelTask _ i => i ≠ id
  | .bulkCancel _ ids => id ∉ ids
  | .recordSuccess _ w _ | .recordFailure _ w _ _ =>
    ∀ held, p.holding w = some held → held.task.id ≠ id
  | _ => True

/-- The time of the worker's last renewal after a step. -/
def Action.renewal (w : WorkerId) (id : TaskId) (last : Time) : Action → Time
  | .renewLease now w' i => if w' = w ∧ i = id then now else last
  | _ => last

/-- No clock of the run, that of a renewal included, passes the end of the lease. -/
def InTime (cfg : Settings) (w : WorkerId) (id : TaskId) : Time → List Action → Prop
  | _, [] => True
  | last, a :: acts =>
    (∀ now ∈ a.clock, now ≤ last + timedelta cfg.taskLeaseSeconds) ∧
      InTime cfg w id (a.renewal w id last) acts

/-- The task is running under a lease of the worker that was last renewed at `last`. -/
def LeasedTo (cfg : Settings) (w : WorkerId) (id : TaskId) (last : Time) (db : Database) : Prop :=
  ∃ row, db.tasks.get id = some row ∧ row.status = .running ∧ row.leaseOwner = some w ∧
    row.leaseExpiresAt = some (last + timedelta cfg.taskLeaseSeconds)

/-- What nobody but the worker gets from a task that is running under its lease. -/
def Refused (cfg : Settings) (w : WorkerId) (id : TaskId) (p : Platform) : Action → Prop
  | .recoverStuck now limit locked => id ∉ stuckIds now limit locked p.db
  | .start now w' i => i = id → w' ≠ w →
    (tryAcquireLease now p.db id w' cfg.taskLeaseSeconds).2 = false
  | .renewLease now w' i => i = id → w' ≠ w →
    (renewLease now p.db id w' cfg.taskLeaseSeconds).2 = false
  | _ => True

theorem LeasedTo.not_stuck {cfg : Settings} {w : WorkerId} {id : TaskId} {last now : Time}
    {db : Database} (h : LeasedTo cfg w id last db)
    (hnow : now ≤ last + timedelta cfg.taskLeaseSeconds) (limit : Nat) (locked : TaskId → Bool) :
    id ∉ stuckIds now limit locked db := by
  obtain ⟨row, hrow, -, -, hexpires⟩ := h
  intro hid
  obtain ⟨r, hr, rfl⟩ := List.mem_map.mp hid
  obtain ⟨hget, hstuck, -⟩ := mem_selectLocked hr
  rw [hrow, Option.some.injEq] at hget
  rw [← hget, isStuck, hexpires] at hstuck
  simp only [Option.any_some, Bool.and_eq_true, decide_eq_true_eq] at hstuck
  exact absurd hstuck.1 (not_lt.mpr hnow)

theorem LeasedTo.refused {cfg : Settings} {w : WorkerId} {id : TaskId} {last : Time}
    {p : Platform} (h : LeasedTo cfg w id last p.db) {a : Action}
    (hnow : ∀ now ∈ a.clock, now ≤ last + timedelta cfg.taskLeaseSeconds) :
    Refused cfg w id p a := by
  have hlease := h
  obtain ⟨row, hrow, hrun, howner, -⟩ := hlease
  cases a with
  | recoverStuck now limit locked => exact h.not_stuck (hnow now rfl) limit locked
  | start now w' i =>
    intro _ _
    simp [tryAcquireLease, hrow, hrun]
  | renewLease now w' i =>
    intro _ hne
    simp [renewLease, hrow, howner, hne.symm]
  | _ => trivial

/-- The worker's own renewal moves the end of its lease; nobody else's does. -/
theorem LeasedTo.of_renewal {cfg : Settings} {w : WorkerId} {id : TaskId} {last : Time}
    {db : Database} (h : LeasedTo cfg w id last db) (now : Time) (w' : WorkerId) (i : TaskId) :
    LeasedTo cfg w id (if w' = w ∧ i = id then now else last)
      (renewLease now db i w' cfg.taskLeaseSeconds).1 := by
  obtain ⟨row, hrow, hrun, howner, hexpires⟩ := h
  by_cases hmine : w' = w ∧ i = id
  · obtain ⟨rfl, rfl⟩ := hmine
    have hrenewed : renewLease now db i w' cfg.taskLeaseSeconds =
        (db.setTask i (renewed now cfg.taskLeaseSeconds row), true) := by
      simp [renewLease, hrow, howner, hrun]
    simp only [and_self, if_true, hrenewed]
    exact ⟨_, get_setTask_self _ hrow, hrun, howner, rfl⟩
  · rw [if_neg hmine]
    refine ⟨row, renewLease_frame hrow ?_, hrun, howner, hexpires⟩
    by_cases hid : id = i
    · refine .inr fun hw => hmine ⟨?_, hid.symm⟩
      rw [howner, Option.some.injEq] at hw
      exact hw.symm
    · exact .inl hid

/-- A step leaves the row to the worker, with a new end if it is the worker's renewal. -/
theorem LeasedTo.step {cfg : Settings} {w : WorkerId} {id : TaskId} {last : Time} {p : Platform}
    (hp : p.Sound) (h : LeasedTo cfg w id last p.db) {a : Action} (hspares : a.Spares id p)
    (hnow : ∀ now ∈ a.clock, now ≤ last + timedelta cfg.taskLeaseSeconds) :
    LeasedTo cfg w id (a.renewal w id last) (p.step cfg a).db := by
  have hlease := h
  obtain ⟨row, hrow, hrun, howner, hexpires⟩ := hlease
  have hkeep : (p.step cfg a).db.tasks.get id = some row →
      LeasedTo cfg w id last (p.step cfg a).db :=
    fun hrow' => ⟨row, hrow', hrun, howner, hexpires⟩
  have hfin : row.finishedAt = none := by
    simpa [hrun, terminal] using (hp.row hrow).wellFormed.finishedAt
  have hcommit : ∀ body : Except TaskError Database,
      (∀ db', body = .ok db' → db'.tasks.get id = some row) →
      (commit p.db body).tasks.get id = some row := by
    intro body hbody
    cases body with
    | error e => exact hrow
    | ok db' => exact hbody db' rfl
  -- a transaction that only requeues or starts tasks leaves a running row
  have henters : (∀ l, a.Allows cfg p l →
      (∃ cause i, l = .enqueue cause i) ∨ ∃ w i, l = .start w i) →
      (p.step cfg a).db.tasks.get id = some row := by
    intro hlabels
    obtain ⟨ls, htr, hls⟩ := step_trace hp.foreignKeys hp.held a
    exact running_frame_trace hrow hrun htr fun l hl => hlabels l (hls l hl)
  cases a with
  | createTask now spec =>
    refine hkeep (commitCreated_of (P := fun db => db.tasks.get id = some row) hrow ?_)
    exact fun db' i hcreate => createTask_frame hcreate hrow
  | manualRetry now i => exact hkeep (henters fun l hl => .inl ⟨_, _, hl⟩)
  | bulkRetry now ids =>
    exact hkeep (henters fun l hl => .inl (hl.elim fun i hi => ⟨_, i, hi.2⟩))
  | cancelTask now i =>
    apply hkeep
    simp only [Platform.step]
    cases hok : cancelTask cfg now p.db i with
    | error e => exact hrow
    | ok done =>
      cases done with
      | none => exact hrow
      | some db' => exact cancelTask_frame hrow hrun (Ne.symm hspares) hok
  | bulkCancel now ids =>
    refine hkeep (hcommit _ fun db' hok => ?_)
    obtain ⟨r, hbulk, rfl⟩ := map_ok hok
    exact bulkCancel_frame hrow hrun hspares hbulk
  | start now w' i => exact hkeep (henters fun l hl => .inr ⟨_, _, hl⟩)
  | renewLease now w' i => exact h.of_renewal now w' i
  | recordSuccess now w' result =>
    apply hkeep
    simp only [Platform.step, finishStep_db]
    cases hheld : p.holding w' with
    | none => exact hrow
    | some held =>
      refine hcommit _ fun db' hok => ?_
      exact (recordSuccess_ok (hp.held w' held hheld) hok).frame hrow hrun
        (Ne.symm (hspares held hheld))
  | recordFailure now w' error retryable =>
    apply hkeep
    simp only [Platform.step, finishStep_db]
    cases hheld : p.holding w' with
    | none => exact hrow
    | some held =>
      refine hcommit _ fun db' hok => ?_
      exact (recordFailure_ok (hp.held w' held hheld) hok).frame hrow hrun
        (Ne.symm (hspares held hheld))
  | crash w' => exact hkeep hrow
  | requeueOrphaned now limit locked =>
    refine hkeep (hcommit _ fun db' hok => ?_)
    rw [requeueOrphaned_tasks hok]
    exact hrow
  | requeueDue now limit locked =>
    exact hkeep (henters fun l hl => .inl (hl.elim fun i hi => ⟨_, i, hi.2⟩))
  | requeueDlq now limit locked =>
    exact hkeep (henters fun l hl => .inl (hl.elim fun i hi => ⟨_, i, hi.2⟩))
  | recoverStuck now limit locked =>
    exact hkeep (hcommit _ fun db' hok =>
      recoverStuckTasks_frame hrow (h.not_stuck (hnow now rfl) limit locked) hok)
  | purgeOldData now limit => exact hkeep (purgeOldData_frame hrow hfin now limit)
  | heartbeat now w' =>
    apply hkeep
    simp only [Platform.step, heartbeat]
    split <;> exact hrow
  | putWebhook i sub => cases i <;> exact hkeep hrow
  | deleteWebhook i => exact hkeep hrow
  | audit now action => exact hkeep hrow

/-- What a start leaves. -/
theorem LeasedTo.start {cfg : Settings} {w : WorkerId} {id : TaskId} {now : Time} {p : Platform}
    (h : starts cfg id p (.start now w id) = true) :
    LeasedTo cfg w id now (p.step cfg (.start now w id)).db := by
  simp only [starts, Bool.and_eq_true, Option.isNone_iff_eq_none] at h
  obtain ⟨⟨-, hnone⟩, hsome⟩ := h
  obtain ⟨held, hheld⟩ := Option.isSome_iff_exists.mp hsome
  obtain hold | ⟨now', id', row, seen, ha, -, hrow, -, -, -, hdb⟩ := step_holding hheld
  · rw [hnone] at hold
    cases hold
  · cases ha
    have hrow' := congrArg View.row
      (view_startedDb_self now w (startedTask now w cfg.taskLeaseSeconds row) seen hrow)
    rw [← hdb] at hrow'
    exact ⟨_, hrow', rfl, rfl, rfl⟩

theorem LeasedTo.run {cfg : Settings} {w : WorkerId} {id : TaskId} {last : Time} {p : Platform}
    {acts : List Action} (hp : p.Sound) (h : LeasedTo cfg w id last p.db)
    (htime : InTime cfg w id last acts)
    (hspares : Along (Platform.step cfg) (fun p a => a.Spares id p) p acts) :
    Along (Platform.step cfg) (Refused cfg w id) p acts ∧
      ∃ last', LeasedTo cfg w id last' (Run.run (Platform.step cfg) p acts).db := by
  induction acts generalizing last p with
  | nil => exact ⟨trivial, last, h⟩
  | cons a acts ih =>
    have hrest := ih (hp.step cfg a) (h.step hp hspares.1 htime.1) htime.2 hspares.2
    exact ⟨⟨h.refused htime.1, hrest.1⟩, hrest.2⟩

theorem InTime.left {cfg : Settings} {w : WorkerId} {id : TaskId} {last : Time}
    {xs ys : List Action} (h : InTime cfg w id last (xs ++ ys)) : InTime cfg w id last xs := by
  induction xs generalizing last with
  | nil => trivial
  | cons a xs ih => exact ⟨h.1, ih h.2⟩

/-- After a start, and as long as the worker renews in time and the task is spared, the task is
running and leased to the worker after every part of the run, recovery does not select it, and no
other worker acquires or renews its lease; whatever the clocks are otherwise. -/
theorem renewed_lease_kept (cfg : Settings) (before acts : List Action) (t : Time) (w : WorkerId)
    (id : TaskId) (hstart : starts cfg id (Platform.after cfg before) (.start t w id) = true)
    (htime : InTime cfg w id t acts)
    (hspares : Along (Platform.step cfg) (fun p a => a.Spares id p)
      (Platform.after cfg (before ++ [.start t w id])) acts) :
    Along (Platform.step cfg) (Refused cfg w id)
        (Platform.after cfg (before ++ [.start t w id])) acts ∧
      ∀ xs ys, acts = xs ++ ys → ∃ row,
        (Platform.after cfg (before ++ .start t w id :: xs)).db.tasks.get id = some row ∧
          row.status = .running ∧ row.leaseOwner = some w := by
  have hafter : ∀ xs, Platform.after cfg (before ++ .start t w id :: xs) =
      run (Platform.step cfg) (Platform.after cfg (before ++ [.start t w id])) xs := by
    intro xs
    rw [Platform.after, Platform.after, ← run_append, List.append_assoc]
    rfl
  have hleased : LeasedTo cfg w id t (Platform.after cfg (before ++ [.start t w id])).db := by
    rw [Platform.after, run_append]
    exact LeasedTo.start hstart
  have hsound := Platform.after_sound cfg (before ++ [.start t w id])
  refine ⟨(hleased.run hsound htime hspares).1, ?_⟩
  rintro xs ys rfl
  obtain ⟨-, last', row, hrow, hrun, howner, -⟩ :=
    hleased.run hsound htime.left ((along_append _ _ _ xs ys).mp hspares).1
  exact ⟨row, by rw [hafter]; exact hrow, hrun, howner⟩

/-- Renewals every 20 seconds, while a coordinator and another worker try. -/
def renewedRun : List Action :=
  [.renewLease 20000000 "w1" 1, .recoverStuck 61000000 50 (fun _ => false),
    .start 70000000 "w2" 1, .renewLease 70000000 "w2" 1, .renewLease 75000000 "w1" 1,
    .recoverStuck 100000000 50 (fun _ => false)]

theorem renewedRun_inTime : InTime .default "w1" 1 1 renewedRun := by
  have hseconds : timedelta Settings.default.taskLeaseSeconds = 60000000 := by decide +kernel
  simp [InTime, renewedRun, Action.renewal, Action.clock, hseconds]

theorem renewed_lease_kept_renewedRun : ∃ row,
    (Platform.after .default ([.createTask 0 plainSpec] ++
      .start 1 "w1" 1 :: renewedRun)).db.tasks.get 1 = some row ∧
        row.status = .running ∧ row.leaseOwner = some "w1" := by
  have hspares : Along (Platform.step .default) (fun p a => a.Spares 1 p)
      (Platform.after .default ([.createTask 0 plainSpec] ++ [.start 1 "w1" 1])) renewedRun := by
    simp [renewedRun, Along, Action.Spares]
  exact (renewed_lease_kept .default [.createTask 0 plainSpec] renewedRun 1 "w1" 1
    (by decide +kernel) renewedRun_inTime hspares).2 renewedRun [] (List.append_nil _).symm

end TaskPlatform
