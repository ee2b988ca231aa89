import TaskPlatform.PlatformTrace

/-!
# The invariant of the platform

Every reachable state is sound: the foreign keys hold, every task satisfies the
invariant of its lifecycle, and every worker holds objects of a start. The rows
and the event logs of reachable states are read off it.
-/

namespace TaskPlatform

open Run

structure Platform.Sound (p : Platform) : Prop where
  foreignKeys : p.db.ForeignKeys
  views : ∀ id, (p.db.view id).Ok
  held : p.HeldValid

theorem Platform.initial_sound : Platform.initial.Sound where
  foreignKeys := by intro d hd; cases hd
  views := fun _ => ⟨rfl, rfl⟩
  held := by intro w held h; cases h

theorem Platform.Sound.row {p : Platform} (h : p.Sound) {id : TaskId} {row : Task}
    (hrow : p.db.tasks.get id = some row) : (p.db.view id).Sound row :=
  (h.views id).sound hrow

theorem Change.views {cfg : Settings} {db db' : Database} {l : Label} (h : Change cfg db l db')
    (hv : ∀ id, (db.view id).Ok) (id : TaskId) : (db'.view id).Ok := by
  obtain hsame | hstep := view_change h id
  · rw [hsame]; exact hv id
  · exact hstep.ok (hv id)

/-- Only a start gives a worker objects, and it is the worker's own start. -/
theorem step_holding {cfg : Settings} {p : Platform} {a : Action} {w : WorkerId} {held : Held}
    (h : (p.step cfg a).holding w = some held) :
    p.holding w = some held ∨
      ∃ now id row seen, a = .start now w id ∧ p.holding w = none ∧
        p.db.tasks.get id = some row ∧ row.status = .queued ∧ leaseFree now row = true ∧
        held = startedHeld now w cfg.taskLeaseSeconds p.db id row ∧
        (p.step cfg a).db =
          startedDb now p.db w id row (startedTask now w cfg.taskLeaseSeconds row) seen := by
  cases a with
  | start now w' id =>
    simp only [Platform.step] at h ⊢
    obtain hsame | ⟨row, seen, hfree, hrow, hq, hlease, hstep⟩ := startStep_cases cfg now w' id p
    · rw [hsame] at h
      exact .inl h
    · rw [hstep, Platform.setHolding] at h
      simp only at h
      split at h
      · rename_i hw
        subst hw
        cases h
        exact .inr ⟨now, id, row, seen, rfl, hfree, hrow, hq, hlease, rfl, by rw [hstep]; rfl⟩
      · exact .inl h
  | recordSuccess now w' result =>
    simp only [Platform.step, finishStep_holding] at h
    split at h
    · cases h
    · exact .inl h
  | recordFailure now w' error retryable =>
    simp only [Platform.step, finishStep_holding] at h
    split at h
    · cases h
    · exact .inl h
  | crash w' =>
    simp only [Platform.step, Platform.setHolding] at h
    split at h
    · cases h
    · exact .inl h
  | _ => exact .inl h

/-- The objects of a start are of the form that the second transaction relies on. -/
theorem startedHeld_valid {now : Time} {w : WorkerId} {seconds : ℚ} {db : Database} {id : TaskId}
    {row : Task} (hwf : row.WellFormed) (hq : row.status = .queued) :
    (startedHeld now w seconds db id row).Valid w where
  same := rfl
  running := rfl
  owner := rfl
  expires := by simp [startedHeld, Instance.fresh, startedTask]
  finished := by
    show row.finishedAt = none
    simpa [hq, terminal] using hwf.finishedAt
  scheduled := hwf.unscheduled (by rw [hq]; decide)
  taskId := rfl
  number := rfl
  opened := rfl

/-- A sequence of changes keeps what does not concern the workers. -/
theorem Platform.Sound.of_trace {cfg : Settings} {p : Platform} (h : p.Sound) {db : Database}
    {ls : List Label} (htr : Trace (Change cfg) p.db ls db) : Platform.Sound ⟨db, p.holding⟩ where
  foreignKeys := htr.invariant (P := Database.ForeignKeys) (Q := fun _ => True)
    (fun _ _ _ hp _ hc => hc.foreignKeys hp) (fun _ _ => trivial) h.foreignKeys
  views := htr.invariant (P := fun db => ∀ id, (db.view id).Ok) (Q := fun _ => True)
    (fun _ _ _ hp _ hc => hc.views hp) (fun _ _ => trivial) h.views
  held := h.held

theorem Platform.Sound.step {p : Platform} (h : p.Sound) (cfg : Settings) (a : Action) :
    (p.step cfg a).Sound := by
  obtain ⟨ls, htr, -⟩ : ∃ ls, Trace (Change cfg) p.db ls (p.step cfg a).db ∧ _ :=
    step_trace h.foreignKeys h.held a
  have hdb := h.of_trace htr
  refine ⟨hdb.foreignKeys, hdb.views, ?_⟩
  intro w held hheld
  obtain hold | ⟨now, id, row, seen, rfl, -, hrow, hq, -, rfl, -⟩ := step_holding hheld
  · exact h.held w held hold
  · exact startedHeld_valid (h.row hrow).wellFormed hq

/-- Every reachable state is sound. -/
theorem Platform.after_sound (cfg : Settings) (acts : List Action) :
    (Platform.after cfg acts).Sound :=
  run_invariant (fun _ a hp => hp.step cfg a) Platform.initial_sound acts

/-- From some time on a query of the coordinator picks the row up. -/
structure Task.Recoverable (cfg : Settings) (row : Task) : Prop where
  queued : row.status = .queued → ∃ t, ∀ now ≥ t, isOrphaned cfg now row = true
  running : row.status = .running → ∃ t, ∀ now ≥ t, isStuck now row = true
  due : row.status ∈ dueStatuses → ∃ t, ∀ now ≥ t, isDue now row = true

theorem Task.WellFormed.recoverable {row : Task} (h : row.WellFormed) (cfg : Settings) :
    row.Recoverable cfg where
  queued := by
    intro hq
    have hfree : row.leaseOwner = none := by simpa [hq] using h.leaseOwner
    refine ⟨row.updatedAt + timedelta cfg.queuedReconcileSeconds, fun now hnow => ?_⟩
    have hold : row.updatedAt ≤ now - timedelta cfg.queuedReconcileSeconds :=
      le_sub_iff_add_le.mpr hnow
    simp [isOrphaned, hq, leaseFree, hfree, hold]
  running := by
    intro hrun
    obtain ⟨t, ht⟩ := Option.ne_none_iff_exists'.mp (h.leaseExpiresAt.mpr hrun)
    refine ⟨t + 1, fun now hnow => ?_⟩
    have hexpired : t < now := Int.lt_of_add_one_le hnow
    simp [isStuck, ht, hexpired, hrun, stuckStatuses]
  due := by
    intro hdue
    obtain ⟨t, ht⟩ := Option.ne_none_iff_exists'.mp (h.scheduledAt hdue)
    refine ⟨t, fun now hnow => ?_⟩
    simp [isDue, hdue, ht, hnow]

/-- Every committed row is well formed, and so every row that waits for something is seen by a
coordinator query at some time. -/
theorem rows_wellFormed (cfg : Settings) (acts : List Action) (id : TaskId) (row : Task)
    (h : (Platform.after cfg acts).db.tasks.get id = some row) :
    row.WellFormed ∧ row.Recoverable cfg := by
  have hwf := ((Platform.after_sound cfg acts).row h).wellFormed
  exact ⟨hwf, hwf.recoverable cfg⟩

/-- A task without options, as the tests create it. -/
def plainSpec : TaskSpec := { taskType := "t1", payload := "{}" }

/-- A task that is created, started and succeeds. -/
def successRun : List Action :=
  [.createTask 0 plainSpec, .start 1 "w1" 1, .recordSuccess 2 "w1" "{}"]

theorem rows_wellFormed_successRun :
    ∃ row, (Platform.after .default successRun).db.tasks.get 1 = some row ∧
      row.WellFormed ∧ row.Recoverable .default := by
  obtain ⟨row, hrow⟩ := Option.isSome_iff_exists.mp
    (by decide +kernel : ((Platform.after .default successRun).db.tasks.get 1).isSome = true)
  exact ⟨row, hrow, rows_wellFormed .default successRun 1 row hrow⟩

/-- No step of the machine moves a task that succeeded. -/
theorem View.Step.success {cfg : Settings} {id : TaskId} {v v' : View} {l : Label}
    (h : View.Step cfg id v l v') {row row' : Task} (hrow : v.row = some row)
    (hs : row.status = .success) (hrow' : v'.row = some row') : row'.status = .success := by
  cases h with
  | insert now spec hnone => rw [hrow] at hnone; cases hnone
  | block now parents details hget hc => rw [View.record, hrow] at hrow'; cases hrow'; exact hs
  | schedule now hget hc => rw [hrow] at hget; cases hget; rw [hs] at hc; cases hc
  | enqueue now cause eventType details hget hc =>
    rw [hrow] at hget
    cases hget
    have ht := Cause.sources_transition hc
    rw [hs, canTransition_success] at ht
    cases ht
  | cancel now details hget hc =>
    rw [hrow] at hget
    cases hget
    have ht := (canTransition_cancelled _).mpr hc
    rw [hs, canTransition_success] at ht
    cases ht
  | start now w attemptId hget hc => rw [hrow] at hget; cases hget; rw [hs] at hc; cases hc
  | renew now w hget howner hc => rw [hrow] at hget; cases hget; rw [hs] at hc; cases hc
  | close attemptId hclose => rw [View.rewrite_row, hrow] at hrow'; cases hrow'; exact hs
  | finish now eventType details hvalid hget hc =>
    rw [hrow] at hget; cases hget; rw [hs] at hc; cases hc
  | stamp now dlqRetryAt hget => rw [hrow] at hget; cases hget; cases hrow'; exact hs
  | recover now details hget hc => rw [hrow] at hget; cases hget; rw [hs] at hc; cases hc
  | release now hget hc => rw [hrow] at hget; cases hget; rw [hs] at hc; cases hc
  | delete hget hfin => cases hrow'

/-- Keys are handed out once: what is gone, or was never there, does not come back. -/
theorem Change.gone {cfg : Settings} {db db' : Database} {l : Label} (h : Change cfg db l db') :
    db.tasks.next ≤ db'.tasks.next ∧
      ∀ id, id < db.tasks.next → db.tasks.get id = none → db'.tasks.get id = none := by
  have hset : ∀ (db : Database) (id i : TaskId) (row : Task), db.tasks.get i = none →
      (db.setTask id row).tasks.get i = none := by
    intro db id i row hnone
    rw [get_setTask, hnone]
    split <;> rfl
  cases h with
  | insert now spec =>
    refine ⟨Nat.le_succ _, fun id hid hnone => ?_⟩
    exact (Table.get_insert _ _ _).trans (by rw [if_neg (Nat.ne_of_lt hid), hnone])
  | recover now details hrow hs hexpired =>
    refine ⟨?_, fun id hid hnone => hset _ _ _ _ ?_⟩
    · exact le_of_eq (congrArg Table.next (closeLastAttempt_tasks now db _)).symm
    · exact (congrArg (Table.get · id) (closeLastAttempt_tasks now db _)).trans hnone
  | deleteTasks ids hids =>
    refine ⟨le_refl _, fun id hid hnone => ?_⟩
    exact (Table.get_erase _ _ _).trans (by rw [hnone]; rfl)
  | skip => exact ⟨Nat.le_succ _, fun _ _ hnone => hnone⟩
  | block now parents details hrow hs hparents => exact ⟨le_refl _, fun _ _ hnone => hnone⟩
  | close hsome hclose => exact ⟨le_refl _, fun _ _ hnone => hnone⟩
  | republish hs => exact ⟨le_refl _, fun _ _ hnone => hnone⟩
  | deleteOutbox ids hids => exact ⟨le_refl _, fun _ _ hnone => hnone⟩
  | side subscriptions deliveries workers auditLogs => exact ⟨le_refl _, fun _ _ hnone => hnone⟩
  | _ => exact ⟨le_refl _, fun _ _ hnone => hset _ _ _ _ hnone⟩

theorem Change.attempts_next {cfg : Settings} {db db' : Database} {l : Label}
    (h : Change cfg db l db') : db.attempts.next ≤ db'.attempts.next := by
  cases h with
  | start => exact Nat.le_succ _
  | @recover now id row details hrow hs hexpired =>
    have hclose : (closeLastAttempt now db id).attempts.next = db.attempts.next := by
      unfold closeLastAttempt
      split <;> rfl
    exact le_of_eq hclose.symm
  | _ => exact le_refl _

/-- The task is gone or succeeded. -/
def Succeeded (id : TaskId) (db : Database) : Prop :=
  id < db.tasks.next ∧ ∀ row, db.tasks.get id = some row → row.status = .success

theorem Change.succeeded {cfg : Settings} {db db' : Database} {l : Label}
    (h : Change cfg db l db') {id : TaskId} (hs : Succeeded id db) : Succeeded id db' := by
  obtain ⟨hnext, hgone⟩ := h.gone
  refine ⟨Nat.lt_of_lt_of_le hs.1 hnext, fun row' hrow' => ?_⟩
  cases hget : db.tasks.get id with
  | none =>
    rw [hgone id hs.1 hget] at hrow'
    cases hrow'
  | some row =>
    obtain hsame | hstep := view_change h id
    · have hrow := congrArg View.row hsame
      simp only [view_row] at hrow
      exact hs.2 row' (hrow.symm.trans hrow')
    · exact hstep.success hget (hs.2 row hget) hrow'

theorem Platform.Sound.succeeded {p : Platform} (h : p.Sound) {id : TaskId}
    (hs : Succeeded id p.db) (cfg : Settings) (acts : List Action) :
    Succeeded id (run (Platform.step cfg) p acts).db := by
  have hboth : (run (Platform.step cfg) p acts).Sound ∧
      Succeeded id (run (Platform.step cfg) p acts).db := by
    refine run_invariant (P := fun p : Platform => p.Sound ∧ Succeeded id p.db) ?_ ⟨h, hs⟩ acts
    rintro p a ⟨hp, hs⟩
    obtain ⟨ls, htr, -⟩ : ∃ ls, Trace (Change cfg) p.db ls (p.step cfg a).db ∧ _ :=
      step_trace hp.foreignKeys hp.held a
    exact ⟨hp.step cfg a, htr.invariant (P := Succeeded id) (Q := fun _ => True)
      (fun _ _ _ hp _ hc => hc.succeeded hp) (fun _ _ => trivial) hs⟩
  exact hboth.2

/-- The event log of every task is a history of its status: replaying it yields the status, and a
task whose log reached `success` is there and stays there. -/
theorem event_log_faithful (cfg : Settings) (acts : List Action) (id : TaskId) (row : Task)
    (h : (Platform.after cfg acts).db.tasks.get id = some row) :
    Faithful ((Platform.after cfg acts).db.eventsOf id) row.status ∧
    History.replay TaskEvent.oldStatus TaskEvent.newStatus .created
      ((Platform.after cfg acts).db.eventsOf id) = some row.status ∧
    ((∃ e ∈ (Platform.after cfg acts).db.eventsOf id, e.newStatus = .success) →
      ∀ later row', (Platform.after cfg (acts ++ later)).db.tasks.get id = some row' →
        row'.status = .success) := by
  have hsound := Platform.after_sound cfg acts
  have hlog : Faithful ((Platform.after cfg acts).db.eventsOf id) row.status :=
    (hsound.row h).faithful
  refine ⟨hlog, hlog.replay_eq, ?_⟩
  rintro ⟨e, he, hnew⟩ later row' hrow'
  have hs : row.status = .success :=
    hlog.absorbing (fun t ht => by rw [canTransition_success] at ht; cases ht) he hnew
  have hnow : Succeeded id (Platform.after cfg acts).db := by
    refine ⟨Table.get_lt h, fun row'' hrow'' => ?_⟩
    rw [h] at hrow''
    cases hrow''
    exact hs
  have hlater := hsound.succeeded hnow cfg later
  rw [Platform.after, ← run_append] at hlater
  exact hlater.2 row' hrow'

theorem event_log_faithful_successRun :
    ∃ row, (Platform.after .default successRun).db.tasks.get 1 = some row ∧
      Faithful ((Platform.after .default successRun).db.eventsOf 1) row.status := by
  obtain ⟨row, hrow⟩ := Option.isSome_iff_exists.mp
    (by decide +kernel : ((Platform.after .default successRun).db.tasks.get 1).isSome = true)
  exact ⟨row, hrow, (event_log_faithful .default successRun 1 row hrow).1⟩

end TaskPlatform
