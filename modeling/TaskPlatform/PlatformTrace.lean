import TaskPlatform.OperatorTrace
import TaskPlatform.WorkerTrace
import TaskPlatform.CoordinatorTrace
import TaskPlatform.Lifecycle

/-!
# A step of the platform is a sequence of changes

Every action follows a trace of changes whose labels the action allows. With
this, an invariant of changes is an invariant of the platform. The base
invariant is proved here: the foreign keys, the lifecycle of every task, and
what is known of the objects that the workers hold.
-/

namespace TaskPlatform

open Run

/-- The labels of the changes that an action can make. -/
def Action.Allows (cfg : Settings) (p : Platform) : Action → Label → Prop
  | .createTask _ spec, l => IsCreate p.db spec l
  | .manualRetry _ id, l => l = .enqueue .retry id
  | .cancelTask _ _, l => IsCascade l
  | .bulkRetry _ ids, l => ∃ id ∈ ids, l = .enqueue .retry id
  | .bulkCancel _ _, l => IsCascade l
  | .start _ w id, l => l = .start w id
  | .recordSuccess _ w _, l => ∃ held, p.holding w = some held ∧ IsOutcome held l
  | .recordFailure _ w _ _, l => ∃ held, p.holding w = some held ∧ IsOutcome held l
  | .requeueDue now limit locked, l => ∃ id ∈ dueIds now limit locked p.db, l = .enqueue .due id
  | .requeueDlq now limit locked, l =>
    ∃ id ∈ dlqIds cfg now limit locked p.db, l = .enqueue .dlq id
  | .recoverStuck now limit locked, l =>
    l = .other ∨ ∃ id ∈ stuckIds now limit locked p.db, l = .recover id
  | _, l => l = .other

/-- Every object that a worker holds is of the form that a start leaves. -/
def Platform.HeldValid (p : Platform) : Prop :=
  ∀ w held, p.holding w = some held → held.Valid w

theorem commit_trace {cfg : Settings} {Q : Label → Prop} {db : Database}
    {r : Except TaskError Database}
    (h : ∀ db', r = .ok db' → ∃ ls, Trace (Change cfg) db ls db' ∧ ∀ l ∈ ls, Q l) :
    ∃ ls, Trace (Change cfg) db ls (commit db r) ∧ ∀ l ∈ ls, Q l := by
  cases r with
  | ok db' => exact h db' rfl
  | error e => exact ⟨[], .nil _, by simp⟩

theorem commitFound_trace {cfg : Settings} {Q : Label → Prop} {db : Database}
    {r : Except TaskError (Option Database)}
    (h : ∀ db', r = .ok (some db') → ∃ ls, Trace (Change cfg) db ls db' ∧ ∀ l ∈ ls, Q l) :
    ∃ ls, Trace (Change cfg) db ls (commitFound db r) ∧ ∀ l ∈ ls, Q l := by
  cases r with
  | ok found =>
    cases found with
    | none => exact ⟨[], .nil _, by simp⟩
    | some db' => exact h db' rfl
  | error e => exact ⟨[], .nil _, by simp⟩

/-- A worker's start either does nothing or is one change, and then the worker holds its objects. -/
theorem startStep_cases (cfg : Settings) (now : Time) (w : WorkerId) (id : TaskId)
    (p : Platform) :
    startStep cfg now w id p = p ∨
      ∃ row seen, p.holding w = none ∧ p.db.tasks.get id = some row ∧ row.status = .queued ∧
        leaseFree now row = true ∧
        startStep cfg now w id p = Platform.setHolding
          ⟨startedDb now p.db w id row (startedTask now w cfg.taskLeaseSeconds row) seen, p.holding⟩
          w (some (startedHeld now w cfg.taskLeaseSeconds p.db id row)) := by
  unfold startStep
  split
  · exact .inl rfl
  · rename_i hfree
    split
    · rename_i db held hstart
      obtain ⟨row, hrow, hq, hlease, rfl, seen, rfl⟩ := startTask_ok hstart
      exact .inr ⟨row, seen, hfree, hrow, hq, hlease, rfl⟩
    · exact .inl rfl

/-- An outcome leaves the worker without objects. -/
theorem finishStep_holding (body : Held → Except TaskError Database) (w : WorkerId)
    (p : Platform) (w' : WorkerId) :
    (finishStep body w p).holding w' = if w' = w then none else p.holding w' := by
  unfold finishStep
  split
  · rename_i hnone
    split
    · rename_i he
      rw [he, hnone]
    · rfl
  · rfl

theorem finishStep_db (body : Held → Except TaskError Database) (w : WorkerId) (p : Platform) :
    (finishStep body w p).db =
      match p.holding w with
      | none => p.db
      | some held => commit p.db (body held) := by
  unfold finishStep
  cases p.holding w <;> rfl

theorem finishStep_trace {cfg : Settings} {p : Platform} {w : WorkerId}
    {body : Held → Except TaskError Database} {now : Time} {succeeds : Bool} (hv : p.HeldValid)
    (hbody : ∀ held db', held.Valid w → body held = .ok db' →
      Outcome cfg now p.db held succeeds db') :
    ∃ ls, Trace (Change cfg) p.db ls (finishStep body w p).db ∧
      ∀ l ∈ ls, ∃ held, p.holding w = some held ∧ IsOutcome held l := by
  rw [finishStep_db]
  cases hheld : p.holding w with
  | none => exact ⟨[], .nil _, by simp⟩
  | some held =>
    have hvalid := hv w held hheld
    refine commit_trace fun db' hok => ?_
    obtain ⟨ls, htr, hls⟩ := (hbody held db' hvalid hok).trace hvalid
    exact ⟨ls, htr, fun l hl => ⟨held, rfl, hls l hl⟩⟩

/-- Every action makes a sequence of the changes it allows. -/
theorem step_trace {cfg : Settings} {p : Platform} (hfk : p.db.ForeignKeys) (hv : p.HeldValid)
    (a : Action) :
    ∃ ls, Trace (Change cfg) p.db ls (p.step cfg a).db ∧ ∀ l ∈ ls, a.Allows cfg p l := by
  cases a with
  | createTask now spec =>
    exact commitCreated_trace hfk
  | manualRetry now id =>
    refine commitFound_trace fun db' hok => ⟨_, .single (manualRetry_change hok), fun l hl => ?_⟩
    exact List.mem_singleton.mp hl
  | cancelTask now id =>
    refine commitFound_trace fun db' hok => ?_
    obtain ⟨ls, htr, hls⟩ := cancelTask_trace hok
    exact ⟨ls, htr, fun l hl => .inl (hls l hl)⟩
  | bulkRetry now ids =>
    refine commit_trace fun db' hok => ?_
    obtain ⟨r, hbulk, rfl⟩ := map_ok hok
    exact bulkRetry_trace hbulk
  | bulkCancel now ids =>
    refine commit_trace fun db' hok => ?_
    obtain ⟨r, hbulk, rfl⟩ := map_ok hok
    obtain ⟨ls, htr, hls⟩ := bulkCancel_trace hbulk
    exact ⟨ls, htr, fun l hl => .inl (hls l hl)⟩
  | start now w id =>
    simp only [Platform.step]
    obtain hsame | ⟨row, seen, hfree, hrow, hq, hlease, hstep⟩ := startStep_cases cfg now w id p
    · rw [hsame]
      exact ⟨[], .nil _, by simp⟩
    · rw [hstep]
      exact ⟨_, .single (.start now w seen hrow hq hlease), fun l hl => List.mem_singleton.mp hl⟩
  | renewLease now w id => exact renewLease_trace cfg now p.db id w
  | recordSuccess now w result =>
    exact finishStep_trace hv fun held db' hvalid hok => recordSuccess_ok hvalid hok
  | recordFailure now w error retryable =>
    exact finishStep_trace hv fun held db' hvalid hok => recordFailure_ok hvalid hok
  | crash w => exact ⟨[], .nil _, by simp⟩
  | requeueOrphaned now limit locked => exact commit_trace fun db' hok => requeueOrphaned_trace hok
  | requeueDue now limit locked => exact commit_trace fun db' hok => requeueDueTasks_trace hok
  | requeueDlq now limit locked => exact commit_trace fun db' hok => requeueDlqTasks_trace hok
  | recoverStuck now limit locked => exact commit_trace fun db' hok => recoverStuckTasks_trace hok
  | purgeOldData now limit => exact purgeOldData_trace cfg now limit p.db
  | heartbeat now w =>
    simp only [Platform.step, heartbeat]
    split <;> exact ⟨_, .single (.side _ _ _ _), fun l hl => List.mem_singleton.mp hl⟩
  | putWebhook i sub =>
    cases i <;> exact ⟨_, .single (.side _ _ _ _), fun l hl => List.mem_singleton.mp hl⟩
  | deleteWebhook i => exact ⟨_, .single (.side _ _ _ _), fun l hl => List.mem_singleton.mp hl⟩
  | audit now action => exact ⟨_, .single (.side _ _ _ _), fun l hl => List.mem_singleton.mp hl⟩

/-- The actions that put tasks back into the queue by the wish of an operator or of a clock. -/
def Action.requeues : Action → Bool
  | .manualRetry _ _ | .bulkRetry _ _ | .requeueDue _ _ _ | .requeueDlq _ _ _ => true
  | _ => false

theorem IsCascade.not_requeues {cause : Cause} {id : TaskId} (h : IsCascade (.enqueue cause id)) :
    cause.requeues = false := by
  rcases h with ⟨i, he⟩ | ⟨i, he⟩
  · cases he
  · cases he; rfl

theorem IsOutcome.not_requeues {held : Held} {cause : Cause} {id : TaskId}
    (h : IsOutcome held (.enqueue cause id)) : cause.requeues = false := by
  rcases h with he | he | ⟨new, he⟩ | h
  · cases he
  · cases he
  · cases he
  · exact h.not_requeues

/-- The other actions enqueue a task only for the first time. -/
theorem Action.Allows.not_requeues {cfg : Settings} {p : Platform} {a : Action} {cause : Cause}
    {id : TaskId} (h : a.Allows cfg p (.enqueue cause id)) (ha : a.requeues = false) :
    cause.requeues = false := by
  cases a with
  | createTask now spec =>
    rcases h with he | he | ⟨parents, -, he⟩
    · cases he
    · cases he; rfl
    · cases he
  | cancelTask now id => exact IsCascade.not_requeues h
  | bulkCancel now ids => exact IsCascade.not_requeues h
  | recordSuccess now w result =>
    obtain ⟨held, -, hout⟩ := h
    exact hout.not_requeues
  | recordFailure now w error retryable =>
    obtain ⟨held, -, hout⟩ := h
    exact hout.not_requeues
  | manualRetry | bulkRetry | requeueDue | requeueDlq => cases ha
  | recoverStuck now limit locked =>
    rcases h with he | ⟨i, -, he⟩ <;> cases he
  | _ => cases h

section

variable {cfg : Settings} {p : Platform} {a : Action} {id : TaskId}

theorem Action.Allows.not_start {l : Label} (h : a.Allows cfg p l)
    (ha : ∀ now w i, a ≠ .start now w i) (w : WorkerId) (i : TaskId) : l ≠ .start w i := by
  rintro rfl
  cases a <;> simp [Action.Allows, IsCreate, IsOutcome, IsCascade] at h ha

theorem Action.Allows.retry (h : a.Allows cfg p (.enqueue .retry id)) :
    (∃ now i, a = .manualRetry now i) ∨ ∃ now ids, a = .bulkRetry now ids := by
  cases a <;> simp [Action.Allows, IsCreate, IsOutcome, IsCascade] at h ⊢

theorem Action.Allows.dlq (h : a.Allows cfg p (.enqueue .dlq id)) :
    ∃ now limit locked, a = .requeueDlq now limit locked := by
  cases a <;> simp [Action.Allows, IsCreate, IsOutcome, IsCascade] at h ⊢

theorem Action.Allows.recover (h : a.Allows cfg p (.recover id)) :
    ∃ now limit locked, a = .recoverStuck now limit locked := by
  cases a <;> simp [Action.Allows, IsCreate, IsOutcome, IsCascade] at h ⊢

end

theorem isSome_setTask (db : Database) (id : TaskId) (row : Task) (i : TaskId) :
    ((db.setTask id row).tasks.get i).isSome = (db.tasks.get i).isSome := by
  rw [get_setTask]
  split <;> simp

theorem Change.foreignKeys {cfg : Settings} {db db' : Database} {l : Label}
    (h : Change cfg db l db') (hfk : db.ForeignKeys) : db'.ForeignKeys := by
  cases h with
  | insert now spec =>
    intro d hd
    obtain ⟨hp, hc⟩ := hfk d hd
    obtain ⟨p, hp⟩ := Option.isSome_iff_exists.mp hp
    obtain ⟨c, hc⟩ := Option.isSome_iff_exists.mp hc
    exact ⟨Option.isSome_iff_exists.mpr ⟨p, Table.get_insert_of_some _ hp⟩,
      Option.isSome_iff_exists.mpr ⟨c, Table.get_insert_of_some _ hc⟩⟩
  | @block now id row parents details hrow hs hparents =>
    intro d hd
    rcases List.mem_append.mp hd with hd | hd
    · exact hfk d hd
    · obtain ⟨p, hp, rfl⟩ := List.mem_map.mp hd
      exact ⟨(hparents p hp).2, Option.isSome_iff_exists.mpr ⟨row, hrow⟩⟩
  | deleteTasks ids hids =>
    intro d hd
    rw [TaskPlatform.deleteTasks, List.mem_filter, decide_eq_true_eq] at hd
    have hrow : ∀ i, i ∉ ids → (TaskPlatform.deleteTasks db ids).tasks.get i = db.tasks.get i := by
      intro i hi
      have hview := congrArg View.row (view_deleteTasks db ids i)
      rwa [if_neg hi] at hview
    rw [hrow _ hd.2.1, hrow _ hd.2.2]
    exact hfk d hd.1
  | @recover now id row details hrow hs hexpired =>
    intro d hd
    have hdeps : d ∈ (closeLastAttempt now db id).deps := hd
    rw [closeLastAttempt_deps] at hdeps
    have hsome : ∀ i, (db.tasks.get i).isSome →
        ((recordEvent now (closeLastAttempt now db id) id row.status .requeued .queued
          details).tasks.get i).isSome := by
      intro i hi
      simp only [recordEvent, closeLastAttempt_tasks]
      exact hi
    exact ⟨(isSome_setTask _ _ _ _).trans (hsome _ (hfk d hdeps).1),
      (isSome_setTask _ _ _ _).trans (hsome _ (hfk d hdeps).2)⟩
  | skip => exact hfk
  | close hsome hclose => exact hfk
  | republish hs => exact hfk
  | deleteOutbox ids hids => exact hfk
  | side subscriptions deliveries workers auditLogs => exact hfk
  | _ =>
    intro d hd
    exact ⟨(isSome_setTask _ _ _ _).trans (hfk d hd).1,
      (isSome_setTask _ _ _ _).trans (hfk d hd).2⟩

end TaskPlatform
