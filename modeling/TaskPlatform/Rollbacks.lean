import TaskPlatform.BulkCreate
import TaskPlatform.Fencing
import TaskPlatform.Ticks
import TaskPlatform.Webhooks

/-!
# What a transaction raises

In a reachable state most of the exceptions that the code can raise do not
occur: no status change is invalid, no new task closes a cycle, and the
coordinator and the start of a worker never raise. What is left are the
conflicts that a caller can bring about himself, and the outcome of a task that
was deleted in the meantime. As in all runs of the platform, the stack has room
for the cascades.
-/

namespace TaskPlatform

open Relation Run

def exceptionOf {α : Type} : Except TaskError α → Option TaskError
  | .ok _ => none
  | .error e => some e

@[simp] theorem exceptionOf_ok {α : Type} (a : α) : exceptionOf (.ok a) = none := rfl

@[simp] theorem exceptionOf_error {α : Type} (e : TaskError) :
    exceptionOf (.error e : Except TaskError α) = some e := rfl

theorem exceptionOf_bind {α β : Type} (x : Except TaskError α) (f : α → β) :
    exceptionOf (x >>= fun a => pure (f a)) = exceptionOf x := by
  cases x <;> rfl

theorem exceptionOf_none {α : Type} {x : Except TaskError α} (h : ∃ a, x = .ok a) :
    exceptionOf x = none := by
  obtain ⟨a, rfl⟩ := h
  rfl

/-- The exception that ends the transaction of an action. -/
def Platform.raised (cfg : Settings) (p : Platform) : Action → Option TaskError
  | .createTask now spec => exceptionOf (createTask cfg now p.db spec)
  | .manualRetry now id => exceptionOf (manualRetry cfg now p.db id)
  | .cancelTask now id => exceptionOf (cancelTask cfg now p.db id)
  | .bulkRetry now ids => exceptionOf (bulkRetry cfg now p.db ids)
  | .bulkCancel now ids => exceptionOf (bulkCancel cfg now p.db ids)
  | .start now w id =>
    if (p.holding w).isSome then none else exceptionOf (startTask cfg now p.db w id)
  | .recordSuccess now w result =>
    (p.holding w).bind fun held => exceptionOf (recordSuccess cfg now p.db held result)
  | .recordFailure now w error retryable =>
    (p.holding w).bind fun held => exceptionOf (recordFailure cfg now p.db held error retryable)
  | .requeueOrphaned now limit locked =>
    exceptionOf (requeueOrphanedQueuedTasks cfg now limit locked p.db)
  | .requeueDue now limit locked => exceptionOf (requeueDueTasks cfg now limit locked p.db)
  | .requeueDlq now limit locked => exceptionOf (requeueDlqTasks cfg now limit locked p.db)
  | .recoverStuck now limit locked => exceptionOf (recoverStuckTasks cfg now limit locked p.db)
  | .renewLease _ _ _ | .crash _ | .purgeOldData _ _ | .heartbeat _ _ | .putWebhook _ _
  | .deleteWebhook _ | .audit _ _ => none

/-- A task that waits for itself, or for tasks that are not there. -/
def dependencyConflict (db : Database) (parentIds : List TaskId) : Option TaskError :=
  let missing := parentIds.eraseDups.filter (fun p => (db.tasks.get p).isNone)
  if db.tasks.next ∈ parentIds then some (.taskConflict selfDependencyMessage)
  else if missing ≠ [] then some (.taskConflict (missingParentsMessage missing))
  else none

def creationConflict (db : Database) (spec : TaskSpec) : Option TaskError :=
  if keyTaken db spec.idempotencyKey then some .integrity
  else if spec.dependsOn.getD [] = [] then
    if spec.incomparable then some .typeError else none
  else dependencyConflict db (spec.dependsOn.getD [])

/-- An id of the list is too large for its column. -/
def rangeConflict (ids : List TaskId) : Option TaskError :=
  if ids.any (fun id => decide (idBound ≤ id)) then some .dataError else none

/-- The operator's action is refused in the status of the task. -/
def statusConflict (db : Database) (id : TaskId) (allowed : List Status)
    (message : Status → String) : Option TaskError :=
  (db.tasks.get id).bind fun row =>
    if row.status ∈ allowed then none else some (.taskConflict (message row.status))

/-- The task of an outcome was deleted. -/
def outcomeConflict (p : Platform) (w : WorkerId) : Option TaskError :=
  (p.holding w).bind fun held =>
    if (p.db.tasks.get held.task.id).isSome then none else some .staleData

/-- All that a transaction runs into. -/
def Platform.conflict (p : Platform) : Action → Option TaskError
  | .createTask _ spec => creationConflict p.db spec
  | .manualRetry _ id => statusConflict p.db id retryable retryConflictMessage
  | .cancelTask _ id => statusConflict p.db id cancelable cancelConflictMessage
  | .bulkRetry _ ids | .bulkCancel _ ids => rangeConflict ids
  | .recordSuccess _ w _ | .recordFailure _ w _ _ => outcomeConflict p w
  | _ => none

section

variable {cfg : Settings} {now : Time} {db : Database} {id : TaskId}

/-- The cycle check never refuses the dependencies of a new task. -/
theorem registerDependencies_exception (cfg : Settings) (now : Time) (hfk : db.ForeignKeys)
    (spec : TaskSpec) (parents : List TaskId) :
    exceptionOf (registerDependencies (insertTask cfg now db spec) db.tasks.next parents) =
      dependencyConflict db parents := by
  unfold registerDependencies dependencyConflict
  simp only [List.mem_eraseDups]
  by_cases hself : db.tasks.next ∈ parents
  · rw [if_pos hself, if_pos hself]
    rfl
  have hother : ∀ p ∈ parents.eraseDups, p ≠ db.tasks.next := by
    rintro p hp rfl
    exact hself (List.mem_eraseDups.mp hp)
  have hmissing : parents.eraseDups.filter
        (fun p => ((insertTask cfg now db spec).tasks.get p).isNone) =
      parents.eraseDups.filter (fun p => (db.tasks.get p).isNone) := by
    refine List.filter_congr fun p hp => ?_
    rw [show (insertTask cfg now db spec).tasks.get p = _ from Table.get_insert _ _ _,
      if_neg (hother p hp)]
  rw [if_neg hself, if_neg hself, hmissing]
  split
  · rfl
  · obtain ⟨⟨p, hp, hreach⟩, -⟩ | ⟨-, hcheck⟩ :=
      ensureNoCycle_eq (insertTask cfg now db spec) db.tasks.next parents.eraseDups
    · have hsame : (insertTask cfg now db spec).Above = db.Above := rfl
      rw [hsame] at hreach
      exact absurd hreach (hfk.not_above_next (hother p hp))
    · -- the edges of a new child are new
      rw [hcheck]
      obtain ⟨⟨d, hd, hrefused⟩, -⟩ | ⟨-, hinsert⟩ := insertEdges_cases (insertTask cfg now db spec)
        (parents.eraseDups.map (fun p => ⟨p, db.tasks.next⟩))
      · obtain ⟨p, hp, rfl⟩ := List.mem_map.mp hd
        rename_i hparents
        rw [not_not, List.filter_eq_nil_iff] at hparents
        obtain hold | hparent | hchild := hrefused
        · have hrow := (hfk _ hold).2
          rw [Table.get_of_le (le_refl _)] at hrow
          cases hrow
        · rw [show (insertTask cfg now db spec).tasks.get p = _ from Table.get_insert _ _ _,
            if_neg (hother p hp)] at hparent
          exact absurd (by rw [hparent]; rfl) (hparents p hp)
        · rw [insertTask_get] at hchild
          cases hchild
      · exact congrArg exceptionOf hinsert

theorem createTask_exception (cfg : Settings) (now : Time) (hfk : db.ForeignKeys)
    (spec : TaskSpec) : exceptionOf (createTask cfg now db spec) = creationConflict db spec := by
  unfold creationConflict
  cases hkey : keyTaken db spec.idempotencyKey with
  | true => simp only [createTask, hkey, if_true, exceptionOf_error]
  | false =>
    rw [if_neg Bool.false_ne_true]
    cases hdep : spec.dependsOn.getD [] with
    | nil =>
      rw [if_pos rfl]
      cases hzone : spec.incomparable with
      | false =>
        obtain ⟨db', hok, -⟩ := createTask_free cfg now hkey hdep hzone
        rw [hok]
        rfl
      | true =>
        simp only [createTask, hkey, Bool.false_eq_true, if_false, hzone, if_true]
        split
        · rename_i hparents
          rw [hparents] at hdep
          cases hdep
        · rfl
    | cons p ps =>
      have hparents : spec.dependsOn = some (p :: ps) := by
        cases hd : spec.dependsOn with
        | none =>
          rw [hd] at hdep
          cases hdep
        | some parents =>
          rw [hd] at hdep
          exact congrArg some hdep
      rw [if_neg (List.cons_ne_nil p ps),
        ← registerDependencies_exception cfg now hfk spec (p :: ps)]
      simp only [createTask, hkey, Bool.false_eq_true, if_false, hparents]
      exact exceptionOf_bind _ _

theorem manualRetry_exception (cfg : Settings) (now : Time) (db : Database) (id : TaskId) :
    exceptionOf (manualRetry cfg now db id) =
      statusConflict db id retryable retryConflictMessage := by
  unfold manualRetry statusConflict
  cases hrow : db.tasks.get id with
  | none => rfl
  | some row =>
    simp only [Option.bind_some]
    by_cases hs : row.status ∈ retryable
    · rw [if_neg (not_not.mpr hs), if_pos hs]
      have hobject : db.tasks.get (Instance.fresh id row).id = some row := hrow
      obtain ⟨r, hr⟩ : ∃ r, setStatus cfg now db (Instance.fresh id row) .queued .retried
          (some (.attemptsSoFar row.attempts)) = .ok r :=
        setStatus_total .retried _ hobject rfl (canTransition_retry hs)
      rw [hr]
      rfl
    · rw [if_pos hs, if_neg hs]
      rfl

theorem cancelTask_exception (cfg : Settings) (now : Time) (db : Database) (id : TaskId) :
    exceptionOf (cancelTask cfg now db id) =
      statusConflict db id cancelable cancelConflictMessage := by
  unfold cancelTask cancelTaskBody statusConflict
  cases hrow : db.tasks.get id with
  | none => rfl
  | some row =>
    simp only [Option.bind_some]
    by_cases hs : row.status ∈ cancelable
    · rw [if_neg (not_not.mpr hs), if_pos hs]
      have hobject : db.tasks.get (Instance.fresh id row).id = some row := hrow
      obtain ⟨r, hr⟩ : ∃ r, setStatus cfg now db (Instance.fresh id row) .cancelled .cancelled
          none = .ok r :=
        setStatus_total .cancelled none hobject rfl ((canTransition_cancelled row.status).mpr hs)
      rw [hr]
      rfl
    · rw [if_pos hs, if_neg hs]
      rfl

theorem statusConflict_eq (db : Database) (id : TaskId) (allowed : List Status)
    (message : Status → String) {e : TaskError}
    (h : statusConflict db id allowed message = some e) : ∃ reason, e = .taskConflict reason := by
  unfold statusConflict at h
  obtain ⟨row, -, h⟩ := Option.bind_eq_some_iff.mp h
  split at h
  · cases h
  · exact ⟨_, (Option.some.inj h).symm⟩

/-- A bulk operation reports the conflicts of its turns, so only an id can end it. -/
theorem bulk_exception {op : Database → TaskId → Except TaskError (Option Database)}
    (hop : ∀ db id e, op db id = .error e → ∃ reason, e = .taskConflict reason)
    (ids : List TaskId) (r : BulkResult) :
    exceptionOf (ids.foldlM (bulkTurn op) r) = rangeConflict ids := by
  induction ids generalizing r with
  | nil => rfl
  | cons id ids ih =>
    rw [List.foldlM_cons]
    unfold bulkTurn
    by_cases hid : idBound ≤ id
    · rw [if_pos hid, rangeConflict, List.any_cons, decide_eq_true hid]
      rfl
    · have hrest : rangeConflict (id :: ids) = rangeConflict ids := by
        rw [rangeConflict, rangeConflict, List.any_cons, decide_eq_false hid, Bool.false_or]
      rw [if_neg hid, hrest]
      cases hturn : op r.db id with
      | ok o => cases o <;> exact ih _
      | error e =>
        obtain ⟨reason, rfl⟩ := hop r.db id e hturn
        exact ih _

theorem bulkRetry_exception (cfg : Settings) (now : Time) (db : Database) (ids : List TaskId) :
    exceptionOf (bulkRetry cfg now db ids) = rangeConflict ids := by
  refine bulk_exception (fun db id e he => ?_) ids _
  have hconflict := manualRetry_exception cfg now db id
  rw [he] at hconflict
  exact statusConflict_eq db id _ _ hconflict.symm

theorem bulkCancel_exception (cfg : Settings) (now : Time) (db : Database) (ids : List TaskId) :
    exceptionOf (bulkCancel cfg now db ids) = rangeConflict ids := by
  refine bulk_exception (fun db id e he => ?_) ids _
  have hconflict := cancelTask_exception cfg now db id
  rw [he] at hconflict
  exact statusConflict_eq db id _ _ hconflict.symm

theorem startTask_exception (cfg : Settings) (now : Time) (db : Database) (w : WorkerId)
    (id : TaskId) : exceptionOf (startTask cfg now db w id) = none := by
  by_cases hstart : ∃ row, db.tasks.get id = some row ∧ row.status = .queued ∧
      leaseFree now row = true
  · obtain ⟨row, hrow, hq, hfree⟩ := hstart
    obtain ⟨db', held, hok⟩ := startTask_queued cfg now w hrow hq hfree
    rw [hok]
    rfl
  · have hdenied : tryAcquireLease now db id w cfg.taskLeaseSeconds = (db, false) := by
      unfold tryAcquireLease
      split
      · rfl
      · rename_i row hrow
        exact if_neg fun hc => hstart ⟨row, hrow, hc.1, hc.2⟩
    simp only [startTask, hdenied, exceptionOf_ok]

/-- The attempt with the key `k` stays an attempt of the same task. -/
theorem Change.attempt_task {l : Label} {db' : Database} (h : Change cfg db l db') {k : Nat}
    (hk : k < db.attempts.next) {att' : TaskAttempt} (hatt' : db'.attempts.get k = some att') :
    ∃ att, db.attempts.get k = some att ∧ att'.taskId = att.taskId := by
  have hmodify : ∀ (i : Nat) (f : TaskAttempt → TaskAttempt), (∀ att, (f att).taskId = att.taskId) →
      (db.attempts.modify i f).get k = some att' →
      ∃ att, db.attempts.get k = some att ∧ att'.taskId = att.taskId := by
    intro i f hf hget
    rw [Table.get_modify] at hget
    split at hget
    · obtain ⟨att, hatt, rfl⟩ := Option.map_eq_some_iff.mp hget
      exact ⟨att, hatt, hf att⟩
    · exact ⟨att', hget, rfl⟩
  cases h with
  | @start now w i row seen hrow hq hfree =>
    have hinsert : (db.attempts.insert (newAttempt now w i (row.attempts + 1))).get k = some att' :=
      hatt'
    rw [Table.get_insert, if_neg (Nat.ne_of_lt hk)] at hinsert
    exact ⟨att', hinsert, rfl⟩
  | @close attemptId loaded cur hsome hclose =>
    exact hmodify attemptId _ hclose.merge_taskId hatt'
  | @recover now i row details hrow hs hexpired =>
    have hclosed : (closeLastAttempt now db i).attempts.get k = some att' := hatt'
    unfold closeLastAttempt at hclosed
    split at hclosed
    · exact ⟨att', hclosed, rfl⟩
    · exact hmodify _ (closedAttempt now) (fun _ => rfl) hclosed
  | deleteTasks ids hids =>
    have herase : (db.attempts.erase (fun r => decide (r.2.taskId ∈ ids))).get k = some att' := hatt'
    rw [Table.get_erase] at herase
    exact ⟨att', (Option.filter_eq_some_iff.mp herase).1, rfl⟩
  | _ => exact ⟨att', hatt', rfl⟩

theorem attempt_task_trace {ls : List Label} {db' : Database} (h : Trace (Change cfg) db ls db')
    {k : Nat} (hk : k < db.attempts.next) {att' : TaskAttempt}
    (hatt' : db'.attempts.get k = some att') :
    ∃ att, db.attempts.get k = some att ∧ att'.taskId = att.taskId := by
  induction h with
  | nil db => exact ⟨att', hatt', rfl⟩
  | cons hstep _ ih =>
    obtain ⟨att₁, hatt₁, htask₁⟩ := ih (Nat.lt_of_lt_of_le hk hstep.attempts_next) hatt'
    obtain ⟨att, hatt, htask⟩ := hstep.attempt_task hk hatt₁
    exact ⟨att, hatt, htask₁.trans htask⟩

/-- The attempt row of a worker, as long as it is there, is one of the worker's task. -/
def Platform.Owned (p : Platform) : Prop :=
  ∀ w held, p.holding w = some held → ∀ att, p.db.attempts.get held.attemptId = some att →
    att.taskId = held.task.id

theorem Platform.Owned.step {p : Platform} (h : p.Owned) (hf : p.Fencing) (cfg : Settings)
    (a : Action) : (p.step cfg a).Owned := by
  intro w held hheld att hatt
  obtain hold | ⟨now, id, row, seen, rfl, -, -, -, -, rfl, hdb⟩ := step_holding hheld
  · obtain ⟨ls, htr, -⟩ : ∃ ls, Trace (Change cfg) p.db ls (p.step cfg a).db ∧ _ :=
      step_trace hf.sound.foreignKeys hf.sound.held a
    obtain ⟨att₀, hatt₀, htask⟩ := attempt_task_trace htr (hf.linked w held hold).2.1 hatt
    exact htask.trans (h w held hold att₀ hatt₀)
  · rw [hdb] at hatt
    have hnew : (p.db.attempts.insert (newAttempt now w id (row.attempts + 1))).get
        p.db.attempts.next = some att := hatt
    rw [Table.get_insert_next] at hnew
    cases hnew
    rfl

theorem Platform.after_owned (cfg : Settings) (acts : List Action) :
    (Platform.after cfg acts).Owned := by
  have hboth := run_invariant (P := fun p : Platform => p.Fencing ∧ p.Owned)
    (fun p a hp => ⟨hp.1.step cfg a, hp.2.step hp.1 cfg a⟩)
    ⟨Platform.initial_fencing, fun w held h => by cases h⟩ acts
  exact hboth.2

/-- The attempt row of a worker is there exactly as long as the row of its task. -/
theorem attempt_isSome {p : Platform} (hf : p.Fencing) (ho : p.Owned) {w : WorkerId} {held : Held}
    (hheld : p.holding w = some held) :
    (p.db.attempts.get held.attemptId).isSome = (p.db.tasks.get held.task.id).isSome := by
  cases hrow : p.db.tasks.get held.task.id with
  | some row =>
    obtain ⟨att, hmem, -⟩ := (hf.linked w held hheld).2.2.attempt row hrow
    rw [((p.db.attempts.mem_select _ _ _).mp hmem).1]
    rfl
  | none =>
    rw [Option.isSome_none, Option.isSome_eq_false_iff, Option.isNone_iff_eq_none,
      Option.eq_none_iff_forall_ne_some]
    intro att hatt
    have hgone := hf.sound.views held.task.id
    rw [View.Ok, view_row, hrow] at hgone
    have hmem : (held.attemptId, att) ∈ p.db.attemptsOf held.task.id :=
      (p.db.attempts.mem_select _ _ _).mpr ⟨hatt, by simpa using ho w held hheld att hatt⟩
    rw [show p.db.attemptsOf held.task.id = [] from hgone.2] at hmem
    cases hmem

theorem recordSuccess_exception (cfg : Settings) (now : Time) {p : Platform} (hf : p.Fencing)
    (ho : p.Owned) {w : WorkerId} {held : Held} (hheld : p.holding w = some held) (result : Json) :
    exceptionOf (recordSuccess cfg now p.db held result) =
      if (p.db.tasks.get held.task.id).isSome then none else some .staleData := by
  have hattempt := attempt_isSome hf ho hheld
  cases hrow : p.db.tasks.get held.task.id with
  | none =>
    rw [hrow, Option.isSome_none, Option.isSome_eq_false_iff, Option.isNone_iff_eq_none] at hattempt
    simp [recordSuccess, closeSuccess, flushAttempt, hattempt, bind, Except.bind]
  | some row =>
    rw [hrow, Option.isSome_some] at hattempt
    rw [Option.isSome_some, if_pos rfl]
    by_cases hrun : row.status = .running
    · exact exceptionOf_none
        (recordSuccess_total result (hf.sound.held w held hheld) hattempt hrow hrun)
    · have hrefused : stillRunning p.db held.task.id = false := by simp [stillRunning, hrow, hrun]
      simp [recordSuccess, closeSuccess, flushAttempt_total _ _ hattempt, bind, Except.bind,
        stillRunning_closeHeld, hrefused, pure, Except.pure]

theorem recordFailure_exception (cfg : Settings) (now : Time) {p : Platform} (hf : p.Fencing)
    (ho : p.Owned) {w : WorkerId} {held : Held} (hheld : p.holding w = some held) (error : String)
    (retryable : Bool) : exceptionOf (recordFailure cfg now p.db held error retryable) =
      if (p.db.tasks.get held.task.id).isSome then none else some .staleData := by
  have hattempt := attempt_isSome hf ho hheld
  cases hrow : p.db.tasks.get held.task.id with
  | none =>
    rw [hrow, Option.isSome_none, Option.isSome_eq_false_iff, Option.isNone_iff_eq_none] at hattempt
    simp [recordFailure, closeFailure, flushAttempt, hattempt, bind, Except.bind]
  | some row =>
    rw [hrow, Option.isSome_some] at hattempt
    rw [Option.isSome_some, if_pos rfl]
    by_cases hrun : row.status = .running
    · exact exceptionOf_none
        (recordFailure_total error retryable (hf.sound.held w held hheld) hattempt hrow hrun)
    · have hrefused : stillRunning p.db held.task.id = false := by simp [stillRunning, hrow, hrun]
      simp [recordFailure, closeFailure, flushAttempt_total _ _ hattempt, bind, Except.bind,
        stillRunning_closeHeld, hrefused, pure, Except.pure]

theorem requeueDlqTasks_exception (cfg : Settings) (now : Time) (limit : Nat)
    (locked : TaskId → Bool) {holding : WorkerId → Option Held}
    (h : Platform.Sound ⟨db, holding⟩) :
    exceptionOf (requeueDlqTasks cfg now limit locked db) = none := by
  cases henabled : cfg.dlqRetryEnabled with
  | false => simp [requeueDlqTasks, henabled]
  | true =>
    obtain ⟨db', hok, -⟩ := requeueDlqTasks_ticked henabled h
    exact exceptionOf_none ⟨db', hok⟩

theorem raised_of_fencing (cfg : Settings) {p : Platform} (hf : p.Fencing) (ho : p.Owned)
    (a : Action) : p.raised cfg a = p.conflict a := by
  have hsound : Platform.Sound ⟨p.db, p.holding⟩ := hf.sound
  cases a with
  | createTask now spec => exact createTask_exception cfg now hsound.foreignKeys spec
  | manualRetry now id => exact manualRetry_exception cfg now p.db id
  | cancelTask now id => exact cancelTask_exception cfg now p.db id
  | bulkRetry now ids => exact bulkRetry_exception cfg now p.db ids
  | bulkCancel now ids => exact bulkCancel_exception cfg now p.db ids
  | start now w id =>
    simp only [Platform.raised, Platform.conflict, startTask_exception, ite_self]
  | recordSuccess now w result =>
    simp only [Platform.raised, Platform.conflict, outcomeConflict]
    cases hheld : p.holding w with
    | none => rfl
    | some held => exact recordSuccess_exception cfg now hf ho hheld result
  | recordFailure now w error retryable =>
    simp only [Platform.raised, Platform.conflict, outcomeConflict]
    cases hheld : p.holding w with
    | none => rfl
    | some held => exact recordFailure_exception cfg now hf ho hheld error retryable
  | requeueOrphaned now limit locked => rfl
  | requeueDue now limit locked =>
    obtain ⟨db', hok, -⟩ : ∃ db', requeueDueTasks cfg now limit locked p.db = .ok db' ∧ _ :=
      requeueDueTasks_ticked hsound
    exact exceptionOf_none ⟨db', hok⟩
  | requeueDlq now limit locked => exact requeueDlqTasks_exception cfg now limit locked hsound
  | recoverStuck now limit locked =>
    obtain ⟨db', hok, -⟩ : ∃ db', recoverStuckTasks cfg now limit locked p.db = .ok db' ∧ _ :=
      recoverStuckTasks_ticked hsound
    exact exceptionOf_none ⟨db', hok⟩
  | _ => rfl

theorem commit_of_raised {α : Type} {x : Except TaskError α} (f : α → Database)
    (h : (exceptionOf x).isSome) : commit db (x.map f) = db := by
  cases x with
  | ok a => cases h
  | error e => rfl

theorem commitFound_of_raised {x : Except TaskError (Option Database)}
    (h : (exceptionOf x).isSome) : commitFound db x = db := by
  cases x with
  | ok o => cases h
  | error e => rfl

theorem finishStep_of_raised {p : Platform} {w : WorkerId} {body : Held → Except TaskError Database}
    (h : ((p.holding w).bind fun held => exceptionOf (body held)).isSome) :
    (finishStep body w p).db = p.db := by
  rw [finishStep_db]
  cases hheld : p.holding w with
  | none => rfl
  | some held =>
    rw [hheld, Option.bind_some] at h
    cases hbody : body held with
    | error e => simp only [hbody, commit]
    | ok db' => rw [hbody] at h; cases h

/-- What a rolled-back transaction leaves: the database as it was, but for the id that a creation has
drawn. -/
def rolledBack (db : Database) : Action → Database
  | .createTask _ _ => db.skipTaskId
  | _ => db

theorem step_of_raised {p : Platform} {a : Action} (h : (p.raised cfg a).isSome) :
    (p.step cfg a).db = rolledBack p.db a := by
  have hcommit : ∀ x : Except TaskError Database, (exceptionOf x).isSome → commit p.db x = p.db := by
    intro x hx
    cases x with
    | ok db' => cases hx
    | error e => rfl
  cases a with
  | createTask now spec =>
    simp only [Platform.raised] at h
    simp only [Platform.step, rolledBack]
    cases hcreate : createTask cfg now p.db spec with
    | ok r => rw [hcreate] at h; cases h
    | error e => rfl
  | manualRetry now id => exact commitFound_of_raised h
  | cancelTask now id => exact commitFound_of_raised h
  | bulkRetry now ids => exact commit_of_raised _ h
  | bulkCancel now ids => exact commit_of_raised _ h
  | start now w id =>
    simp only [Platform.raised, startTask_exception, ite_self, Option.isSome_none,
      Bool.false_eq_true] at h
  | recordSuccess now w result => exact finishStep_of_raised h
  | recordFailure now w error retryable => exact finishStep_of_raised h
  | requeueOrphaned now limit locked =>
    exact hcommit (requeueOrphanedQueuedTasks cfg now limit locked p.db) h
  | requeueDue now limit locked => exact hcommit (requeueDueTasks cfg now limit locked p.db) h
  | requeueDlq now limit locked => exact hcommit (requeueDlqTasks cfg now limit locked p.db) h
  | recoverStuck now limit locked => exact hcommit (recoverStuckTasks cfg now limit locked p.db) h
  | _ => cases h

end

end TaskPlatform
