import TaskPlatform.RowStep

/-!
# Retention, statement by statement

`purge_old_data` reads the ids of the old tasks without a lock, and a later
statement deletes these ids without asking again; other transactions commit
between the two. What was deleted stays locked until the retention transaction
commits, so a transaction that would write it waits.
-/

namespace TaskPlatform

open Run

/-- The first `SELECT`; a branch that is switched off finds nothing. -/
def selectDone (cfg : Settings) (now : Time) (limit : Nat) (db : Database) : List TaskId :=
  if 0 < cfg.retentionDoneTasksDays then
    selectIds db.tasks (isOldDone (now - timedeltaDays cfg.retentionDoneTasksDays)) limit
  else []

/-- The `SELECT` of the dead-letter branch. -/
def selectDlq (cfg : Settings) (now : Time) (limit : Nat) (db : Database) : List TaskId :=
  if 0 < cfg.retentionDlqTasksDays then
    selectIds db.tasks (isOldDeadLetter (now - timedeltaDays cfg.retentionDlqTasksDays)) limit
  else []

/-- How far the retention transaction is; `ids` is what its last `SELECT` found. -/
inductive PurgeStage where
  | idle
  | doneSelected (now : Time) (limit : Nat) (ids : List TaskId)
  | doneDeleted (now : Time) (limit : Nat)
  | dlqSelected (now : Time) (limit : Nat) (ids : List TaskId)
  | dlqDeleted (now : Time) (limit : Nat)
  deriving DecidableEq, Repr

def PurgeStage.selected : PurgeStage → List TaskId
  | .doneSelected _ _ ids => ids
  | .dlqSelected _ _ ids => ids
  | _ => []

/-- The committed state, the retention transaction, and the rows that it has deleted so far. -/
structure Retention where
  platform : Platform
  stage : PurgeStage
  deleted : List TaskId

def Retention.initial : Retention := ⟨Platform.initial, .idle, []⟩

inductive RetentionAction where
  | run (a : Action)
  | purge (now : Time) (limit : Option Nat)
  | next

/-- Another transaction, as a whole; it waits for the rows that retention has deleted. -/
def Retention.runStep (cfg : Settings) (s : Retention) (a : Action) : Retention :=
  if ∀ id ∈ s.deleted, Untouched s.platform.db (s.platform.step cfg a).db id then
    { s with platform := s.platform.step cfg a }
  else s

/-- `delete(Task).where(Task.id.in_(ids))` hits the rows that are still there. -/
def Retention.hits (s : Retention) (ids : List TaskId) : List TaskId :=
  ids.filter (fun i => (s.platform.db.tasks.get i).isSome)

/-- The next statement of the retention transaction; the last one is followed by its commit. -/
def Retention.next (cfg : Settings) (s : Retention) : Retention :=
  match s.stage with
  | .idle => s
  | .doneSelected now limit ids =>
    { s with stage := .doneDeleted now limit, deleted := s.hits ids }
  | .doneDeleted now limit =>
    { s with stage := .dlqSelected now limit
              (selectDlq cfg now limit (deleteTasks s.platform.db s.deleted)) }
  | .dlqSelected now limit ids =>
    { s with stage := .dlqDeleted now limit, deleted := s.deleted ++ s.hits ids }
  | .dlqDeleted now limit =>
    ⟨{ s.platform with db := purgeAudit cfg now limit (purgeOutbox cfg now limit
        (deleteTasks s.platform.db s.deleted)) }, .idle, []⟩

/-- The retention job begins, with its first `SELECT`, if it does not run already. -/
def Retention.begin (cfg : Settings) (s : Retention) (now : Time) (limit : Option Nat) :
    Retention :=
  match s.stage with
  | .idle =>
    let limit := if limit.getD 0 = 0 then cfg.retentionCleanupBatchSize else limit.getD 0
    { s with stage := .doneSelected now limit (selectDone cfg now limit s.platform.db) }
  | _ => s

def Retention.step (cfg : Settings) (s : Retention) : RetentionAction → Retention
  | .run a => s.runStep cfg a
  | .purge now limit => s.begin cfg now limit
  | .next => s.next cfg

theorem deleteTasks_append (db : Database) (ids ids' : List TaskId) :
    deleteTasks (deleteTasks db ids) ids' = deleteTasks db (ids ++ ids') := by
  simp only [deleteTasks, Table.erase_erase, List.mem_append, Bool.decide_or, List.filter_filter]
  congr 1
  apply List.filter_congr
  intro d _
  by_cases hp : d.parentTaskId ∈ ids <;> by_cases hc : d.childTaskId ∈ ids <;> simp [hp, hc]

theorem deleteTasks_nil (db : Database) : deleteTasks db [] = db := by
  simp [deleteTasks, Table.erase_of_false]

theorem purgeDoneTasks_eq (cfg : Settings) (now : Time) (limit : Nat) (db : Database) :
    purgeDoneTasks cfg now limit db = deleteTasks db (selectDone cfg now limit db) := by
  unfold purgeDoneTasks selectDone
  split
  · rfl
  · exact (deleteTasks_nil db).symm

theorem purgeDlqTasks_eq (cfg : Settings) (now : Time) (limit : Nat) (db : Database) :
    purgeDlqTasks cfg now limit db = deleteTasks db (selectDlq cfg now limit db) := by
  unfold purgeDlqTasks selectDlq
  split
  · rfl
  · exact (deleteTasks_nil db).symm

theorem selectDone_row {cfg : Settings} {now : Time} {limit : Nat} {db : Database} {id : TaskId}
    (h : id ∈ selectDone cfg now limit db) :
    ∃ row, db.tasks.get id = some row ∧ row.finishedAt ≠ none := by
  unfold selectDone at h
  split at h
  · obtain ⟨row, hrow, hold⟩ := mem_selectIds h
    exact ⟨row, hrow, ne_none_of_any hold⟩
  · cases h

theorem selectDlq_row {cfg : Settings} {now : Time} {limit : Nat} {db : Database} {id : TaskId}
    (h : id ∈ selectDlq cfg now limit db) :
    ∃ row, db.tasks.get id = some row ∧ row.finishedAt ≠ none := by
  unfold selectDlq at h
  split at h
  · obtain ⟨row, hrow, hold⟩ := mem_selectIds h
    rw [isOldDeadLetter, Bool.and_eq_true] at hold
    exact ⟨row, hrow, ne_none_of_any hold.2⟩
  · cases h

theorem get_of_deleteTasks {db : Database} {ids : List TaskId} {id : TaskId} {row : Task}
    (h : (deleteTasks db ids).tasks.get id = some row) :
    db.tasks.get id = some row ∧ id ∉ ids := by
  have hview := congrArg View.row (view_deleteTasks db ids id)
  rw [view_row, h] at hview
  split at hview
  · cases hview
  · rename_i hid
    exact ⟨hview.symm, hid⟩

/-- The statements of the retention transaction, with nothing in between, are `purge_old_data`. -/
theorem purge_uninterrupted (cfg : Settings) (now : Time) (limit : Option Nat) (p : Platform) :
    run (Retention.step cfg) ⟨p, .idle, []⟩ [.purge now limit, .next, .next, .next, .next] =
      ⟨p.step cfg (.purgeOldData now limit), .idle, []⟩ := by
  let n := if limit.getD 0 = 0 then cfg.retentionCleanupBatchSize else limit.getD 0
  have hdone : (selectDone cfg now n p.db).filter (fun i => (p.db.tasks.get i).isSome) =
      selectDone cfg now n p.db := by
    rw [List.filter_eq_self]
    intro id hid
    obtain ⟨row, hrow, -⟩ := selectDone_row hid
    rw [hrow]
    rfl
  have hdlq : ∀ ids, (selectDlq cfg now n (deleteTasks p.db ids)).filter
      (fun i => (p.db.tasks.get i).isSome) = selectDlq cfg now n (deleteTasks p.db ids) := by
    intro ids
    rw [List.filter_eq_self]
    intro id hid
    obtain ⟨row, hrow, -⟩ := selectDlq_row hid
    rw [(get_of_deleteTasks hrow).1]
    rfl
  have hpurge : p.step cfg (.purgeOldData now limit) =
      ⟨purgeAudit cfg now n (purgeOutbox cfg now n (deleteTasks p.db (selectDone cfg now n p.db ++
        selectDlq cfg now n (deleteTasks p.db (selectDone cfg now n p.db))))), p.holding⟩ := by
    rw [← deleteTasks_append, ← purgeDoneTasks_eq, ← purgeDlqTasks_eq]
    rfl
  rw [hpurge]
  simp only [run_cons, run_nil, Retention.step, Retention.begin, Retention.next, Retention.hits]
  rw [hdone, hdlq]

/-- A finished task is moved by nobody but an operator's retry and the dead-letter queue. -/
theorem Task.Step.finished {cfg : Settings} {id : TaskId} {row row' : Task} {l : Label}
    (h : Task.Step cfg id row l row') (hs : row.status ∈ terminal) :
    row'.status = row.status ∨
      row.status ∈ retryable ∧ (l = .enqueue .retry id ∨ l = .enqueue .dlq id) := by
  have hnot : ∀ st : Status, st ∉ terminal → row.status ≠ st := fun st hst he => hst (he ▸ hs)
  cases h with
  | same => exact .inl rfl
  | schedule now hc hat => exact absurd hc (hnot _ (by decide))
  | enqueue now cause hsource =>
    cases cause with
    | retry => exact .inr ⟨hsource, .inl rfl⟩
    | dlq => exact .inr ⟨by rw [List.mem_singleton.mp hsource]; decide, .inr rfl⟩
    | create | unblock => exact absurd (List.mem_singleton.mp hsource) (hnot _ (by decide))
    | due =>
      refine absurd hsource ?_
      revert hs
      cases row.status <;> decide
  | cancel now hc =>
    refine absurd hc ?_
    revert hs
    cases row.status <;> decide
  | start now w hq hfree => exact absurd hq (hnot _ (by decide))
  | renew now w howner hrun => exact .inl rfl
  | finish now hv hrun hout => exact absurd hrun (hnot _ (by decide))
  | stamp now dlqRetryAt => exact .inl rfl
  | recover now hrun hexpired => exact absurd hrun (hnot _ (by decide))
  | release now hq hlease => exact .inl rfl

/-- The tasks that the action puts back into the queue if their status is in `RETRYABLE`. -/
def Action.requeued (cfg : Settings) (p : Platform) : Action → List TaskId
  | .manualRetry _ id => [id]
  | .bulkRetry _ ids => ids
  | .requeueDlq now limit locked => dlqIds cfg now limit locked p.db
  | _ => []

theorem Action.Allows.requeued {cfg : Settings} {p : Platform} {a : Action} {l : Label}
    {id : TaskId} (h : a.Allows cfg p l) (hl : l = .enqueue .retry id ∨ l = .enqueue .dlq id) :
    id ∈ a.requeued cfg p := by
  rcases hl with rfl | rfl
  · cases a <;> simp_all [Action.Allows, Action.requeued, IsCreate, IsOutcome, IsCascade]
  · cases a <;> simp_all [Action.Allows, Action.requeued, IsCreate, IsOutcome, IsCascade]

/-- A task that a transaction does not requeue stays finished, as long as it is there. -/
theorem step_finished {cfg : Settings} {p : Platform} {a : Action} {id : TaskId} (h : p.Sound)
    (hid : id < p.db.tasks.next)
    (hrow : ∀ row, p.db.tasks.get id = some row → row.status ∈ terminal)
    (hspared : id ∈ a.requeued cfg p →
      ∀ row, p.db.tasks.get id = some row → row.status ∉ retryable) :
    ∀ row, (p.step cfg a).db.tasks.get id = some row → row.status ∈ terminal := by
  obtain ⟨ls, htr, hls⟩ : ∃ ls, Trace (Change cfg) p.db ls (p.step cfg a).db ∧
    ∀ l ∈ ls, a.Allows cfg p l := step_trace h.foreignKeys h.held a
  have hkept := row_trace_of_lt (P := fun r => r.status ∈ terminal ∧
      (id ∈ a.requeued cfg p → r.status ∉ retryable)) htr hls
    (fun r l r' hstep hl hr => ?_) hid
    (fun r hr => ⟨hrow r hr, fun hrequeued => hspared hrequeued r hr⟩)
  · exact fun row hrow' => (hkept row hrow').1
  · obtain hsame | ⟨hretryable, he⟩ := hstep.finished hr.1
    · rw [hsame]; exact hr
    · exact absurd hretryable (hr.2 (hl.requeued he))

/-- What retention has selected or deleted is finished. -/
structure Retention.Safe (s : Retention) : Prop where
  sound : s.platform.Sound
  selected : ∀ id ∈ s.stage.selected, id < s.platform.db.tasks.next ∧
    ∀ row, s.platform.db.tasks.get id = some row → row.status ∈ terminal
  deleted : ∀ id ∈ s.deleted, ∃ row, s.platform.db.tasks.get id = some row ∧ row.status ∈ terminal

/-- While ids are selected, no transaction puts one of these tasks back into the queue. -/
def SparesSelected (cfg : Settings) (s : Retention) : RetentionAction → Prop
  | .run a => ∀ id ∈ a.requeued cfg s.platform, id ∈ s.stage.selected →
    ∀ row ∈ s.platform.db.tasks.get id, row.status ∉ retryable
  | _ => True

/-- The rows that a `DELETE` of retention hits are finished at this moment, and so are the rows that
its commit takes out of the table. -/
def DeletesFinished (cfg : Settings) (s : Retention) : RetentionAction → Prop
  | .next =>
    (∀ id ∈ (s.next cfg).deleted, id ∉ s.deleted →
      ∀ row ∈ s.platform.db.tasks.get id, row.status ∈ terminal) ∧
    ∀ r ∈ s.platform.db.tasks.rows, (s.next cfg).platform.db.tasks.get r.1 = none →
      r.2.status ∈ terminal
  | _ => True

instance (cfg : Settings) (s : Retention) (a : RetentionAction) :
    Decidable (SparesSelected cfg s a) := by
  rcases a <;> unfold SparesSelected <;> infer_instance

instance (cfg : Settings) (s : Retention) (a : RetentionAction) :
    Decidable (DeletesFinished cfg s a) := by
  rcases a <;> unfold DeletesFinished <;> infer_instance

theorem Retention.initial_safe : Retention.initial.Safe where
  sound := Platform.initial_sound
  selected := by intro id hid; cases hid
  deleted := by intro id hid; cases hid

theorem Retention.Safe.hits {s : Retention} (h : s.Safe) {id : TaskId}
    (hid : id ∈ s.hits s.stage.selected) :
    ∃ row, s.platform.db.tasks.get id = some row ∧ row.status ∈ terminal := by
  obtain ⟨hsel, hsome⟩ := List.mem_filter.mp hid
  obtain ⟨row, hrow⟩ := Option.isSome_iff_exists.mp hsome
  exact ⟨row, hrow, (h.selected id hsel).2 row hrow⟩

@[simp] theorem purgeOutbox_tasks (cfg : Settings) (now : Time) (limit : Nat) (db : Database) :
    (purgeOutbox cfg now limit db).tasks = db.tasks := by
  unfold purgeOutbox
  split <;> rfl

@[simp] theorem purgeAudit_tasks (cfg : Settings) (now : Time) (limit : Nat) (db : Database) :
    (purgeAudit cfg now limit db).tasks = db.tasks := by
  unfold purgeAudit
  split <;> rfl

/-- The commit of the retention transaction is one more sequence of changes. -/
theorem Retention.Safe.commit {cfg : Settings} {s : Retention} (h : s.Safe) (now : Time)
    (limit : Nat) :
    Platform.Sound ⟨purgeAudit cfg now limit (purgeOutbox cfg now limit
      (deleteTasks s.platform.db s.deleted)), s.platform.holding⟩ := by
  have hdelete : Change cfg s.platform.db .other (deleteTasks s.platform.db s.deleted) := by
    refine .deleteTasks _ fun id hid => ?_
    obtain ⟨row, hrow, hs⟩ := h.deleted id hid
    exact ⟨row, hrow, (h.sound.row hrow).wellFormed.finishedAt.mpr hs⟩
  obtain ⟨ls, houtbox, -⟩ := purgeOutbox_trace cfg now limit (deleteTasks s.platform.db s.deleted)
  obtain ⟨ms, haudit, -⟩ := purgeAudit_trace cfg now limit
    (purgeOutbox cfg now limit (deleteTasks s.platform.db s.deleted))
  exact h.sound.of_trace (.cons hdelete (houtbox.append haudit))

theorem Retention.Safe.select {s : Retention} (h : s.Safe) {ids : List TaskId}
    (hids : ∀ id ∈ ids, ∃ row, s.platform.db.tasks.get id = some row ∧ row.finishedAt ≠ none) :
    ∀ id ∈ ids, id < s.platform.db.tasks.next ∧
      ∀ row, s.platform.db.tasks.get id = some row → row.status ∈ terminal := by
  intro id hid
  obtain ⟨row, hrow, hfin⟩ := hids id hid
  refine ⟨Table.get_lt hrow, fun row' hrow' => ?_⟩
  rw [hrow] at hrow'
  cases hrow'
  exact (h.sound.row hrow).wellFormed.finishedAt.mp hfin

/-- Only platform steps move what is selected, and they spare it. -/
theorem Retention.Safe.runStep {cfg : Settings} {s : Retention} (h : s.Safe) {a : Action}
    (hspares : SparesSelected cfg s (.run a)) : (s.runStep cfg a).Safe := by
  unfold Retention.runStep
  split
  · rename_i huntouched
    refine ⟨h.sound.step cfg a, fun id hid => ?_, fun id hid => ?_⟩
    · obtain ⟨hlt, hfinished⟩ := h.selected id hid
      exact ⟨Nat.lt_of_lt_of_le hlt (step_gone h.sound a).1,
        step_finished h.sound hlt hfinished fun hrequeued => hspares id hrequeued hid⟩
    · obtain ⟨row, hrow, hs⟩ := h.deleted id hid
      have hsame := congrArg View.row (huntouched id hid).1
      rw [view_row, view_row, hrow] at hsame
      exact ⟨row, hsame, hs⟩
  · exact h

theorem Retention.Safe.next {s : Retention} (h : s.Safe) (cfg : Settings) : (s.next cfg).Safe := by
  unfold Retention.next
  split
  · exact h
  · rename_i now limit ids hstage
    refine ⟨h.sound, fun id hid => (by cases hid), fun id hid => ?_⟩
    exact h.hits (by rw [hstage]; exact hid)
  · rename_i now limit hstage
    refine ⟨h.sound, h.select fun id hid => ?_, h.deleted⟩
    obtain ⟨row, hrow, hfin⟩ := selectDlq_row hid
    exact ⟨row, (get_of_deleteTasks hrow).1, hfin⟩
  · rename_i now limit ids hstage
    refine ⟨h.sound, fun id hid => (by cases hid), fun id hid => ?_⟩
    rcases List.mem_append.mp hid with hid | hid
    · exact h.deleted id hid
    · exact h.hits (by rw [hstage]; exact hid)
  · rename_i now limit hstage
    exact ⟨h.commit now limit, fun id hid => (by cases hid), fun id hid => (by cases hid)⟩

theorem Retention.Safe.step {cfg : Settings} {s : Retention} (h : s.Safe) {a : RetentionAction}
    (hspares : SparesSelected cfg s a) : (s.step cfg a).Safe := by
  cases a with
  | run a => exact h.runStep hspares
  | purge now limit =>
    simp only [Retention.step, Retention.begin]
    split
    · exact ⟨h.sound, h.select fun id hid => selectDone_row hid, h.deleted⟩
    · exact h
  | next => exact h.next cfg

/-- A `DELETE` adds what it hits to the rows that are gone with the commit. -/
theorem Retention.next_deleted (cfg : Settings) (s : Retention) {id : TaskId}
    (h : id ∈ (s.next cfg).deleted) : id ∈ s.deleted ∨ id ∈ s.hits s.stage.selected := by
  unfold Retention.next at h
  split at h
  · exact .inl h
  · rename_i hstage
    rw [hstage]
    exact .inr h
  · exact .inl h
  · rename_i hstage
    rw [hstage]
    exact List.mem_append.mp h
  · cases h

theorem Retention.next_gone (cfg : Settings) (s : Retention) {id : TaskId}
    (h : (s.next cfg).platform.db.tasks.get id = none) :
    s.platform.db.tasks.get id = none ∨ id ∈ s.deleted := by
  unfold Retention.next at h
  split at h
  · exact .inl h
  · exact .inl h
  · exact .inl h
  · exact .inl h
  · have hview := congrArg View.row (view_deleteTasks s.platform.db s.deleted id)
    simp only [purgeAudit_tasks, purgeOutbox_tasks] at h
    rw [view_row, h] at hview
    split at hview
    · rename_i hid
      exact .inr hid
    · exact .inl hview.symm

theorem Retention.Safe.deletesFinished {s : Retention} (h : s.Safe) (cfg : Settings)
    (a : RetentionAction) : DeletesFinished cfg s a := by
  cases a with
  | run a => trivial
  | purge now limit => trivial
  | next =>
    refine ⟨fun id hid hnew => ?_, fun r hr hgone => ?_⟩
    · have hhit := (s.next_deleted cfg hid).resolve_left hnew
      exact (h.selected id (List.mem_filter.mp hhit).1).2
    · have hrow := (Table.get_eq_some_iff _ _ _).mpr hr
      obtain hnone | hid := s.next_gone cfg hgone
      · rw [hrow] at hnone
        cases hnone
      · obtain ⟨row, hrow', hs⟩ := h.deleted r.1 hid
        rw [hrow] at hrow'
        cases hrow'
        exact hs

/-- Along every run in which no transaction puts a task back into the queue between the `SELECT`
that finds it and its `DELETE`, retention deletes only finished tasks. -/
theorem retention_deletes_finished (cfg : Settings) (acts : List RetentionAction)
    (h : Along (Retention.step cfg) (SparesSelected cfg) Retention.initial acts) :
    Along (Retention.step cfg) (DeletesFinished cfg) Retention.initial acts :=
  along_of_along_invariant (P := Retention.Safe) (fun _ _ hs hc => hs.step hc)
    (fun _ a hs _ => hs.deletesFinished cfg a) Retention.initial_safe h

/-- A cancelled task is old enough, and retention runs while another task is created. -/
def purgeRun : List RetentionAction :=
  [.run (.createTask 0 plainSpec), .run (.cancelTask 1 1), .purge 3000000000000 none,
    .run (.createTask 3000000000001 plainSpec), .next, .next, .next, .next]

theorem retention_deletes_finished_purgeRun :
    Along (Retention.step .default) (DeletesFinished .default) Retention.initial purgeRun :=
  retention_deletes_finished .default purgeRun (by decide +kernel)

/-- An operator retries the task after retention has selected it. -/
def purgedRetryRun : List RetentionAction :=
  [.run (.createTask 0 plainSpec), .run (.cancelTask 1 1), .purge 3000000000000 none,
    .run (.manualRetry 3000000000001 1), .next, .next, .next, .next]

/-- Retention deletes the queued task. -/
theorem purgedRetryRun_deletes_queued :
    ¬ Along (Retention.step .default) (DeletesFinished .default) Retention.initial
      purgedRetryRun := by
  decide +kernel

end TaskPlatform
