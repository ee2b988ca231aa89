import TaskPlatform.Batches
import TaskPlatform.Invariant

/-!
# The progress of a batch

`get_progress` of `services/batches.py` puts the statuses of the tasks of a batch into six buckets. They
always add up to the number of tasks. A dead letter counts as pending for ever, also when nothing will
requeue it; so a batch that is done is reported as completed if and only if it has no dead letter.
-/

namespace TaskPlatform

/-- `TASK_STATUSES` -/
def taskStatuses : List Status :=
  [.created, .queued, .running, .retryScheduled, .scheduled, .success, .failed, .cancelled,
    .deadLetter, .timeout]

structure BatchProgress where
  total : Nat
  queued : Nat
  running : Nat
  succeeded : Nat
  failed : Nat
  cancelled : Nat
  pending : Nat
  completed : Nat
  deriving DecidableEq, Repr

/-- The rows that the query of `get_progress` groups. -/
def batchRows (db : Database) (batchId : Nat) : List (TaskId × Task) :=
  db.tasks.select fun r => r.2.batchId == some batchId

/-- `counts.get(status, 0)`, out of the groups by status. -/
def statusCount (db : Database) (batchId : Nat) (status : Status) : Nat :=
  ((batchRows db batchId).map (·.2.status)).count status

/-- `get_progress` -/
def getProgress (db : Database) (batchId : Nat) : BatchProgress :=
  let counts := statusCount db batchId
  let pending := (([.created, .retryScheduled, .scheduled, .deadLetter].filter
    (· ≠ Status.success)).map counts).sum
  let queued := counts .queued
  let running := counts .running
  let succeeded := counts .success
  let failed := counts .failed + counts .timeout
  let cancelled := counts .cancelled
  let total := (taskStatuses.map counts).sum
  let completed := succeeded + failed + cancelled
  ⟨total, queued, running, succeeded, failed, cancelled, max pending 0, completed⟩

/-- The platform will not change the task by itself. -/
def Task.Final (row : Task) : Prop :=
  row.status ∈ [.success, .failed, .cancelled] ∨
    row.status = .deadLetter ∧ row.dlqRetryAt = none

/-- The buckets add up to the tasks of the batch, and it is completed once they are final. -/
structure ProgressRight (db : Database) (batchId : Nat) : Prop where
  added : (getProgress db batchId).queued + (getProgress db batchId).running +
    (getProgress db batchId).succeeded + (getProgress db batchId).failed +
    (getProgress db batchId).cancelled + (getProgress db batchId).pending =
      (getProgress db batchId).total
  counted : (getProgress db batchId).total = (batchRows db batchId).length
  completes : (getProgress db batchId).completed = (getProgress db batchId).total ↔
    ∀ r ∈ batchRows db batchId, r.2.Final

theorem sum_count_cons (all : List Status) (status : Status) (statuses : List Status) :
    (all.map (status :: statuses).count).sum =
      (all.map statuses.count).sum + all.count status := by
  induction all with
  | nil => rfl
  | cons s all ih =>
    rw [List.map_cons, List.map_cons, List.sum_cons, List.sum_cons, ih, List.count_cons,
      List.count_cons, BEq.comm (a := status)]
    omega

theorem count_taskStatuses (status : Status) : taskStatuses.count status = 1 := by
  cases status <;> rfl

/-- Every status is counted in the total, and only once. -/
theorem sum_count_taskStatuses (statuses : List Status) :
    (taskStatuses.map statuses.count).sum = statuses.length := by
  induction statuses with
  | nil => rfl
  | cons status statuses ih =>
    rw [sum_count_cons, ih, count_taskStatuses, List.length_cons]

theorem getProgress_added (db : Database) (batchId : Nat) :
    (getProgress db batchId).queued + (getProgress db batchId).running +
      (getProgress db batchId).succeeded + (getProgress db batchId).failed +
      (getProgress db batchId).cancelled + (getProgress db batchId).pending =
        (getProgress db batchId).total := by
  simp [getProgress, taskStatuses]
  omega

theorem getProgress_counted (db : Database) (batchId : Nat) :
    (getProgress db batchId).total = (batchRows db batchId).length := by
  have hsum := sum_count_taskStatuses ((batchRows db batchId).map (·.2.status))
  rw [List.length_map] at hsum
  exact hsum

/-- The statuses that the total has and `completed` has not. -/
def unfinished : List Status :=
  [.created, .queued, .running, .retryScheduled, .scheduled, .deadLetter]

theorem not_mem_unfinished (status : Status) :
    status ∉ unfinished ↔ status ∈ [Status.success, .failed, .cancelled, .timeout] := by
  cases status <;> decide

theorem total_eq (db : Database) (batchId : Nat) :
    (getProgress db batchId).total =
      (getProgress db batchId).completed + (unfinished.map (statusCount db batchId)).sum := by
  simp [getProgress, taskStatuses, unfinished]
  omega

theorem statusCount_eq_zero (db : Database) (batchId : Nat) (status : Status) :
    statusCount db batchId status = 0 ↔ ∀ r ∈ batchRows db batchId, r.2.status ≠ status := by
  rw [statusCount, List.count_eq_zero, List.mem_map]
  constructor
  · intro h r hr he
    exact h ⟨r, hr, he⟩
  · rintro h ⟨r, hr, he⟩
    exact h r hr he

theorem completed_eq_total (db : Database) (batchId : Nat) :
    (getProgress db batchId).completed = (getProgress db batchId).total ↔
      ∀ r ∈ batchRows db batchId, r.2.status ∈ [Status.success, .failed, .cancelled, .timeout] := by
  rw [total_eq, left_eq_add, List.sum_eq_zero_iff]
  constructor
  · intro h r hr
    rw [← not_mem_unfinished]
    intro hs
    have hzero := h _ (List.mem_map_of_mem hs)
    exact (statusCount_eq_zero db batchId r.2.status).mp hzero r hr rfl
  · intro h count hcount
    obtain ⟨status, hs, rfl⟩ := List.mem_map.mp hcount
    rw [statusCount_eq_zero]
    intro r hr he
    exact (not_mem_unfinished _).mpr (h r hr) (he ▸ hs)

theorem mem_batchRows {db : Database} {batchId : Nat} {r : TaskId × Task}
    (h : r ∈ batchRows db batchId) : db.tasks.get r.1 = some r.2 :=
  ((db.tasks.mem_select _ _ _).mp h).1

/-- Nothing sets the status `timeout`. -/
theorem status_ne_timeout {cfg : Settings} {acts : List Action} {id : TaskId} {row : Task}
    (h : (Platform.after cfg acts).db.tasks.get id = some row) : row.status ≠ .timeout := by
  have hlog := ((Platform.after_sound cfg acts).row h).faithful
  refine hlog.reached (P := (· ≠ .timeout)) (by decide) fun s t hst he => ?_
  rw [he] at hst
  revert hst
  cases s <;> decide

/-- A batch of final tasks has a dead letter among them. -/
def EndsInDeadLetter (db : Database) (batchId : Nat) : Prop :=
  (∀ r ∈ batchRows db batchId, r.2.Final) ∧
    ∃ r ∈ batchRows db batchId, r.2.status = .deadLetter

/-- In every reachable state the progress of a batch is right, unless all its tasks are final and one
of them is a dead letter. -/
theorem progress_right_iff (cfg : Settings) (acts : List Action) (batchId : Nat) :
    ProgressRight (Platform.after cfg acts).db batchId ↔
      ¬ EndsInDeadLetter (Platform.after cfg acts).db batchId := by
  constructor
  · rintro h ⟨hfinal, r, hr, hdead⟩
    have hdone := (completed_eq_total _ _).mp (h.completes.mpr hfinal) r hr
    rw [hdead] at hdone
    revert hdone
    decide
  · intro hends
    refine ⟨getProgress_added _ _, getProgress_counted _ _, ?_⟩
    rw [completed_eq_total]
    constructor
    · intro h r hr
      have htimeout := status_ne_timeout (mem_batchRows hr)
      have hdone := h r hr
      left
      revert htimeout hdone
      cases r.2.status <;> decide
    · intro h r hr
      have hdead : r.2.status ≠ .deadLetter := fun hdead => hends ⟨h, r, hr, hdead⟩
      obtain hdone | ⟨hs, -⟩ := h r hr
      · revert hdone
        cases r.2.status <;> decide
      · exact absurd hs hdead

/-- The only task of the batch fails for good, and dead letters are not requeued. -/
def deadBatchRun : List Action :=
  [.createTask 0 { taskType := "fail", payload := "{}", maxAttempts := some 1, batchId := some 1 },
    .start 1 "w1" 1, .recordFailure 2 "w1" "boom" true]

/-- The task is final, and the batch is not completed. -/
theorem deadBatchRun_not_completed :
    ¬ ProgressRight (Platform.after { Settings.default with dlqRetryEnabled := false }
      deadBatchRun).db 1 := by
  intro h
  have hrows : (batchRows (Platform.after { Settings.default with dlqRetryEnabled := false }
      deadBatchRun).db 1).all (fun r => r.2.status == .deadLetter && r.2.dlqRetryAt.isNone) =
        true := by
    decide +kernel
  have hcompleted := h.completes.mpr fun r hr => by
    have hdead := List.all_eq_true.mp hrows r hr
    simp only [Bool.and_eq_true, beq_iff_eq, Option.isNone_iff_eq_none] at hdead
    exact .inr hdead
  revert hcompleted
  decide +kernel

end TaskPlatform
