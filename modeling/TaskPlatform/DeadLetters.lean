import TaskPlatform.Budget

/-!
# The life cycle of dead letters

`record_failure` decides from the counter of the worker's object whether a dead
letter gets another cycle. As long as this counter is on the same side of the
limit as the one of the row, every dead letter waits either for the coordinator
or for retention.
-/

namespace TaskPlatform

open Run

section

variable {cfg : Settings} {now : Time} {db db' : Database} {w : WorkerId} {held : Held}
  {row : Task}

theorem setStatus_held_row {task : Task} {task' : Instance} {new : Status} {eventType : EventType}
    {details : Option Details} (hv : held.Valid w) (hrow : db.tasks.get held.task.id = some row)
    (hout : OutcomeFields now held.task.loaded new task)
    (h : setStatus cfg now db ⟨held.task.id, held.task.loaded, task⟩ new eventType details =
      .ok (db', task')) :
    task' = Instance.fresh held.task.id (movedTask now task new) ∧
      db'.tasks.get held.task.id =
        some ((Task.merge held.task.loaded (setStatusFields now task new) row).touch now) := by
  let object : Instance := ⟨held.task.id, held.task.loaded, task⟩
  have hst : object.cur.status = .running := hout.status.trans hv.running
  have hobject : db.tasks.get object.id = some row := hrow
  obtain ⟨htask, hview⟩ := setStatusFuel_row hobject (hv.running.trans hst.symm)
    (by rw [hst]; exact hout.transition) h
  exact ⟨htask, congrArg View.row hview⟩

/-- What the dead-letter queue knows of a row, before and after an outcome of its task. -/
structure SameCycle (row row' : Task) : Prop where
  count : row'.dlqRequeueCount = row.dlqRequeueCount
  retryAt : row'.dlqRetryAt = row.dlqRetryAt
  deadLetter : row'.status = .deadLetter → row.status = .deadLetter

theorem SameCycle.refl (row : Task) : SameCycle row row := ⟨rfl, rfl, id⟩

/-- An outcome that does not dead-letter. -/
theorem sameCycle_finished {task : Task} {new : Status} (hv : held.Valid w)
    (hout : OutcomeFields now held.task.loaded new task) (hnew : new ≠ .deadLetter) :
    SameCycle row ((Task.merge held.task.loaded (setStatusFields now task new) row).touch now) where
  count := (hv.merge_counters row now hout).2.1
  retryAt := (hv.merge_counters row now hout).2.2
  deadLetter := fun hs => absurd ((hv.merge row now hout).1.symm.trans hs) hnew

/-- The failure that dead-letters: the object's counter decides on `dlq_retry_at`, which is written
only if it differs from what the object was loaded with. -/
structure DeadLettered (cfg : Settings) (now : Time) (held : Held) (row row' : Task) : Prop where
  exhausted : held.task.loaded.maxAttempts ≤ held.task.loaded.attempts
  running : row.status = .running
  count : row'.dlqRequeueCount = row.dlqRequeueCount
  retryAt : row'.dlqRetryAt = mergeColumn held.task.loaded.dlqRetryAt
    (dlqRetryAtAfter cfg now held.task.loaded) row.dlqRetryAt

/-- The dead-letter branch computes `dlq_retry_at` from the moved object, whose counter is the one it
was loaded with. -/
theorem dlqRetryAt_moved (cfg : Settings) (now : Time) {task row merged : Task} {error : String}
    (h : merged.dlqRetryAt = row.dlqRetryAt) :
    let moved := movedTask now { task with lastError := some error } .deadLetter
    mergeColumn moved.dlqRetryAt (dlqRetryAtAfter cfg now moved) (merged.touch now).dlqRetryAt =
      mergeColumn task.dlqRetryAt (dlqRetryAtAfter cfg now task) row.dlqRetryAt := by
  simp [movedTask, Task.touch, setStatusFields_eq, dlqRetryAtAfter, h]

theorem flush_dlqRetryAt_row {id : TaskId} {task : Task} {task' : Instance} {retryAt : Option Time}
    (hrow : db.tasks.get id = some row)
    (h : flush now db ⟨id, task, { task with dlqRetryAt := retryAt }⟩ = .ok (db', task')) :
    ∃ row', db'.tasks.get id = some row' ∧ row'.dlqRequeueCount = row.dlqRequeueCount ∧
      row'.dlqRetryAt = mergeColumn task.dlqRetryAt retryAt row.dlqRetryAt := by
  unfold flush at h
  split at h
  · rename_i hsame
    cases h
    have hretry : retryAt = task.dlqRetryAt := congrArg Task.dlqRetryAt hsame
    exact ⟨row, hrow, rfl, by rw [hretry, mergeColumn_same]⟩
  · rw [hrow] at h
    cases h
    refine ⟨_, get_setTask_self _ hrow, ?_, rfl⟩
    simp [Task.merge, Task.touch]

theorem finishSuccess_row {result : Json} (hv : held.Valid w)
    (hrow : db.tasks.get held.task.id = some row)
    (h : finishSuccess cfg now db held result = .ok db') :
    ∃ row', db'.tasks.get held.task.id = some row' ∧ SameCycle row row' := by
  simp only [finishSuccess, hv.same] at h
  obtain ⟨⟨db₁, task⟩, hset, h⟩ := bind_ok h
  cases h
  have hout : OutcomeFields now held.task.loaded .success _ := .success result
  exact ⟨_, (setStatus_held_row hv hrow hout hset).2, sameCycle_finished hv hout (by decide)⟩

theorem finishFailure_row {error : String} {retryable : Bool} (hv : held.Valid w)
    (hrow : db.tasks.get held.task.id = some row) (hrun : row.status = .running)
    (h : finishFailure cfg now db held error retryable = .ok db') :
    ∃ row', db'.tasks.get held.task.id = some row' ∧
      (SameCycle row row' ∨ retryable = true ∧ DeadLettered cfg now held row row') := by
  simp only [finishFailure, hv.same] at h
  split at h
  · rename_i hretry
    obtain ⟨⟨db₁, task⟩, hset, h⟩ := bind_ok h
    cases h
    have hout : OutcomeFields now held.task.loaded .retryScheduled _ :=
      .retry (truncateError error)
        (now + timedelta (computeRetryDelaySeconds cfg held.task.loaded.attempts)) hretry.2
    exact ⟨_, (setStatus_held_row hv hrow hout hset).2,
      .inl (sameCycle_finished hv hout (by decide))⟩
  · rename_i hnot
    split at h
    · rename_i hretryable
      obtain ⟨⟨db₁, task⟩, hset, h⟩ := bind_ok h
      have hout : OutcomeFields now held.task.loaded .deadLetter _ :=
        .deadLetter (truncateError error)
      obtain ⟨rfl, hrow₁⟩ := setStatus_held_row hv hrow hout hset
      obtain ⟨⟨db₂, task⟩, hflush, h⟩ := bind_ok h
      cases h
      obtain ⟨row', hrow', hcount, hretryAt⟩ := flush_dlqRetryAt_row hrow₁ hflush
      obtain ⟨-, hcount₁, hretryAt₁⟩ := hv.merge_counters row now hout
      refine ⟨row', hrow', .inr ⟨hretryable, ?_, hrun, hcount.trans hcount₁, ?_⟩⟩
      · exact Nat.le_of_not_lt fun hlt => hnot ⟨hretryable, hlt⟩
      · rw [hretryAt]
        exact dlqRetryAt_moved cfg now hretryAt₁
    · obtain ⟨⟨db₁, task⟩, hset, h⟩ := bind_ok h
      cases h
      have hout : OutcomeFields now held.task.loaded .failed _ := .failed (truncateError error)
      exact ⟨_, (setStatus_held_row hv hrow hout hset).2,
        .inl (sameCycle_finished hv hout (by decide))⟩

/-- Both outcomes, with the guard that they make. -/
theorem recordSuccess_row {result : Json} (hv : held.Valid w)
    (hrow : db.tasks.get held.task.id = some row)
    (h : recordSuccess cfg now db held result = .ok db') :
    ∃ row', db'.tasks.get held.task.id = some row' ∧ SameCycle row row' := by
  obtain ⟨db₁, hclose, h⟩ := bind_ok h
  obtain ⟨-, rfl⟩ := flushAttempt_ok hclose
  split at h
  · cases h
    exact ⟨row, hrow, .refl row⟩
  · refine finishSuccess_row hv ?_ h
    exact hrow

theorem recordFailure_row {error : String} {retryable : Bool} (hv : held.Valid w)
    (hrow : db.tasks.get held.task.id = some row)
    (h : recordFailure cfg now db held error retryable = .ok db') :
    ∃ row', db'.tasks.get held.task.id = some row' ∧
      (SameCycle row row' ∨ retryable = true ∧ DeadLettered cfg now held row row') := by
  obtain ⟨db₁, hclose, h⟩ := bind_ok h
  obtain ⟨-, rfl⟩ := flushAttempt_ok hclose
  split at h
  · cases h
    exact ⟨row, hrow, .inl (.refl row)⟩
  · rename_i hrun
    rw [not_not, stillRunning_closeHeld] at hrun
    obtain ⟨row₀, hrow₀, hrunning⟩ := stillRunning_true hrun
    rw [hrow] at hrow₀
    cases hrow₀
    refine finishFailure_row hv ?_ hrunning h
    exact hrow

end

/-- A row in the dead-letter queue says by `dlq_retry_at` whether it has a cycle left. -/
structure Cycled (cfg : Settings) (row : Task) : Prop where
  count : row.dlqRequeueCount ≤ cfg.dlqRetryMaxCycles
  retryAt : row.status = .deadLetter →
    (row.dlqRetryAt ≠ none ↔ row.dlqRequeueCount < cfg.dlqRetryMaxCycles)

/-- What the copy of a worker says of the row that it was loaded from. -/
structure Held.Cycled (cfg : Settings) (held : Held) (row : Task) : Prop where
  count : held.task.loaded.dlqRequeueCount ≤ row.dlqRequeueCount
  kept : held.task.loaded.dlqRetryAt ≠ none →
    row.dlqRetryAt ≠ none ∨ cfg.dlqRetryMaxCycles ≤ row.dlqRequeueCount
  cleared : cfg.dlqRetryMaxCycles ≤ held.task.loaded.dlqRequeueCount →
    held.task.loaded.dlqRetryAt = none → row.dlqRetryAt = none

theorem Held.cycled_loaded (cfg : Settings) (held : Held) : held.Cycled cfg held.task.loaded where
  count := le_refl _
  kept := Or.inl
  cleared := fun _ hnone => hnone

/-- What one transaction can do to the cycles of a task. -/
inductive CycleStep (cfg : Settings) (row row' : Task) : Prop where
  | same : SameCycle row row' → CycleStep cfg row row'
  | requeue : row.dlqRequeueCount < cfg.dlqRetryMaxCycles →
      row'.dlqRequeueCount = row.dlqRequeueCount + 1 → row'.dlqRetryAt = row.dlqRetryAt →
      row'.status ≠ .deadLetter → CycleStep cfg row row'
  | deadLetter : row'.dlqRequeueCount = row.dlqRequeueCount →
      (row'.dlqRetryAt ≠ none ↔ row.dlqRequeueCount < cfg.dlqRetryMaxCycles) →
      CycleStep cfg row row'

section

variable {cfg : Settings} {row row' : Task}

theorem CycleStep.cycled (h : CycleStep cfg row row') (hrow : Cycled cfg row) :
    Cycled cfg row' := by
  cases h with
  | same hsame =>
    refine ⟨hsame.count ▸ hrow.count, fun hs => ?_⟩
    rw [hsame.retryAt, hsame.count]
    exact hrow.retryAt (hsame.deadLetter hs)
  | requeue hlt hcount hretryAt hs => exact ⟨hcount ▸ hlt, fun hdead => absurd hdead hs⟩
  | deadLetter hcount hretryAt => exact ⟨hcount ▸ hrow.count, fun _ => hcount ▸ hretryAt⟩

theorem CycleStep.held {held : Held} (h : CycleStep cfg row row') (hheld : held.Cycled cfg row) :
    held.Cycled cfg row' := by
  obtain ⟨hcount, hkept, hcleared⟩ := hheld
  cases h with
  | same hsame =>
    refine ⟨?_, ?_, ?_⟩
    · rw [hsame.count]; exact hcount
    · rw [hsame.count, hsame.retryAt]; exact hkept
    · rw [hsame.retryAt]; exact hcleared
  | requeue hlt hcount' hretryAt hs =>
    refine ⟨by omega, fun hsome => ?_, ?_⟩
    · rw [hretryAt]
      exact (hkept hsome).imp_right fun hle => by omega
    · rw [hretryAt]; exact hcleared
  | deadLetter hcount' hretryAt =>
    refine ⟨by omega, fun _ => ?_, fun hle _ => ?_⟩
    · rw [hretryAt, hcount']
      exact lt_or_ge _ _
    · have hnot : ¬ row.dlqRequeueCount < cfg.dlqRetryMaxCycles := by omega
      exact not_not.mp fun hsome => hnot (hretryAt.mp hsome)

/-- The dead letter of a worker whose counter is on the side of the row's. -/
theorem DeadLettered.cycleStep {now : Time} {held : Held} (h : DeadLettered cfg now held row row')
    (henabled : cfg.dlqRetryEnabled = true) (hheld : held.Cycled cfg row)
    (hagree : held.task.loaded.dlqRequeueCount < cfg.dlqRetryMaxCycles ↔
      row.dlqRequeueCount < cfg.dlqRetryMaxCycles) : CycleStep cfg row row' := by
  refine .deadLetter h.count ?_
  rw [h.retryAt, ← hagree]
  by_cases hlt : held.task.loaded.dlqRequeueCount < cfg.dlqRetryMaxCycles
  · -- another cycle: the time is written, unless it is the one that the object was loaded with
    have hafter : dlqRetryAtAfter cfg now held.task.loaded =
        some (now + timedelta cfg.dlqRetryIntervalSeconds) := if_pos ⟨henabled, hlt⟩
    simp only [hafter, hlt, iff_true]
    unfold mergeColumn
    split
    · rename_i hloaded
      exact (hheld.kept (by rw [← hloaded]; simp)).resolve_right
        (Nat.not_le_of_lt (hagree.mp hlt))
    · simp
  · have hafter : dlqRetryAtAfter cfg now held.task.loaded = none := if_neg fun hc => hlt hc.2
    simp only [hafter, hlt, iff_false, not_not]
    unfold mergeColumn
    split
    · rename_i hloaded
      exact hheld.cleared (Nat.le_of_not_lt hlt) hloaded.symm
    · rfl

theorem SameCycle.trans {row'' : Task} (h : SameCycle row row') (h' : SameCycle row' row'') :
    SameCycle row row'' where
  count := h'.count.trans h.count
  retryAt := h'.retryAt.trans h.retryAt
  deadLetter := fun hs => h.deadLetter (h'.deadLetter hs)

theorem sameCycle_moved (now : Time) (row : Task) {new : Status} (hnew : new ≠ .deadLetter) :
    SameCycle row (movedTask now row new) where
  count := movedTask_dlqRequeueCount _ _ _
  retryAt := by simp [movedTask, Task.touch, setStatusFields_eq]
  deadLetter := fun hs => absurd hs (by simpa using hnew)

/-- Only an outcome that dead-letters, the flush after it and `requeue_dlq_tasks` touch the cycles. -/
theorem Task.Step.sameCycle {id : TaskId} {l : Label} (h : Task.Step cfg id row l row')
    (hsettle : l ≠ .settle id .deadLetter) (hstamp : l ≠ .stamp id)
    (hdlq : l ≠ .enqueue .dlq id) : SameCycle row row' := by
  cases h with
  | same => exact .refl row
  | schedule now hs hat => exact sameCycle_moved now row (by decide)
  | enqueue now cause hs =>
    cases cause with
    | dlq => exact absurd rfl hdlq
    | create | unblock | retry | due => exact sameCycle_moved now row (by decide)
  | cancel now hs => exact sameCycle_moved now row (by decide)
  | start now w hs hfree => exact ⟨rfl, rfl, fun hdead => by cases hdead⟩
  | renew now w howner hs => exact ⟨rfl, rfl, fun hdead => hdead⟩
  | finish now hv hs hout => exact sameCycle_finished hv hout fun hnew => hsettle (by rw [hnew])
  | stamp now dlqRetryAt => exact absurd rfl hstamp
  | recover now hs hexpired => exact sameCycle_moved now row (by decide)
  | release now hs hlease => exact ⟨rfl, rfl, fun hdead => hdead⟩

/-- A task that is no dead letter keeps its counter. -/
theorem Task.Step.undead {id : TaskId} {l : Label} (h : Task.Step cfg id row l row')
    (hsettle : l ≠ .settle id .deadLetter) (hs : row.status ≠ .deadLetter) :
    row'.status ≠ .deadLetter ∧ row'.dlqRequeueCount = row.dlqRequeueCount := by
  by_cases hdlq : l = .enqueue .dlq id
  · subst hdlq
    cases h with
    | same => exact ⟨hs, rfl⟩
    | enqueue now cause hdead => exact absurd (List.mem_singleton.mp hdead) hs
  · by_cases hstamp : l = .stamp id
    · subst hstamp
      cases h with
      | same => exact ⟨hs, rfl⟩
      | stamp now dlqRetryAt => exact ⟨hs, rfl⟩
    · have hsame := h.sameCycle hsettle hstamp hdlq
      exact ⟨fun hdead => hs (hsame.deadLetter hdead), hsame.count⟩

end

/-- A failure that dead-letters finds the counter of its copy on the side of the limit on which the
counter of the row is. -/
def CountAgrees (cfg : Settings) (p : Platform) : Action → Prop
  | .recordFailure _ w _ retryable => retryable = true →
    ∀ held ∈ p.holding w, ∀ row ∈ p.db.tasks.get held.task.id, row.status = .running →
      held.task.loaded.maxAttempts ≤ held.task.loaded.attempts →
      (held.task.loaded.dlqRequeueCount < cfg.dlqRetryMaxCycles ↔
        row.dlqRequeueCount < cfg.dlqRetryMaxCycles)
  | _ => True

instance (cfg : Settings) (p : Platform) (a : Action) : Decidable (CountAgrees cfg p a) := by
  rcases a <;> unfold CountAgrees <;> infer_instance

section

variable {cfg : Settings} {id : TaskId} {p : Platform} {a : Action} {row row' : Task}

/-- The labels of the dead-letter queue belong to the outcome of the task or to the coordinator. -/
theorem Action.Allows.foreign_cycle {l : Label} (h : a.Allows cfg p l)
    (hout : ∀ w held, a.outcomeOf = some w → p.holding w = some held → held.task.id ≠ id)
    (hdlq : ∀ now limit locked, a ≠ .requeueDlq now limit locked) :
    l ≠ .settle id .deadLetter ∧ l ≠ .stamp id ∧ l ≠ .enqueue .dlq id := by
  refine ⟨?_, ?_, ?_⟩
  · rintro rfl
    obtain ⟨w, held, ha, hheld, hid⟩ := h.settle (by decide)
    exact hout w held ha hheld hid
  · rintro rfl
    obtain ⟨w, held, ha, hheld, hid⟩ := h.stamp
    exact hout w held ha hheld hid
  · rintro rfl
    obtain ⟨now, limit, locked, rfl⟩ := h.dlq
    exact hdlq now limit locked rfl

theorem step_cycle (h : p.Sound) (henabled : cfg.dlqRetryEnabled = true)
    (hagrees : CountAgrees cfg p a)
    (hheld : ∀ w held, p.holding w = some held → held.task.id = id → held.Cycled cfg row)
    (hrow : p.db.tasks.get id = some row) (hrow' : (p.step cfg a).db.tasks.get id = some row') :
    CycleStep cfg row row' := by
  obtain ⟨ls, htr, hls⟩ : ∃ ls, Trace (Change cfg) p.db ls (p.step cfg a).db ∧
    ∀ l ∈ ls, a.Allows cfg p l := step_trace h.foreignKeys h.held a
  by_cases hout : ∃ w held, a.outcomeOf = some w ∧ p.holding w = some held ∧ held.task.id = id
  · -- the outcome of the task itself
    obtain ⟨w, held, ha, hw, rfl⟩ := hout
    have hv := h.held w held hw
    cases a with
    | recordSuccess now w' result =>
      cases ha
      simp only [Platform.step, finishStep_db, hw] at hrow'
      cases hbody : recordSuccess cfg now p.db held result with
      | error e => rw [hbody, commit, hrow] at hrow'; cases hrow'; exact .same (.refl row)
      | ok db' =>
        obtain ⟨row₁, hrow₁, hsame⟩ := recordSuccess_row hv hrow hbody
        rw [hbody, commit, hrow₁] at hrow'
        cases hrow'
        exact .same hsame
    | recordFailure now w' error retryable =>
      cases ha
      simp only [Platform.step, finishStep_db, hw] at hrow'
      cases hbody : recordFailure cfg now p.db held error retryable with
      | error e => rw [hbody, commit, hrow] at hrow'; cases hrow'; exact .same (.refl row)
      | ok db' =>
        obtain ⟨row₁, hrow₁, hcases⟩ := recordFailure_row hv hrow hbody
        rw [hbody, commit, hrow₁] at hrow'
        cases hrow'
        obtain hsame | ⟨hretryable, hdead⟩ := hcases
        · exact .same hsame
        · exact hdead.cycleStep henabled (hheld _ held hw rfl)
            (hagrees hretryable held hw row hrow hdead.running hdead.exhausted)
    | _ => cases ha
  · have hforeign : ∀ w held, a.outcomeOf = some w → p.holding w = some held →
        held.task.id ≠ id := fun w held ha hw hid => hout ⟨w, held, ha, hw, hid⟩
    by_cases hdlq : ∃ now limit locked, a = .requeueDlq now limit locked
    · -- the coordinator takes the dead letter, or leaves it
      obtain ⟨now, limit, locked, rfl⟩ := hdlq
      have hcases := row_trace_of_lt (P := fun r => r = row ∨ row.dlqRequeueCount <
          cfg.dlqRetryMaxCycles ∧ r.dlqRequeueCount = row.dlqRequeueCount + 1 ∧
          r.dlqRetryAt = row.dlqRetryAt ∧ r.status = .queued) htr hls ?_ (Table.get_lt hrow)
        (fun r hr => .inl (Option.some.inj (hr.symm.trans hrow))) row' hrow'
      · rcases hcases with rfl | ⟨hlt, hcount, hretryAt, hs⟩
        · exact .same (.refl _)
        · exact .requeue hlt hcount hretryAt (by rw [hs]; decide)
      · intro r l r' hstep hl hr
        obtain ⟨i, hi, rfl⟩ := hl
        cases hstep with
        | same => exact hr
        | enqueue now' cause hs =>
          have hdead : r.status = .deadLetter := List.mem_singleton.mp hs
          rcases hr with rfl | ⟨-, -, -, hq⟩
          · obtain ⟨row₀, hrow₀, hdue⟩ := mem_dlqIds hi
            rw [hrow] at hrow₀
            cases hrow₀
            simp only [isDlqDue, Bool.and_eq_true, decide_eq_true_eq] at hdue
            refine .inr ⟨hdue.2, movedTask_dlqRequeueCount _ _ _, ?_, rfl⟩
            simp [movedTask, Task.touch, setStatusFields_eq, Cause.prepare]
          · rw [hdead] at hq
            cases hq
    · have hsame := row_trace_of_lt (P := SameCycle row) htr
        (fun l hl => (hls l hl).foreign_cycle hforeign
          fun now limit locked he => hdlq ⟨now, limit, locked, he⟩)
        (fun r l r' hstep hl hr => hr.trans (hstep.sameCycle hl.1 hl.2.1 hl.2.2))
        (Table.get_lt hrow) (fun r hr => by rw [hrow] at hr; cases hr; exact .refl _) row' hrow'
      exact .same hsame

/-- A new task is no dead letter. -/
theorem step_cycled_new (hf : p.Fencing) (hrow : p.db.tasks.get id = none)
    (hrow' : (p.step cfg a).db.tasks.get id = some row') : Cycled cfg row' := by
  obtain ⟨ls, htr, hls⟩ : ∃ ls, Trace (Change cfg) p.db ls (p.step cfg a).db ∧
    ∀ l ∈ ls, a.Allows cfg p l := step_trace hf.sound.foreignKeys hf.sound.held a
  have hlabels : ∀ l ∈ ls, l ≠ .settle id .deadLetter := by
    rintro l hl rfl
    obtain ⟨w, held, -, hw, rfl⟩ := (hls _ hl).settle (by decide)
    rw [(step_gone hf.sound a).2 _ (hf.linked w held hw).1 hrow] at hrow'
    cases hrow'
  obtain ⟨hs, hcount⟩ := row_trace (P := fun r => r.status ≠ .deadLetter ∧ r.dlqRequeueCount = 0)
    htr hlabels
    (fun r l r' hstep hl hr => ⟨(hstep.undead hl hr.1).1, (hstep.undead hl hr.1).2.trans hr.2⟩)
    (fun _ now spec => ⟨by simp [TaskSpec.row], rfl⟩)
    (fun r hr => by rw [hrow] at hr; cases hr) row' hrow'
  exact ⟨hcount ▸ Nat.zero_le _, fun hdead => absurd hdead hs⟩

end

/-- Every row, and every copy of a row, agrees with the limit on cycles. -/
structure Platform.Cycles (cfg : Settings) (p : Platform) : Prop where
  fencing : p.Fencing
  rows : ∀ id row, p.db.tasks.get id = some row → Cycled cfg row
  held : ∀ w held row, p.holding w = some held → p.db.tasks.get held.task.id = some row →
    held.Cycled cfg row

theorem Platform.initial_cycles (cfg : Settings) : Platform.initial.Cycles cfg where
  fencing := Platform.initial_fencing
  rows := by intro id row hrow; cases hrow
  held := by intro w held row hheld; cases hheld

theorem Platform.Cycles.step {cfg : Settings} {p : Platform} (h : p.Cycles cfg)
    (henabled : cfg.dlqRetryEnabled = true) {a : Action} (hagrees : CountAgrees cfg p a) :
    (p.step cfg a).Cycles cfg := by
  have hcycle : ∀ id row row', p.db.tasks.get id = some row →
      (p.step cfg a).db.tasks.get id = some row' → CycleStep cfg row row' := by
    intro id row row' hrow hrow'
    refine step_cycle h.fencing.sound henabled hagrees ?_ hrow hrow'
    rintro w held hheld rfl
    exact h.held w held row hheld hrow
  refine ⟨h.fencing.step cfg a, ?_, ?_⟩
  · intro id row' hrow'
    cases hrow : p.db.tasks.get id with
    | none => exact step_cycled_new h.fencing hrow hrow'
    | some row => exact (hcycle id row row' hrow hrow').cycled (h.rows id row hrow)
  · intro w held row' hheld hrow'
    obtain hold | ⟨now, row, -, -, hloaded, -, -⟩ := step_held hheld
    · obtain ⟨row, hrow⟩ := row_before h.fencing.sound (h.fencing.linked w held hold).1 hrow'
      exact (hcycle _ row row' hrow hrow').held (h.held w held row hold hrow)
    · rw [hloaded] at hrow'
      cases hrow'
      exact held.cycled_loaded cfg

/-- From some time on `requeue_dlq_tasks` takes the dead letter and retention never does. -/
def AwaitsCoordinator (cfg : Settings) (row : Task) : Prop :=
  (∃ t, ∀ now ≥ t, isDlqDue cfg now row = true) ∧ ∀ cutoff, isOldDeadLetter cutoff row = false

/-- From some time on the dead-letter branch of `purge_old_data` takes it and the coordinator never
does. -/
def AwaitsRetention (cfg : Settings) (row : Task) : Prop :=
  (∀ now, isDlqDue cfg now row = false) ∧ ∃ t, ∀ cutoff ≥ t, isOldDeadLetter cutoff row = true

/-- The two queries divide the dead letters between them. -/
theorem Cycled.divided {cfg : Settings} {row : Task} (h : Cycled cfg row) (hwf : row.WellFormed)
    (hs : row.status = .deadLetter) : AwaitsCoordinator cfg row ∨ AwaitsRetention cfg row := by
  have hretryAt := h.retryAt hs
  have hfinished : row.finishedAt ≠ none := hwf.finishedAt.mpr (by rw [hs]; decide)
  cases hretry : row.dlqRetryAt with
  | some t =>
    have hlt : row.dlqRequeueCount < cfg.dlqRetryMaxCycles := hretryAt.mp (by rw [hretry]; simp)
    refine .inl ⟨⟨t, fun now hnow => ?_⟩, fun cutoff => by simp [isOldDeadLetter, hretry]⟩
    simpa [isDlqDue, hs, hretry, hlt] using hnow
  | none =>
    obtain ⟨t, ht⟩ := Option.ne_none_iff_exists'.mp hfinished
    refine .inr ⟨fun now => by simp [isDlqDue, hretry], t, fun cutoff hcutoff => ?_⟩
    simpa [isOldDeadLetter, hs, hretry, ht] using hcutoff

/-- As long as every failure that dead-letters has counted the cycles of its task right, no task
gets more cycles than the limit, a dead letter has a time for its next cycle if and only if there is
one left, and it waits for the coordinator or for retention, and for only one of them. -/
theorem dead_letters_divided (cfg : Settings) (acts : List Action)
    (henabled : cfg.dlqRetryEnabled = true)
    (hagrees : Along (Platform.step cfg) (CountAgrees cfg) Platform.initial acts)
    (id : TaskId) (row : Task) (h : (Platform.after cfg acts).db.tasks.get id = some row) :
    row.dlqRequeueCount ≤ cfg.dlqRetryMaxCycles ∧ (row.status = .deadLetter →
      (row.dlqRetryAt ≠ none ↔ row.dlqRequeueCount < cfg.dlqRetryMaxCycles) ∧
      (AwaitsCoordinator cfg row ∨ AwaitsRetention cfg row)) := by
  have hcycles : (Platform.after cfg acts).Cycles cfg :=
    along_invariant (P := Platform.Cycles cfg) (fun p a hp ha => hp.step henabled ha)
      (Platform.initial_cycles cfg) hagrees
  have hcycled := hcycles.rows id row h
  exact ⟨hcycled.count, fun hs => ⟨hcycled.retryAt hs,
    hcycled.divided (hcycles.fencing.sound.row h).wellFormed hs⟩⟩

/-- A task of one attempt that becomes a dead letter. -/
def deadLetterRun : List Action :=
  [.createTask 0 { plainSpec with maxAttempts := some 1 }, .start 1 "w1" 1,
    .recordFailure 2 "w1" "boom" true]

theorem dead_letters_divided_deadLetterRun :
    ∃ row, (Platform.after .default deadLetterRun).db.tasks.get 1 = some row ∧
      row.dlqRequeueCount ≤ Settings.default.dlqRetryMaxCycles := by
  obtain ⟨row, hrow⟩ := Option.isSome_iff_exists.mp
    (by decide +kernel : ((Platform.after .default deadLetterRun).db.tasks.get 1).isSome = true)
  exact ⟨row, hrow,
    (dead_letters_divided .default deadLetterRun rfl (by decide +kernel) 1 row hrow).1⟩

/-- One cycle of the dead-letter queue, at a time by which everything before is due. -/
def dlqCycle (now : Time) (w : WorkerId) : List Action :=
  [.requeueDlq now 10 (fun _ => false), .start (now + 1) w 1,
    .recordFailure (now + 2) w "boom" true]

/-- The lease of a first worker expires; the task uses up its cycles with a second one, an operator
retries it, and when a third worker runs it the first one reports its failure. -/
def lateFailureRun : List Action :=
  [Action.createTask 0 { plainSpec with maxAttempts := some 1 }, .start 1 "w1" 1,
    .recoverStuck 100000000 10 (fun _ => false), .start 100000001 "w2" 1,
    .recordFailure 100000002 "w2" "boom" true] ++
  dlqCycle 1000000000 "w2" ++ dlqCycle 2000000000 "w2" ++ dlqCycle 3000000000 "w2" ++
  [Action.manualRetry 4000000000 1, .start 4000000001 "w3" 1,
    .recordFailure 4000000002 "w1" "boom" true]

/-- The dead letter has no cycle left and a time for the next one: neither query takes it. -/
theorem lateFailureRun_stuck :
    ∃ row, (Platform.after .default lateFailureRun).db.tasks.get 1 = some row ∧
      row.status = .deadLetter ∧ row.dlqRetryAt ≠ none ∧
      ¬ row.dlqRequeueCount < Settings.default.dlqRetryMaxCycles ∧
      (∀ now, isDlqDue .default now row = false) ∧ ∀ cutoff, isOldDeadLetter cutoff row = false := by
  have hrow : ((Platform.after .default lateFailureRun).db.tasks.get 1).any (fun row =>
      row.status == .deadLetter && row.dlqRetryAt.isSome && row.dlqRequeueCount == 3) = true := by
    decide +kernel
  obtain ⟨row, hrow, hkept⟩ := (Option.any_eq_true _ _).mp hrow
  simp only [Bool.and_eq_true, beq_iff_eq] at hkept
  obtain ⟨⟨hs, hretry⟩, hcount⟩ := hkept
  have hnot : ¬ row.dlqRequeueCount < Settings.default.dlqRetryMaxCycles := by
    rw [hcount]; decide
  refine ⟨row, hrow, hs, ?_, hnot, fun now => ?_, fun cutoff => ?_⟩
  · intro hnone
    rw [hnone] at hretry
    cases hretry
  · simp [isDlqDue, hnot]
  · simp [isOldDeadLetter, Option.isNone_eq_false_iff.mpr hretry]

end TaskPlatform
