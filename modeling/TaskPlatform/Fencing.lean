import TaskPlatform.Moved
import TaskPlatform.RowStep

/-!
# Fencing of stale workers

The second transaction of a worker asks whether its task is running, not who is
running it. What the question leaves open is exactly the owner of the lease: an
outcome is that of the current attempt if and only if the worker that records
it still owns the lease, which is the guard of `renew_lease`.
-/

namespace TaskPlatform

open Run

theorem flushAttempt_total {db : Database} {id : Nat} (loaded cur : TaskAttempt)
    (h : (db.attempts.get id).isSome) :
    flushAttempt db id loaded cur = .ok (closeHeld db id loaded cur) := by
  obtain ⟨row, hrow⟩ := Option.isSome_iff_exists.mp h
  rw [flushAttempt, hrow]
  rfl

theorem stillRunning_of_row {db : Database} {id : TaskId} {row : Task}
    (hrow : db.tasks.get id = some row) (hrun : row.status = .running) :
    stillRunning db id = true := by
  simp [stillRunning, hrow, hrun]

theorem recordSuccess_total {cfg : Settings} {now : Time} {db : Database} {w : WorkerId}
    {held : Held} {row : Task} (result : Json) (hv : held.Valid w)
    (ha : (db.attempts.get held.attemptId).isSome) (hrow : db.tasks.get held.task.id = some row)
    (hrun : row.status = .running) : ∃ db', recordSuccess cfg now db held result = .ok db' := by
  have hclose := flushAttempt_total held.attempt { held.attempt with
    status := .success, result := some result, finishedAt := some now } ha
  obtain ⟨db', hok, -⟩ := finishSuccess_moved cfg now result hv
    (show (closeHeld db held.attemptId held.attempt _).tasks.get held.task.id = some row from hrow)
  refine ⟨db', ?_⟩
  simp only [recordSuccess, closeSuccess, hclose, bind, Except.bind, stillRunning_closeHeld,
    stillRunning_of_row hrow hrun, not_true_eq_false, if_false]
  exact hok

theorem recordFailure_total {cfg : Settings} {now : Time} {db : Database} {w : WorkerId}
    {held : Held} {row : Task} (error : String) (retryable : Bool) (hv : held.Valid w)
    (ha : (db.attempts.get held.attemptId).isSome) (hrow : db.tasks.get held.task.id = some row)
    (hrun : row.status = .running) :
    ∃ db', recordFailure cfg now db held error retryable = .ok db' := by
  have hclose := flushAttempt_total held.attempt { held.attempt with
    status := .failed, errorMessage := some (truncateError error), finishedAt := some now } ha
  obtain ⟨db', new, hok, -, -⟩ := finishFailure_moved cfg now error retryable hv
    (show (closeHeld db held.attemptId held.attempt _).tasks.get held.task.id = some row from hrow)
  refine ⟨db', ?_⟩
  simp only [recordFailure, closeFailure, hclose, bind, Except.bind, stillRunning_closeHeld,
    stillRunning_of_row hrow hrun, not_true_eq_false, if_false]
  exact hok

/-- An outcome that is refused leaves every task row. -/
theorem Outcome.tasks_of_refused {cfg : Settings} {now : Time} {db db' : Database} {w : WorkerId}
    {held : Held} {succeeds : Bool} (hv : held.Valid w) (h : Outcome cfg now db held succeeds db')
    (hrun : stillRunning db held.task.id = false) : db'.tasks = db.tasks := by
  obtain ⟨-, htasks⟩ | ⟨row, row', task, new, hrow, hrunning, -⟩ := h.row hv
  · exact htasks
  · rw [stillRunning_of_row hrow hrunning] at hrun
    cases hrun

/-- An outcome that is not refused takes its task out of `running`. -/
theorem Outcome.row_of_running {cfg : Settings} {now : Time} {db db' : Database} {w : WorkerId}
    {held : Held} {succeeds : Bool} (hv : held.Valid w) (h : Outcome cfg now db held succeeds db')
    (hrun : stillRunning db held.task.id = true) :
    ∃ row, db'.tasks.get held.task.id = some row ∧ row.status ≠ .running := by
  obtain ⟨hrefused, -⟩ | ⟨row, row', task, new, -, -, hout, hrow', rfl⟩ := h.row hv
  · rw [hrefused] at hrun
    cases hrun
  · refine ⟨row', hrow', fun hs => ?_⟩
    rw [hs] at hout
    cases hout

/-- What ties the objects that a worker holds to the present state of their rows: among the starts
of its task the worker's is the last one exactly as long as the worker owns the lease. -/
structure Held.Linked (w : WorkerId) (held : Held) (v : View) : Prop where
  number : ∀ row, v.row = some row → held.attempt.attemptNumber ≤ row.attempts
  owner : ∀ row, v.row = some row → row.status = .running →
    (row.leaseOwner = some w ↔ row.attempts = held.attempt.attemptNumber)
  attempt : ∀ row, v.row = some row → ∃ att, (held.attemptId, att) ∈ v.attempts ∧
    (row.status = .running → row.leaseOwner = some w → att.status = .running)

/-- A task that left `running` keeps its counter and its attempts. -/
theorem Held.Linked.left {w : WorkerId} {held : Held} {v v' : View} {row row' : Task}
    (h : held.Linked w v) (hrow : v.row = some row) (hrow' : v'.row = some row')
    (hnum : row'.attempts = row.attempts) (hs : row'.status ≠ .running)
    (hattempts : ∀ att, (held.attemptId, att) ∈ v.attempts →
      ∃ att', (held.attemptId, att') ∈ v'.attempts) : held.Linked w v' where
  number := by
    intro r hr
    rw [hrow'] at hr
    cases hr
    rw [hnum]
    exact h.number row hrow
  owner := by
    intro r hr hrun
    rw [hrow'] at hr
    cases hr
    exact absurd hrun hs
  attempt := by
    intro r hr
    rw [hrow'] at hr
    cases hr
    obtain ⟨att, hmem, -⟩ := h.attempt row hrow
    obtain ⟨att', hmem'⟩ := hattempts att hmem
    exact ⟨att', hmem', fun hrun => absurd hrun hs⟩

/-- A row with the same status, counter and owner. -/
theorem Held.Linked.same {w : WorkerId} {held : Held} {v : View} {row row' : Task}
    (h : held.Linked w v) (hrow : v.row = some row) (hs : row'.status = row.status)
    (hnum : row'.attempts = row.attempts) (howner : row'.leaseOwner = row.leaseOwner) :
    held.Linked w (v.write row') where
  number := by
    intro r hr
    cases hr
    rw [hnum]
    exact h.number row hrow
  owner := by
    intro r hr
    cases hr
    rw [hs, hnum, howner]
    exact h.owner row hrow
  attempt := by
    intro r hr
    cases hr
    rw [hs, howner]
    exact h.attempt row hrow

theorem View.mem_rewrite {v : View} {k : Nat} {att : TaskAttempt} (attemptId : Nat)
    (f : TaskAttempt → TaskAttempt) (h : (k, att) ∈ v.attempts) :
    (k, if k = attemptId then f att else att) ∈ (v.rewrite attemptId f).attempts := by
  rw [View.rewrite, List.mem_map]
  refine ⟨(k, att), h, ?_⟩
  by_cases hk : k = attemptId <;> simp [hk]

theorem View.mem_closeLast (now : Time) {v : View} {k : Nat} {att : TaskAttempt}
    (h : (k, att) ∈ v.attempts) : ∃ att', (k, att') ∈ (v.closeLast now).attempts := by
  unfold View.closeLast
  split
  · exact ⟨att, h⟩
  · exact ⟨_, View.mem_rewrite _ _ h⟩

/-- The link survives everything but the worker's own start and the end of its own attempt. -/
theorem View.Step.linked {cfg : Settings} {id : TaskId} {v v' : View} {l : Label}
    (h : View.Step cfg id v l v') {w : WorkerId} {held : Held}
    (hgone : v.row = none → v'.row = none) (hstart : ∀ i, l ≠ .start w i)
    (hclose : l ≠ .close held.attemptId) (hl : held.Linked w v) : held.Linked w v' := by
  cases h with
  | insert now spec hnone => cases hgone hnone
  | block now parents details hrow hs => exact ⟨hl.number, hl.owner, hl.attempt⟩
  | @schedule row now hrow hs hat =>
    exact hl.left hrow rfl (by simp) (by simp) fun att hatt => ⟨att, hatt⟩
  | @enqueue row now cause eventType details hrow hs =>
    exact hl.left hrow rfl (by simp) (by simp) fun att hatt => ⟨att, hatt⟩
  | @cancel row now details hrow hs =>
    exact hl.left hrow rfl (by simp) (by simp) fun att hatt => ⟨att, hatt⟩
  | @start row now w' attemptId hrow hs hfree =>
    have hne : w' ≠ w := fun he => hstart id (by rw [he])
    have hlt := hl.number row hrow
    refine ⟨?_, ?_, ?_⟩
    · intro r hr
      cases hr
      exact Nat.le_succ_of_le hlt
    · intro r hr hrun
      cases hr
      simp only [startedTask, Option.some.injEq, hne, false_iff]
      omega
    · intro r hr
      cases hr
      obtain ⟨att, hatt, -⟩ := hl.attempt row hrow
      refine ⟨att, List.mem_append_left _ hatt, fun _ howner => ?_⟩
      exact absurd (Option.some.inj howner) hne
  | @renew row now w' hrow howner hs => exact hl.same hrow rfl rfl rfl
  | @close attemptId loaded cur hcloses =>
    have hne : held.attemptId ≠ attemptId := fun he => hclose (by rw [he])
    refine ⟨hl.number, hl.owner, fun row hrow => ?_⟩
    obtain ⟨att, hatt, hrun⟩ := hl.attempt row hrow
    have hmem := View.mem_rewrite attemptId (TaskAttempt.merge loaded cur) hatt
    rw [if_neg hne] at hmem
    exact ⟨att, hmem, hrun⟩
  | @finish row now w' held' task new eventType details hvalid hrow hs hout =>
    have hmerge := hvalid.merge row now hout
    refine hl.left hrow rfl hmerge.2.2.2.1 ?_ fun att hatt => ⟨att, hatt⟩
    rw [show ((Task.merge held'.task.loaded (setStatusFields now task new) row).touch now).status
      = new from hmerge.1]
    cases hout <;> decide
  | @stamp row now dlqRetryAt hrow => exact hl.same hrow rfl rfl rfl
  | @recover row now details hrow hs hexpired =>
    exact hl.left hrow rfl (by simp) (by simp) fun att hatt => View.mem_closeLast now hatt
  | @release row now hrow hs hlease =>
    exact hl.left hrow rfl rfl (by simp [hs]) fun att hatt => ⟨att, hatt⟩
  | delete hrow hfin =>
    refine ⟨?_, ?_, ?_⟩ <;> intro r hr <;> cases hr

/-- The link that a start makes. -/
theorem startedHeld_linked (now : Time) {db : Database} (w : WorkerId) (seconds : ℚ)
    {id : TaskId} {row : Task} (seen : Task) (hrow : db.tasks.get id = some row) :
    (startedHeld now w seconds db id row).Linked w
      ((startedDb now db w id row (startedTask now w seconds row) seen).view id) := by
  rw [view_startedDb_self now w _ seen hrow]
  refine ⟨?_, ?_, ?_⟩
  · intro r hr
    cases hr
    exact le_refl _
  · intro r hr _
    cases hr
    exact ⟨fun _ => rfl, fun _ => rfl⟩
  · intro r hr
    cases hr
    exact ⟨_, List.mem_append_right _ List.mem_cons_self, fun _ _ => rfl⟩

/-- The link of every worker to its attempt, and that no two workers share an attempt. -/
structure Platform.Fencing (p : Platform) : Prop where
  sound : p.Sound
  linked : ∀ w held, p.holding w = some held → held.task.id < p.db.tasks.next ∧
    held.attemptId < p.db.attempts.next ∧ held.Linked w (p.db.view held.task.id)
  distinct : ∀ w w' held held', p.holding w = some held → p.holding w' = some held' →
    held.attemptId = held'.attemptId → w = w'

theorem Platform.initial_fencing : Platform.initial.Fencing where
  sound := Platform.initial_sound
  linked := by intro w held h; cases h
  distinct := by intro w w' held held' h; cases h

/-- The part of the link that a change preserves. -/
theorem Change.linked {cfg : Settings} {db db' : Database} {l : Label} (h : Change cfg db l db')
    {w : WorkerId} {held : Held} (hstart : ∀ i, l ≠ .start w i)
    (hclose : l ≠ .close held.attemptId)
    (hl : held.task.id < db.tasks.next ∧ held.attemptId < db.attempts.next ∧
      held.Linked w (db.view held.task.id)) :
    held.task.id < db'.tasks.next ∧ held.attemptId < db'.attempts.next ∧
      held.Linked w (db'.view held.task.id) := by
  obtain ⟨hid, hatt, hlink⟩ := hl
  obtain ⟨hnext, hgone⟩ := h.gone
  refine ⟨Nat.lt_of_lt_of_le hid hnext, Nat.lt_of_lt_of_le hatt h.attempts_next, ?_⟩
  obtain hsame | hstep := view_change h held.task.id
  · rw [hsame]; exact hlink
  · exact hstep.linked (hgone _ hid) hstart hclose hlink

/-- The worker that records an outcome. -/
def Action.outcomeOf : Action → Option WorkerId
  | .recordSuccess _ w _ => some w
  | .recordFailure _ w _ _ => some w
  | _ => none

/-- A label that ends the attempt of a worker comes from this worker's outcome, and a start of a
worker from the worker. -/
theorem Action.Allows.foreign {cfg : Settings} {p : Platform} {a : Action} {l : Label}
    (h : a.Allows cfg p l) (hf : p.Fencing) {w : WorkerId} {held : Held}
    (hheld : p.holding w = some held) (hout : a.outcomeOf ≠ some w)
    (hstart : ∀ now id, a ≠ .start now w id) :
    (∀ i, l ≠ .start w i) ∧ l ≠ .close held.attemptId := by
  have hcascade : IsCascade l → (∀ i, l ≠ .start w i) ∧ l ≠ .close held.attemptId := by
    rintro (⟨i, rfl⟩ | ⟨i, rfl⟩) <;> simp
  have hforeign : ∀ w', a.outcomeOf = some w' →
      (∃ held', p.holding w' = some held' ∧ IsOutcome held' l) →
      (∀ i, l ≠ .start w i) ∧ l ≠ .close held.attemptId := by
    rintro w' ha ⟨held', hheld', hl⟩
    rcases hl with rfl | rfl | ⟨new, rfl⟩ | hl
    · simp
    · refine ⟨by simp, fun he => hout ?_⟩
      rw [ha, hf.distinct w w' held held' hheld hheld' (Label.close.inj he).symm]
    · simp
    · exact hcascade hl
  cases a with
  | createTask now spec => rcases h with rfl | rfl | ⟨ps, -, rfl⟩ <;> simp
  | manualRetry now id => simp only [Action.Allows] at h; simp [h]
  | cancelTask now id => exact hcascade h
  | bulkRetry now ids => obtain ⟨id, -, rfl⟩ := h; simp
  | bulkCancel now ids => exact hcascade h
  | start now w' id =>
    simp only [Action.Allows] at h
    subst h
    refine ⟨fun i he => ?_, by simp⟩
    cases he
    exact hstart now id rfl
  | recordSuccess now w' result => exact hforeign w' rfl h
  | recordFailure now w' error retryable => exact hforeign w' rfl h
  | requeueDue now limit locked => obtain ⟨id, -, rfl⟩ := h; simp
  | requeueDlq now limit locked => obtain ⟨id, -, rfl⟩ := h; simp
  | recoverStuck now limit locked => rcases h with rfl | ⟨id, -, rfl⟩ <;> simp
  | _ => simp only [Action.Allows] at h; simp [h]

/-- Only an outcome settles a task in another status than `cancelled`, and only its own task. -/
theorem Action.Allows.settle {cfg : Settings} {p : Platform} {a : Action} {id : TaskId}
    {new : Status} (h : a.Allows cfg p (.settle id new)) (hnew : new ≠ .cancelled) :
    ∃ w held, a.outcomeOf = some w ∧ p.holding w = some held ∧ held.task.id = id := by
  cases a <;> simp [Action.Allows, IsCreate, IsOutcome, IsCascade, hnew] at h
  all_goals
    obtain ⟨held, hheld, hid⟩ := h
    exact ⟨_, held, rfl, hheld, hid.symm⟩

theorem Action.Allows.stamp {cfg : Settings} {p : Platform} {a : Action} {id : TaskId}
    (h : a.Allows cfg p (.stamp id)) :
    ∃ w held, a.outcomeOf = some w ∧ p.holding w = some held ∧ held.task.id = id := by
  cases a <;> simp [Action.Allows, IsCreate, IsOutcome, IsCascade] at h
  all_goals
    obtain ⟨held, hheld, hid⟩ := h
    exact ⟨_, held, rfl, hheld, hid.symm⟩

theorem step_holding_outcome {cfg : Settings} {p : Platform} {a : Action} {w : WorkerId}
    (h : a.outcomeOf = some w) : (p.step cfg a).holding w = none := by
  cases a with
  | recordSuccess now w' result =>
    cases h
    simp [Platform.step, finishStep_holding]
  | recordFailure now w' error retryable =>
    cases h
    simp [Platform.step, finishStep_holding]
  | _ => cases h

/-- The second transaction of a worker is rolled back or one of the outcomes. -/
theorem step_outcome (cfg : Settings) {p : Platform} (h : p.Sound) {a : Action} {w : WorkerId}
    (ha : a.outcomeOf = some w) {held : Held} (hheld : p.holding w = some held) :
    (p.step cfg a).db = p.db ∨ ∃ now succeeds, Outcome cfg now p.db held succeeds (p.step cfg a).db := by
  have hv := h.held w held hheld
  cases a with
  | recordSuccess now w' result =>
    cases ha
    simp only [Platform.step, finishStep_db, hheld]
    cases hbody : recordSuccess cfg now p.db held result with
    | error e => exact .inl rfl
    | ok db' => exact .inr ⟨now, true, recordSuccess_ok hv hbody⟩
  | recordFailure now w' error retryable =>
    cases ha
    simp only [Platform.step, finishStep_db, hheld]
    cases hbody : recordFailure cfg now p.db held error retryable with
    | error e => exact .inl rfl
    | ok db' => exact .inr ⟨now, false, recordFailure_ok hv hbody⟩
  | _ => cases ha

/-- It leaves every row, or finishes its task. -/
theorem step_outcome_cases (cfg : Settings) {p : Platform} (h : p.Sound) {a : Action}
    {w : WorkerId} (ha : a.outcomeOf = some w) {held : Held} (hheld : p.holding w = some held) :
    (p.step cfg a).db.tasks = p.db.tasks ∨
      ∃ now row row' task new, p.db.tasks.get held.task.id = some row ∧ row.status = .running ∧
        OutcomeFields now held.task.loaded new task ∧
        (p.step cfg a).db.tasks.get held.task.id = some row' ∧ row'.status = new := by
  obtain hsame | ⟨now, succeeds, hout⟩ := step_outcome cfg h ha hheld
  · exact .inl (congrArg Database.tasks hsame)
  · exact (hout.row (h.held w held hheld)).imp And.right fun hfinished => ⟨now, hfinished⟩

theorem step_start_holding {cfg : Settings} {p : Platform} {now : Time} {w : WorkerId}
    {id : TaskId} {held : Held} (h : p.holding w = some held) :
    p.step cfg (.start now w id) = p := by
  simp only [Platform.step, startStep, h]

theorem Platform.Fencing.step {p : Platform} (hf : p.Fencing) (cfg : Settings) (a : Action) :
    (p.step cfg a).Fencing where
  sound := hf.sound.step cfg a
  linked := by
    intro w held hheld
    obtain hold | ⟨now, id, row, seen, rfl, -, hrow, -, -, rfl, hdb⟩ := step_holding hheld
    · have hout : a.outcomeOf ≠ some w := by
        intro hout
        rw [step_holding_outcome hout] at hheld
        cases hheld
      by_cases hstart : ∃ now id, a = .start now w id
      · obtain ⟨now, id, rfl⟩ := hstart
        rw [step_start_holding hold]
        exact hf.linked w held hold
      · obtain ⟨ls, htr, hls⟩ : ∃ ls, Trace (Change cfg) p.db ls (p.step cfg a).db ∧
            ∀ l ∈ ls, a.Allows cfg p l := step_trace hf.sound.foreignKeys hf.sound.held a
        exact htr.invariant (P := fun db => held.task.id < db.tasks.next ∧
            held.attemptId < db.attempts.next ∧ held.Linked w (db.view held.task.id))
          (fun _ l _ hp hl hc => hc.linked hl.1 hl.2 hp)
          (fun l hl => (hls l hl).foreign hf hold hout
            fun now id ha => hstart ⟨now, id, ha⟩) (hf.linked w held hold)
    · rw [hdb]
      have hid : id < p.db.tasks.next := Table.get_lt hrow
      exact ⟨hid, Nat.lt_succ_self _, startedHeld_linked now w _ seen hrow⟩
  distinct := by
    intro w w' held held' hheld hheld' he
    obtain hold | ⟨now, id, row, seen, rfl, -, -, -, -, rfl, -⟩ := step_holding hheld
    · obtain hold' | ⟨now, id, row, seen, -, -, -, -, -, rfl, -⟩ := step_holding hheld'
      · exact hf.distinct w w' held held' hold hold' he
      · have hlt := (hf.linked w held hold).2.1
        rw [he] at hlt
        exact absurd hlt (lt_irrefl _)
    · obtain hold' | ⟨now', id', row', seen', ha, -, -, -, -, -, -⟩ := step_holding hheld'
      · have hlt := (hf.linked w' held' hold').2.1
        rw [← he] at hlt
        exact absurd hlt (lt_irrefl _)
      · cases ha
        rfl

/-- The guard of `renew_lease`, asked when an outcome finds its task running: the lease is the
worker's own. -/
def Fenced (p : Platform) (a : Action) : Prop :=
  ∀ w ∈ a.outcomeOf, ∀ held ∈ p.holding w, ∀ row ∈ p.db.tasks.get held.task.id,
    row.status = .running → row.leaseOwner = some w

/-- An outcome that changes its task row is that of the task's current attempt, and this attempt is
still running. -/
def OutcomeIsCurrent (cfg : Settings) (p : Platform) (a : Action) : Prop :=
  ∀ w ∈ a.outcomeOf, ∀ held ∈ p.holding w,
    (p.step cfg a).db.tasks.get held.task.id ≠ p.db.tasks.get held.task.id →
      (∃ row ∈ p.db.tasks.get held.task.id, held.attempt.attemptNumber = row.attempts) ∧
      ∃ att ∈ p.db.attempts.get held.attemptId, att.status = .running

instance (p : Platform) (a : Action) : Decidable (Fenced p a) := by
  unfold Fenced; infer_instance

instance (cfg : Settings) (p : Platform) (a : Action) : Decidable (OutcomeIsCurrent cfg p a) := by
  unfold OutcomeIsCurrent; infer_instance

/-- An outcome that finds its task running takes it out of `running`, any other leaves the row. -/
theorem finishStep_row {cfg : Settings} {p : Platform} {now : Time} {w : WorkerId} {held : Held}
    {body : Held → Except TaskError Database} (hheld : p.holding w = some held)
    {succeeds : Bool} (hv : held.Valid w)
    (hok : ∀ db', body held = .ok db' → Outcome cfg now p.db held succeeds db')
    (htotal : stillRunning p.db held.task.id = true → ∃ db', body held = .ok db') :
    (finishStep body w p).db.tasks.get held.task.id ≠ p.db.tasks.get held.task.id ↔
      stillRunning p.db held.task.id = true := by
  rw [finishStep_db, hheld]
  cases hrun : stillRunning p.db held.task.id with
  | true =>
    obtain ⟨db', hbody⟩ := htotal hrun
    obtain ⟨row', hrow', hleft⟩ := (hok db' hbody).row_of_running hv hrun
    obtain ⟨row, hrow, hrunning⟩ := stillRunning_true hrun
    simp only [hbody, commit, hrow', hrow, iff_true]
    intro he
    cases he
    exact hleft hrunning
  | false =>
    simp only [Bool.false_eq_true, iff_false, not_not]
    cases hbody : body held with
    | error e => rfl
    | ok db' =>
      simp only [commit]
      rw [(hok db' hbody).tasks_of_refused hv hrun]

theorem step_outcome_row (cfg : Settings) {p : Platform} (hf : p.Fencing) {a : Action}
    {w : WorkerId} (ha : a.outcomeOf = some w) {held : Held} (hheld : p.holding w = some held) :
    (p.step cfg a).db.tasks.get held.task.id ≠ p.db.tasks.get held.task.id ↔
      stillRunning p.db held.task.id = true := by
  have hv := hf.sound.held w held hheld
  have hattempt : ∀ row, p.db.tasks.get held.task.id = some row →
      (p.db.attempts.get held.attemptId).isSome := by
    intro row hrow
    obtain ⟨att, hmem, -⟩ := (hf.linked w held hheld).2.2.attempt row hrow
    rw [((p.db.attempts.mem_select _ _ _).mp hmem).1]
    rfl
  cases a with
  | recordSuccess now w' result =>
    cases ha
    refine finishStep_row hheld hv (fun db' hok => recordSuccess_ok hv hok) fun hrun => ?_
    obtain ⟨row, hrow, hrunning⟩ := stillRunning_true hrun
    exact recordSuccess_total result hv (hattempt row hrow) hrow hrunning
  | recordFailure now w' error retryable =>
    cases ha
    refine finishStep_row hheld hv (fun db' hok => recordFailure_ok hv hok) fun hrun => ?_
    obtain ⟨row, hrow, hrunning⟩ := stillRunning_true hrun
    exact recordFailure_total error retryable hv (hattempt row hrow) hrow hrunning
  | _ => cases ha

/-- The worker owns the lease of the running task if and only if its outcome is current. -/
theorem fenced_iff_current (cfg : Settings) {p : Platform} (hf : p.Fencing) (a : Action) :
    Fenced p a ↔ OutcomeIsCurrent cfg p a := by
  constructor
  · intro hfenced w hw held hheld hchanged
    obtain ⟨row, hrow, hrun⟩ := stillRunning_true ((step_outcome_row cfg hf hw hheld).mp hchanged)
    have howner := hfenced w hw held hheld row hrow hrun
    have hlink := (hf.linked w held hheld).2.2
    obtain ⟨att, hmem, hatt⟩ := hlink.attempt row hrow
    refine ⟨⟨row, hrow, ((hlink.owner row hrow hrun).mp howner).symm⟩, att, ?_, hatt hrun howner⟩
    exact ((p.db.attempts.mem_select _ _ _).mp hmem).1
  · intro hcurrent w hw held hheld row hrow hrun
    have hchanged := (step_outcome_row cfg hf hw hheld).mpr (stillRunning_of_row hrow hrun)
    obtain ⟨⟨row', hrow', hnumber⟩, -⟩ := hcurrent w hw held hheld hchanged
    have hlink := (hf.linked w held hheld).2.2
    rw [Option.mem_def.mp hrow, Option.mem_def] at hrow'
    cases hrow'
    exact (hlink.owner row hrow hrun).mpr hnumber.symm

theorem Platform.after_fencing (cfg : Settings) (acts : List Action) :
    (Platform.after cfg acts).Fencing :=
  run_invariant (fun _ a hf => hf.step cfg a) Platform.initial_fencing acts

/-- In every run the outcomes that change their task are those of its current attempt if and only
if every outcome that finds its task running is recorded by the owner of the lease. -/
theorem outcomes_current_iff_fenced (cfg : Settings) (acts : List Action) :
    Along (Platform.step cfg) (OutcomeIsCurrent cfg) Platform.initial acts ↔
      Along (Platform.step cfg) Fenced Platform.initial acts :=
  along_congr (P := Platform.Fencing) (fun _ a hf => hf.step cfg a)
    (fun _ a hf => (fenced_iff_current cfg hf a).symm) Platform.initial_fencing acts

/-- A worker's lease expires, recovery requeues its task, a second worker starts it, and then the
first worker records its success. -/
def staleRun : List Action :=
  [.createTask 0 plainSpec, .start 1 "w1" 1, .recoverStuck 100000000 10 (fun _ => false),
    .start 100000001 "w2" 1, .recordSuccess 100000002 "w1" "{}"]

/-- The stale outcome of the first worker finishes the task that the second one is running. -/
theorem staleRun_not_current :
    ¬ Along (Platform.step .default) (OutcomeIsCurrent .default) Platform.initial staleRun := by
  decide +kernel

end TaskPlatform
