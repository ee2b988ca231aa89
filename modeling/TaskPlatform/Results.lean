import TaskPlatform.Finality
import TaskPlatform.Moved

/-!
# Where the result of a task comes from

A task has a result exactly if it succeeded, and then one of its attempts
succeeded with this result, whichever worker recorded it and whatever became of
the lease in the meantime.
-/

namespace TaskPlatform

open Run

/-- Only a task that succeeded has a result. -/
def Blank (row : Task) : Prop := row.status ≠ .success → row.result = none

@[simp] theorem movedTask_result (now : Time) (task : Task) (new : Status) :
    (movedTask now task new).result = task.result := by
  simp [movedTask, Task.touch, setStatusFields_eq]

theorem not_success_of_transition {old new : Status} (h : canTransition old new = true) :
    old ≠ .success := by
  rintro rfl
  rw [canTransition_success] at h
  cases h

section

variable {cfg : Settings} {id : TaskId} {row row' : Task} {l : Label} {k : Nat} {v v' : View}

theorem Task.Step.blank (h : Task.Step cfg id row l row') (hb : Blank row) : Blank row' := by
  intro hs'
  cases h with
  | same => exact hb hs'
  | schedule now hs => rw [movedTask_result]; exact hb (by rw [hs]; decide)
  | enqueue now cause hs =>
    have hkept : (cause.prepare row).result = row.result := by cases cause <;> rfl
    rw [movedTask_result, hkept]
    exact hb (not_success_of_transition (Cause.sources_transition hs))
  | cancel now hs =>
    rw [movedTask_result]
    exact hb (not_success_of_transition ((canTransition_cancelled _).mpr hs))
  | start now w hs => exact hb (by rw [hs]; decide)
  | renew now w howner hs => exact hb (by rw [hs]; decide)
  | finish now hv hs hout =>
    have hrow := hb (by rw [hs]; decide)
    cases hout with
    | success result => exact absurd (hv.merge row now (.success result)).1 hs'
    | retry error scheduled hleft => simpa [Task.merge, Task.touch, setStatusFields_eq] using hrow
    | deadLetter error => simpa [Task.merge, Task.touch, setStatusFields_eq] using hrow
    | failed error => simpa [Task.merge, Task.touch, setStatusFields_eq] using hrow
  | stamp => exact hb hs'
  | recover now hs => rw [movedTask_result]; exact hb (by rw [hs]; decide)
  | release now hs => exact hb (by rw [hs]; decide)

/-- Only the outcome of its own attempt makes a task succeed. -/
theorem Task.Step.not_success (h : Task.Step cfg id row l row') (hl : l ≠ .settle id .success)
    (hs : row.status ≠ .success) : row'.status ≠ .success := by
  cases h with
  | same => exact hs
  | finish now hv hrun hout =>
    rw [show ((Task.merge _ _ row).touch now).status = _ from (hv.merge row now hout).1]
    rintro rfl
    exact hl rfl
  | start now w hq => simp [startedTask]
  | renew now w howner hrun => exact hs
  | stamp => exact hs
  | release now hq => exact hs
  | _ => simp

/-- The task succeeded with the result of its attempt `k`. -/
def View.BackedBy (v : View) (k : Nat) : Prop :=
  ∀ row, v.row = some row → row.status = .success ∧ row.result.isSome ∧
    ∃ att, (k, att) ∈ v.attempts ∧ att.status = .success ∧ att.result = row.result

/-- The attempt stays as it is: it is closed, so nobody closes it again but its own worker. -/
theorem View.Step.backedBy (h : View.Step cfg id v l v') (hgone : v.row = none → v'.row = none)
    (hclose : l ≠ .close k) (hb : v.BackedBy k) : v'.BackedBy k := by
  have hsuccess : ∀ row, v.row = some row → row.status = .success := fun row hrow => (hb row hrow).1
  cases h with
  | insert now spec hnone => cases hgone hnone
  | block now parents details hrow hs => exact hb
  | @schedule row now hrow hs hat => exact absurd (hsuccess row hrow) (by rw [hs]; decide)
  | @enqueue row now cause eventType details hrow hs =>
    exact absurd (hsuccess row hrow) (not_success_of_transition (Cause.sources_transition hs))
  | @cancel row now details hrow hs =>
    exact absurd (hsuccess row hrow)
      (not_success_of_transition ((canTransition_cancelled _).mpr hs))
  | @start row now w attemptId hrow hs hfree =>
    exact absurd (hsuccess row hrow) (by rw [hs]; decide)
  | @renew row now w hrow howner hs => exact absurd (hsuccess row hrow) (by rw [hs]; decide)
  | @close attemptId loaded cur hcloses =>
    intro row hrow
    obtain ⟨hs, hresult, att, hatt, hsuccess, hsame⟩ := hb row hrow
    have hmem := View.mem_rewrite attemptId (TaskAttempt.merge loaded cur) hatt
    rw [if_neg fun he => hclose (by rw [he])] at hmem
    exact ⟨hs, hresult, att, hmem, hsuccess, hsame⟩
  | @finish row now w held task new eventType details hvalid hrow hs hout =>
    exact absurd (hsuccess row hrow) (by rw [hs]; decide)
  | @stamp row now dlqRetryAt hrow =>
    intro r hr
    cases hr
    exact hb row hrow
  | @recover row now details hrow hs hexpired =>
    exact absurd (hsuccess row hrow) (by rw [hs]; decide)
  | @release row now hrow hs hlease => exact absurd (hsuccess row hrow) (by rw [hs]; decide)
  | delete hrow hfin =>
    intro r hr
    cases hr

theorem backedBy_trace {db db' : Database} {ls : List Label} (h : Trace (Change cfg) db ls db')
    (hls : ∀ l ∈ ls, l ≠ .close k) (hid : id < db.tasks.next) (hb : (db.view id).BackedBy k) :
    (db'.view id).BackedBy k := by
  refine (h.invariant (P := fun db => id < db.tasks.next ∧ (db.view id).BackedBy k) ?_ hls
    ⟨hid, hb⟩).2
  rintro db l db' ⟨hid, hb⟩ hl hc
  obtain ⟨hnext, hgone⟩ := hc.gone
  refine ⟨Nat.lt_of_lt_of_le hid hnext, ?_⟩
  obtain hsame | hstep := view_change hc id
  · rw [hsame]
    exact hb
  · exact hstep.backedBy (hgone id hid) hl hb

/-- Objects that are as new as a start leaves them. -/
structure Held.Fresh (held : Held) : Prop where
  task : held.task.loaded.result = none
  attempt : held.attempt.result = none

/-- What a success writes into its attempt. -/
def succeededAttempt (now : Time) (result : Json) (attempt : TaskAttempt) : TaskAttempt :=
  { attempt with status := .success, result := some result, finishedAt := some now }

/-- A success writes the result into the task and into the attempt. -/
theorem recordSuccess_result {now : Time} {db db' : Database} {w : WorkerId} {held : Held}
    {result : Json} (hv : held.Valid w) (hfresh : held.Fresh)
    (hrow : db.tasks.get held.task.id = some row) (hrun : row.status = .running)
    (h : recordSuccess cfg now db held result = .ok db') :
    ∃ row', db'.tasks.get held.task.id = some row' ∧ row'.status = .success ∧
      row'.result = some result ∧ (db'.view held.task.id).attempts =
        ((db.view held.task.id).rewrite held.attemptId
          (TaskAttempt.merge held.attempt (succeededAttempt now result held.attempt))).attempts := by
  let closed := closeHeld db held.attemptId held.attempt (succeededAttempt now result held.attempt)
  have hclose : ClosesAttempt held.attempt (succeededAttempt now result held.attempt) :=
    ⟨rfl, rfl, hv.opened, by simp [succeededAttempt]⟩
  let task : Task := { held.task.loaded with result := some result, finishedAt := some now }
  let object : Instance := ⟨held.task.id, held.task.loaded, task⟩
  obtain ⟨db₁, hattempt, h⟩ := bind_ok h
  obtain ⟨-, rfl⟩ := flushAttempt_ok hattempt
  have hstill : stillRunning closed held.task.id = true := stillRunning_of_row hrow hrun
  split at h
  · rename_i hrefused
    exact absurd hstill hrefused
  obtain ⟨⟨db₂, task'⟩, hset, h⟩ := bind_ok h
  cases h
  rw [hv.same] at hset
  have hobject : closed.tasks.get object.id = some row := hrow
  have hsame : object.loaded.status = object.cur.status := rfl
  have ht : canTransition object.cur.status .success = true := by
    rw [show object.cur.status = .running from hv.running]; rfl
  have hview := (setStatusFuel_row hobject hsame ht hset).2
  have hclosed : closed.view held.task.id = (db.view held.task.id).rewrite held.attemptId
      (TaskAttempt.merge held.attempt (succeededAttempt now result held.attempt)) :=
    view_closeHeld db held.attemptId hclose held.task.id
  have hrewritten := congrArg View.attempts hclosed
  refine ⟨_, congrArg View.row hview, ?_, ?_, (congrArg View.attempts hview).trans hrewritten⟩
  · refine mergeColumn_of_ne row.status ?_
    rw [setStatusFields_status, hv.running]
    decide
  · have hnew : (setStatusFields now object.cur .success).result = some result := by
      simp [setStatusFields_eq, object, task]
    have hne : (setStatusFields now object.cur .success).result ≠ object.loaded.result := by
      rw [hnew, show object.loaded.result = none from hfresh.task]
      exact Option.some_ne_none _
    exact (mergeColumn_of_ne row.result hne).trans hnew

theorem recordSuccess_backedBy {now : Time} {db db' : Database} {w : WorkerId} {held : Held}
    {result : Json} (hv : held.Valid w) (hfresh : held.Fresh)
    (hrow : db.tasks.get held.task.id = some row) (hrun : row.status = .running)
    {att : TaskAttempt} (hatt : (held.attemptId, att) ∈ (db.view held.task.id).attempts)
    (h : recordSuccess cfg now db held result = .ok db') :
    (db'.view held.task.id).BackedBy held.attemptId := by
  obtain ⟨row', hrow', hs, hresult, hattempts⟩ := recordSuccess_result hv hfresh hrow hrun h
  let merged := TaskAttempt.merge held.attempt (succeededAttempt now result held.attempt) att
  have hmem : (held.attemptId, merged) ∈ (db'.view held.task.id).attempts := by
    have hmem := View.mem_rewrite held.attemptId
      (TaskAttempt.merge held.attempt (succeededAttempt now result held.attempt)) hatt
    rw [if_pos rfl] at hmem
    rw [hattempts]
    exact hmem
  have hstatus : merged.status = .success := by
    refine mergeColumn_of_ne att.status ?_
    rw [hv.opened]
    exact (by decide : AttemptStatus.success ≠ AttemptStatus.running)
  have hreport : merged.result = some result := by
    refine mergeColumn_of_ne att.result ?_
    rw [hfresh.attempt]
    exact Option.some_ne_none _
  intro r hr
  obtain rfl := Option.some.inj (hrow'.symm.trans hr)
  exact ⟨hs, by rw [hresult]; rfl, merged, hmem, hstatus, hreport.trans hresult.symm⟩

/-- A failure makes no task succeed. -/
theorem Outcome.succeeds_of_row {now : Time} {db db' : Database} {w : WorkerId} {held : Held}
    {succeeds : Bool} (hv : held.Valid w) (h : Outcome cfg now db held succeeds db')
    (hrow : db.tasks.get held.task.id = some row) (hs : row.status ≠ .success)
    (hrow' : db'.tasks.get held.task.id = some row') (hs' : row'.status = .success) :
    succeeds = true ∧ row.status = .running := by
  cases h with
  | refused _ _ _ =>
    have hsame : db.tasks.get held.task.id = some row' := hrow'
    rw [hrow] at hsame
    cases hsame
    exact absurd hs' hs
  | @finished cur row₁ task new eventType details n db₁ _ ha hclose hrow₁ hrun hout hnew hcascade
      hstamp =>
    rw [hrow] at hrow₁
    cases hrow₁
    refine ⟨hnew.mp ?_, hrun⟩
    obtain ⟨ls, htr⟩ := cascade_trace hcascade
    let merged := (Task.merge held.task.loaded (setStatusFields now task new) row).touch now
    have hstatus : merged.status = new := (hv.merge row now hout).1
    have hcreated : new ≠ .created := by cases hout <;> decide
    have hevent : (recordEvent now (closeHeld db held.attemptId held.attempt cur) held.task.id
      .running eventType new details).tasks.get held.task.id = some row := hrow
    have hget := CascadeStep.frame_trace htr (get_setTask_self merged hevent)
      (by rw [hstatus]; exact hcreated)
    obtain rfl | ⟨row₁, dlqRetryAt, hrow₁, rfl⟩ := hstamp
    · rw [← Option.some.inj (hget.symm.trans hrow')] at hs'
      exact hstatus.symm.trans hs'
    · obtain rfl := Option.some.inj (hget.symm.trans hrow₁)
      rw [← Option.some.inj ((get_setTask_self _ hget).symm.trans hrow')] at hs'
      exact hstatus.symm.trans hs'

end

/-- Every result was reported by a worker, and its attempt says so. -/
structure Platform.Reported (p : Platform) : Prop where
  blank : ∀ id row, p.db.tasks.get id = some row → Blank row
  fresh : ∀ w held, p.holding w = some held → held.Fresh
  backed : ∀ id row, p.db.tasks.get id = some row → row.status = .success →
    ∃ k, (p.db.view id).BackedBy k ∧ ∀ w held, p.holding w = some held → held.attemptId ≠ k

theorem Platform.initial_reported : Platform.initial.Reported where
  blank := by intro id row hrow; cases hrow
  fresh := by intro w held hheld; cases hheld
  backed := by intro id row hrow; cases hrow

/-- Only its worker closes an attempt by name. -/
theorem Action.Allows.close {cfg : Settings} {p : Platform} {a : Action} {k : Nat}
    (h : a.Allows cfg p (.close k)) :
    ∃ w held, a.outcomeOf = some w ∧ p.holding w = some held ∧ held.attemptId = k := by
  cases a <;> simp [Action.Allows, IsCreate, IsOutcome, IsCascade] at h
  all_goals
    obtain ⟨held, hheld, hk⟩ := h
    exact ⟨_, held, rfl, hheld, hk.symm⟩

section

variable {cfg : Settings} {p : Platform} {a : Action} {id : TaskId} {row row' : Task} {k : Nat}

theorem View.BackedBy.key {db : Database} (h : (db.view id).BackedBy k)
    (hrow : db.tasks.get id = some row) : k < db.attempts.next := by
  obtain ⟨-, -, att, hatt, -⟩ := h row hrow
  exact Table.get_lt ((db.attempts.mem_select _ _ _).mp hatt).1

/-- What backs a success goes on to do so. -/
theorem step_backedBy (hsound : p.Sound) (hrow : p.db.tasks.get id = some row)
    (hb : (p.db.view id).BackedBy k)
    (hfree : ∀ w held, p.holding w = some held → held.attemptId ≠ k) :
    ((p.step cfg a).db.view id).BackedBy k ∧
      ∀ w held, (p.step cfg a).holding w = some held → held.attemptId ≠ k := by
  refine ⟨?_, fun w held hheld => ?_⟩
  · obtain ⟨ls, htr, hls⟩ : ∃ ls, Trace (Change cfg) p.db ls (p.step cfg a).db ∧ _ :=
      step_trace hsound.foreignKeys hsound.held a
    refine backedBy_trace htr (fun l hl => ?_) (Table.get_lt hrow) hb
    rintro rfl
    obtain ⟨w, held, -, hheld, hk⟩ := (hls _ hl).close
    exact hfree w held hheld hk
  · obtain hold | ⟨now, i, row, seen, -, -, -, -, -, rfl, -⟩ := step_holding hheld
    · exact hfree w held hold
    · exact (ne_of_gt (hb.key hrow))

/-- A task that has just succeeded did so by the outcome of a worker that held it. -/
theorem outcome_of_success (hsound : p.Sound)
    (hbefore : ∀ row, p.db.tasks.get id = some row → row.status ≠ .success)
    (hrow' : (p.step cfg a).db.tasks.get id = some row') (hs' : row'.status = .success) :
    ∃ w held, a.outcomeOf = some w ∧ p.holding w = some held ∧ held.task.id = id := by
  by_contra hnone
  obtain ⟨ls, htr, hls⟩ : ∃ ls, Trace (Change cfg) p.db ls (p.step cfg a).db ∧ _ :=
    step_trace hsound.foreignKeys hsound.held a
  refine row_trace (P := fun r => r.status ≠ .success) (Q := fun l => l ≠ .settle id .success) htr
    (fun l hl => ?_) (fun r l r' hstep hl hr => hstep.not_success hl hr)
    (fun _ now spec => by simp [TaskSpec.row]) hbefore row' hrow' hs'
  rintro rfl
  exact hnone ((hls _ hl).settle (by decide))

theorem step_success_backedBy (hf : p.Fencing) (h : p.Reported) {w : WorkerId} {held : Held}
    (ha : a.outcomeOf = some w) (hheld : p.holding w = some held)
    (hrow : p.db.tasks.get held.task.id = some row) (hs : row.status ≠ .success)
    (hrow' : (p.step cfg a).db.tasks.get held.task.id = some row') (hs' : row'.status = .success) :
    ((p.step cfg a).db.view held.task.id).BackedBy held.attemptId := by
  have hv := hf.sound.held w held hheld
  obtain ⟨att, hatt, -⟩ := (hf.linked w held hheld).2.2.attempt row hrow
  have hsame : p.db.tasks.get held.task.id ≠ some row' := by
    rw [hrow]
    rintro he
    obtain rfl := Option.some.inj he
    exact hs hs'
  cases a with
  | recordSuccess now w' result =>
    cases ha
    simp only [Platform.step, finishStep_db, hheld] at hrow' ⊢
    cases hok : recordSuccess cfg now p.db held result with
    | error e =>
      rw [hok] at hrow'
      exact absurd hrow' hsame
    | ok db' =>
      rw [hok] at hrow'
      have hrun := ((recordSuccess_ok hv hok).succeeds_of_row hv hrow hs hrow' hs').2
      exact recordSuccess_backedBy hv (h.fresh w held hheld) hrow hrun hatt hok
  | recordFailure now w' error retryable =>
    cases ha
    simp only [Platform.step, finishStep_db, hheld] at hrow'
    cases hok : recordFailure cfg now p.db held error retryable with
    | error e =>
      rw [hok] at hrow'
      exact absurd hrow' hsame
    | ok db' =>
      rw [hok] at hrow'
      cases ((recordFailure_ok hv hok).succeeds_of_row hv hrow hs hrow' hs').1
  | _ => cases ha

theorem Platform.Reported.step (h : p.Reported) (hf : p.Fencing) (cfg : Settings) (a : Action) :
    (p.step cfg a).Reported where
  blank := by
    intro id
    obtain ⟨ls, htr, -⟩ : ∃ ls, Trace (Change cfg) p.db ls (p.step cfg a).db ∧ _ :=
      step_trace hf.sound.foreignKeys hf.sound.held a
    exact row_trace (Q := fun _ => True) htr (fun _ _ => trivial)
      (fun _ _ _ hstep _ hb => hstep.blank hb) (fun _ _ _ _ => rfl) (h.blank id)
  fresh := by
    intro w held hheld
    obtain hold | ⟨now, i, row, seen, -, -, hrow, hq, -, rfl, -⟩ := step_holding hheld
    · exact h.fresh w held hold
    · exact ⟨h.blank i row hrow (by rw [hq]; decide), rfl⟩
  backed := by
    intro id row' hrow' hs'
    by_cases hbefore : ∀ row, p.db.tasks.get id = some row → row.status ≠ .success
    · obtain ⟨w, held, ha, hheld, rfl⟩ := outcome_of_success hf.sound hbefore hrow' hs'
      obtain ⟨row, hrow⟩ := row_before hf.sound (hf.linked w held hheld).1 hrow'
      refine ⟨held.attemptId,
        step_success_backedBy hf h ha hheld hrow (hbefore row hrow) hrow' hs',
        fun w' held' hheld' hk => ?_⟩
      -- the worker holds nothing any more, and no other worker has its attempt
      obtain hold | ⟨now, i, row, seen, rfl, -⟩ := step_holding hheld'
      · obtain rfl := hf.distinct w' w held' held hold hheld hk
        rw [step_holding_outcome ha] at hheld'
        cases hheld'
      · cases ha
    · simp only [not_forall, not_not] at hbefore
      obtain ⟨row, hrow, hs⟩ := hbefore
      obtain ⟨k, hb, hfree⟩ := h.backed id row hrow hs
      exact ⟨k, step_backedBy hf.sound hrow hb hfree⟩

end

theorem Platform.after_reported (cfg : Settings) (acts : List Action) :
    (Platform.after cfg acts).Reported := by
  have hboth := run_invariant (P := fun p : Platform => p.Fencing ∧ p.Reported)
    (fun p a hp => ⟨hp.1.step cfg a, hp.2.step hp.1 cfg a⟩)
    ⟨Platform.initial_fencing, Platform.initial_reported⟩ acts
  exact hboth.2

/-- In every reachable state the tasks with a result are those that succeeded, and for each of them
one of its counted attempts succeeded with this very result. -/
theorem result_of_attempt (cfg : Settings) (acts : List Action) (id : TaskId) {row : Task}
    (hrow : (Platform.after cfg acts).db.tasks.get id = some row) :
    (row.result.isSome ↔ row.status = .success) ∧
      (row.status = .success → ∃ k att, (Platform.after cfg acts).db.attempts.get k = some att ∧
        att.taskId = id ∧ att.status = .success ∧ att.result = row.result ∧
        1 ≤ att.attemptNumber ∧ att.attemptNumber ≤ row.attempts) := by
  have h := Platform.after_reported cfg acts
  refine ⟨⟨fun hresult => ?_, fun hs => ?_⟩, fun hs => ?_⟩
  · by_contra hs
    rw [h.blank id row hrow hs] at hresult
    cases hresult
  · obtain ⟨k, hb, -⟩ := h.backed id row hrow hs
    exact (hb row hrow).2.1
  · obtain ⟨k, hb, -⟩ := h.backed id row hrow hs
    obtain ⟨-, -, att, hatt, hsuccess, hsame⟩ := hb row hrow
    have hnumber : att.attemptNumber ∈ List.range' 1 row.attempts := by
      rw [← ((Platform.after_sound cfg acts).row hrow).numbered]
      exact List.mem_map.mpr ⟨(k, att), hatt, rfl⟩
    obtain ⟨hget, htask⟩ := ((Platform.after cfg acts).db.attempts.mem_select _ _ _).mp hatt
    rw [List.mem_range'_1] at hnumber
    exact ⟨k, att, hget, by simpa using htask, hsuccess, hsame, hnumber.1, by omega⟩

/-- The lease of the first worker expires, the task is started again, and it is the first worker
that reports a result. -/
def lateResultRun : List Action :=
  [.createTask 0 plainSpec, .start 1 "w1" 1, .recoverStuck 1000000000 50 (fun _ => false),
    .start 1000000001 "w2" 1, .recordSuccess 1000000002 "w1" "first",
    .recordSuccess 1000000003 "w2" "second"]

theorem result_of_attempt_lateResultRun : ∃ row k att,
    (Platform.after .default lateResultRun).db.tasks.get 1 = some row ∧
      (Platform.after .default lateResultRun).db.attempts.get k = some att ∧
      row.result = some "first" ∧ att.result = some "first" := by
  obtain ⟨row, hrow⟩ := Option.isSome_iff_exists.mp
    (by decide +kernel : ((Platform.after .default lateResultRun).db.tasks.get 1).isSome = true)
  have hresult : ((Platform.after .default lateResultRun).db.tasks.get 1).map (·.result) =
      some (some "first") := by decide +kernel
  rw [hrow, Option.map_some, Option.some.injEq] at hresult
  obtain ⟨hiff, hattempt⟩ := result_of_attempt .default lateResultRun 1 hrow
  obtain ⟨k, att, hatt, -, -, hsame, -⟩ := hattempt (hiff.mp (by rw [hresult]; rfl))
  exact ⟨row, k, att, hrow, hatt, hresult, hsame.trans hresult⟩

end TaskPlatform
