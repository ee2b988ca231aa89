import TaskPlatform.Invariant

/-!
# What a change does to one row

The machine of one task without its log and its attempts: what a labelled change
of the database makes of a row that is there before and after. An invariant of
rows that every step with an allowed label keeps is kept by every transaction.
-/

namespace TaskPlatform

open Run

inductive Task.Step (cfg : Settings) (id : TaskId) : Task → Label → Task → Prop where
  | same {row} (l : Label) : Step cfg id row l row
  | schedule {row} (now : Time) : row.status = .created → row.scheduledAt ≠ none →
      Step cfg id row .other (movedTask now row .scheduled)
  | enqueue {row} (now : Time) (cause : Cause) : row.status ∈ cause.sources →
      Step cfg id row (.enqueue cause id) (movedTask now (cause.prepare row) .queued)
  | cancel {row} (now : Time) : row.status ∈ cancelable →
      Step cfg id row (.settle id .cancelled) (movedTask now row .cancelled)
  | start {row} (now : Time) (w : WorkerId) : row.status = .queued → leaseFree now row = true →
      Step cfg id row (.start w id) (startedTask now w cfg.taskLeaseSeconds row)
  | renew {row} (now : Time) (w : WorkerId) : row.leaseOwner = some w → row.status = .running →
      Step cfg id row .other (renewed now cfg.taskLeaseSeconds row)
  | finish {row} (now : Time) {w : WorkerId} {held : Held} {task : Task} {new : Status} :
      held.Valid w → row.status = .running → OutcomeFields now held.task.loaded new task →
      Step cfg id row (.settle id new)
        ((Task.merge held.task.loaded (setStatusFields now task new) row).touch now)
  | stamp {row} (now : Time) (dlqRetryAt : Option Time) :
      Step cfg id row (.stamp id) { row with dlqRetryAt := dlqRetryAt, updatedAt := now }
  | recover {row} (now : Time) : row.status = .running →
      row.leaseExpiresAt.any (fun t => t < now) = true →
      Step cfg id row (.recover id) (movedTask now row .queued)
  | release {row} (now : Time) : row.status = .queued → row.leaseExpiresAt ≠ none →
      Step cfg id row .other { row with leaseOwner := none, leaseExpiresAt := none, updatedAt := now }

theorem View.Step.task {cfg : Settings} {id : TaskId} {v v' : View} {l : Label}
    (h : View.Step cfg id v l v') {row row' : Task} (hrow : v.row = some row)
    (hrow' : v'.row = some row') : Task.Step cfg id row l row' := by
  cases h with
  | insert now spec hnone => rw [hrow] at hnone; cases hnone
  | block now parents details hget hs => rw [View.record, hrow] at hrow'; cases hrow'; exact .same _
  | schedule now hget hs hat =>
    rw [hrow] at hget; cases hget; cases hrow'; exact .schedule now hs hat
  | enqueue now cause eventType details hget hs =>
    rw [hrow] at hget; cases hget; cases hrow'; exact .enqueue now cause hs
  | cancel now details hget hs => rw [hrow] at hget; cases hget; cases hrow'; exact .cancel now hs
  | start now w attemptId hget hs hfree =>
    rw [hrow] at hget; cases hget; cases hrow'; exact .start now w hs hfree
  | renew now w hget howner hs =>
    rw [hrow] at hget; cases hget; cases hrow'; exact .renew now w howner hs
  | close attemptId hclose => rw [View.rewrite_row, hrow] at hrow'; cases hrow'; exact .same _
  | finish now eventType details hvalid hget hs hout =>
    rw [hrow] at hget; cases hget; cases hrow'; exact .finish now hvalid hs hout
  | stamp now dlqRetryAt hget => rw [hrow] at hget; cases hget; cases hrow'; exact .stamp now _
  | recover now details hget hs hexpired =>
    rw [hrow] at hget; cases hget; cases hrow'; exact .recover now hs hexpired
  | release now hget hs hlease =>
    rw [hrow] at hget; cases hget; cases hrow'; exact .release now hs hlease
  | delete hget hfin => cases hrow'

theorem Change.task {cfg : Settings} {db db' : Database} {l : Label} (h : Change cfg db l db')
    {id : TaskId} {row row' : Task} (hrow : db.tasks.get id = some row)
    (hrow' : db'.tasks.get id = some row') : Task.Step cfg id row l row' := by
  obtain hsame | hstep := view_change h id
  · have hget := congrArg View.row hsame
    simp only [view_row] at hget
    rw [hget, hrow] at hrow'
    cases hrow'
    exact .same l
  · exact hstep.task hrow hrow'

/-- A row that was not there is a new task. -/
theorem View.Step.inserted {cfg : Settings} {id : TaskId} {v v' : View} {l : Label}
    (h : View.Step cfg id v l v') {row' : Task} (hnone : v.row = none)
    (hrow' : v'.row = some row') : l = .other ∧ ∃ now spec, row' = TaskSpec.row cfg now spec := by
  cases h with
  | insert now spec _ => cases hrow'; exact ⟨rfl, now, spec, rfl⟩
  | block now parents details hget => rw [hnone] at hget; cases hget
  | schedule now hget => rw [hnone] at hget; cases hget
  | enqueue now cause eventType details hget => rw [hnone] at hget; cases hget
  | cancel now details hget => rw [hnone] at hget; cases hget
  | start now w attemptId hget => rw [hnone] at hget; cases hget
  | renew now w hget => rw [hnone] at hget; cases hget
  | close attemptId hclose => rw [View.rewrite_row, hnone] at hrow'; cases hrow'
  | finish now eventType details hvalid hget => rw [hnone] at hget; cases hget
  | stamp now dlqRetryAt hget => rw [hnone] at hget; cases hget
  | recover now details hget => rw [hnone] at hget; cases hget
  | release now hget => rw [hnone] at hget; cases hget
  | delete hget hfin => cases hrow'

theorem Change.inserted {cfg : Settings} {db db' : Database} {l : Label} (h : Change cfg db l db')
    {id : TaskId} {row' : Task} (hnone : db.tasks.get id = none)
    (hrow' : db'.tasks.get id = some row') :
    l = .other ∧ ∃ now spec, row' = TaskSpec.row cfg now spec := by
  obtain hsame | hstep := view_change h id
  · have hget := congrArg View.row hsame
    simp only [view_row] at hget
    rw [hget, hnone] at hrow'
    cases hrow'
  · exact hstep.inserted hnone hrow'

variable {P : Task → Prop} {Q : Label → Prop}

/-- The induction rule for the row of a task that is there or new. -/
theorem row_trace {cfg : Settings} {db db' : Database} {ls : List Label}
    (h : Trace (Change cfg) db ls db') (hls : ∀ l ∈ ls, Q l) {id : TaskId}
    (hstep : ∀ row l row', Task.Step cfg id row l row' → Q l → P row → P row')
    (hinsert : Q .other → ∀ now spec, P (TaskSpec.row cfg now spec))
    (hrow : ∀ row, db.tasks.get id = some row → P row) :
    ∀ row, db'.tasks.get id = some row → P row := by
  refine h.invariant (P := fun db : Database => ∀ row, db.tasks.get id = some row → P row) (Q := Q)
    ?_ hls hrow
  intro db l db' hp hl hc row' hrow'
  cases hget : db.tasks.get id with
  | none =>
    obtain ⟨rfl, now, spec, rfl⟩ := hc.inserted hget hrow'
    exact hinsert hl now spec
  | some row => exact hstep row l row' (hc.task hget hrow') hl (hp row hget)

/-- The induction rule for the row of a task that was there at the beginning. -/
theorem row_trace_of_lt {cfg : Settings} {db db' : Database} {ls : List Label}
    (h : Trace (Change cfg) db ls db') (hls : ∀ l ∈ ls, Q l) {id : TaskId}
    (hstep : ∀ row l row', Task.Step cfg id row l row' → Q l → P row → P row')
    (hid : id < db.tasks.next) (hrow : ∀ row, db.tasks.get id = some row → P row) :
    ∀ row, db'.tasks.get id = some row → P row := by
  refine (h.invariant (P := fun db : Database => id < db.tasks.next ∧
    ∀ row, db.tasks.get id = some row → P row) (Q := Q) ?_ hls ⟨hid, hrow⟩).2
  rintro db l db' ⟨hid, hp⟩ hl hc
  obtain ⟨hnext, hgone⟩ := hc.gone
  refine ⟨Nat.lt_of_lt_of_le hid hnext, fun row' hrow' => ?_⟩
  cases hget : db.tasks.get id with
  | none => rw [hgone id hid hget] at hrow'; cases hrow'
  | some row => exact hstep row l row' (hc.task hget hrow') hl (hp row hget)

/-- Keys are handed out once, whatever a transaction does. -/
theorem step_gone {cfg : Settings} {p : Platform} (h : p.Sound) (a : Action) :
    p.db.tasks.next ≤ (p.step cfg a).db.tasks.next ∧
      ∀ id, id < p.db.tasks.next → p.db.tasks.get id = none →
        (p.step cfg a).db.tasks.get id = none := by
  obtain ⟨ls, htr, -⟩ : ∃ ls, Trace (Change cfg) p.db ls (p.step cfg a).db ∧ _ :=
    step_trace h.foreignKeys h.held a
  refine htr.invariant (P := fun db : Database => p.db.tasks.next ≤ db.tasks.next ∧
    ∀ id, id < p.db.tasks.next → p.db.tasks.get id = none → db.tasks.get id = none)
    (Q := fun _ => True) ?_ (fun _ _ => trivial) ⟨le_refl _, fun _ _ hnone => hnone⟩
  rintro db l db' ⟨hnext, hgone⟩ - hc
  obtain ⟨hnext', hgone'⟩ := hc.gone
  exact ⟨hnext.trans hnext', fun id hid hnone =>
    hgone' id (Nat.lt_of_lt_of_le hid hnext) (hgone id hid hnone)⟩

/-- A task that a step leaves, and whose key was handed out, was there before. -/
theorem row_before {cfg : Settings} {p : Platform} {a : Action} {id : TaskId} (h : p.Sound)
    (hid : id < p.db.tasks.next) {row' : Task}
    (hrow' : (p.step cfg a).db.tasks.get id = some row') :
    ∃ row, p.db.tasks.get id = some row := by
  cases hrow : p.db.tasks.get id with
  | none => rw [(step_gone h a).2 id hid hrow] at hrow'; cases hrow'
  | some row => exact ⟨row, rfl⟩

/-- What a worker holds after a step it held before, or it is its new attempt, with the row that the
start left. -/
theorem step_held {cfg : Settings} {p : Platform} {a : Action} {w : WorkerId} {held : Held}
    (hheld : (p.step cfg a).holding w = some held) :
    p.holding w = some held ∨ ∃ now row, a = .start now w held.task.id ∧
      p.db.tasks.get held.task.id = some row ∧
      (p.step cfg a).db.tasks.get held.task.id = some held.task.loaded ∧
      held.task.loaded = startedTask now w cfg.taskLeaseSeconds row ∧
      held.attempt.attemptNumber = row.attempts + 1 := by
  obtain hold | ⟨now, i, row, seen, rfl, -, hrow, -, -, rfl, hdb⟩ := step_holding hheld
  · exact .inl hold
  · have hrow' := congrArg View.row
      (view_startedDb_self now w (startedTask now w cfg.taskLeaseSeconds row) seen hrow)
    rw [← hdb] at hrow'
    exact .inr ⟨now, row, rfl, hrow, hrow', rfl, rfl⟩

/-- An outcome that is refused leaves every row; any other finishes the task, and writes
`dlq_retry_at` or not. -/
theorem Outcome.row {cfg : Settings} {now : Time} {db db' : Database} {w : WorkerId}
    {held : Held} {succeeds : Bool} (hv : held.Valid w)
    (h : Outcome cfg now db held succeeds db') :
    (stillRunning db held.task.id = false ∧ db'.tasks = db.tasks) ∨
      ∃ row row' task new, db.tasks.get held.task.id = some row ∧ row.status = .running ∧
        OutcomeFields now held.task.loaded new task ∧
        db'.tasks.get held.task.id = some row' ∧ row'.status = new := by
  cases h with
  | refused _ _ hrefused => exact .inl ⟨hrefused, rfl⟩
  | @finished cur row task new eventType details n db₁ _ ha hclose hrow hrun hout hnew hcascade
      hstamp =>
    obtain ⟨ls, htr⟩ := cascade_trace hcascade
    let merged := (Task.merge held.task.loaded (setStatusFields now task new) row).touch now
    have hstatus : merged.status = new := (hv.merge row now hout).1
    have hcreated : new ≠ .created := by cases hout <;> decide
    have hevent : (recordEvent now (closeHeld db held.attemptId held.attempt cur) held.task.id
      .running eventType new details).tasks.get held.task.id = some row := hrow
    have hget := CascadeStep.frame_trace htr (get_setTask_self merged hevent)
      (by rw [hstatus]; exact hcreated)
    obtain rfl | ⟨row₁, dlqRetryAt, hrow₁, rfl⟩ := hstamp
    · exact .inr ⟨row, merged, task, new, hrow, hrun, hout, hget, hstatus⟩
    · rw [hget] at hrow₁
      cases hrow₁
      exact .inr ⟨row, _, task, new, hrow, hrun, hout, get_setTask_self _ hget, hstatus⟩

end TaskPlatform
