import TaskPlatform.Blocked
import TaskPlatform.Execution
import TaskPlatform.Fencing

/-!
# Tasks that are scheduled for a time

`schedule_at` is looked at when a task is created and by `requeue_due_tasks`. A
task with dependencies stays in `created` whatever its time, and is queued when
its last parent succeeds. As long as this is not too early, no task starts
before its time.
-/

namespace TaskPlatform

open Run

/-- The task waits for its time, or was cancelled. -/
def Pending (t : Time) (row : Task) : Prop :=
  (row.status = .created ∨ row.status = .scheduled) ∧ row.scheduledAt = some t ∨
    row.status = .cancelled

/-- What lets a task go. -/
def Releases (id : TaskId) (l : Label) : Prop :=
  l = .enqueue .create id ∨ l = .enqueue .unblock id ∨ l = .enqueue .retry id ∨
    l = .enqueue .due id

section

variable {cfg : Settings} {id : TaskId} {t : Time} {row row' : Task} {l : Label}

theorem Pending.not_running (h : Pending t row) : row.status ≠ .running := by
  rcases h with ⟨hs | hs, -⟩ | hs <;> rw [hs] <;> decide

theorem Pending.not_queued (h : Pending t row) : row.status ≠ .queued := by
  rcases h with ⟨hs | hs, -⟩ | hs <;> rw [hs] <;> decide

theorem Task.Step.pending (h : Task.Step cfg id row l row') (hp : Pending t row)
    (hl : ¬ Releases id l) : Pending t row' := by
  cases h with
  | same => exact hp
  | schedule now hs hat =>
    rcases hp with ⟨-, ht⟩ | hc
    · refine .inl ⟨.inr rfl, ?_⟩
      simpa [movedTask, Task.touch, setStatusFields_eq] using ht
    · rw [hs] at hc
      cases hc
  | enqueue now cause hs =>
    cases cause with
    | create => exact absurd (.inl rfl) hl
    | unblock => exact absurd (.inr (.inl rfl)) hl
    | retry => exact absurd (.inr (.inr (.inl rfl))) hl
    | due => exact absurd (.inr (.inr (.inr rfl))) hl
    | dlq =>
      rcases hp with ⟨hc | hc, -⟩ | hc <;> rw [List.mem_singleton.mp hs] at hc <;> cases hc
  | cancel now hs => exact .inr rfl
  | start now w hq hfree => exact absurd hq hp.not_queued
  | renew now w howner hrun => exact hp
  | finish now hv hrun hout => exact absurd hrun hp.not_running
  | stamp now dlqRetryAt => exact hp
  | recover now hrun hexpired => exact absurd hrun hp.not_running
  | release now hq hlease => exact absurd hq hp.not_queued

end

/-- A task that is created with a later time waits for it. -/
theorem createTask_pending {cfg : Settings} {now t : Time} {db db' : Database} {spec : TaskSpec}
    {id : TaskId} (hspec : spec.scheduleAt = some t) (hlater : now < t)
    (h : createTask cfg now db spec = .ok (db', id)) :
    ∃ row, db'.tasks.get id = some row ∧ Pending t row := by
  have hrow := insertTask_get cfg now db spec
  have hat : (spec.row cfg now).scheduledAt = some t := hspec
  unfold createTask at h
  simp only at h
  split at h
  · cases h
  · split at h
    · obtain ⟨db₁, hreg, hdb⟩ := bind_ok h
      cases hdb
      obtain ⟨rfl, -⟩ := registerDependencies_ok hreg
      exact ⟨_, hrow, .inl ⟨.inl rfl, hat⟩⟩
    · split at h
      · cases h
      rw [if_pos (by simp [hspec, hlater])] at h
      obtain ⟨⟨db₁, task⟩, hset, hdb⟩ := bind_ok h
      cases hdb
      obtain ⟨rfl, rfl⟩ := setStatus_ok hrow rfl rfl (by decide) hset
      refine ⟨_, get_setTask_self _ hrow, .inl ⟨.inr rfl, ?_⟩⟩
      simpa [movedTask, Task.touch, setStatusFields_eq] using hat

namespace Graph

/-- The task is not in `success`, and only its own success changes that. -/
theorem Step.unsucceeded {g g' : Graph} {l : Label} (h : Step g l g') {q : TaskId}
    (hl : l ≠ .settle q .success) (hq : g.status q ≠ some .success) :
    g'.status q ≠ some .success := by
  have hset : ∀ (i : TaskId) (new : Status), (i = q → new ≠ .success) →
      (g.set i new).status q ≠ some .success := by
    intro i new hnew hs
    by_cases hi : q = i
    · rw [hi, set_status_self] at hs
      exact hnew hi.symm (Option.some.inj hs)
    · rw [set_status_of_ne _ _ hi] at hs
      exact hq hs
  cases h with
  | same => exact hq
  | block hs hparents => exact hq
  | insert hnone => exact hset _ _ fun _ => by decide
  | schedule hs hnone => exact hset _ _ fun _ => by decide
  | enqueue hs hsource hready => exact hset _ _ fun _ => by decide
  | start w hs => exact hset _ _ fun _ => by decide
  | cancel hs hc => exact hset _ _ fun _ => by decide
  | finish hs ht hnew => exact hset _ _ fun hi he => hl (by rw [hi, he])
  | recover hs => exact hset _ _ fun _ => by decide
  | delete ids hids =>
    simp only [remove]
    split
    · simp
    · exact hq

/-- Only a registration and a deletion change the edges. -/
theorem Step.edges {g g' : Graph} {l : Label} (h : Step g l g')
    (hblock : ∀ i parents, l ≠ .block i parents) (hother : l ≠ .other) : g'.edges = g.edges := by
  cases h with
  | block hs hparents => exact absurd rfl (hblock _ _)
  | delete ids hids => exact absurd rfl hother
  | _ => rfl

end Graph

/-- Nothing returns to `created`. -/
theorem Task.Step.not_created {cfg : Settings} {id : TaskId} {row row' : Task} {l : Label}
    (h : Task.Step cfg id row l row') (hs : row.status ≠ .created) : row'.status ≠ .created := by
  cases h with
  | same => exact hs
  | finish now hv hrun hout =>
    rw [Task.touch, (hv.merge row now hout).1]
    cases hout <;> decide
  | renew | stamp | release => exact hs
  | schedule | enqueue | cancel | start | recover => simp [startedTask]

theorem succeeded_iff (db : Database) (id : TaskId) :
    succeeded db id = true ↔ db.graph.status id = some .success := by
  refine ⟨status_of_succeeded, fun h => ?_⟩
  obtain ⟨row, hrow, hs⟩ := Option.map_eq_some_iff.mp h
  simp [succeeded, hrow, hs]

/-- The success of one parent of a task that still waits for another one does not unblock it. -/
theorem Outcome.not_unblocked {cfg : Settings} {now : Time} {db db' : Database} {w : WorkerId}
    {held : Held} {succeeds : Bool} (hv : held.Valid w) (h : Outcome cfg now db held succeeds db')
    (hfk : db.ForeignKeys) (hok : ∀ i, (db.view i).Ok) {id : TaskId} {row : Task}
    (hrow : db.tasks.get id = some row)
    (hwait : succeeds = true → stillRunning db held.task.id = true → row.status = .created →
      held.task.id ∈ db.parentsOf id →
      ∃ q ∈ db.parentsOf id, q ≠ held.task.id ∧ succeeded db q = false) :
    ∃ ls, Trace (Change cfg) db ls db' ∧ ∀ l ∈ ls, IsOutcome held l ∧ l ≠ .enqueue .unblock id := by
  obtain ⟨ls, htr, hls⟩ := h.labels hv
  have hout : ∀ l ∈ ls, IsOutcome held l := fun l hl => (hls l hl).1
  suffices hnot : ∀ l ∈ ls, l ≠ .enqueue .unblock id from
    ⟨ls, htr, fun l hl => ⟨hout l hl, hnot l hl⟩⟩
  rintro l hl rfl
  obtain ⟨hsucceeds, hrunning, hchild⟩ := (hls _ hl).2 id rfl
  have hparent : held.task.id ∈ db.parentsOf id :=
    (db.mem_parentsOf _ _).mpr ((db.mem_childrenOf _ _).mp hchild)
  by_cases hc : row.status = .created
  · -- the parent that the task still waits for is in no label of the outcome
    obtain ⟨q, hq, hne, hnot⟩ := hwait hsucceeds hrunning hc hparent
    have hq' : db.graph.status q ≠ some .success := fun hs => by
      rw [(succeeded_iff db q).mpr hs] at hnot
      cases hnot
    refine htr.labels_of_invariant (P := fun d => d.ForeignKeys ∧ (∀ i, (d.view i).Ok) ∧
      ⟨q, id⟩ ∈ d.deps ∧ d.graph.status q ≠ some .success) (S := fun l => l ≠ .enqueue .unblock id)
      ?_ hout ⟨hfk, hok, (db.mem_parentsOf q id).mp hq, hq'⟩ _ hl rfl
    rintro d l d' ⟨hfk, hok, hedge, hunready⟩ hl hchange
    have hstep := hchange.graph hfk hok
    refine ⟨⟨hchange.foreignKeys hfk, hchange.views hok, ?_, hstep.unsucceeded ?_ hunready⟩, ?_⟩
    · have hedges := hstep.edges
        (fun i parents he => by rw [he] at hl; simp [IsOutcome, IsCascade] at hl)
        (fun he => by rw [he] at hl; simp [IsOutcome, IsCascade] at hl)
      rw [graph_edges, graph_edges] at hedges
      rw [hedges]
      exact hedge
    · rintro rfl
      rcases hl with he | he | ⟨new, he⟩ | ⟨i, he⟩ | ⟨i, he⟩ <;> cases he
      exact hne rfl
    · rintro rfl
      obtain ⟨-, -, -, hready⟩ := hchange.enqueue_row
      exact hunready ((allParentsSucceeded_iff hfk id).mp hready q hedge)
  · refine htr.labels_of_invariant (P := fun d => ∀ r, d.tasks.get id = some r → r.status ≠ .created)
      (S := fun l => l ≠ .enqueue .unblock id) ?_ hout (fun r hr => ?_) _ hl rfl
    · intro d l d' hd hl hchange
      refine ⟨fun r' hr' => ?_, ?_⟩
      · cases hr : d.tasks.get id with
        | none =>
          obtain ⟨rfl, -⟩ := hchange.inserted hr hr'
          simp [IsOutcome, IsCascade] at hl
        | some r => exact (hchange.task hr hr').not_created (hd r hr)
      · rintro rfl
        obtain ⟨r, hr, hs, -⟩ := hchange.enqueue_row
        exact hd r hr (List.mem_singleton.mp hs)
    · rw [hrow] at hr
      cases hr
      exact hc

/-- The tasks that `manual_retry` is applied to. -/
def Action.retried : Action → List TaskId
  | .manualRetry _ id => [id]
  | .bulkRetry _ ids => ids
  | _ => []

/-- A parent of the task that succeeds before `t` leaves it with another parent that has not. -/
def Unready (t : Time) (id : TaskId) (p : Platform) : Action → Prop
  | .recordSuccess now w _ => now < t → ∀ held ∈ p.holding w,
    stillRunning p.db held.task.id = true → held.task.id ∈ p.db.parentsOf id →
    ∀ row ∈ p.db.tasks.get id, row.status = .created →
      ∃ q ∈ p.db.parentsOf id, q ≠ held.task.id ∧ succeeded p.db q = false
  | _ => True

instance (t : Time) (id : TaskId) (p : Platform) (a : Action) : Decidable (Unready t id p a) := by
  rcases a <;> unfold Unready <;> infer_instance

section

variable {cfg : Settings} {t : Time} {id : TaskId} {p : Platform} {a : Action} {row : Task}

theorem not_releases_of_cancel {l : Label} (h : ∃ i, l = .settle i .cancelled) :
    ¬ Releases id l := by
  obtain ⟨i, rfl⟩ := h
  simp [Releases]

theorem not_releases_of_outcome {held : Held} {l : Label} (h : IsOutcome held l)
    (hnot : l ≠ .enqueue .unblock id) : ¬ Releases id l := by
  rintro (rfl | rfl | rfl | rfl)
  · simp [IsOutcome, IsCascade] at h
  · exact hnot rfl
  · simp [IsOutcome, IsCascade] at h
  · simp [IsOutcome, IsCascade] at h

theorem commit_outcome_trace {w : WorkerId} {held : Held} {body : Except TaskError Database}
    {now : Time} {succeeds : Bool} (h : p.Sound) (hheld : p.holding w = some held)
    (hbody : ∀ db', body = .ok db' → Outcome cfg now p.db held succeeds db')
    (hrow : p.db.tasks.get id = some row)
    (hwait : succeeds = true → stillRunning p.db held.task.id = true → row.status = .created →
      held.task.id ∈ p.db.parentsOf id →
      ∃ q ∈ p.db.parentsOf id, q ≠ held.task.id ∧ succeeded p.db q = false) :
    ∃ ls, Trace (Change cfg) p.db ls (commit p.db body) ∧ ∀ l ∈ ls, ¬ Releases id l := by
  refine commit_trace fun db' hok => ?_
  obtain ⟨ls, htr, hls⟩ := (hbody db' hok).not_unblocked (h.held w held hheld) h.foreignKeys h.views
    hrow hwait
  exact ⟨ls, htr, fun l hl => not_releases_of_outcome (hls l hl).1 (hls l hl).2⟩

/-- A step before its time does not release the task. -/
theorem step_not_released (h : p.Sound) (htime : ∀ now ∈ a.clock, now < t)
    (hretry : id ∉ a.retried) (hunready : Unready t id p a) (hrow : p.db.tasks.get id = some row)
    (hp : Pending t row) :
    ∃ ls, Trace (Change cfg) p.db ls (p.step cfg a).db ∧ ∀ l ∈ ls, ¬ Releases id l := by
  obtain ⟨ls, htr, hls⟩ : ∃ ls, Trace (Change cfg) p.db ls (p.step cfg a).db ∧
    ∀ l ∈ ls, a.Allows cfg p l := step_trace h.foreignKeys h.held a
  cases a with
  | createTask now spec =>
    -- the new task is another one
    have hlt : id < p.db.tasks.next := Table.get_lt hrow
    refine ⟨ls, htr, fun l hl => ?_⟩
    rcases hls l hl with rfl | rfl | ⟨parents, -, rfl⟩
    · simp [Releases]
    · simp only [Releases, Label.enqueue.injEq, true_and, reduceCtorEq, false_and, or_false]
      exact (ne_of_gt hlt)
    · simp [Releases]
  | manualRetry now i =>
    refine ⟨ls, htr, fun l hl => ?_⟩
    rw [show l = .enqueue .retry i from hls l hl]
    simpa [Releases, Action.retried, eq_comm] using hretry
  | bulkRetry now ids =>
    refine ⟨ls, htr, fun l hl => ?_⟩
    obtain ⟨i, hi, rfl⟩ := hls l hl
    simp only [Releases, Label.enqueue.injEq, reduceCtorEq, false_and, true_and, false_or, or_false]
    rintro rfl
    exact hretry hi
  | cancelTask now i =>
    refine commitFound_trace fun db' hok => ?_
    obtain ⟨ms, htr', hms⟩ := cancelTask_trace hok
    exact ⟨ms, htr', fun l hl => not_releases_of_cancel (hms l hl)⟩
  | bulkCancel now ids =>
    refine commit_trace fun db' hok => ?_
    obtain ⟨r, hbulk, rfl⟩ := map_ok hok
    obtain ⟨ms, htr', hms⟩ := bulkCancel_trace hbulk
    exact ⟨ms, htr', fun l hl => not_releases_of_cancel (hms l hl)⟩
  | recordSuccess now w result =>
    simp only [Platform.step, finishStep_db]
    cases hheld : p.holding w with
    | none => exact ⟨[], .nil _, by simp⟩
    | some held =>
      exact commit_outcome_trace h hheld
        (fun db' hok => recordSuccess_ok (h.held w held hheld) hok) hrow
        fun _ hrun hc hparent => hunready (htime now rfl) held hheld hrun hparent row hrow hc
  | recordFailure now w error retryable =>
    simp only [Platform.step, finishStep_db]
    cases hheld : p.holding w with
    | none => exact ⟨[], .nil _, by simp⟩
    | some held =>
      exact commit_outcome_trace h hheld
        (fun db' hok => recordFailure_ok (h.held w held hheld) hok) hrow
        fun hfalse => by cases hfalse
  | requeueDue now limit locked =>
    refine ⟨ls, htr, fun l hl => ?_⟩
    obtain ⟨i, hi, rfl⟩ := hls l hl
    simp only [Releases, Label.enqueue.injEq, reduceCtorEq, false_and, true_and, false_or]
    rintro rfl
    -- the query asks for the time
    obtain ⟨r, hr, rfl⟩ := List.mem_map.mp hi
    obtain ⟨hget, hdue, -⟩ := mem_selectLocked hr
    rw [hrow] at hget
    cases hget
    simp only [isDue, Bool.and_eq_true, decide_eq_true_eq] at hdue
    rcases hp with ⟨-, hat⟩ | hc
    · rw [hat, Option.any_some, decide_eq_true_eq] at hdue
      exact absurd hdue.2 (not_le_of_gt (htime now rfl))
    · rw [hc] at hdue
      exact absurd hdue.1 (by decide)
  | _ =>
    refine ⟨ls, htr, fun l hl hr => ?_⟩
    have hallow := hls l hl
    rcases hr with rfl | rfl | rfl | rfl <;> simp [Action.Allows] at hallow

theorem step_pending (h : p.Sound) (htime : ∀ now ∈ a.clock, now < t) (hretry : id ∉ a.retried)
    (hunready : Unready t id p a) (hid : id < p.db.tasks.next)
    (hp : ∀ row, p.db.tasks.get id = some row → Pending t row) :
    ∀ row, (p.step cfg a).db.tasks.get id = some row → Pending t row := by
  cases hrow : p.db.tasks.get id with
  | none =>
    intro row' hrow'
    rw [(step_gone h a).2 id hid hrow] at hrow'
    cases hrow'
  | some row =>
    obtain ⟨ls, htr, hls⟩ : ∃ ls, Trace (Change cfg) p.db ls (p.step cfg a).db ∧
      ∀ l ∈ ls, ¬ Releases id l := step_not_released h htime hretry hunready hrow (hp row hrow)
    exact row_trace_of_lt htr hls (fun r l r' hstep hl hr => hstep.pending hr hl) hid hp

end

/-- The task is not started before `t`. -/
def StartsFrom (cfg : Settings) (t : Time) (id : TaskId) (p : Platform) : Action → Prop
  | .start now w i => starts cfg id p (.start now w i) = true → t ≤ now
  | _ => True

instance (cfg : Settings) (t : Time) (id : TaskId) (p : Platform) (a : Action) :
    Decidable (StartsFrom cfg t id p a) := by
  rcases a <;> unfold StartsFrom <;> infer_instance

/-- A task that is created with a later `schedule_at`, and never retried by hand, does not start
before that time, if its last parent does not succeed before it. -/
theorem schedule_at_honoured (cfg : Settings) (before acts : List Action) {now t : Time}
    {spec : TaskSpec} {db : Database} {id : TaskId}
    (hcreate : createTask cfg now (Platform.after cfg before).db spec = .ok (db, id))
    (hspec : spec.scheduleAt = some t) (hlater : now < t) (hclock : Forward Action.clock now acts)
    (hretry : ∀ a ∈ acts, id ∉ a.retried)
    (hunready : Along (Platform.step cfg) (Unready t id)
      (Platform.after cfg (before ++ [.createTask now spec])) acts) :
    Along (Platform.step cfg) (StartsFrom cfg t id)
      (Platform.after cfg (before ++ [.createTask now spec])) acts := by
  have hcreated : (Platform.after cfg (before ++ [.createTask now spec])).db = db := by
    rw [Platform.after, run_append, ← Platform.after, run_cons, run_nil, Platform.step, hcreate]
    rfl
  obtain ⟨row, hrow, hpending⟩ := createTask_pending hspec hlater hcreate
  refine along_of_forward (P := fun (p : Platform) (c : Time) =>
    p.Sound ∧ id < p.db.tasks.next ∧
      (c < t → ∀ row, p.db.tasks.get id = some row → Pending t row)) ?_ ?_ ?_ hclock
    (along_and_forall hunready hretry)
  · rintro p c a ⟨hsound, hid, hp⟩ ⟨hunready, hretry⟩ hc
    refine ⟨hsound.step cfg a, Nat.lt_of_lt_of_le hid (step_gone hsound a).1, fun hlt => ?_⟩
    have hbefore : c < t ∧ ∀ n ∈ a.clock, n < t := by
      cases ha : a.clock with
      | none => rw [ha] at hlt; exact ⟨hlt, by simp⟩
      | some n =>
        rw [ha] at hlt hc
        exact ⟨lt_of_le_of_lt (hc n rfl) hlt, by simpa using hlt⟩
    exact step_pending hsound hbefore.2 hretry hunready hid (hp hbefore.1)
  · rintro p c a ⟨hsound, hid, hp⟩ - hc
    cases a with
    | start n w i =>
      intro hstarts
      by_contra hlt
      obtain ⟨⟨row, hrow, hq⟩, -⟩ := row_of_starts hstarts
      have hearly : c < t := lt_of_le_of_lt (hc n rfl) (lt_of_not_ge hlt)
      exact (hp hearly row hrow).not_queued hq
    | _ => trivial
  · refine ⟨Platform.after_sound cfg _, ?_, fun _ row' hrow' => ?_⟩
    · rw [hcreated]
      exact Table.get_lt hrow
    · rw [hcreated, hrow] at hrow'
      cases hrow'
      exact hpending

/-- A task for a later time, with the parents `dependsOn`. -/
def laterSpec (t : Time) (dependsOn : List TaskId) : TaskSpec :=
  { plainSpec with scheduleAt := some t, dependsOn := some dependsOn }

/-- The coordinator looks too early and again in time, and a worker starts the task. -/
def laterRun : List Action :=
  [.requeueDue 10 10 (fun _ => false), .requeueDue 1000 10 (fun _ => false), .start 1001 "w1" 1]

theorem schedule_at_honoured_laterRun :
    ∃ db, createTask .default 0 (Platform.after .default []).db (laterSpec 1000 []) = .ok (db, 1) ∧
      Along (Platform.step .default) (StartsFrom .default 1000 1)
        (Platform.after .default ([] ++ [.createTask 0 (laterSpec 1000 [])])) laterRun := by
  have hid : (createTask .default 0 (Platform.after .default []).db
      (laterSpec 1000 [])).toOption.map Prod.snd = some 1 := by decide +kernel
  cases hcreate : createTask .default 0 (Platform.after .default []).db (laterSpec 1000 []) with
  | error e => rw [hcreate] at hid; cases hid
  | ok r =>
    obtain ⟨db, id⟩ := r
    rw [hcreate] at hid
    cases hid
    exact ⟨db, rfl, schedule_at_honoured .default [] laterRun hcreate rfl (by decide)
      (by unfold Forward; decide) (by decide) (by decide +kernel)⟩

/-- The parent of a task succeeds before the task's time, and a worker takes its message. -/
def earlyParentRun : List Action := [.recordSuccess 3 "w1" "{}", .start 4 "w1" 2]

/-- The task, created at 2 for a later time, starts at 4. -/
theorem earlyParentRun_starts_early :
    Forward Action.clock 2 earlyParentRun ∧ (∀ a ∈ earlyParentRun, 2 ∉ a.retried) ∧
      ¬ Along (Platform.step .default) (StartsFrom .default 1000000 2)
        (Platform.after .default ([.createTask 0 plainSpec, .start 1 "w1" 1] ++
          [.createTask 2 (laterSpec 1000000 [1])])) earlyParentRun :=
  ⟨by unfold Forward; decide, by decide, by decide +kernel⟩

end TaskPlatform
