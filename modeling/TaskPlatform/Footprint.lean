import TaskPlatform.OperatorTrace
import TaskPlatform.WorkerTrace

/-!
# What the transactions share

Apart from the row that a creation inserts, the lease that a start takes and the
event of its attempt, the transactions write through `set_status`, flushes and
new outbox rows. A relation between databases that these keep is kept by every
transaction that is made of them.
-/

namespace TaskPlatform

open Run

/-- A relation from the database before to the one after that the common writes keep. -/
structure Footprint (now : Time) (R : Database → Database → Prop) : Prop where
  refl : ∀ db, R db db
  trans : ∀ {db₁ db₂ db₃ : Database}, R db₁ db₂ → R db₂ db₃ → R db₁ db₃
  flush : ∀ {db db' : Database} {task task' : Instance}, flush now db task = .ok (db', task') → R db db'
  change : ∀ {db db₁ : Database} {task task₁ : Instance} {cur : Task} {eventType : EventType}
    {new : Status} {details : Option Details},
    TaskPlatform.flush now (recordEvent now db task.id task.cur.status eventType new details)
      { task with cur := cur } = .ok (db₁, task₁) →
    R db (enqueueFor now db₁ eventType task₁.id task₁.cur)
  outbox : ∀ cfg db id task reattempt, R db (addOutbox cfg db id task reattempt)
  attempts : ∀ db attempts, R db { db with attempts := attempts }
  workers : ∀ db workers, R db { db with workers := workers }

/-- A `set_status` whose successful calls keep the relation. -/
def SetStatus.Keeps (R : Database → Database → Prop) (s : SetStatus) : Prop :=
  ∀ db task new eventType details db' task',
    s db task new eventType details = .ok (db', task') → R db db'

section

variable {now : Time} {R : Database → Database → Prop} (hR : Footprint now R) {cfg : Settings}

include hR

theorem Footprint.advanceChild {setStatus : SetStatus} (hset : setStatus.Keeps R)
    {taskId childId : TaskId} {status : Status} {db db' : Database}
    (h : advanceChild setStatus cfg taskId status db childId = .ok db') : R db db' := by
  unfold TaskPlatform.advanceChild at h
  split at h
  · cases h
    exact hR.refl db
  · rename_i child hchild
    split at h
    · cases h
      exact hR.refl db
    · split at h
      · split at h
        · obtain ⟨⟨db₁, task⟩, hok, hdb⟩ := bind_ok h
          cases hdb
          exact hR.trans (hset _ _ _ _ _ _ _ hok) (hR.outbox ..)
        · cases h
          exact hR.refl db
      · unfold cancelBlocked at h
        split at h
        · rename_i db₁ task hok
          cases h
          exact hset _ _ _ _ _ _ _ hok
        · cases h
          exact hR.refl db
        · cases h

theorem Footprint.setStatusBody {setStatus : SetStatus} (hset : setStatus.Keeps R) :
    (setStatusBody setStatus cfg now).Keeps R := by
  intro db task new eventType details db' task' h
  unfold TaskPlatform.setStatusBody at h
  split at h
  · cases h
    exact hR.refl db
  · split at h
    · cases h
    · obtain ⟨⟨db₁, task₁⟩, hflush, h⟩ := bind_ok h
      obtain ⟨db₂, hafter, hdb⟩ := bind_ok h
      cases hdb
      have hchange := hR.change hflush
      simp only [afterStatusChange, advanceChildren] at hafter
      split at hafter
      · exact foldlM_invariant (P := R db) _
          (fun _ _ _ _ hkept hok => hR.trans hkept (hR.advanceChild hset hok)) hchange hafter
      · cases hafter
        exact hchange

theorem Footprint.setStatusFuel (fuel : Nat) : (setStatusFuel cfg now fuel).Keeps R := by
  induction fuel with
  | zero =>
    intro db task new eventType details db' task' h
    cases h
  | succ fuel ih => exact hR.setStatusBody ih

theorem Footprint.setStatus {db db' : Database} {task task' : Instance} {new : Status}
    {eventType : EventType} {details : Option Details}
    (h : setStatus cfg now db task new eventType details = .ok (db', task')) : R db db' :=
  hR.setStatusFuel _ _ _ _ _ _ _ _ h

/-- What a creation does after the insertion. -/
theorem Footprint.createTask {db db' : Database} {spec : TaskSpec} {id : TaskId}
    (h : createTask cfg now db spec = .ok (db', id)) :
    (spec.dependsOn.getD [] = [] ∧ R (insertTask cfg now db spec) db') ∨
      ∃ p ps deps, spec.dependsOn = some (p :: ps) ∧ db' = recordEvent now
        { insertTask cfg now db spec with deps := deps } db.tasks.next .created .blocked .created
        (some (.waitingFor (p :: ps))) := by
  simp only [TaskPlatform.createTask] at h
  split at h
  · cases h
  · split at h
    · rename_i p ps hdep
      obtain ⟨db₁, hdeps, hdb⟩ := bind_ok h
      cases hdb
      obtain ⟨rfl, -⟩ := registerDependencies_ok hdeps
      exact .inr ⟨p, ps, _, hdep, rfl⟩
    · rename_i hfree
      have hnone : spec.dependsOn.getD [] = [] := by
        cases hdep : spec.dependsOn with
        | none => rfl
        | some parents =>
          cases parents with
          | nil => rfl
          | cons p ps => exact absurd hdep (hfree p ps)
      split at h
      · cases h
      split at h
      · obtain ⟨⟨db₁, task⟩, hset, hdb⟩ := bind_ok h
        cases hdb
        exact .inl ⟨hnone, hR.setStatus hset⟩
      · obtain ⟨⟨db₁, task⟩, hset, hdb⟩ := bind_ok h
        cases hdb
        exact .inl ⟨hnone, hR.trans (hR.setStatus hset) (hR.outbox ..)⟩

theorem Footprint.manualRetry {db db' : Database} {id : TaskId}
    (h : manualRetry cfg now db id = .ok (some db')) : R db db' := by
  unfold TaskPlatform.manualRetry at h
  split at h
  · cases h
  · split at h
    · cases h
    · obtain ⟨⟨db₁, task⟩, hset, hdb⟩ := bind_ok h
      cases hdb
      exact hR.trans (hR.setStatus hset) (hR.outbox ..)

theorem Footprint.cancelTask {db db' : Database} {id : TaskId}
    (h : cancelTask cfg now db id = .ok (some db')) : R db db' := by
  unfold TaskPlatform.cancelTask cancelTaskBody at h
  split at h
  · cases h
  · split at h
    · cases h
    · obtain ⟨⟨db₁, task⟩, hset, hdb⟩ := bind_ok h
      cases hdb
      exact hR.setStatus hset

/-- A bulk operation keeps what its operation keeps. -/
theorem Footprint.bulk {op : Database → TaskId → Except TaskError (Option Database)}
    (hop : ∀ db id db', op db id = .ok (some db') → R db db') {db : Database}
    {ids : List TaskId} {r : BulkResult} (h : ids.foldlM (bulkTurn op) ⟨db, [], []⟩ = .ok r) :
    R db r.db := by
  refine foldlM_invariant (P := fun r : BulkResult => R db r.db) ids ?_ (hR.refl db) h
  intro r id _ r' hr hturn
  unfold bulkTurn at hturn
  split at hturn
  · cases hturn
  split at hturn
  · cases hturn
    exact hr
  · rename_i db₁ hok
    cases hturn
    exact hR.trans hr (hop _ _ _ hok)
  · cases hturn
    exact hr
  · cases hturn

theorem Footprint.flushAttempt {db db' : Database} {id : Nat} {loaded cur : TaskAttempt}
    (h : flushAttempt db id loaded cur = .ok db') : R db db' := by
  unfold TaskPlatform.flushAttempt at h
  split at h <;> cases h
  exact hR.attempts ..

theorem Footprint.recordSuccess {db db' : Database} {held : Held} {result : Json}
    (h : recordSuccess cfg now db held result = .ok db') : R db db' := by
  obtain ⟨db₁, hclose, h⟩ := bind_ok h
  have hclosed : R db db₁ := hR.flushAttempt hclose
  split at h
  · cases h
    exact hclosed
  · obtain ⟨⟨db₂, task⟩, hset, h⟩ := bind_ok h
    cases h
    exact hR.trans hclosed (hR.setStatus hset)

theorem Footprint.recordFailure {db db' : Database} {held : Held} {error : String}
    {retryable : Bool} (h : recordFailure cfg now db held error retryable = .ok db') :
    R db db' := by
  obtain ⟨db₁, hclose, h⟩ := bind_ok h
  have hclosed : R db db₁ := hR.flushAttempt hclose
  split at h
  · cases h
    exact hclosed
  · simp only [finishFailure] at h
    split at h
    · obtain ⟨⟨db₂, task⟩, hset, h⟩ := bind_ok h
      cases h
      exact hR.trans hclosed (hR.setStatus hset)
    · split at h
      · obtain ⟨⟨db₂, task⟩, hset, h⟩ := bind_ok h
        obtain ⟨⟨db₃, task₃⟩, hflush, h⟩ := bind_ok h
        cases h
        exact hR.trans (hR.trans hclosed (hR.setStatus hset)) (hR.flush hflush)
      · obtain ⟨⟨db₂, task⟩, hset, h⟩ := bind_ok h
        cases h
        exact hR.trans hclosed (hR.setStatus hset)

/-- The loop of a coordinator keeps what its turns keep. -/
theorem Footprint.loop {β : Type} {body : Database → β → Except TaskError Database}
    (hbody : ∀ db r db', body db r = .ok db' → R db db') {db db' : Database} {sel : List β}
    (h : sel.foldlM body db = .ok db') : R db db' :=
  foldlM_invariant (P := R db) sel (fun _ _ _ _ hkept hok => hR.trans hkept (hbody _ _ _ hok))
    (hR.refl db) h

theorem Footprint.requeueOrphaned {limit : Nat} {locked : TaskId → Bool} {db db' : Database}
    (h : requeueOrphanedQueuedTasks cfg now limit locked db = .ok db') : R db db' := by
  have hloop : ∀ (sel : List (TaskId × Task)) (db : Database),
      R db (sel.foldl (fun db r => addOutbox cfg db r.1 r.2 true) db) := by
    intro sel
    induction sel with
    | nil => exact hR.refl
    | cons r sel ih =>
      intro db
      exact hR.trans (hR.outbox ..) (ih _)
  cases h
  exact hloop _ _

theorem Footprint.requeueDueTasks {limit : Nat} {locked : TaskId → Bool} {db db' : Database}
    (h : requeueDueTasks cfg now limit locked db = .ok db') : R db db' := by
  refine hR.loop (fun db r db' h => ?_) h
  obtain ⟨⟨db₁, task⟩, hset, hdb⟩ := bind_ok h
  cases hdb
  exact hR.trans (hR.setStatus hset) (hR.outbox ..)

theorem Footprint.requeueDlqTasks {limit : Nat} {locked : TaskId → Bool} {db db' : Database}
    (h : requeueDlqTasks cfg now limit locked db = .ok db') : R db db' := by
  unfold TaskPlatform.requeueDlqTasks at h
  split at h
  · refine hR.loop (fun db r db' h => ?_) h
    obtain ⟨⟨db₁, task⟩, hset, hdb⟩ := bind_ok h
    cases hdb
    exact hR.trans (hR.setStatus hset) (hR.outbox ..)
  · cases h
    exact hR.refl db

theorem Footprint.recoverStuckTasks {limit : Nat} {locked : TaskId → Bool} {db db' : Database}
    (h : recoverStuckTasks cfg now limit locked db = .ok db') : R db db' := by
  refine hR.trans (hR.workers db _) (hR.loop (fun db r db' h => ?_) h)
  unfold recoverStuck at h
  split at h
  · obtain ⟨⟨db₁, task⟩, hset, hdb⟩ := bind_ok h
    cases hdb
    have hclosed : R db (closeLastAttempt now db r.1) := by
      unfold closeLastAttempt
      split
      · exact hR.refl db
      · exact hR.attempts ..
    exact hR.trans (hR.trans hclosed (hR.setStatus hset)) (hR.outbox ..)
  · obtain ⟨⟨db₁, task⟩, hflush, hdb⟩ := bind_ok h
    cases hdb
    exact hR.trans (hR.flush hflush) (hR.outbox ..)

/-- A start takes the lease, and records its attempt after the status change. -/
theorem Footprint.startTask {db db' : Database} {w : WorkerId} {id : TaskId} {held : Held}
    (h : startTask cfg now db w id = .ok (some (db', held))) :
    ∃ row db₁ number, db.tasks.get id = some row ∧
      R (db.setTask id (leased now w cfg.taskLeaseSeconds row)) db₁ ∧
      db' = recordEvent now db₁ held.task.id held.task.cur.status .attemptStarted .running
        (some (.attemptNumber number)) := by
  unfold TaskPlatform.startTask at h
  split at h
  · cases h
  · rename_i db₁ hlease
    obtain ⟨row, hrow, -, -, rfl⟩ := tryAcquireLease_true hlease
    split at h
    · cases h
    · obtain ⟨r, hstart, hr⟩ := bind_ok h
      cases hr
      obtain ⟨⟨db₂, task₂⟩, hset, h⟩ := bind_ok hstart
      obtain ⟨⟨db₃, task₃⟩, hflush, h⟩ := bind_ok h
      cases h
      exact ⟨row, _, _, hrow,
        hR.trans (hR.trans (hR.setStatus hset) (hR.flush hflush)) (hR.attempts ..), rfl⟩

/-- A transaction is committed if it succeeds. -/
theorem Footprint.commit {db : Database} {body : Except TaskError Database}
    (h : ∀ db', body = .ok db' → R db db') : R db (commit db body) := by
  cases body with
  | error e => exact hR.refl db
  | ok db' => exact h db' rfl

theorem Footprint.commitFound {db : Database} {body : Except TaskError (Option Database)}
    (h : ∀ db', body = .ok (some db') → R db db') : R db (commitFound db body) := by
  match body with
  | .error e => exact hR.refl db
  | .ok none => exact hR.refl db
  | .ok (some db') => exact h db' rfl

theorem Footprint.finishStep {body : Held → Except TaskError Database} {w : WorkerId}
    {p : Platform} (h : ∀ held db', body held = .ok db' → R p.db db') :
    R p.db (finishStep body w p).db := by
  unfold TaskPlatform.finishStep
  split
  · exact hR.refl p.db
  · rename_i held hheld
    exact hR.commit (h held)

end

end TaskPlatform
