import TaskPlatform.Change

/-!
# `set_status` and its cascade

What a successful `set_status` did to the database: one change, and the cascade
of a terminal status. The cascade is treated by induction on its depth: a child
is only ever taken out of `created`, by a cancellation or by an unblocking.
-/

namespace TaskPlatform

open Run

theorem bind_ok {ε α β : Type} {x : Except ε α} {f : α → Except ε β} {b : β}
    (h : x >>= f = .ok b) : ∃ a, x = .ok a ∧ f a = .ok b := by
  cases x with
  | error e => cases h
  | ok a => exact ⟨a, rfl, h⟩

theorem map_ok {ε α β : Type} {x : Except ε α} {f : α → β} {b : β} (h : x.map f = .ok b) :
    ∃ a, x = .ok a ∧ f a = b := by
  cases x with
  | error e => cases h
  | ok a => cases h; exact ⟨a, rfl, rfl⟩

/-- `set_status` as one update of the object. -/
theorem setStatusFields_eq (now : Time) (task : Task) (new : Status) :
    setStatusFields now task new = { task with
      status := new
      finishedAt := if new = .queued then none
        else if new ∈ terminal ∧ task.finishedAt = none then some now else task.finishedAt
      scheduledAt := if new = .queued then none else task.scheduledAt
      startedAt := if new = .running ∧ task.startedAt = none then some now else task.startedAt
      leaseOwner := if task.status = .running ∧ new ≠ .running then none else task.leaseOwner
      leaseExpiresAt :=
        if task.status = .running ∧ new ≠ .running then none else task.leaseExpiresAt } := by
  -- whether the old status is `running` only matters for the lease
  by_cases hl : task.status = .running <;> by_cases hf : task.finishedAt = none <;>
    by_cases hs : task.startedAt = none <;>
    cases new <;> simp [setStatusFields, terminal, hl, hf, hs]

@[simp] theorem setStatusFields_status (now : Time) (task : Task) (new : Status) :
    (setStatusFields now task new).status = new := rfl

@[simp] theorem movedTask_status (now : Time) (task : Task) (new : Status) :
    (movedTask now task new).status = new := rfl

@[simp] theorem movedTask_attempts (now : Time) (task : Task) (new : Status) :
    (movedTask now task new).attempts = task.attempts := by
  simp [movedTask, Task.touch, setStatusFields_eq]

/-- What follows the change itself: the children of a task that reached a terminal status. -/
def cascade (cfg : Settings) (now : Time) (fuel : Nat) (db : Database) (id : TaskId)
    (new : Status) : Except TaskError Database :=
  if new ∈ terminal then advanceChildren (setStatusFuel cfg now fuel) cfg db id new else .ok db

/-- `set_status` one level down: the change itself, and its cascade. -/
theorem setStatusFuel_succ {cfg : Settings} {now : Time} {db : Database} {task : Instance}
    {row : Task} {new : Status} (fuel : Nat) (eventType : EventType) (details : Option Details)
    (hrow : db.tasks.get task.id = some row) (hst : task.loaded.status = task.cur.status)
    (ht : canTransition task.cur.status new = true) :
    setStatusFuel cfg now (fuel + 1) db task new eventType details =
      (cascade cfg now fuel
        (db.change now task.id
          ((Task.merge task.loaded (setStatusFields now task.cur new) row).touch now)
          task.cur.status new eventType details (movedTask now task.cur new)) task.id new).map
        (fun db => (db, Instance.fresh task.id (movedTask now task.cur new))) := by
  have hne : task.cur.status ≠ new := canTransition_ne ht
  have hdirty : setStatusFields now task.cur new ≠ task.loaded := by
    intro h
    have hs := congrArg Task.status h
    rw [setStatusFields_status, hst] at hs
    exact hne hs.symm
  have hrow' : (recordEvent now db task.id task.cur.status eventType new details).tasks.get task.id
      = some row := hrow
  have hafter : ∀ db, afterStatusChange (setStatusFuel cfg now fuel) cfg now db
      (Instance.fresh task.id (movedTask now task.cur new)) eventType new =
      cascade cfg now fuel (enqueueFor now db eventType task.id (movedTask now task.cur new))
        task.id new := fun _ => rfl
  simp only [setStatusFuel, setStatusBody, hne, if_false, ht, not_true_eq_false, flush, hdirty,
    hrow', bind, Except.bind, pure, Except.pure]
  rw [show (setStatusFields now task.cur new).touch now = movedTask now task.cur new from rfl,
    hafter]
  rw [← Database.change]
  cases cascade cfg now fuel _ task.id new <;> rfl

/-- What a successful `set_status` did. -/
theorem setStatusFuel_ok {cfg : Settings} {now : Time} {db db' : Database} {task task' : Instance}
    {row : Task} {new : Status} {fuel : Nat} {eventType : EventType} {details : Option Details}
    (hrow : db.tasks.get task.id = some row) (hst : task.loaded.status = task.cur.status)
    (ht : canTransition task.cur.status new = true)
    (h : setStatusFuel cfg now fuel db task new eventType details = .ok (db', task')) :
    task' = Instance.fresh task.id (movedTask now task.cur new) ∧
      ∃ n, cascade cfg now n
        (db.change now task.id
          ((Task.merge task.loaded (setStatusFields now task.cur new) row).touch now)
          task.cur.status new eventType details (movedTask now task.cur new)) task.id new
        = .ok db' := by
  cases fuel with
  | zero => cases h
  | succ n =>
    rw [setStatusFuel_succ n _ _ hrow hst ht] at h
    obtain ⟨db₁, hc, hdb⟩ := map_ok h
    cases hdb
    exact ⟨rfl, n, hc⟩

/-- A status change without a cascade, through an object as new as its row. -/
theorem setStatusFuel_fresh {cfg : Settings} {now : Time} {db : Database} {id : TaskId}
    {row cur : Task} {new : Status} (fuel : Nat) (eventType : EventType)
    (details : Option Details) (hrow : db.tasks.get id = some row) (hst : row.status = cur.status)
    (ht : canTransition cur.status new = true) (hn : new ∉ terminal) :
    setStatusFuel cfg now (fuel + 1) db ⟨id, row, cur⟩ new eventType details =
      .ok (db.move now id cur new eventType details,
        Instance.fresh id (movedTask now cur new)) := by
  rw [setStatusFuel_succ fuel _ _ hrow hst ht, cascade, if_neg hn]
  simp only [Except.map, Task.merge_row]
  rfl

theorem setStatus_ok {cfg : Settings} {now : Time} {db db' : Database} {id : TaskId}
    {row cur : Task} {new : Status} {eventType : EventType} {details : Option Details}
    {task : Instance} (hrow : db.tasks.get id = some row) (hst : row.status = cur.status)
    (ht : canTransition cur.status new = true) (hn : new ∉ terminal)
    (h : setStatus cfg now db ⟨id, row, cur⟩ new eventType details = .ok (db', task)) :
    db' = db.move now id cur new eventType details ∧
      task = Instance.fresh id (movedTask now cur new) := by
  rw [setStatus, setStatusFuel_fresh _ _ _ hrow hst ht hn] at h
  cases h
  exact ⟨rfl, rfl⟩

/-- What a cascade does to one child. -/
inductive CascadeStep (cfg : Settings) : Database → Label → Database → Prop where
  | cancel {db} (now : Time) {id : TaskId} {row : Task} (details : Option Details) :
      db.tasks.get id = some row → row.status = .created →
      CascadeStep cfg db (.settle id .cancelled) (db.move now id row .cancelled .cancelled details)
  | unblock {db} (now : Time) {id : TaskId} {row : Task} (details : Option Details) :
      db.tasks.get id = some row → row.status = .created → allParentsSucceeded db id = true →
      CascadeStep cfg db (.enqueue .unblock id)
        (addOutbox cfg (db.move now id row .queued .unblocked details) id
          (movedTask now row .queued) false)

theorem CascadeStep.change {cfg : Settings} {db db' : Database} {l : Label}
    (h : CascadeStep cfg db l db') : Change cfg db l db' := by
  cases h with
  | cancel now details hrow hs => exact .cancel now details hrow (by rw [hs]; decide)
  | unblock now details hrow hs hp => 
    exact .enqueue now .unblock .unblocked details false hrow (by rw [hs]; decide) hp

@[simp] theorem addOutbox_tasks (cfg : Settings) (db : Database) (id : TaskId) (task : Task)
    (reattempt : Bool) : (addOutbox cfg db id task reattempt).tasks = db.tasks := rfl

/-- A status change writes one row. -/
theorem move_get_of_ne (now : Time) (db : Database) {id i : TaskId} (task : Task) (new : Status)
    (eventType : EventType) (details : Option Details) (h : i ≠ id) :
    (db.move now id task new eventType details).tasks.get i = db.tasks.get i :=
  get_setTask_of_ne (recordEvent now db id task.status eventType new details) _ h

/-- A cascade leaves every row that is not created as it is. -/
theorem CascadeStep.frame {cfg : Settings} {db db' : Database} {l : Label}
    (h : CascadeStep cfg db l db') {id : TaskId} {row : Task} (hrow : db.tasks.get id = some row)
    (hs : row.status ≠ .created) : db'.tasks.get id = some row := by
  have hne : ∀ child childRow, db.tasks.get child = some childRow → childRow.status = .created →
      id ≠ child := by
    rintro child childRow hchild hc rfl
    rw [hrow] at hchild
    cases hchild
    exact hs hc
  cases h with
  | cancel now details hchild hc =>
    rw [move_get_of_ne _ _ _ _ _ _ (hne _ _ hchild hc), hrow]
  | unblock now details hchild hc hp =>
    rw [addOutbox_tasks, move_get_of_ne _ _ _ _ _ _ (hne _ _ hchild hc), hrow]

theorem CascadeStep.frame_trace {cfg : Settings} {db db' : Database} {ls : List Label}
    (h : Trace (CascadeStep cfg) db ls db') {id : TaskId} {row : Task}
    (hrow : db.tasks.get id = some row) (hs : row.status ≠ .created) :
    db'.tasks.get id = some row := by
  induction h with
  | nil db => exact hrow
  | cons hstep _ ih => exact ih (hstep.frame hrow hs)

/-- The labels of a cascade. -/
def IsCascade (l : Label) : Prop :=
  (∃ id, l = .settle id .cancelled) ∨ ∃ id, l = .enqueue .unblock id

/-- Cancelling a created child one level down: its change, and the cascade below it. -/
theorem setStatusFuel_cancelled {cfg : Settings} {now : Time} {db : Database} {id : TaskId}
    {row : Task} (n : Nat) (details : Option Details) (hrow : db.tasks.get id = some row)
    (hs : row.status = .created) :
    setStatusFuel cfg now (n + 1) db (Instance.fresh id row) .cancelled .cancelled details =
      (cascade cfg now n (db.move now id row .cancelled .cancelled details) id .cancelled).map
        (fun db => (db, Instance.fresh id (movedTask now row .cancelled))) := by
  have hobject : db.tasks.get (Instance.fresh id row).id = some row := hrow
  have ht : canTransition (Instance.fresh id row).cur.status .cancelled = true := by
    rw [Instance.fresh, hs]; rfl
  rw [setStatusFuel_succ n _ _ hobject rfl ht]
  simp only [Instance.fresh, Task.merge_row]
  rfl

/-- Unblocking a created child succeeds at every level. -/
theorem unblock_created {cfg : Settings} {now : Time} {db : Database} {id : TaskId} {row : Task}
    (n : Nat) (parent : TaskId) (hrow : db.tasks.get id = some row) (hs : row.status = .created) :
    unblock (setStatusFuel cfg now (n + 1)) cfg db (Instance.fresh id row) parent =
      .ok (addOutbox cfg (db.move now id row .queued .unblocked (some (.unblockedBy parent))) id
        (movedTask now row .queued) false) := by
  rw [unblock, Instance.fresh, setStatusFuel_fresh n _ _ hrow rfl (by rw [hs]; rfl) (by decide)]
  rfl

/-- The only exception that leaves a cascade is the bound on its depth. -/
theorem cascade_error {cfg : Settings} {now : Time} {n : Nat} {db : Database} {id : TaskId}
    {new : Status} {e : TaskError} (h : cascade cfg now n db id new = .error e) :
    e = .recursion := by
  induction n using Nat.strong_induction_on generalizing db id new e with
  | _ n ih =>
    unfold cascade advanceChildren at h
    split at h
    · generalize db.childrenOf id = children at h
      induction children generalizing db with
      | nil => cases h
      | cons child children ihc =>
        rw [List.foldlM_cons] at h
        cases hturn : advanceChild (setStatusFuel cfg now n) cfg id new db child with
        | ok db₁ => rw [hturn] at h; exact ihc h
        | error e' =>
          rw [hturn] at h
          cases h
          unfold advanceChild at hturn
          split at hturn
          · cases hturn
          · rename_i row hrow
            split at hturn
            · cases hturn
            · rename_i hcreated
              rw [not_not] at hcreated
              cases n with
              | zero =>
                split at hturn
                · split at hturn <;> cases hturn
                  rfl
                · cases hturn
                  rfl
              | succ m =>
                rw [unblock_created m id hrow hcreated, cancelBlocked,
                  setStatusFuel_cancelled m _ hrow hcreated] at hturn
                split at hturn
                · split at hturn <;> cases hturn
                · cases hc : cascade cfg now m (db.move now child row .cancelled .cancelled
                    (some (.parentTerminal id new))) child .cancelled with
                  | ok db₂ => rw [hc] at hturn; cases hturn
                  | error e'' =>
                    have he := ih m (Nat.lt_succ_self m) hc
                    rw [hc, he] at hturn
                    cases hturn
                    rfl
    · cases h

/-- What one turn of `advance_children` did. -/
inductive ChildTurn (cfg : Settings) (now : Time) (fuel : Nat) (id : TaskId) (status : Status)
    (db : Database) (child : TaskId) : Database → Prop where
  | passed : (∀ row, db.tasks.get child = some row → row.status ≠ .created) →
      ChildTurn cfg now fuel id status db child db
  | waiting : status = .success → allParentsSucceeded db child = false →
      ChildTurn cfg now fuel id status db child db
  | unblocked {row : Task} : db.tasks.get child = some row → row.status = .created →
      status = .success → allParentsSucceeded db child = true →
      ChildTurn cfg now fuel id status db child
        (addOutbox cfg (db.move now child row .queued .unblocked (some (.unblockedBy id))) child
          (movedTask now row .queued) false)
  | cancelled {row : Task} {db' : Database} {m : Nat} : db.tasks.get child = some row →
      row.status = .created → status ≠ .success → m < fuel →
      cascade cfg now m (db.move now child row .cancelled .cancelled
        (some (.parentTerminal id status))) child .cancelled = .ok db' →
      ChildTurn cfg now fuel id status db child db'

theorem advanceChild_ok {cfg : Settings} {now : Time} {fuel : Nat} {db db' : Database}
    {id child : TaskId} {status : Status}
    (h : advanceChild (setStatusFuel cfg now fuel) cfg id status db child = .ok db') :
    ChildTurn cfg now fuel id status db child db' := by
  unfold advanceChild at h
  split at h
  · rename_i hnone
    cases h
    exact .passed fun row hrow => by rw [hnone] at hrow; cases hrow
  · rename_i row hrow
    split at h
    · rename_i hs
      cases h
      exact .passed fun row' hrow' => by rw [hrow] at hrow'; cases hrow'; exact hs
    · rename_i hcreated
      rw [not_not] at hcreated
      split at h
      · rename_i hsuccess
        split at h
        · rename_i hparents
          cases fuel with
          | zero => cases h
          | succ m =>
            rw [unblock_created m id hrow hcreated] at h
            cases h
            exact .unblocked hrow hcreated hsuccess hparents
        · rename_i hparents
          cases h
          exact .waiting hsuccess (by simpa using hparents)
      · rename_i hother
        cases fuel with
        | zero => cases h
        | succ m =>
          rw [cancelBlocked, setStatusFuel_cancelled m _ hrow hcreated] at h
          cases hc : cascade cfg now m (db.move now child row .cancelled .cancelled
              (some (.parentTerminal id status))) child .cancelled with
          | ok db₁ =>
            rw [hc] at h
            cases h
            exact .cancelled hrow hcreated hother (Nat.lt_succ_self m) hc
          | error e =>
            rw [hc, cascade_error hc] at h
            cases h

/-- The labels of the cascade of one task: it cancels at any depth, and unblocks only children. -/
def IsCascadeOf (db : Database) (id : TaskId) (status : Status) (l : Label) : Prop :=
  (∃ i, l = .settle i .cancelled) ∨
    status = .success ∧ ∃ child ∈ db.childrenOf id, l = .enqueue .unblock child

/-- A turn is a sequence of cascade steps, if the cascades below it are. -/
theorem ChildTurn.labels {cfg : Settings} {now : Time} {fuel : Nat} {db db' : Database}
    {id child : TaskId} {status : Status} (h : ChildTurn cfg now fuel id status db child db')
    (ih : ∀ m < fuel, ∀ db db' id, cascade cfg now m db id .cancelled = .ok db' →
      ∃ ls, Trace (CascadeStep cfg) db ls db' ∧ ∀ l ∈ ls, IsCascadeOf db id .cancelled l) :
    ∃ ls, Trace (CascadeStep cfg) db ls db' ∧
      ∀ l ∈ ls, (∃ i, l = .settle i .cancelled) ∨ status = .success ∧ l = .enqueue .unblock child := by
  cases h with
  | passed => exact ⟨[], .nil _, by simp⟩
  | waiting => exact ⟨[], .nil _, by simp⟩
  | unblocked hrow hs hsuccess hp =>
    exact ⟨_, .single (.unblock now _ hrow hs hp),
      fun l hl => .inr ⟨hsuccess, List.mem_singleton.mp hl⟩⟩
  | cancelled hrow hs _ hm hc =>
    obtain ⟨ls, htr, hls⟩ := ih _ hm _ _ _ hc
    refine ⟨_, .cons (.cancel now _ hrow hs) htr, fun l hl => .inl ?_⟩
    rcases List.mem_cons.mp hl with rfl | hl
    · exact ⟨_, rfl⟩
    · exact (hls l hl).resolve_right fun hsuccess => by cases hsuccess.1

/-- The cascade after a status change is a sequence of cascade steps. -/
theorem cascade_labels {cfg : Settings} {now : Time} {n : Nat} {db db' : Database}
    {id : TaskId} {new : Status} (h : cascade cfg now n db id new = .ok db') :
    ∃ ls, Trace (CascadeStep cfg) db ls db' ∧ ∀ l ∈ ls, IsCascadeOf db id new l := by
  induction n using Nat.strong_induction_on generalizing db db' id new with
  | _ n ih =>
    unfold cascade at h
    split at h
    · refine trace_foldlM (fun db => db) (fun rest _ => rest ⊆ db.childrenOf id)
        (fun db₁ child rest db₂ hrest hturn => ?_) _ (List.Subset.refl _) h
      obtain ⟨ls, htr, hls⟩ := (advanceChild_ok hturn).labels fun m hm db db' id hc => ih m hm hc
      refine ⟨⟨ls, htr, fun l hl => (hls l hl).imp_right fun hunblock => ?_⟩,
        fun i hi => hrest (List.mem_cons_of_mem _ hi)⟩
      exact ⟨hunblock.1, child, hrest List.mem_cons_self, hunblock.2⟩
    · cases h
      exact ⟨[], .nil _, by simp⟩

theorem ChildTurn.trace {cfg : Settings} {now : Time} {fuel : Nat} {db db' : Database}
    {id child : TaskId} {status : Status} (h : ChildTurn cfg now fuel id status db child db') :
    ∃ ls, Trace (CascadeStep cfg) db ls db' := by
  obtain ⟨ls, htr, -⟩ := h.labels fun _ _ _ _ _ hc => cascade_labels hc
  exact ⟨ls, htr⟩

theorem cascade_trace {cfg : Settings} {now : Time} {n : Nat} {db db' : Database}
    {id : TaskId} {new : Status} (h : cascade cfg now n db id new = .ok db') :
    ∃ ls, Trace (CascadeStep cfg) db ls db' := by
  obtain ⟨ls, htr, -⟩ := cascade_labels h
  exact ⟨ls, htr⟩

theorem IsCascadeOf.isCascade {db : Database} {id : TaskId} {status : Status} {l : Label}
    (h : IsCascadeOf db id status l) : IsCascade l :=
  h.imp_right fun hunblock => hunblock.2.imp fun _ hchild => hchild.2

/-- A change followed by its cascade. -/
theorem change_cascade_trace {cfg : Settings} {now : Time} {fuel : Nat} {db db₁ db' : Database}
    {l : Label} {id : TaskId} {new : Status} (hc : Change cfg db l db₁)
    (h : cascade cfg now fuel db₁ id new = .ok db') :
    ∃ ls, Trace (Change cfg) db (l :: ls) db' ∧ ∀ k ∈ ls, IsCascadeOf db₁ id new k := by
  obtain ⟨ls, htr, hls⟩ := cascade_labels h
  exact ⟨ls, .cons hc (htr.imp fun _ _ _ => CascadeStep.change), hls⟩

end TaskPlatform
