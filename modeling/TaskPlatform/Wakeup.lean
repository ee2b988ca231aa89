import TaskPlatform.Lib.Schedule
import TaskPlatform.Fencing
import TaskPlatform.Graph

/-!
# Completing parents statement by statement

The transactions of the parents of a new child that record their success, and
the transaction that creates the child, cut where PostgreSQL can run another one
in between. Everything else that the platform does meanwhile, such as the start
of a parent, is a whole transaction. A transaction reads what is committed when a
statement begins, with its own writes over it, and its commit applies its writes
to what is committed then.
-/

namespace TaskPlatform

open Run Schedule

/-- The second transaction of a worker, with the outcome `record_success`. -/
structure Completion where
  worker : WorkerId
  now : Time
  result : Json

/-- What `record_success` has written when `set_status` comes to `advance_children`. -/
def Completion.finish (x : Completion) (held : Held) (db : Database) : Database :=
  match db.tasks.get held.task.id with
  | none => db
  | some row =>
    finishedDb x.now
      (closeHeld db held.attemptId held.attempt
        { held.attempt with
          status := .success, result := some x.result, finishedAt := some x.now })
      held row { held.task.cur with result := some x.result, finishedAt := some x.now }
      .success .succeeded none

/-- What `_unblock` writes for a child of `p` whose row was read. -/
def Completion.unblocked (cfg : Settings) (x : Completion) (p child : TaskId) (row : Task)
    (db : Database) : Database :=
  addOutbox cfg (db.move x.now child row .queued .unblocked (some (.unblockedBy p)))
    child (movedTask x.now row .queued) false

/-- Where the loop of `advance_children` is. -/
inductive Progress where
  | begun
  | written
  | advancing (todo : List TaskId)
  | found (child : TaskId) (row : Task) (todo : List TaskId)
  | ready (child : TaskId) (row : Task) (todo : List TaskId)
  | committed

def Progress.isCommitted : Progress → Bool
  | .committed => true
  | _ => false

theorem Progress.isCommitted_iff (x : Progress) : x.isCommitted = true ↔ x = .committed := by
  cases x <;> simp [isCommitted]

/-- The transaction has written and not committed, so it holds the lock of its task's row. -/
def Progress.isOpen : Progress → Bool
  | .begun | .committed => false
  | _ => true

/-- The child whose row the transaction has read and not updated. -/
def Progress.current : Progress → Option TaskId
  | .found child _ _ | .ready child _ _ => some child
  | _ => none

/-- One transaction: its writes so far, and the children among them. -/
structure Session where
  progress : Progress
  pending : Database → Database
  updated : List TaskId

/-- The children whose rows the transaction has in its hands. -/
def Session.hands (me : Session) : List TaskId := me.progress.current.toList ++ me.updated

inductive Creation where
  | begun | registered | committed
  deriving DecidableEq, Repr

structure Completing where
  platform : Platform
  creation : Creation
  session : TaskId → Session

abbrev Completing.db (s : Completing) : Database := s.platform.db

def Completing.start (p : Platform) : Completing :=
  ⟨p, .begun, fun _ => ⟨.begun, fun db => db, []⟩⟩

def Completing.setSession (s : Completing) (p : TaskId) (x : Session) : Completing :=
  { s with session := Function.update s.session p x }

/-- `register` stands for the statements of `create_task`, `create` for its commit, `other` for a
whole transaction; the others are the statements of the transaction of the parent `p`. -/
inductive WakeStmt where
  | register
  | create
  | other (n : Nat)
  | write (p : TaskId)
  | list (p : TaskId)
  | get (p child : TaskId)
  | check (p child : TaskId)
  | update (p child : TaskId)
  | commit (p : TaskId)
  deriving DecidableEq, Repr

/-- What the transactions are given; `others` are the whole ones. -/
structure WakeRun where
  now : Time
  spec : TaskSpec
  parents : List TaskId
  child : TaskId
  completion : TaskId → Completion
  others : Nat → Action

/-- What another transaction leaves alone of a parent: its row, from the first write on that records
its success; before that it may do all but let it succeed. -/
def WakeRun.LeavesParent (x : WakeRun) (s : Completing) (p' : Platform) (q : TaskId) : Prop :=
  ((s.session q).progress.isOpen = true ∨ (s.session q).progress.isCommitted = true →
    p'.db.tasks.get q = s.db.tasks.get q) ∧
  ((p'.db.tasks.get q).any (fun row => row.status != .success) = true ∨
    (s.session q).progress.isCommitted = true) ∧
  ((s.session q).progress.isOpen = true →
    p'.holding (x.completion q).worker = s.platform.holding (x.completion q).worker) ∧
  ∀ i ∈ (s.session q).hands, p'.db.tasks.get i = s.db.tasks.get i

instance (x : WakeRun) (s : Completing) (p' : Platform) (q : TaskId) :
    Decidable (x.LeavesParent s p' q) := by
  unfold WakeRun.LeavesParent; infer_instance

/-- What another transaction leaves alone: the child with its edges and messages, its id, and the
rows that are locked. -/
def WakeRun.Leaves (x : WakeRun) (s : Completing) (p' : Platform) : Prop :=
  p'.db.tasks.get x.child = s.db.tasks.get x.child ∧
  p'.db.outboxOf x.child = s.db.outboxOf x.child ∧
  p'.db.deps.filter (fun d => d.childTaskId == x.child) =
    s.db.deps.filter (fun d => d.childTaskId == x.child) ∧
  (s.creation ≠ .committed → p'.db.tasks.next = s.db.tasks.next) ∧
  ∀ q ∈ x.parents, x.LeavesParent s p' q

instance (x : WakeRun) (s : Completing) (p' : Platform) : Decidable (x.Leaves s p') := by
  unfold WakeRun.Leaves; infer_instance

def WakeRun.step (cfg : Settings) (x : WakeRun) (s : Completing) : WakeStmt → Option Completing
  | .register =>
    match s.creation, createTask cfg x.now s.db x.spec with
    | .begun, .ok _ => some { s with creation := .registered }
    | _, _ => none
  | .create =>
    if s.creation = .registered then
      some { s with
        creation := .committed
        platform := { s.platform with db := x.spec.blocked cfg x.now x.parents s.db } }
    else none
  | .other n =>
    let p' := s.platform.step cfg (x.others n)
    if x.Leaves s p' then some { s with platform := p' } else none
  | .write p =>
    match (s.session p).progress, s.platform.holding (x.completion p).worker with
    | .begun, some held =>
      if p ∈ x.parents ∧ held.task.id = p ∧ stillRunning s.db p then
        some (s.setSession p ⟨.written, (x.completion p).finish held, []⟩)
      else none
    | _, _ => none
  | .list p =>
    let me := s.session p
    match me.progress with
    | .written =>
      some (s.setSession p { me with progress := .advancing ((me.pending s.db).childrenOf p) })
    | _ => none
  | .get p child =>
    let me := s.session p
    match me.progress with
    | .advancing (next :: todo) =>
      if next = child then
        match (me.pending s.db).tasks.get child with
        | none => some (s.setSession p { me with progress := .advancing todo })
        | some row =>
          if row.status ≠ .created then
            some (s.setSession p { me with progress := .advancing todo })
          else some (s.setSession p { me with progress := .found child row todo })
      else none
    | _ => none
  | .check p child =>
    let me := s.session p
    match me.progress with
    | .found next row todo =>
      if next = child then
        if allParentsSucceeded (me.pending s.db) child then
          some (s.setSession p { me with progress := .ready child row todo })
        else some (s.setSession p { me with progress := .advancing todo })
      else none
    | _ => none
  | .update p child =>
    let me := s.session p
    match me.progress with
    | .ready next row todo =>
      if next = child ∧ ∀ q ∈ x.parents, child ∉ (s.session q).updated then
        some (s.setSession p
          { progress := .advancing todo
            pending := fun db => (x.completion p).unblocked cfg p child row (me.pending db)
            updated := child :: me.updated })
      else none
    | _ => none
  | .commit p =>
    let me := s.session p
    match me.progress with
    | .advancing [] =>
      some { s.setSession p ⟨.committed, fun db => db, []⟩ with
        platform := Platform.setHolding { s.platform with db := me.pending s.db }
          (x.completion p).worker none }
    | _ => none

@[simp] theorem Completing.setSession_self (s : Completing) (p : TaskId) (me : Session) :
    (s.setSession p me).session p = me := by simp [Completing.setSession]

theorem Completing.setSession_of_ne (s : Completing) {p q : TaskId} (me : Session) (h : q ≠ p) :
    (s.setSession p me).session q = s.session q := by simp [Completing.setSession, h]

/-- No row of a child that would be found blocked is being updated. -/
def Completing.Unlocked (s : Completing) (p : TaskId) : Prop :=
  ∀ q child row, child ∈ (s.session q).updated →
    ((s.session p).pending s.db).tasks.get child = some row → row.status ≠ .created

theorem Completing.Unlocked.setSession {s : Completing} {p : TaskId} (h : s.Unlocked p)
    (progress : Progress) :
    (s.setSession p { s.session p with progress := progress }).Unlocked p := by
  intro q child row hin hrow
  rw [setSession_self] at hrow
  by_cases he : q = p
  · subst he
    rw [setSession_self] at hin
    exact h q child row hin hrow
  · rw [setSession_of_ne _ _ he] at hin
    exact h q child row hin hrow

@[simp] theorem Completing.setSession_db (s : Completing) (p : TaskId) (me : Session) :
    (s.setSession p me).db = s.db := rfl

@[simp] theorem Completing.setSession_platform (s : Completing) (p : TaskId) (me : Session) :
    (s.setSession p me).platform = s.platform := rfl

@[simp] theorem Completing.setSession_setSession (s : Completing) (p : TaskId) (me me' : Session) :
    (s.setSession p me).setSession p me' = s.setSession p me' := by
  simp [setSession]

/-- Nothing that is updated would be found blocked afterwards either. -/
theorem Completing.Unlocked.update {s : Completing} {p : TaskId} (h : s.Unlocked p)
    (cfg : Settings) (x : Completion) {child : TaskId} {row : Task} (progress : Progress)
    (hrow : ((s.session p).pending s.db).tasks.get child = some row) :
    (s.setSession p
      { progress := progress
        pending := fun db => x.unblocked cfg p child row ((s.session p).pending db)
        updated := child :: (s.session p).updated }).Unlocked p := by
  intro q i row' hin hrow'
  rw [setSession_self, setSession_db] at hrow'
  by_cases hi : i = child
  · subst hi
    have hself : (x.unblocked cfg p i row ((s.session p).pending s.db)).tasks.get i =
        some (movedTask x.now row .queued) :=
      @get_setTask_self (recordEvent _ ((s.session p).pending s.db) _ _ _ _ _) _ _ _ hrow
    rw [hself] at hrow'
    cases hrow'
    exact fun hc => by cases hc
  · have hother : (x.unblocked cfg p child row ((s.session p).pending s.db)).tasks.get i =
        ((s.session p).pending s.db).tasks.get i := move_get_of_ne _ _ _ _ _ _ hi
    rw [hother] at hrow'
    refine h q i row' ?_ hrow'
    by_cases he : q = p
    · subst he
      rw [setSession_self] at hin
      exact (List.mem_cons.mp hin).resolve_left hi
    · rwa [setSession_of_ne _ _ he] at hin

/-- One turn of the loop over the children, statement by statement. -/
theorem turn_alone {cfg : Settings} {x : WakeRun} {p : TaskId} {n : Nat} {child : TaskId}
    {todo : List TaskId} {s : Completing} {db' : Database}
    (hprogress : (s.session p).progress = .advancing (child :: todo)) (hlocks : s.Unlocked p)
    (h : advanceChild (setStatusFuel cfg (x.completion p).now n) cfg p .success
      ((s.session p).pending s.db) child = .ok db') :
    ∃ σ s', exec (x.step cfg) s σ = some s' ∧ (s'.session p).progress = .advancing todo ∧
      s'.platform = s.platform ∧ (s'.session p).pending s'.db = db' ∧ s'.Unlocked p := by
  let passed := s.setSession p { s.session p with progress := .advancing todo }
  have hpassed : ∀ {σ : List WakeStmt}, exec (x.step cfg) s σ = some passed →
      db' = (s.session p).pending s.db →
      ∃ σ s', exec (x.step cfg) s σ = some s' ∧ (s'.session p).progress = .advancing todo ∧
        s'.platform = s.platform ∧ (s'.session p).pending s'.db = db' ∧ s'.Unlocked p := by
    intro σ hexec hdb
    refine ⟨σ, passed, hexec, ?_, rfl, ?_, hlocks.setSession _⟩
    · simp only [passed, Completing.setSession_self]
    · simp only [passed, Completing.setSession_self, Completing.setSession_db, hdb]
  unfold advanceChild at h
  split at h
  · rename_i hnone
    cases h
    refine hpassed (σ := [.get p child]) ?_ rfl
    simp only [exec_cons, exec_nil, WakeRun.step, hprogress, if_true, hnone, Option.bind_some, passed]
  · rename_i row hrow
    split at h
    · rename_i hs
      cases h
      refine hpassed (σ := [.get p child]) ?_ rfl
      simp only [exec_cons, exec_nil, WakeRun.step, hprogress, if_true, hrow, ne_eq, hs,
        not_false_eq_true, Option.bind_some, passed]
    · rename_i hs
      rw [not_not] at hs
      rw [if_pos rfl] at h
      have hget : x.step cfg s (.get p child) =
          some (s.setSession p { s.session p with progress := .found child row todo }) := by
        simp only [WakeRun.step, hprogress, if_true, hrow, ne_eq, hs, not_true_eq_false, if_false]
      split at h
      · rename_i hall
        cases n with
        | zero => cases h
        | succ m =>
          rw [unblock_created m p hrow hs] at h
          cases h
          have hfree : ∀ q ∈ x.parents, child ∉ (s.session q).updated :=
            fun q _ hin => hlocks q child row hin hrow hs
          refine ⟨[.get p child, .check p child, .update p child], _, ?_, ?_, ?_, ?_,
            hlocks.update cfg (x.completion p) (.advancing todo) hrow⟩
          · rw [exec_cons, hget]
            have hfree' : ∀ (me : Session), me.updated = (s.session p).updated →
                ∀ q ∈ x.parents, child ∉ ((s.setSession p me).session q).updated := by
              intro me hme q hq
              by_cases he : q = p
              · subst he
                rw [Completing.setSession_self, hme]
                exact hfree q hq
              · rw [Completing.setSession_of_ne _ _ he]
                exact hfree q hq
            simp only [exec_cons, exec_nil, WakeRun.step, Completing.setSession_self,
              Completing.setSession_db, Completing.setSession_setSession, hall, if_true,
              Option.bind_some, true_and]
            rw [if_pos (hfree' ⟨.ready child row todo, (s.session p).pending, (s.session p).updated⟩
              rfl), Option.bind_some]
          · rw [Completing.setSession_self]
          · rfl
          · rw [Completing.setSession_self, Completing.setSession_db]
            simp only [Completion.unblocked]
      · rename_i hall
        cases h
        refine hpassed (σ := [.get p child, .check p child]) ?_ rfl
        rw [exec_cons, hget]
        simp only [exec_cons, exec_nil, WakeRun.step, Completing.setSession_self,
          Completing.setSession_db, Completing.setSession_setSession, hall, if_true, if_false,
          Option.bind_some, Bool.false_eq_true, passed]

/-- The loop over the children, statement by statement, is that of `advance_children`. -/
theorem loop_alone {cfg : Settings} {x : WakeRun} {p : TaskId} {n : Nat} {todo : List TaskId}
    {s : Completing} {db' : Database} (hprogress : (s.session p).progress = .advancing todo)
    (hlocks : s.Unlocked p)
    (h : todo.foldlM (advanceChild (setStatusFuel cfg (x.completion p).now n) cfg p .success)
      ((s.session p).pending s.db) = .ok db') :
    ∃ σ s', exec (x.step cfg) s σ = some s' ∧ (s'.session p).progress = .advancing [] ∧
      s'.platform = s.platform ∧ (s'.session p).pending s'.db = db' := by
  induction todo generalizing s with
  | nil =>
    cases h
    exact ⟨[], s, rfl, hprogress, rfl, rfl⟩
  | cons child todo ih =>
    rw [List.foldlM_cons] at h
    obtain ⟨db₁, hturn, hrest⟩ := bind_ok h
    obtain ⟨σ, u, hexec, hnext, hsame, hpending, hlocks'⟩ := turn_alone hprogress hlocks hturn
    obtain ⟨τ, s', hexec', hdone, hsame', hdb⟩ := ih hnext hlocks' (by rw [hpending]; exact hrest)
    refine ⟨σ ++ τ, s', ?_, hdone, hsame'.trans hsame, hdb⟩
    rw [exec_append, hexec]
    exact hexec'

/-- Without another statement in between, the transaction of a parent is `record_success`. -/
theorem completion_alone {cfg : Settings} {x : WakeRun} {p : TaskId} {held : Held}
    (hmember : p ∈ x.parents) {s : Completing}
    (hheld : s.platform.holding (x.completion p).worker = some held) (hp : held.task.id = p)
    (hv : held.Valid (x.completion p).worker) (hbegun : (s.session p).progress = .begun)
    (hlocks : ∀ q, (s.session q).updated = []) (hrun : stillRunning s.db p = true) {db' : Database}
    (h : recordSuccess cfg (x.completion p).now s.db held (x.completion p).result = .ok db') :
    ∃ σ s', exec (x.step cfg) s σ = some s' ∧ s'.platform =
      s.platform.step cfg (.recordSuccess (x.completion p).now (x.completion p).worker
        (x.completion p).result) := by
  have hrecord := h
  obtain ⟨row, hrow, hrunning⟩ := stillRunning_true hrun
  obtain ⟨db₁, hclose, h⟩ := bind_ok h
  obtain ⟨-, rfl⟩ := flushAttempt_ok hclose
  rw [stillRunning_closeHeld, hp, hrun] at h
  simp only [not_true_eq_false, if_false] at h
  obtain ⟨⟨db₂, task⟩, hset, hdb⟩ := bind_ok h
  cases hdb
  let object : Instance := ⟨held.task.id, held.task.loaded, { held.task.cur with
    result := some (x.completion p).result, finishedAt := some (x.completion p).now }⟩
  have hobject : (closeHeld s.db held.attemptId held.attempt
      { held.attempt with
        status := .success, result := some (x.completion p).result,
        finishedAt := some (x.completion p).now }).tasks.get object.id = some row := by
    rw [show object.id = p from hp]
    exact hrow
  have hstatus : object.cur.status = .running := by
    rw [show object.cur.status = held.task.cur.status from rfl, hv.same]
    exact hv.running
  obtain ⟨-, n, hcascade⟩ := setStatusFuel_ok hobject (hv.running.trans hstatus.symm)
    (by rw [hstatus]; rfl) hset
  rw [hstatus] at hcascade
  have hfinish : (x.completion p).finish held s.db = (closeHeld s.db held.attemptId
      held.attempt { held.attempt with
        status := .success, result := some (x.completion p).result,
        finishedAt := some (x.completion p).now }).change (x.completion p).now object.id
      ((Task.merge object.loaded (setStatusFields (x.completion p).now object.cur .success)
        row).touch (x.completion p).now) .running .success .succeeded none
      (movedTask (x.completion p).now object.cur .success) := by
    simp only [Completion.finish, hp, hrow]
    rfl
  rw [← hfinish, cascade, if_pos (by decide), advanceChildren, show object.id = p from hp] at hcascade
  let written := s.setSession p ⟨.written, (x.completion p).finish held, []⟩
  let listed := s.setSession p ⟨.advancing (((x.completion p).finish held s.db).childrenOf p),
    (x.completion p).finish held, []⟩
  have hwrite : x.step cfg s (.write p) = some written := by
    simp only [WakeRun.step, hbegun, hheld, hmember, hp, hrun, and_self, if_true, written]
  have hlist : x.step cfg written (.list p) = some listed := by
    simp only [WakeRun.step, written, Completing.setSession_self, Completing.setSession_db,
      Completing.setSession_setSession, listed]
  have hunlocked : listed.Unlocked p := by
    intro q child row' hin _
    by_cases he : q = p
    · subst he
      simp [listed] at hin
    · simp only [listed, Completing.setSession_of_ne _ _ he, hlocks q] at hin
      cases hin
  have hprogress : (listed.session p).progress =
      .advancing (((x.completion p).finish held s.db).childrenOf p) := by
    simp only [listed, Completing.setSession_self]
  have hfold : (((x.completion p).finish held s.db).childrenOf p).foldlM
      (advanceChild (setStatusFuel cfg (x.completion p).now n) cfg p .success)
      ((listed.session p).pending listed.db) = .ok db' := by
    simp only [listed, Completing.setSession_self, Completing.setSession_db]
    exact hcascade
  obtain ⟨σ, u, hexec, hdone, hsame, hdb⟩ := loop_alone hprogress hunlocked hfold
  refine ⟨.write p :: .list p :: (σ ++ [.commit p]),
    { u.setSession p ⟨.committed, fun db => db, []⟩ with
      platform := Platform.setHolding { u.platform with db := (u.session p).pending u.db }
        (x.completion p).worker none }, ?_, ?_⟩
  · rw [exec_cons, hwrite, Option.bind_some, exec_cons, hlist, Option.bind_some, exec_append, hexec,
      Option.bind_some, exec_cons]
    simp only [WakeRun.step, hdone, exec_nil, Option.bind_some]
  · have hplatform : u.platform = s.platform := hsame
    simp only [Platform.step, finishStep, hheld, hrecord, commit, hdb, hplatform]

/-- Without another statement in between, the transaction of the child is `create_task`. -/
theorem creation_alone {cfg : Settings} {x : WakeRun} {s : Completing} {db' : Database}
    {id : TaskId} (hparents : x.parents ≠ []) (hspec : x.spec.dependsOn = some x.parents)
    (hbegun : s.creation = .begun) (h : createTask cfg x.now s.db x.spec = .ok (db', id)) :
    ∃ s', exec (x.step cfg) s [.register, .create] = some s' ∧
      s'.platform = s.platform.step cfg (.createTask x.now x.spec) := by
  obtain ⟨hdb, -⟩ := createTask_blocked hparents hspec h
  refine ⟨{ s with
    creation := .committed
    platform := { s.platform with db := x.spec.blocked cfg x.now x.parents s.db } }, ?_, ?_⟩
  · simp only [exec_cons, exec_nil, WakeRun.step, hbegun, h, Option.bind_some, if_true]
  · simp only [Platform.step, commitCreated, h, hdb]

end TaskPlatform
