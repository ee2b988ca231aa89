import TaskPlatform.Lib.Join
import TaskPlatform.Wakeup

/-!
# The last reader

For each child the transactions of its parents go through a join. A new child is
released, and by exactly one message, if and only if one of them reads its
children after the creation was committed and the statuses of the parents after
all the other parents have committed.
-/

namespace TaskPlatform

open Run Schedule

/-- What the workers hold are objects of running tasks. -/
def Platform.HoldsRunning (p : Platform) : Prop :=
  ∀ w held, p.holding w = some held → held.task.loaded.status = .running

theorem Platform.HoldsRunning.setHolding {p : Platform} (h : p.HoldsRunning) {w : WorkerId}
    {held : Option Held} (hheld : ∀ x, held = some x → x.task.loaded.status = .running) :
    (p.setHolding w held).HoldsRunning := by
  intro w' x hx
  simp only [Platform.setHolding] at hx
  split at hx
  · exact hheld x hx
  · exact h w' x hx

theorem Platform.HoldsRunning.finishStep {p : Platform} (h : p.HoldsRunning)
    (body : Held → Except TaskError Database) (w : WorkerId) :
    (TaskPlatform.finishStep body w p).HoldsRunning := by
  intro w' x hx
  rw [finishStep_holding] at hx
  split at hx
  · cases hx
  · exact h w' x hx

theorem Platform.HoldsRunning.step {p : Platform} (h : p.HoldsRunning) (cfg : Settings)
    (act : Action) : (p.step cfg act).HoldsRunning := by
  cases act with
  | start now w id =>
    obtain hsame | ⟨row, seen, -, -, -, -, hstarted⟩ := startStep_cases cfg now w id p
    · rw [Platform.step, hsame]
      exact h
    · have hdb : Platform.HoldsRunning
          ⟨startedDb now p.db w id row (startedTask now w cfg.taskLeaseSeconds row) seen,
            p.holding⟩ := h
      rw [Platform.step, hstarted]
      refine hdb.setHolding fun x hx => ?_
      cases hx
      rfl
  | recordSuccess now w result => exact h.finishStep _ w
  | recordFailure now w error retryable => exact h.finishStep _ w
  | crash w => exact h.setHolding fun x hx => by cases hx
  | _ => exact h

/-- What the writes of the transaction of `p` do to the rows, when it has updated those of
`updated`. -/
structure Writes (p : TaskId) (updated : List TaskId) (f : Database → Database) : Prop where
  deps : ∀ db, (f db).deps = db.deps
  next : ∀ db, (f db).tasks.next = db.tasks.next
  row : ∀ db i row, db.tasks.get i = some row → ∃ row', (f db).tasks.get i = some row' ∧
    row'.status = if i ∈ updated then .queued else if i = p then .success else row.status
  outbox : ∀ db i, ((f db).outboxOf i).length = (db.outboxOf i).length + updated.count i

theorem Completion.finish_writes (x : Completion) {held : Held}
    (hrunning : held.task.loaded.status = .running) :
    Writes held.task.id [] (x.finish held) := by
  refine ⟨?_, ?_, ?_, ?_⟩
  · intro db
    unfold Completion.finish
    split <;> rfl
  · intro db
    unfold Completion.finish
    split <;> rfl
  · intro db i row hrow
    rw [if_neg List.not_mem_nil]
    by_cases he : i = held.task.id
    · subst he
      rw [if_pos rfl]
      let after := setStatusFields x.now { held.task.cur with
        result := some x.result, finishedAt := some x.now } .success
      have hself : (x.finish held db).tasks.get held.task.id =
          some ((Task.merge held.task.loaded after row).touch x.now) := by
        simp only [Completion.finish, hrow, finishedDb, Database.change, enqueueFor]
        exact get_setTask_self _ hrow
      have hne : after.status ≠ held.task.loaded.status := by
        rw [hrunning, show after.status = .success from rfl]
        decide
      exact ⟨_, hself, mergeColumn_of_ne row.status hne⟩
    · rw [if_neg he]
      cases hown : db.tasks.get held.task.id with
      | none => exact ⟨row, by simp only [Completion.finish, hown, hrow], rfl⟩
      | some own =>
        refine ⟨row, ?_, rfl⟩
        simp only [Completion.finish, hown, finishedDb, Database.change, enqueueFor]
        rw [get_setTask_of_ne _ _ he]
        exact hrow
  · intro db i
    unfold Completion.finish
    split <;> rfl

theorem Writes.unblocked {cfg : Settings} {x : Completion} {p : TaskId} {updated : List TaskId}
    {f : Database → Database} (h : Writes p updated f) (child : TaskId) (row : Task) :
    Writes p (child :: updated) (fun db => x.unblocked cfg p child row (f db)) := by
  refine ⟨fun db => h.deps db, fun db => h.next db, ?_, ?_⟩
  · intro db i before hbefore
    obtain ⟨after, hafter, hs⟩ := h.row db i before hbefore
    by_cases he : i = child
    · subst he
      rw [if_pos List.mem_cons_self]
      exact ⟨movedTask x.now row .queued,
        @get_setTask_self (recordEvent _ (f db) _ _ _ _ _) _ _ _ hafter, rfl⟩
    · refine ⟨after, (move_get_of_ne _ _ _ _ _ _ he).trans hafter, ?_⟩
      simp only [hs, List.mem_cons, he, false_or]
  · intro db i
    have hadd : ((x.unblocked cfg p child row (f db)).outboxOf i).length =
        ((f db).outboxOf i).length + if child = i then 1 else 0 := by
      simp only [Completion.unblocked, Database.outboxOf, addOutbox, Table.select_insert,
        List.length_append, beq_iff_eq]
      split <;> rfl
    rw [hadd, h.outbox db i, List.count_cons, Nat.add_assoc]
    simp only [beq_iff_eq]

/-- The statement as one of the join of the child `c`; what concerns only other tasks is none. -/
def WakeStmt.joins (c : TaskId) : WakeStmt → Option (Join.Stmt TaskId)
  | .register | .write _ | .other _ => none
  | .create => some .create
  | .list p => some (.list p)
  | .get p child => if child = c then some (.get p) else none
  | .check p child => if child = c then some (.check p) else none
  | .update p child => if child = c then some (.update p) else none
  | .commit p => some (.commit p)

theorem WakeStmt.joins_inj (c : TaskId) (a b : WakeStmt) (y : Join.Stmt TaskId)
    (ha : a.joins c = some y) (hb : b.joins c = some y) : a = b := by
  cases a <;> cases b <;> simp only [joins] at ha hb <;> grind

/-- Where a transaction that still has these children before it is in the join of `c`. -/
def Session.rest (c : TaskId) (me : Session) (todo : List TaskId) : Join.Stage :=
  if c ∈ todo then .listed else if c ∈ me.updated then .updated else .idle

def Session.stage (c : TaskId) (me : Session) : Join.Stage :=
  match me.progress with
  | .begun | .written => .begun
  | .advancing todo => me.rest c todo
  | .found child _ todo => if child = c then .found else me.rest c todo
  | .ready child _ todo => if child = c then .ready else me.rest c todo
  | .committed => .committed

/-- The children that a transaction has still before it. -/
def Progress.todo : Progress → List TaskId
  | .advancing todo => todo
  | .found child _ todo | .ready child _ todo => child :: todo
  | _ => []

/-- What is known of the transaction of the parent `p`. -/
structure Session.Known (parents : List TaskId) (c p : TaskId) (me : Session) : Prop where
  begun : me.progress = .begun ∨ me.progress = .written ∨ me.progress = .committed →
    me.updated = []
  writes : me.progress.isOpen = true → Writes p me.updated me.pending
  member : me.progress ≠ .begun → p ∈ parents
  once : me.progress.todo.count c + me.updated.count c ≤ 1

section

variable {parents : List TaskId} {c p child : TaskId} {todo : List TaskId} {me : Session}

theorem Session.Known.once_of (h : me.Known parents c p) (htodo : me.progress.todo = todo) :
    todo.count c + me.updated.count c ≤ 1 := by
  rw [← htodo]
  exact h.once

/-- A child is visited once. -/
theorem Session.Known.once_head (h : me.Known parents c p)
    (htodo : me.progress.todo = child :: todo) (hc : child = c) : c ∉ todo ∧ c ∉ me.updated := by
  have honce := h.once_of htodo
  rw [hc, List.count_cons_self] at honce
  constructor
  · intro hin
    have := List.count_pos_iff.mpr hin
    omega
  · intro hin
    have := List.count_pos_iff.mpr hin
    omega

theorem Session.Known.once_tail (h : me.Known parents c p)
    (htodo : me.progress.todo = child :: todo) : todo.count c + me.updated.count c ≤ 1 := by
  have honce := h.once_of htodo
  have hcount : todo.count c ≤ (child :: todo).count c := List.count_le_count_cons
  omega

theorem Session.Known.count_updated (h : me.Known parents c p) :
    me.updated.count c = if c ∈ me.updated then 1 else 0 := by
  have honce := h.once
  split
  · rename_i hin
    have := List.count_pos_iff.mpr hin
    omega
  · rename_i hin
    exact List.count_eq_zero.mpr hin

/-- What is not a parent has nothing in its hands. -/
theorem Session.Known.hands_nil (h : me.Known parents c p) (hp : p ∉ parents) : me.hands = [] := by
  have hbegun : me.progress = .begun := by
    by_contra hne
    exact hp (h.member hne)
  rw [Session.hands, hbegun, h.begun (.inl hbegun)]
  rfl

end

theorem Session.rest_open (me : Session) (c : TaskId) (todo : List TaskId) :
    me.rest c todo ≠ .committed := by
  unfold Session.rest
  split
  · decide
  · split <;> decide

theorem Session.stage_committed {me : Session} {c : TaskId} :
    me.stage c = .committed ↔ me.progress = .committed := by
  have hrest : ∀ todo, me.rest c todo ≠ .committed := me.rest_open c
  unfold Session.stage
  cases me.progress with
  | found child row todo =>
    by_cases hc : child = c <;> simp [hc, hrest]
  | ready child row todo =>
    by_cases hc : child = c <;> simp [hc, hrest]
  | advancing todo => simp [hrest]
  | _ => simp

/-- The row of a task that is about to be released is neither running nor done. -/
def Waits (db : Database) (q : TaskId) : Prop :=
  ∃ row, db.tasks.get q = some row ∧ row.status ≠ .running ∧ row.status ≠ .success

/-- The state of the join of the child, as read off the platform; `n` are its messages at the
start. -/
structure Sim (x : WakeRun) (n : Nat) (s : Completing) (a : Join.State TaskId) : Prop where
  created : a.created = true ↔ s.creation = .committed
  next : s.creation ≠ .committed → s.db.tasks.next = x.child
  deps : s.db.deps.filter (fun e => e.childTaskId == x.child) =
    if a.created then x.parents.eraseDups.map (fun p => ⟨p, x.child⟩) else []
  child : a.created = true → ∃ row, s.db.tasks.get x.child = some row ∧
    row.status = if a.released = 0 then .created else .queued
  outbox : (s.db.outboxOf x.child).length = n + a.released
  parent : ∀ p ∈ x.parents, ∃ row, s.db.tasks.get p = some row ∧
    (row.status = .success ↔ a.stage p = .committed) ∧
    ((s.session p).progress.isOpen = true → row.status = .running)
  hands : ∀ p, ∀ q ∈ x.parents, q ∈ (s.session p).hands → Waits s.db q
  stage : ∀ p, a.stage p = (s.session p).stage x.child
  session : ∀ p, (s.session p).Known x.parents x.child p
  listed : ∀ p, x.child ∈ (s.session p).progress.todo ∨ x.child ∈ (s.session p).updated →
    a.created = true
  fresh : a.created = false → a.released = 0
  held : s.platform.HoldsRunning

section

variable {cfg : Settings} {x : WakeRun} {n : Nat} {s s' : Completing} {a : Join.State TaskId}

/-- The child is met only after it was created. -/
theorem Sim.created_of_todo (h : Sim x n s a) {p : TaskId} {todo : List TaskId}
    (htodo : (s.session p).progress.todo = todo)
    (hin : x.child ∈ todo ∨ x.child ∈ (s.session p).updated) : a.created = true := by
  refine h.listed p ?_
  rwa [htodo]

theorem Sim.stage_committed (h : Sim x n s a) (p : TaskId) :
    a.stage p = .committed ↔ (s.session p).progress = .committed := by
  rw [h.stage p, Session.stage_committed]

/-- A transaction that is not over holds the row of a running task. -/
theorem Sim.running (h : Sim x n s a) {p : TaskId} (hp : p ∈ x.parents)
    (hopen : (s.session p).progress.isOpen = true) :
    ∃ row, s.db.tasks.get p = some row ∧ row.status = .running := by
  obtain ⟨row, hrow, -, hrunning⟩ := h.parent p hp
  exact ⟨row, hrow, hrunning hopen⟩

theorem Sim.not_hands (h : Sim x n s a) {p q : TaskId} (hp : p ∈ x.parents)
    (hopen : (s.session p).progress.isOpen = true) : p ∉ (s.session q).hands := by
  intro hin
  obtain ⟨row, hrow, hrunning⟩ := h.running hp hopen
  obtain ⟨row', hrow', hnot, -⟩ := h.hands q p hp hin
  rw [hrow] at hrow'
  cases hrow'
  exact hnot hrunning

/-- A transaction goes on without committing. -/
theorem Sim.turn (h : Sim x n s a) {p : TaskId} {me : Session} (hk : me.Known x.parents x.child p)
    (hlisted : x.child ∈ me.progress.todo ∨ x.child ∈ me.updated → a.created = true)
    (hopen : a.stage p ≠ .committed) (hme : me.stage x.child ≠ .committed)
    (hrunning : ∀ row, s.db.tasks.get p = some row → row.status = .running)
    (hhands : ∀ q ∈ x.parents, q ∈ me.hands → Waits s.db q) :
    Sim x n (s.setSession p me) (a.move p (me.stage x.child)) where
  created := h.created
  next := h.next
  deps := h.deps
  child := h.child
  outbox := h.outbox
  parent := by
    intro q hq
    obtain ⟨row, hrow, hs, hr⟩ := h.parent q hq
    refine ⟨row, hrow, ?_, fun hopenq => ?_⟩
    · by_cases he : q = p
      · subst he
        rw [hs, Join.State.move_self]
        exact iff_of_false hopen hme
      · rw [hs, Join.State.move_of_ne _ _ he]
    · by_cases he : q = p
      · subst he
        exact hrunning row hrow
      · rw [Completing.setSession_of_ne _ _ he] at hopenq
        exact hr hopenq
  hands := by
    intro r q hq hin
    by_cases he : r = p
    · subst he
      rw [Completing.setSession_self] at hin
      exact hhands q hq hin
    · rw [Completing.setSession_of_ne _ _ he] at hin
      exact h.hands r q hq hin
  stage := by
    intro q
    by_cases he : q = p
    · subst he
      rw [Join.State.move_self, Completing.setSession_self]
    · rw [Join.State.move_of_ne _ _ he, Completing.setSession_of_ne _ _ he, h.stage q]
  session := by
    intro q
    by_cases he : q = p
    · subst he
      rwa [Completing.setSession_self]
    · rw [Completing.setSession_of_ne _ _ he]
      exact h.session q
  listed := by
    intro q hq
    by_cases he : q = p
    · subst he
      rw [Completing.setSession_self] at hq
      exact hlisted hq
    · rw [Completing.setSession_of_ne _ _ he] at hq
      exact h.listed q hq
  fresh := h.fresh
  held := h.held

/-- A transaction that has written goes on, with nothing new in its hands that does not wait. -/
theorem Sim.advance (h : Sim x n s a) {p : TaskId} {me : Session}
    (hk : me.Known x.parents x.child p)
    (hlisted : x.child ∈ me.progress.todo ∨ x.child ∈ me.updated → a.created = true)
    (hopen : (s.session p).progress.isOpen = true) (hme : me.stage x.child ≠ .committed)
    (hhands : ∀ q ∈ x.parents, q ∈ me.hands → q ∈ (s.session p).hands ∨ Waits s.db q) :
    Sim x n (s.setSession p me) (a.move p (me.stage x.child)) := by
  have hp : p ∈ x.parents := (h.session p).member fun he => by rw [he] at hopen; cases hopen
  refine h.turn hk hlisted ?_ hme ?_ fun q hq hin => (hhands q hq hin).elim (h.hands p q hq) id
  · rw [Ne, h.stage_committed]
    intro he
    rw [he] at hopen
    cases hopen
  · intro row hrow
    obtain ⟨row', hrow', hrunning⟩ := h.running hp hopen
    rw [hrow] at hrow'
    cases hrow'
    exact hrunning

/-- A transaction goes on with something that does not concern the child. -/
theorem Sim.stay (h : Sim x n s a) {p : TaskId} {me : Session} (hk : me.Known x.parents x.child p)
    (hlisted : x.child ∈ me.progress.todo ∨ x.child ∈ me.updated → a.created = true)
    (hopen : (s.session p).progress.isOpen = true) (hme : me.stage x.child = a.stage p)
    (hhands : ∀ q ∈ x.parents, q ∈ me.hands → q ∈ (s.session p).hands ∨ Waits s.db q) :
    Sim x n (s.setSession p me) a := by
  have hnot : a.stage p ≠ .committed := by
    rw [Ne, h.stage_committed]
    intro he
    rw [he] at hopen
    cases hopen
  have hadvance := h.advance hk hlisted hopen (by rwa [hme]) hhands
  rwa [hme, Join.State.move_stage] at hadvance

/-- The edges of the database, as the transactions of the parents see them. -/
theorem Sim.edges (h : Sim x n s a) (p : TaskId) :
    s.db.deps.filter (fun e => e.parentTaskId == p && e.childTaskId == x.child) =
      if a.created = true ∧ p ∈ x.parents then [⟨p, x.child⟩] else [] := by
  rw [← List.filter_filter, h.deps]
  by_cases hcreated : a.created = true
  · simp only [hcreated, if_true, true_and, List.filter_map]
    have hpick : x.parents.eraseDups.filter
        ((fun e : TaskDependency => e.parentTaskId == p) ∘ fun q => ⟨q, x.child⟩) =
        x.parents.eraseDups.filter (· == p) := rfl
    rw [hpick, List.filter_beq, (nodup_eraseDups x.parents).count, List.map_replicate]
    simp only [List.mem_eraseDups]
    split <;> rfl
  · simp [hcreated]

theorem Sim.mem_children (h : Sim x n s a) {p : TaskId} (hp : p ∈ x.parents) {db : Database}
    (hdeps : db.deps = s.db.deps) :
    (x.child ∈ db.childrenOf p ↔ a.created = true) ∧ (db.childrenOf p).count x.child ≤ 1 := by
  have hcount : (db.childrenOf p).count x.child = if a.created = true then 1 else 0 := by
    rw [Database.childrenOf, List.count_eq_countP, List.countP_map, List.countP_filter,
      List.countP_eq_length_filter, hdeps]
    have hpick := h.edges p
    simp only [hp, and_true] at hpick
    rw [show (fun e : TaskDependency => ((fun y => y == x.child) ∘ fun e => e.childTaskId) e &&
      e.parentTaskId == p) = fun e => e.parentTaskId == p && e.childTaskId == x.child from
        funext fun e => Bool.and_comm _ _, hpick]
    split <;> rfl
  constructor
  · rw [← List.count_pos_iff, hcount]
    split <;> simp_all
  · rw [hcount]
    split <;> omega

theorem Sim.mem_parents (h : Sim x n s a) (hcreated : a.created = true) {db : Database}
    (hdeps : db.deps = s.db.deps) (p : TaskId) : p ∈ db.parentsOf x.child ↔ p ∈ x.parents := by
  have hmem : ⟨p, x.child⟩ ∈ s.db.deps ↔
      ⟨p, x.child⟩ ∈ s.db.deps.filter (fun e => e.childTaskId == x.child) := by simp
  rw [db.mem_parentsOf, hdeps, hmem, h.deps, if_pos hcreated]
  simp

/-- What a transaction sees of the statuses of the parents. -/
theorem Sim.seen (h : Sim x n s a) {p : TaskId} (hp : p ∈ x.parents)
    (hopen : (s.session p).progress.isOpen = true) {q : TaskId} (hq : q ∈ x.parents) :
    ∃ row, ((s.session p).pending s.db).tasks.get q = some row ∧
      (row.status = .success ↔ q = p ∨ a.stage q = .committed) := by
  obtain ⟨row, hrow, hs, -⟩ := h.parent q hq
  obtain ⟨row', hrow', hs'⟩ := ((h.session p).writes hopen).row s.db q row hrow
  refine ⟨row', hrow', ?_⟩
  rw [hs']
  by_cases hupdated : q ∈ (s.session p).updated
  · -- a row that the transaction has updated is none that is running or done
    have hin : q ∈ (s.session p).hands := List.mem_append_right _ hupdated
    obtain ⟨row'', hrow'', -, hnot⟩ := h.hands p q hq hin
    rw [hrow] at hrow''
    cases hrow''
    rw [if_pos hupdated]
    refine iff_of_false (by decide) ?_
    rintro (rfl | hcommitted)
    · exact h.not_hands hp hopen hin
    · exact hnot (hs.mpr hcommitted)
  · rw [if_neg hupdated]
    by_cases he : q = p
    · simp [he]
    · simp [he, hs]

/-- `_all_parents_succeeded` in the transaction of `p` asks whether the others have committed. -/
theorem Sim.allParentsSucceeded (h : Sim x n s a) (hcreated : a.created = true) {p : TaskId}
    (hp : p ∈ x.parents) (hopen : (s.session p).progress.isOpen = true) :
    TaskPlatform.allParentsSucceeded ((s.session p).pending s.db) x.child = true ↔
      ∀ q ∈ x.parents, q ≠ p → a.stage q = .committed := by
  have hmem := fun q => h.mem_parents hcreated (((h.session p).writes hopen).deps s.db) q
  rw [allParentsSucceeded_iff_status]
  · constructor
    · intro hall q hq hne
      obtain ⟨row, hrow, hs⟩ := h.seen hp hopen hq
      have hsuccess := hall q ((hmem q).mpr hq)
      rw [hrow, Option.map_some, Option.some.injEq] at hsuccess
      exact (hs.mp hsuccess).resolve_left hne
    · intro hall q hq
      have hq := (hmem q).mp hq
      obtain ⟨row, hrow, hs⟩ := h.seen hp hopen hq
      rw [hrow, Option.map_some, Option.some.injEq, hs]
      exact or_iff_not_imp_left.mpr (hall q hq)
  · intro q hq
    obtain ⟨row, hrow, -⟩ := h.seen hp hopen ((hmem q).mp hq)
    rw [hrow]
    rfl

theorem Sim.create (h : Sim x n s a) (hcreation : s.creation = .registered) :
    ∃ a', Join.step x.parents a .create = some a' ∧ Sim x n
      { s with
        creation := .committed
        platform := { s.platform with db := x.spec.blocked cfg x.now x.parents s.db } } a' := by
  have hfalse : a.created = false := by
    rw [← Bool.not_eq_true, h.created, hcreation]
    decide
  have hnext : s.db.tasks.next = x.child := h.next (by rw [hcreation]; decide)
  refine ⟨{ a with created := true }, by simp [Join.step, hfalse], ?_⟩
  have hdeps := h.deps
  rw [hfalse] at hdeps
  have hget : ∀ {q : TaskId} {row : Task}, s.db.tasks.get q = some row →
      (x.spec.blocked cfg x.now x.parents s.db).tasks.get q = some row :=
    fun hrow => Table.get_insert_of_some _ hrow
  refine ⟨by simp, by simp, ?_, ?_, h.outbox, ?_, ?_, h.stage, h.session, fun _ _ => rfl, by simp,
    h.held⟩
  · simp only [TaskSpec.blocked, recordEvent, List.filter_append, hdeps, Bool.false_eq_true,
      if_false, List.nil_append, if_true, hnext]
    rw [List.filter_eq_self]
    intro e he
    obtain ⟨q, -, rfl⟩ := List.mem_map.mp he
    exact beq_self_eq_true _
  · intro _
    refine ⟨x.spec.row cfg x.now, ?_, ?_⟩
    · rw [← hnext]
      exact Table.get_insert_next _ _
    · simp [h.fresh hfalse, TaskSpec.row]
  · intro p hp
    obtain ⟨row, hrow, hs⟩ := h.parent p hp
    exact ⟨row, hget hrow, hs⟩
  · intro p q hq hin
    obtain ⟨row, hrow, hs⟩ := h.hands p q hq hin
    exact ⟨row, hget hrow, hs⟩

/-- Another transaction of the platform. -/
theorem Sim.other (h : Sim x n s a) (act : Action)
    (hleaves : x.Leaves s (s.platform.step cfg act)) :
    Sim x n { s with platform := s.platform.step cfg act } a := by
  obtain ⟨hchild, houtbox, hdeps, hnext, hparents⟩ := hleaves
  refine ⟨h.created, fun hc => (hnext hc).trans (h.next hc), hdeps.trans h.deps, ?_, ?_, ?_, ?_,
    h.stage, h.session, h.listed, h.fresh, h.held.step cfg act⟩
  · intro hcreated
    obtain ⟨row, hrow, hs⟩ := h.child hcreated
    exact ⟨row, hchild.trans hrow, hs⟩
  · exact (congrArg List.length houtbox).trans h.outbox
  · intro p hp
    obtain ⟨row, hrow, hs, hrunning⟩ := h.parent p hp
    obtain ⟨hsame, hnot, -⟩ := hparents p hp
    by_cases hbegun : (s.session p).progress = .begun
    · obtain hnot | hcommitted := hnot
      · obtain ⟨row', hrow', hs'⟩ := (Option.any_eq_true _ _).mp hnot
        refine ⟨row', hrow', iff_of_false (by simpa using hs') ?_, ?_⟩
        · rw [h.stage_committed, hbegun]
          exact fun he => by cases he
        · rw [hbegun]
          exact fun he => by cases he
      · rw [hbegun] at hcommitted
        cases hcommitted
    · refine ⟨row, (hsame ?_).trans hrow, hs, hrunning⟩
      cases hprogress : (s.session p).progress with
      | begun => exact absurd hprogress hbegun
      | committed => exact .inr rfl
      | _ => exact .inl rfl
  · intro p q hq hin
    obtain ⟨row, hrow, hs⟩ := h.hands p q hq hin
    by_cases hp : p ∈ x.parents
    · exact ⟨row, ((hparents p hp).2.2.2 q hin).trans hrow, hs⟩
    · rw [(h.session p).hands_nil hp] at hin
      cases hin

theorem Sim.write (h : Sim x n s a) {p : TaskId} {held : Held}
    (hheld : s.platform.holding (x.completion p).worker = some held) (hid : held.task.id = p)
    (hp : p ∈ x.parents) (hrunning : stillRunning s.db p = true)
    (hbegun : (s.session p).progress = .begun) :
    Sim x n (s.setSession p ⟨.written, (x.completion p).finish held, []⟩) a := by
  have hwrites := (x.completion p).finish_writes (h.held _ held hheld)
  rw [hid] at hwrites
  have hstage : a.stage p = .begun := by
    rw [h.stage p, Session.stage, hbegun]
  let me : Session := ⟨.written, (x.completion p).finish held, []⟩
  have hturn : Sim x n (s.setSession p me) (a.move p (me.stage x.child)) := by
    refine h.turn ⟨fun _ => rfl, fun _ => hwrites, fun _ => hp, by simp [me, Progress.todo]⟩
      (by simp [me, Progress.todo]) (by rw [hstage]; decide) (by simp [me, Session.stage]) ?_ ?_
    · intro row hrow
      obtain ⟨row', hrow', hs⟩ := stillRunning_true hrunning
      rw [hrow] at hrow'
      cases hrow'
      exact hs
    · intro q _ hin
      cases hin
  rwa [show me.stage x.child = a.stage p from hstage.symm, Join.State.move_stage] at hturn

theorem Sim.list (h : Sim x n s a) {p : TaskId} (hwritten : (s.session p).progress = .written) :
    ∃ a', Join.step x.parents a (.list p) = some a' ∧ Sim x n (s.setSession p
      { s.session p with
        progress := .advancing (((s.session p).pending s.db).childrenOf p) }) a' := by
  have hk := h.session p
  have hopen : (s.session p).progress.isOpen = true := by rw [hwritten]; rfl
  have hw := hk.writes hopen
  have hp := hk.member (by rw [hwritten]; simp)
  have hupdated := hk.begun (.inr (.inl hwritten))
  have hstage : a.stage p = .begun := by
    rw [h.stage p, Session.stage, hwritten]
  obtain ⟨hmem, hcount⟩ := h.mem_children hp (hw.deps s.db)
  refine ⟨a.move p (if a.created then .listed else .idle), by simp [Join.step, hp, hstage], ?_⟩
  have hme : Session.stage x.child { s.session p with
      progress := .advancing (((s.session p).pending s.db).childrenOf p) } =
      if a.created then .listed else .idle := by
    simp [Session.stage, Session.rest, hmem, hupdated]
  rw [← hme]
  refine h.advance ⟨by simp, fun _ => hw, fun _ => hp, ?_⟩ ?_ hopen (by rw [hme]; split <;> decide)
    ?_
  · simpa [Progress.todo, hupdated] using hcount
  · rintro (hin | hin)
    · exact hmem.mp hin
    · rw [hupdated] at hin
      cases hin
  · intro q _ hin
    exact .inl (List.mem_append_right _ hin)

/-- A parent whose row a transaction finds blocked waits. -/
theorem Sim.waits (h : Sim x n s a) {p child : TaskId} {row : Task} (hchild : child ∈ x.parents)
    (hopen : (s.session p).progress.isOpen = true)
    (hrow : ((s.session p).pending s.db).tasks.get child = some row) (hs : row.status = .created) :
    Waits s.db child := by
  obtain ⟨before, hbefore, -⟩ := h.parent child hchild
  obtain ⟨after, hafter, hstatus⟩ := ((h.session p).writes hopen).row s.db child before hbefore
  rw [hrow] at hafter
  cases hafter
  rw [hs] at hstatus
  split at hstatus
  · cases hstatus
  · split at hstatus
    · cases hstatus
    · rw [Waits]
      exact ⟨before, hbefore, by rw [← hstatus]; decide, by rw [← hstatus]; decide⟩

/-- The next child is looked up. -/
theorem Sim.get (hx : x.child ∉ x.parents) (h : Sim x n s a) {p child : TaskId} {todo : List TaskId}
    (hadvancing : (s.session p).progress = .advancing (child :: todo)) {next : Progress}
    (hnext : (∃ row, ((s.session p).pending s.db).tasks.get child = some row ∧
        row.status = .created ∧ next = .found child row todo) ∨
      ((∀ row, ((s.session p).pending s.db).tasks.get child = some row → row.status ≠ .created) ∧
        next = .advancing todo)) :
    ∃ a', exec (Join.step x.parents) a ((WakeStmt.get p child).joins x.child).toList = some a' ∧
      Sim x n (s.setSession p { s.session p with progress := next }) a' := by
  have hk := h.session p
  have hopen : (s.session p).progress.isOpen = true := by rw [hadvancing]; rfl
  have hw := hk.writes hopen
  have hp := hk.member (by rw [hadvancing]; simp)
  have hvisits : (s.session p).progress.todo = child :: todo := by rw [hadvancing, Progress.todo]
  have hstage : a.stage p = (s.session p).rest x.child (child :: todo) := by
    rw [h.stage p, Session.stage, hadvancing]
  have hknown : Session.Known x.parents x.child p { s.session p with progress := next } := by
    obtain ⟨row, hrow, hs, rfl⟩ | ⟨-, rfl⟩ := hnext
    · exact ⟨by simp, fun _ => hw, fun _ => hp, hk.once_of hvisits⟩
    · exact ⟨by simp, fun _ => hw, fun _ => hp, hk.once_tail hvisits⟩
  have hhands : ∀ q ∈ x.parents, q ∈ Session.hands { s.session p with progress := next } →
      q ∈ (s.session p).hands ∨ Waits s.db q := by
    intro q hq hin
    obtain hcurrent | hupdated := List.mem_append.mp hin
    · obtain ⟨row, hrow, hs, rfl⟩ | ⟨-, rfl⟩ := hnext
      · obtain rfl : q = child := by simpa [Progress.current] using hcurrent
        exact .inr (h.waits hq hopen hrow hs)
      · simp [Progress.current] at hcurrent
    · exact .inl (List.mem_append_right _ hupdated)
  have htodo : ∀ i, i ∈ next.todo → i ∈ child :: todo := by
    obtain ⟨row, -, -, rfl⟩ | ⟨-, rfl⟩ := hnext
    · exact fun i hi => hi
    · exact fun i hi => List.mem_cons_of_mem _ hi
  have hlisted : x.child ∈ next.todo ∨ x.child ∈ (s.session p).updated → a.created = true :=
    fun hin => h.created_of_todo hvisits (hin.imp (htodo x.child) id)
  by_cases hc : child = x.child
  · obtain ⟨hnot, hfresh⟩ := hk.once_head hvisits hc
    rw [hc] at hvisits hnext ⊢
    have hlistedStage : a.stage p = .listed := by
      rw [hstage, Session.rest, if_pos (by rw [hc]; exact List.mem_cons_self)]
    -- the row of the child tells whether it was released
    obtain ⟨before, hbefore, hsb⟩ :=
      h.child (h.created_of_todo hvisits (.inl List.mem_cons_self))
    obtain ⟨row, hrow, hsr⟩ := hw.row s.db x.child before hbefore
    have hself : x.child ≠ p := fun he => hx (he ▸ hp)
    rw [if_neg hfresh, if_neg hself, hsb] at hsr
    have hme : Session.stage x.child { s.session p with progress := next } =
        if a.released = 0 then .found else .idle := by
      obtain ⟨row', hrow', hs', rfl⟩ | ⟨hpassed, rfl⟩ := hnext
      · rw [hrow] at hrow'
        cases hrow'
        have hzero : a.released = 0 := by
          by_contra hne
          rw [if_neg hne, hs'] at hsr
          cases hsr
        simp [Session.stage, hzero]
      · have hzero : a.released ≠ 0 := by
          intro he
          rw [if_pos he] at hsr
          exact hpassed row hrow hsr
        simp [Session.stage, Session.rest, hnot, hfresh, hzero]
    refine ⟨a.move p (if a.released = 0 then .found else .idle), ?_, ?_⟩
    · simp [WakeStmt.joins, Join.step, hlistedStage]
    · rw [← hme]
      exact h.advance hknown hlisted hopen (by rw [hme]; split <;> decide) hhands
  · refine ⟨a, by simp [WakeStmt.joins, hc], ?_⟩
    refine h.stay hknown hlisted hopen ?_ hhands
    rw [hstage]
    obtain ⟨row, -, -, rfl⟩ | ⟨-, rfl⟩ := hnext <;>
      simp [Session.stage, Session.rest, hc, Ne.symm hc]

theorem Sim.check (h : Sim x n s a) {p child : TaskId} {row : Task} {todo : List TaskId}
    (hfound : (s.session p).progress = .found child row todo) {next : Progress}
    (hnext : next = if TaskPlatform.allParentsSucceeded ((s.session p).pending s.db) child
      then .ready child row todo else .advancing todo) :
    ∃ a', exec (Join.step x.parents) a ((WakeStmt.check p child).joins x.child).toList = some a' ∧
      Sim x n (s.setSession p { s.session p with progress := next }) a' := by
  have hk := h.session p
  have hopen : (s.session p).progress.isOpen = true := by rw [hfound]; rfl
  have hw := hk.writes hopen
  have hp := hk.member (by rw [hfound]; simp)
  have hvisits : (s.session p).progress.todo = child :: todo := by rw [hfound, Progress.todo]
  have hknown : Session.Known x.parents x.child p { s.session p with progress := next } := by
    rw [hnext]
    split
    · exact ⟨by simp, fun _ => hw, fun _ => hp, hk.once_of hvisits⟩
    · exact ⟨by simp, fun _ => hw, fun _ => hp, hk.once_tail hvisits⟩
  have hlisted : x.child ∈ next.todo ∨ x.child ∈ (s.session p).updated → a.created = true := by
    refine fun hin => h.created_of_todo hvisits (hin.imp ?_ id)
    rw [hnext]
    split
    · exact fun hm => hm
    · exact fun hm => List.mem_cons_of_mem _ hm
  have hhands : ∀ q ∈ x.parents, q ∈ Session.hands { s.session p with progress := next } →
      q ∈ (s.session p).hands ∨ Waits s.db q := by
    intro q _ hin
    refine .inl ?_
    rw [Session.hands, hfound]
    obtain hcurrent | hupdated := List.mem_append.mp hin
    · refine List.mem_append_left _ ?_
      rw [hnext] at hcurrent
      split at hcurrent
      · exact hcurrent
      · cases hcurrent
    · exact List.mem_append_right _ hupdated
  by_cases hc : child = x.child
  · have hnot := hk.once_head hvisits hc
    rw [hc] at hfound hvisits hnext ⊢
    have hstage : a.stage p = .found := by
      rw [h.stage p, Session.stage, hfound]
      exact if_pos rfl
    have hall := h.allParentsSucceeded (h.created_of_todo hvisits (.inl List.mem_cons_self)) hp hopen
    have hme : Session.stage x.child { s.session p with progress := next } =
        if ∀ q ∈ x.parents, q ≠ p → a.stage q = .committed then .ready else .idle := by
      rw [hnext]
      by_cases hsucceeded : TaskPlatform.allParentsSucceeded ((s.session p).pending s.db) x.child
      · rw [if_pos hsucceeded, if_pos (hall.mp hsucceeded)]
        simp [Session.stage]
      · rw [if_neg hsucceeded, if_neg fun ha => hsucceeded (hall.mpr ha)]
        simp [Session.stage, Session.rest, hnot.1, hnot.2]
    refine ⟨a.move p (if ∀ q ∈ x.parents, q ≠ p → a.stage q = .committed then .ready else .idle),
      ?_, ?_⟩
    · simp [WakeStmt.joins, Join.step, hstage]
    · rw [← hme]
      exact h.advance hknown hlisted hopen (by rw [hme]; split <;> decide) hhands
  · have hstage : a.stage p = (s.session p).rest x.child todo := by
      rw [h.stage p, Session.stage, hfound]
      exact if_neg hc
    refine ⟨a, by simp [WakeStmt.joins, hc], h.stay hknown hlisted hopen ?_ hhands⟩
    rw [hstage, hnext]
    split <;> simp [Session.stage, Session.rest, hc]

theorem Sim.update (h : Sim x n s a) {p child : TaskId} {row : Task} {todo : List TaskId}
    (hready : (s.session p).progress = .ready child row todo) :
    ∃ a', exec (Join.step x.parents) a ((WakeStmt.update p child).joins x.child).toList = some a' ∧
      Sim x n (s.setSession p
        { progress := .advancing todo
          pending := fun db => (x.completion p).unblocked cfg p child row
            ((s.session p).pending db)
          updated := child :: (s.session p).updated }) a' := by
  have hk := h.session p
  have hopen : (s.session p).progress.isOpen = true := by rw [hready]; rfl
  have hw := hk.writes hopen
  have hp := hk.member (by rw [hready]; simp)
  have hvisits : (s.session p).progress.todo = child :: todo := by rw [hready, Progress.todo]
  have hknown : Session.Known x.parents x.child p
      { progress := .advancing todo
        pending := fun db => (x.completion p).unblocked cfg p child row ((s.session p).pending db)
        updated := child :: (s.session p).updated } := by
    refine ⟨by simp, fun _ => hw.unblocked child row, fun _ => hp, ?_⟩
    have honce := hk.once_of hvisits
    simp only [Progress.todo, List.count_cons] at honce ⊢
    omega
  have hlisted : x.child ∈ todo ∨ x.child ∈ child :: (s.session p).updated → a.created = true := by
    rintro (hin | hin)
    · exact h.created_of_todo hvisits (.inl (List.mem_cons_of_mem _ hin))
    · obtain hin | hin := List.mem_cons.mp hin
      · rw [← hin] at hvisits
        exact h.created_of_todo hvisits (.inl List.mem_cons_self)
      · exact h.created_of_todo hvisits (.inr hin)
  have hhands : ∀ q ∈ x.parents, q ∈ child :: (s.session p).updated →
      q ∈ (s.session p).hands ∨ Waits s.db q := by
    intro q _ hin
    rw [Session.hands, hready]
    exact .inl hin
  by_cases hc : child = x.child
  · have hnot := (hk.once_head hvisits hc).1
    have hstage : a.stage p = .ready := by
      rw [h.stage p, Session.stage, hready]
      exact if_pos hc
    refine ⟨a.move p .updated, by simp [WakeStmt.joins, Join.step, hstage, hc], ?_⟩
    have hturn := h.advance hknown hlisted hopen
      (by simp [Session.stage, Session.rest, hnot, hc]) hhands
    simpa [Session.stage, Session.rest, hnot, hc] using hturn
  · have hstage : a.stage p = (s.session p).rest x.child todo := by
      rw [h.stage p, Session.stage, hready]
      exact if_neg hc
    refine ⟨a, by simp [WakeStmt.joins, hc], h.stay hknown hlisted hopen ?_ hhands⟩
    rw [hstage]
    simp [Session.stage, Session.rest, Ne.symm hc]

/-- A parent whose row another transaction has updated has not begun: it waits for the commit. -/
theorem Sim.updated_begun (h : Sim x n s a) {p q : TaskId} (hq : q ∈ x.parents)
    (hin : q ∈ (s.session p).updated) : (s.session q).progress = .begun := by
  obtain ⟨row, hrow, hrunning, hsuccess⟩ := h.hands p q hq (List.mem_append_right _ hin)
  obtain ⟨row', hrow', hs, hr⟩ := h.parent q hq
  rw [hrow] at hrow'
  cases hrow'
  cases hprogress : (s.session q).progress with
  | begun => rfl
  | committed => exact absurd (hs.mpr ((h.stage_committed q).mpr hprogress)) hsuccess
  | _ => exact absurd (hr (by rw [hprogress]; rfl)) hrunning

theorem Sim.commit (hx : x.child ∉ x.parents) (h : Sim x n s a) {p : TaskId}
    (hadvancing : (s.session p).progress = .advancing []) :
    ∃ a', Join.step x.parents a (.commit p) = some a' ∧ Sim x n
      { s.setSession p ⟨.committed, fun db => db, []⟩ with
        platform := Platform.setHolding { s.platform with db := (s.session p).pending s.db }
          (x.completion p).worker none } a' := by
  have hk := h.session p
  have hopen : (s.session p).progress.isOpen = true := by rw [hadvancing]; rfl
  have hw := hk.writes hopen
  have hp := hk.member (by rw [hadvancing]; simp)
  have hstage : a.stage p = if x.child ∈ (s.session p).updated then .updated else .idle := by
    rw [h.stage p, Session.stage, hadvancing]
    simp [Session.rest]
  have hknown : Session.Known x.parents x.child p ⟨.committed, fun db => db, []⟩ :=
    ⟨by simp, fun ho => (by cases ho), fun _ => hp, by simp [Progress.todo]⟩
  have hself : p ∉ (s.session p).updated := fun hin =>
    h.not_hands hp hopen (List.mem_append_right _ hin)
  refine ⟨{ a.move p .committed with
    released := a.released + if x.child ∈ (s.session p).updated then 1 else 0 }, ?_, ?_⟩
  · by_cases hin : x.child ∈ (s.session p).updated
    · simp [Join.step, hstage, hin]
    · simp [Join.step, hstage, hin, Join.State.move]
  refine ⟨h.created, fun hc => (hw.next s.db).trans (h.next hc), ?_, ?_, ?_, ?_, ?_, ?_, ?_, ?_, ?_,
    ?_⟩
  · exact (congrArg (List.filter _) (hw.deps s.db)).trans h.deps
  · intro hcreated
    obtain ⟨row, hrow, hs⟩ := h.child hcreated
    obtain ⟨row', hrow', hs'⟩ := hw.row s.db x.child row hrow
    refine ⟨row', hrow', hs'.trans ?_⟩
    have hne : x.child ≠ p := fun he => hx (he ▸ hp)
    by_cases hin : x.child ∈ (s.session p).updated
    · simp [hin]
    · simp [hin, hne, hs]
  · exact (hw.outbox s.db x.child).trans (by rw [h.outbox, hk.count_updated, Nat.add_assoc])
  · intro q hq
    obtain ⟨row, hrow, hs, hr⟩ := h.parent q hq
    obtain ⟨row', hrow', hs'⟩ := hw.row s.db q row hrow
    refine ⟨row', hrow', ?_⟩
    by_cases he : q = p
    · subst he
      rw [if_neg hself, if_pos rfl] at hs'
      simp [Completing.setSession, Join.State.move, hs', Progress.isOpen]
    · by_cases hin : q ∈ (s.session p).updated
      · have hbegun := h.updated_begun hq hin
        have hopenq : a.stage q ≠ .committed := by
          rw [Ne, h.stage_committed, hbegun]
          exact fun hc => by cases hc
        rw [if_pos hin] at hs'
        simp [Completing.setSession, Join.State.move, he, hs', hopenq, hbegun, Progress.isOpen]
      · rw [if_neg hin, if_neg he] at hs'
        simpa [Completing.setSession, Join.State.move, he, hs'] using ⟨hs, hr⟩
  · intro r q hq hin
    have hinr : q ∈ (s.session r).hands := by
      by_cases he : r = p
      · subst he
        simp [Completing.setSession, Session.hands, Progress.current] at hin
      · simpa [Completing.setSession, he] using hin
    obtain ⟨row, hrow, hrunning, hsuccess⟩ := h.hands r q hq hinr
    obtain ⟨row', hrow', hs'⟩ := hw.row s.db q row hrow
    have hne : q ≠ p := by
      rintro rfl
      exact h.not_hands hp hopen hinr
    refine ⟨row', hrow', ?_⟩
    rw [hs']
    by_cases hin : q ∈ (s.session p).updated
    · simp [hin]
    · simp [hin, hne, hrunning, hsuccess]
  · intro q
    by_cases he : q = p
    · subst he
      simp [Completing.setSession, Join.State.move, Session.stage]
    · simp [Completing.setSession, Join.State.move, he, h.stage q]
  · intro q
    by_cases he : q = p
    · subst he
      simpa [Completing.setSession] using hknown
    · simpa [Completing.setSession, he] using h.session q
  · intro q hin
    by_cases he : q = p
    · subst he
      simp [Completing.setSession, Progress.todo] at hin
    · simp only [Completing.setSession, Function.update_of_ne he] at hin
      exact h.listed q hin
  · intro hopen
    have hnot : x.child ∉ (s.session p).updated := by
      intro hin
      have hcreated := h.listed p (.inr hin)
      rw [show a.created = false from hopen] at hcreated
      cases hcreated
    simpa [hnot] using h.fresh hopen
  · have hdb : Platform.HoldsRunning { s.platform with db := (s.session p).pending s.db } := h.held
    exact hdb.setHolding fun held hheld => by cases hheld

/-- A statement is a statement of the join, or does not concern it. -/
theorem Sim.step (hx : x.child ∉ x.parents) (h : Sim x n s a) {y : WakeStmt}
    (hstep : x.step cfg s y = some s') :
    ∃ a', exec (Join.step x.parents) a (y.joins x.child).toList = some a' ∧ Sim x n s' a' := by
  have hone : ∀ {z : Join.Stmt TaskId} {a' : Join.State TaskId},
      Join.step x.parents a z = some a' → exec (Join.step x.parents) a [z] = some a' := by
    intro z a' hz
    rw [exec_cons, hz]
    rfl
  cases y with
  | register =>
    simp only [WakeRun.step] at hstep
    split at hstep
    · rename_i hbegun _
      cases hstep
      refine ⟨a, rfl, ⟨?_, fun _ => h.next (by rw [hbegun]; decide), h.deps, h.child, h.outbox,
        h.parent, h.hands, h.stage, h.session, h.listed, h.fresh, h.held⟩⟩
      rw [h.created, hbegun]
      simp
    · cases hstep
  | create =>
    simp only [WakeRun.step] at hstep
    split at hstep
    · rename_i hregistered
      cases hstep
      obtain ⟨a', ha', hsim⟩ := h.create hregistered
      exact ⟨a', hone ha', hsim⟩
    · cases hstep
  | other k =>
    simp only [WakeRun.step] at hstep
    split at hstep
    · rename_i hleaves
      cases hstep
      exact ⟨a, rfl, h.other (x.others k) hleaves⟩
    · cases hstep
  | write p =>
    simp only [WakeRun.step] at hstep
    split at hstep
    · rename_i held hbegun hheld
      split at hstep
      · rename_i hp
        cases hstep
        exact ⟨a, rfl, h.write hheld hp.2.1 hp.1 hp.2.2 hbegun⟩
      · cases hstep
    · cases hstep
  | list p =>
    simp only [WakeRun.step] at hstep
    split at hstep
    · rename_i hwritten
      cases hstep
      obtain ⟨a', ha', hsim⟩ := h.list hwritten
      exact ⟨a', hone ha', hsim⟩
    · cases hstep
  | get p child =>
    simp only [WakeRun.step] at hstep
    split at hstep
    · rename_i next todo hadvancing
      split at hstep
      · rename_i he
        subst he
        split at hstep
        · rename_i hnone
          cases hstep
          refine Sim.get hx h hadvancing (.inr ⟨fun row hrow => ?_, rfl⟩)
          rw [hnone] at hrow
          cases hrow
        · rename_i row hrow
          split at hstep
          · rename_i hs
            cases hstep
            refine Sim.get hx h hadvancing (.inr ⟨fun row' hrow' => ?_, rfl⟩)
            rw [hrow] at hrow'
            cases hrow'
            exact hs
          · rename_i hs
            cases hstep
            exact Sim.get hx h hadvancing (.inl ⟨row, hrow, not_not.mp hs, rfl⟩)
      · cases hstep
    · cases hstep
  | check p child =>
    simp only [WakeRun.step] at hstep
    split at hstep
    · rename_i next row todo hfound
      split at hstep
      · rename_i he
        subst he
        split at hstep
        · rename_i hall
          cases hstep
          exact h.check hfound (by rw [if_pos hall])
        · rename_i hall
          cases hstep
          exact h.check hfound (by rw [if_neg hall])
      · cases hstep
    · cases hstep
  | update p child =>
    simp only [WakeRun.step] at hstep
    split at hstep
    · rename_i next row todo hready
      split at hstep
      · rename_i he
        cases hstep
        obtain ⟨rfl, -⟩ := he
        exact h.update hready
      · cases hstep
    · cases hstep
  | commit p =>
    simp only [WakeRun.step] at hstep
    split at hstep
    · rename_i hadvancing
      cases hstep
      obtain ⟨a', ha', hsim⟩ := Sim.commit hx h hadvancing
      exact ⟨a', hone ha', hsim⟩
    · cases hstep

theorem Sim.exec (hx : x.child ∉ x.parents) (h : Sim x n s a) {σ : List WakeStmt}
    (hexec : exec (x.step cfg) s σ = some s') :
    ∃ a', Run.exec (Join.step x.parents) a (σ.filterMap (WakeStmt.joins x.child)) = some a' ∧
      Sim x n s' a' := by
  induction σ generalizing s a with
  | nil =>
    cases hexec
    exact ⟨a, rfl, h⟩
  | cons y σ ih =>
    rw [exec_cons, Option.bind_eq_some_iff] at hexec
    obtain ⟨u, hu, hrest⟩ := hexec
    obtain ⟨b, hb, hsim⟩ := Sim.step hx h hu
    obtain ⟨a', ha', hsim'⟩ := ih hsim hrest
    refine ⟨a', ?_, hsim'⟩
    have hsplit : (y :: σ).filterMap (WakeStmt.joins x.child) =
        (y.joins x.child).toList ++ σ.filterMap (WakeStmt.joins x.child) := by
      rw [List.filterMap_cons]
      cases y.joins x.child <;> rfl
    rw [hsplit, exec_append, hb]
    exact ha'

end

/-- Some parent's transaction reads its children after the creation was committed, and the
statuses of the child's parents after all the others were. -/
def LastReader (parents : List TaskId) (c : TaskId) (σ : List WakeStmt) : Prop :=
  ∃ p ∈ parents, .create ∈ before σ (.list p) ∧ .check p c ∈ σ ∧
    ∀ q ∈ parents, q ≠ p → .commit q ∈ before σ (.check p c)

theorem lastReader_iff (parents : List TaskId) (c : TaskId) (σ : List WakeStmt) :
    LastReader parents c σ ↔
      ∃ p ∈ parents, Join.Wakes parents (σ.filterMap (WakeStmt.joins c)) p := by
  have hcheck : ∀ p, (WakeStmt.check p c).joins c = some (.check p) := fun p => if_pos rfl
  unfold LastReader Join.Wakes
  refine exists_congr fun p => and_congr_right fun _ => ?_
  refine and_congr ?_ (and_congr ?_ (forall₃_congr fun q _ _ => ?_))
  · exact (mem_before_filterMap (WakeStmt.joins_inj c) rfl rfl).symm
  · exact (mem_filterMap_iff (WakeStmt.joins_inj c) (hcheck p)).symm
  · exact (mem_before_filterMap (WakeStmt.joins_inj c) rfl (hcheck p)).symm

/-- The child is a new task of the parents, none of which is in a terminal status yet. -/
def WakeRun.Of (x : WakeRun) (p : Platform) : Prop :=
  x.child = p.db.tasks.next ∧ x.parents ≠ [] ∧ x.spec.dependsOn = some x.parents ∧
    ∀ q ∈ x.parents, ∃ row, p.db.tasks.get q = some row ∧ row.status ∉ terminal

theorem WakeRun.Of.child_notMem {x : WakeRun} {p : Platform} (h : x.Of p) :
    x.child ∉ x.parents := by
  obtain ⟨hchild, -, -, hopen⟩ := h
  intro hmem
  obtain ⟨row, hget, -⟩ := hopen x.child hmem
  rw [hchild] at hget
  exact absurd (Table.get_lt hget) (lt_irrefl _)

/-- The join of a new child has not begun. -/
theorem Sim.start {x : WakeRun} {p : Platform} (hsound : p.Sound) (hx : x.Of p) :
    Sim x (p.db.outboxOf x.child).length (Completing.start p) Join.State.start := by
  obtain ⟨hchild, -, -, hopen⟩ := hx
  have hedges : p.db.deps.filter (fun e => e.childTaskId == x.child) = [] := by
    rw [List.filter_eq_nil_iff]
    intro e he hc
    have hsome := (hsound.foreignKeys e he).2
    rw [beq_iff_eq.mp hc, hchild, Table.get_of_le (le_refl _)] at hsome
    cases hsome
  refine ⟨by simp [Join.State.start, Completing.start], fun _ => hchild.symm,
    hedges, by simp [Join.State.start], rfl, ?_, ?_,
    fun q => rfl, ?_, ?_, fun _ => rfl, fun w held hheld => (hsound.held w held hheld).running⟩
  · intro q hq
    obtain ⟨row, hget, hs⟩ := hopen q hq
    refine ⟨row, hget, iff_of_false ?_ (by simp [Join.State.start]), fun ho => by cases ho⟩
    intro he
    rw [he] at hs
    exact hs (by decide)
  · intro r q _ hin
    cases hin
  · intro q
    exact ⟨fun _ => rfl, fun ho => (by cases ho), by simp [Completing.start],
      by simp [Completing.start, Progress.todo]⟩
  · intro q hin
    simp [Completing.start, Progress.todo] at hin

/-- From a reachable state, in every interleaving of the creation of a child, of the successes of
its parents and of other transactions that leave these alone, if it runs to its end, the child
leaves `created` with exactly one new outbox row if and only if one of the parents is the last
reader. -/
theorem child_released_iff (cfg : Settings) (acts : List Action) (x : WakeRun)
    (hx : x.Of (Platform.after cfg acts)) (σ : List WakeStmt) (s : Completing)
    (h : exec (x.step cfg) (Completing.start (Platform.after cfg acts)) σ = some s)
    (hcreation : s.creation = .committed)
    (hdone : ∀ p ∈ x.parents, (s.session p).progress = .committed) :
    ((∃ row, s.db.tasks.get x.child = some row ∧ row.status ≠ .created) ∧
      (s.db.outboxOf x.child).length =
        ((Platform.after cfg acts).db.outboxOf x.child).length + 1) ↔
      LastReader x.parents x.child σ := by
  obtain ⟨a, ha, hsim⟩ :=
    Sim.exec hx.child_notMem (Sim.start (Platform.after_sound cfg acts) hx) h
  obtain ⟨hle, hreleased⟩ := Join.released_iff ha fun p hp => by
    rw [hsim.stage p, Session.stage, hdone p hp]
  rw [lastReader_iff, ← hreleased]
  obtain ⟨row, hget, hs⟩ := hsim.child (hsim.created.mpr hcreation)
  rw [hsim.outbox]
  constructor
  · rintro ⟨-, hone⟩
    exact Nat.add_left_cancel hone
  · intro hone
    refine ⟨⟨row, hget, ?_⟩, by rw [hone]⟩
    rw [hs, hone]
    decide

/-- Two queued tasks. -/
def twoParentsRun : List Action := [.createTask 0 plainSpec, .createTask 0 plainSpec]

/-- A child of both is created, and two workers start and finish them. -/
def twoParents : WakeRun where
  now := 1
  spec := { plainSpec with dependsOn := some [1, 2] }
  parents := [1, 2]
  child := 3
  completion := fun p => ⟨if p = 1 then "w1" else "w2", 3, "{}"⟩
  others := fun n => if n = 1 then .start 2 "w1" 1 else .start 2 "w2" 2

theorem twoParents_of : twoParents.Of (Platform.after .default twoParentsRun) := by
  refine ⟨by decide +kernel, by decide, rfl, fun q hq => ?_⟩
  have hqueued : ∀ q ∈ [1, 2], ((Platform.after .default twoParentsRun).db.tasks.get q).map
      (·.status) = some .queued := by decide +kernel
  obtain ⟨row, hrow, hs⟩ := Option.map_eq_some_iff.mp (hqueued q hq)
  exact ⟨row, hrow, by rw [hs]; decide⟩

def twoParentsAfter (σ : List WakeStmt) : Option Completing :=
  exec (twoParents.step .default) (Completing.start (Platform.after .default twoParentsRun)) σ

/-- The second parent starts when the first one has committed. -/
def orderedWakeup : List WakeStmt :=
  [.other 1, .register, .create, .write 1, .list 1, .get 1 3, .check 1 3, .commit 1, .other 2,
    .write 2, .list 2, .get 2 3, .check 2 3, .update 2 3, .commit 2]

theorem orderedWakeup_runs : (twoParentsAfter orderedWakeup).isSome := by decide +kernel

theorem orderedWakeup_done :
    ((twoParentsAfter orderedWakeup).get orderedWakeup_runs).creation = .committed ∧
      ∀ p ∈ twoParents.parents, (((twoParentsAfter orderedWakeup).get orderedWakeup_runs).session
        p).progress.isCommitted := by decide +kernel

theorem child_released_iff_orderedWakeup :
    ∃ s, twoParentsAfter orderedWakeup = some s ∧
      (∃ row, s.db.tasks.get 3 = some row ∧ row.status ≠ .created) ∧
      (s.db.outboxOf 3).length =
        ((Platform.after .default twoParentsRun).db.outboxOf 3).length + 1 := by
  refine ⟨_, (Option.some_get orderedWakeup_runs).symm, ?_⟩
  exact (child_released_iff .default twoParentsRun twoParents twoParents_of orderedWakeup _
    (Option.some_get orderedWakeup_runs).symm orderedWakeup_done.1
    fun p hp => (Progress.isCommitted_iff _).mp (orderedWakeup_done.2 p hp)).mpr
      ⟨2, by decide, by decide, by decide, by decide⟩

/-- Each parent reads the status of the other one before the other one commits. -/
def crossedWakeup : List WakeStmt :=
  [.register, .create, .other 1, .other 2, .write 1, .list 1, .get 1 3, .check 1 3, .write 2,
    .list 2, .get 2 3, .check 2 3, .commit 1, .commit 2]

theorem crossedWakeup_runs : (twoParentsAfter crossedWakeup).isSome := by decide +kernel

theorem crossedWakeup_done :
    ((twoParentsAfter crossedWakeup).get crossedWakeup_runs).creation = .committed ∧
      ∀ p ∈ twoParents.parents, (((twoParentsAfter crossedWakeup).get crossedWakeup_runs).session
        p).progress.isCommitted := by decide +kernel

theorem crossedWakeup_created :
    ((twoParentsAfter crossedWakeup).get crossedWakeup_runs).db.tasks.get 3 =
      some (twoParents.spec.row .default 1) := by decide +kernel

/-- Both parents have succeeded and the child waits for ever. -/
theorem crossedWakeup_lost :
    ¬ ∀ (cfg : Settings) (acts : List Action) (x : WakeRun), x.Of (Platform.after cfg acts) →
      ∀ (σ : List WakeStmt) (s : Completing),
      exec (x.step cfg) (Completing.start (Platform.after cfg acts)) σ = some s →
      s.creation = .committed → (∀ p ∈ x.parents, (s.session p).progress = .committed) →
      (∀ p ∈ x.parents, .commit p ∉ before σ .register) →
      (∃ row, s.db.tasks.get x.child = some row ∧ row.status ≠ .created) ∧
        (s.db.outboxOf x.child).length =
          ((Platform.after cfg acts).db.outboxOf x.child).length + 1 := by
  intro hall
  obtain ⟨⟨row, hrow, hs⟩, -⟩ := hall .default twoParentsRun twoParents twoParents_of crossedWakeup _
    (Option.some_get crossedWakeup_runs).symm crossedWakeup_done.1
    (fun p hp => (Progress.isCommitted_iff _).mp (crossedWakeup_done.2 p hp)) (by decide)
  rw [show twoParents.child = 3 from rfl, crossedWakeup_created] at hrow
  cases hrow
  exact hs rfl

end TaskPlatform
