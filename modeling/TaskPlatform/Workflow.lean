import TaskPlatform.BulkCreate
import TaskPlatform.Finality
import TaskPlatform.Finish
import TaskPlatform.Progress
import TaskPlatform.Revival
import TaskPlatform.ScheduleAt
import TaskPlatform.Webhooks

/-!
# A workflow can complete

The platform's own steps cancel and delete nothing: what has succeeded stays so,
a task that can go on still can, and a blocked task waits until the last of its
parents succeeds, and is in the queue then. Along the edges of the dependency
graph this brings every task to success whose ancestors succeeded or can go on.
-/

namespace TaskPlatform

open Run

/-- What a service step makes of a status. -/
def Status.Serves (old new : Status) : Prop :=
  new = old ∨ old ≠ .success ∧ new = .queued ∨ old = .queued ∧ new = .running ∨
    old = .running ∧ new = .success

namespace Graph

/-- What a service step makes of the graph. A task that is still blocked is not ready. -/
structure Served (g g' : Graph) : Prop where
  edges : g'.edges = g.edges
  status : ∀ i s, g.status i = some s → ∃ s', g'.status i = some s' ∧ s.Serves s'
  ready : ∀ i, g.status i = some .created → g'.status i = some .created → g'.Ready i → g.Ready i

variable {g g' : Graph} {id : TaskId}

theorem Served.refl (g : Graph) : g.Served g :=
  ⟨rfl, fun _ s hs => ⟨s, hs, .inl rfl⟩, fun _ _ _ h => h⟩

/-- When nothing succeeds, nothing becomes ready. -/
theorem Served.of_unsucceeded (hedges : g'.edges = g.edges)
    (hstatus : ∀ i s, g.status i = some s → ∃ s', g'.status i = some s' ∧ s.Serves s')
    (hsuccess : ∀ i, g'.status i = some .success → g.status i = some .success) : g.Served g' :=
  ⟨hedges, hstatus, fun _ _ _ h p hp => hsuccess p (h p (hedges ▸ hp))⟩

theorem Served.set_running (h : g.status id = some .queued) : g.Served (g.set id .running) := by
  refine .of_unsucceeded rfl (fun i s hs => ?_) fun i hs => ?_
  · by_cases hi : i = id
    · subst hi
      rw [h] at hs
      cases hs
      exact ⟨_, set_status_self _ _ _, .inr (.inr (.inl ⟨rfl, rfl⟩))⟩
    · exact ⟨s, by rw [set_status_of_ne _ _ hi, hs], .inl rfl⟩
  · by_cases hi : i = id
    · rw [hi, set_status_self] at hs
      cases hs
    · rwa [set_status_of_ne _ _ hi] at hs

/-- A success, with the children that it releases. -/
theorem Served.success (h : g.status id = some .running) :
    g.Served ((g.set id .success).setAll ((g.set id .success).released id) .queued) := by
  have hcreated : ∀ i ∈ (g.set id .success).released id, g.status i = some .created :=
    fun i hi => (created_of_set (by decide) hi.2.1).2
  refine ⟨rfl, fun i s hs => ?_, fun i hs hs' hready => ?_⟩
  · by_cases hmem : i ∈ (g.set id .success).released id
    · rw [hcreated i hmem] at hs
      cases hs
      exact ⟨.queued, setAll_status_of_mem _ _ hmem, .inr (.inl ⟨by decide, rfl⟩)⟩
    · rw [setAll_status_of_notMem _ _ hmem]
      by_cases hi : i = id
      · subst hi
        rw [h] at hs
        cases hs
        exact ⟨_, set_status_self _ _ _, .inr (.inr (.inr ⟨rfl, rfl⟩))⟩
      · exact ⟨s, by rw [set_status_of_ne _ _ hi, hs], .inl rfl⟩
  · have hi : i ≠ id := by
      rintro rfl
      rw [h] at hs
      cases hs
    have hready' : (g.set id .success).Ready i := (ready_setAll (fun _ hc => hc.2.1) i).mp hready
    -- a ready child of the task would have been released
    have hedge : ⟨id, i⟩ ∉ g.edges := by
      intro hedge
      have hmem : i ∈ (g.set id .success).released id :=
        ⟨hedge, (set_status_of_ne g _ hi).trans hs, hready'⟩
      rw [setAll_status_of_mem _ _ hmem] at hs'
      cases hs'
    intro p hp
    have hne : p ≠ id := by
      rintro rfl
      exact hedge hp
    rw [← set_status_of_ne g .success hne]
    exact hready' p hp

end Graph

/-- What a service step makes of the database. A dead letter that stays one is not written. -/
structure Served (db db' : Database) : Prop where
  graph : db.graph.Served db'.graph
  dead : ∀ i row row', db.tasks.get i = some row → row.status = .deadLetter →
    db'.tasks.get i = some row' → row'.status = .deadLetter → row' = row

/-- The actions of the service steps. -/
def Action.serving : Action → Bool
  | .start _ _ _ | .recordSuccess _ _ _ | .requeueDue _ _ _ | .requeueDlq _ _ _
  | .recoverStuck _ _ _ => true
  | _ => false

section

variable {cfg : Settings} {p : Platform} {db db' : Database}

theorem Served.of_tasks (htasks : db'.tasks = db.tasks) (hdeps : db'.deps = db.deps) :
    Served db db' := by
  refine ⟨?_, fun i row row' hrow _ hrow' _ => ?_⟩
  · rw [show db'.graph = db.graph by rw [Database.graph, htasks, hdeps]; rfl]
    exact .refl _
  · rw [htasks, hrow] at hrow'
    exact (Option.some.inj hrow').symm

/-- The common writes of a transaction leave the edges. -/
theorem deps_footprint (now : Time) : Footprint now (fun db db' => db'.deps = db.deps) where
  refl _ := rfl
  trans h₁ h₂ := h₂.trans h₁
  flush h := by
    obtain ⟨-, tasks, rfl⟩ := flush_tables h
    rfl
  change h := by
    obtain ⟨-, tasks, rfl⟩ := flush_tables h
    rfl
  outbox _ _ _ _ _ := rfl
  attempts _ _ := rfl
  workers _ _ := rfl

theorem Ticked.served {sel : List (TaskId × Task)} {cycles : Nat}
    {holding : WorkerId → Option Held} (h : Ticked sel cycles holding db db')
    (hsel : ∀ r ∈ sel, db.tasks.get r.1 = some r.2 ∧ r.2.status ≠ .success)
    (hdeps : db'.deps = db.deps) : Served db db' := by
  have hcases : ∀ i, (∃ row row', db.tasks.get i = some row ∧ row.status ≠ .success ∧
      db'.tasks.get i = some row' ∧ row'.status = .queued) ∨ db'.tasks.get i = db.tasks.get i := by
    intro i
    by_cases hi : i ∈ sel.map Prod.fst
    · obtain ⟨r, hr, rfl⟩ := List.mem_map.mp hi
      obtain ⟨row', hrow', hq, -⟩ := (h.requeued r hr).queued
      exact .inl ⟨r.2, row', (hsel r hr).1, (hsel r hr).2, hrow', hq⟩
    · exact .inr (congrArg Entry.row (h.others i hi))
  refine ⟨.of_unsucceeded hdeps (fun i s hs => ?_) fun i hs => ?_, ?_⟩
  · obtain ⟨row, row', hrow, hne, hrow', hq⟩ | hsame := hcases i
    · rw [graph_status hrow] at hs
      cases hs
      exact ⟨.queued, by rw [graph_status hrow', hq], .inr (.inl ⟨hne, rfl⟩)⟩
    · exact ⟨s, by simpa only [Database.graph, hsame] using hs, .inl rfl⟩
  · obtain ⟨row, row', -, -, hrow', hq⟩ | hsame := hcases i
    · rw [graph_status hrow', hq] at hs
      cases hs
    · simpa only [Database.graph, hsame] using hs
  · intro i row row' hrow hdead hrow' hdead'
    obtain ⟨_, row₁, -, -, hrow₁, hq⟩ | hsame := hcases i
    · rw [hrow'] at hrow₁
      cases hrow₁
      rw [hq] at hdead'
      cases hdead'
    · rw [hsame, hrow] at hrow'
      exact (Option.some.inj hrow').symm

/-- The success of a task, with its cascade. -/
theorem Outcome.graph_served {now : Time} {w : WorkerId} {held : Held}
    (hv : held.Valid w) (h : Outcome cfg now db held true db') (hfk : db.ForeignKeys) :
    db.graph.Served db'.graph := by
  cases h with
  | refused => exact .refl _
  | @finished cur row task new eventType details n db₁ _ ha hclose hrow hrun hout hnew hcascade
      hstamp =>
    obtain rfl : new = .success := hnew.mpr rfl
    let closed := closeHeld db held.attemptId held.attempt cur
    have hrow' : closed.tasks.get held.task.id = some row := hrow
    have hgraph : _ = closed.graph.set held.task.id .success :=
      finishedDb_graph hv hrow' hout eventType details
    have hfk' : closed.ForeignKeys := hfk
    have hreleased := cascade_released hcascade (hfk'.of_graph hgraph)
    rw [hstamp.graph, hreleased, hgraph]
    exact Graph.Served.success (g := db.graph) (by rw [graph_status hrow, hrun])

/-- A tick whose query selects no success. -/
theorem tick_served {cond : Task → Bool} {key : Task → Time} {limit : Nat}
    {locked : TaskId → Bool} {cycles : Nat} {body : Except TaskError Database}
    (hcond : ∀ i row, p.db.tasks.get i = some row → cond row = true → row.status ≠ .success)
    (hticked : ∃ db', body = .ok db' ∧
      Ticked (selectLocked p.db cond key limit locked) cycles p.holding p.db db')
    (hdeps : ∀ db', body = .ok db' → db'.deps = p.db.deps) :
    Served p.db (commit p.db body) := by
  obtain ⟨db', rfl, h⟩ := hticked
  refine h.served (fun r hr => ?_) (hdeps db' rfl)
  obtain ⟨hrow, hc, -⟩ := mem_selectLocked hr
  exact ⟨hrow, hcond r.1 r.2 hrow hc⟩

theorem step_served (h : p.Sound) {a : Action} (ha : a.serving = true) :
    Served p.db (p.step cfg a).db := by
  have hcond : ∀ (loop : Loop) now i row, p.db.tasks.get i = some row →
      loop.cond cfg now row = true → row.status ≠ .success := by
    intro loop now i row hrow hc hs
    have hmem := Loop.status_mem (h.row hrow).wellFormed hc
    rw [hs] at hmem
    cases loop <;> exact absurd hmem (by decide)
  have hdead : (∀ id, ¬ a.Requeues id .deadLetter) → ∀ i row row', p.db.tasks.get i = some row →
      row.status = .deadLetter → (p.step cfg a).db.tasks.get i = some row' →
      row'.status = .deadLetter → row' = row := by
    intro hkept i row row' hrow hs hrow' _
    exact step_unwritten h hrow (by rw [hs]; decide) (by rw [hs]; exact hkept i) hrow'
  cases a with
  | start now w id =>
    refine ⟨?_, hdead fun _ hr => hr⟩
    show p.db.graph.Served (startStep cfg now w id p).db.graph
    obtain hsame | ⟨row, seen, -, hrow, hq, -, hstep⟩ := startStep_cases cfg now w id p
    · rw [hsame]
      exact .refl _
    · rw [hstep]
      show p.db.graph.Served (startedDb now p.db w id row _ seen).graph
      rw [graph_startedDb _ _ hrow]
      exact .set_running (by rw [graph_status hrow, hq])
  | recordSuccess now w result =>
    refine ⟨?_, hdead fun _ hr => hr⟩
    simp only [Platform.step, finishStep_db]
    cases hheld : p.holding w with
    | none => exact .refl _
    | some held =>
      have hv := h.held w held hheld
      cases hok : recordSuccess cfg now p.db held result with
      | error e =>
        simp only [hok, commit]
        exact .refl _
      | ok db' =>
        simp only [hok, commit]
        exact (recordSuccess_ok hv hok).graph_served hv h.foreignKeys
  | requeueDue now limit locked =>
    exact tick_served (hcond .due now) (requeueDueTasks_ticked h)
      fun _ hok => (deps_footprint now).requeueDueTasks hok
  | requeueDlq now limit locked =>
    by_cases henabled : cfg.dlqRetryEnabled = true
    · exact tick_served (hcond .dlq now) (requeueDlqTasks_ticked henabled h)
        fun _ hok => (deps_footprint now).requeueDlqTasks hok
    · have hsame : (p.step cfg (.requeueDlq now limit locked)).db = p.db := by
        simp only [Platform.step, requeueDlqTasks, if_neg henabled, commit]
      exact .of_tasks (congrArg Database.tasks hsame) (congrArg Database.deps hsame)
  | recoverStuck now limit locked =>
    exact tick_served (hcond .stuck now) (recoverStuckTasks_ticked h)
      fun _ hok => (deps_footprint now).recoverStuckTasks hok
  | _ => cases ha

end

namespace Bus

/-- A service step of the bus. -/
theorem Lawful.step_served {b : Bus} (h : b.Lawful) (cfg : Settings) {n : Time} {e : Event}
    (he : Event.Service n e) : Served b.platform.db (b.step cfg e).platform.db := by
  obtain hsame | ⟨a, ha, hstep⟩ | ⟨t, ht⟩ := step_platform h.inv cfg e
  · rw [hsame]
    exact .of_tasks rfl rfl
  · rw [hstep]
    refine TaskPlatform.step_served h.fencing.sound ?_
    cases e with
    | act a' =>
      cases ha
      cases a <;> first | rfl | exact he.elim
    | start now w =>
      obtain ⟨id, rfl⟩ := ha
      rfl
    | finish now w execution =>
      obtain ⟨-, result, rfl⟩ := he
      cases ha
      rfl
    | crash w => exact he.elim
    | _ => exact ha.elim
  · rw [ht]
    exact .of_tasks rfl rfl

end Bus

def Database.Resumable (cfg : Settings) (db : Database) (id : TaskId) : Prop :=
  ∃ row, db.tasks.get id = some row ∧ row.Resumable cfg

/-- The task is blocked, and a parent has not succeeded. -/
def Graph.Waits (g : Graph) (id : TaskId) : Prop := g.status id = some .created ∧ ¬ g.Ready id

/-- What holds between the database at one time and at a later one, if only service steps are in
between. -/
structure Advances (cfg : Settings) (db db' : Database) : Prop where
  edges : db'.deps = db.deps
  succeeded : ∀ i, db.graph.status i = some .success → db'.graph.status i = some .success
  resumable : ∀ i, db.Resumable cfg i → db'.graph.status i = some .success ∨ db'.Resumable cfg i
  waiting : ∀ i, db.graph.Waits i →
    db'.graph.status i = some .success ∨ db'.Resumable cfg i ∨ db'.graph.Waits i

section

variable {cfg : Settings} {db db' : Database} {i : TaskId}

theorem Advances.refl (cfg : Settings) (db : Database) : Advances cfg db db :=
  ⟨rfl, fun _ h => h, fun _ h => .inr h, fun _ h => .inr (.inr h)⟩

theorem Served.succeeded (h : Served db db') (hs : db.graph.status i = some .success) :
    db'.graph.status i = some .success := by
  obtain ⟨s', hs', rfl | ⟨hne, -⟩ | ⟨hq, -⟩ | ⟨hr, -⟩⟩ := h.graph.status i _ hs
  · exact hs'
  · exact absurd rfl hne
  · cases hq
  · cases hr

theorem Database.Resumable.of_status (cfg : Settings) {s : Status}
    (h : db.graph.status i = some s) (hs : s ∈ [.queued, .running, .scheduled, .retryScheduled]) :
    db.Resumable cfg i := by
  obtain ⟨row, hrow, rfl⟩ := Option.map_eq_some_iff.mp h
  exact ⟨row, hrow, .inl hs⟩

theorem Served.resumable (h : Served db db') (hres : db.Resumable cfg i) :
    db'.graph.status i = some .success ∨ db'.Resumable cfg i := by
  obtain ⟨row, hrow, hres⟩ := hres
  obtain ⟨s', hs', hserves⟩ := h.graph.status i _ (graph_status hrow)
  rcases hserves with rfl | ⟨-, rfl⟩ | ⟨-, rfl⟩ | ⟨-, rfl⟩
  · obtain hs | ⟨hs, hcycle⟩ := hres
    · exact .inr (.of_status cfg hs' hs)
    · -- a dead letter that no tick has taken is as it was
      obtain ⟨row', hrow', hsame⟩ := Option.map_eq_some_iff.mp hs'
      obtain rfl := h.dead i row row' hrow hs hrow' (hsame.trans hs)
      exact .inr ⟨row', hrow', .inr ⟨hs, hcycle⟩⟩
  · exact .inr (.of_status cfg hs' (by decide))
  · exact .inr (.of_status cfg hs' (by decide))
  · exact .inl hs'

theorem Served.waiting (cfg : Settings) (h : Served db db') (hw : db.graph.Waits i) :
    db'.graph.status i = some .success ∨ db'.Resumable cfg i ∨ db'.graph.Waits i := by
  obtain ⟨s', hs', hserves⟩ := h.graph.status i _ hw.1
  rcases hserves with rfl | ⟨-, rfl⟩ | ⟨hq, -⟩ | ⟨hr, -⟩
  · exact .inr (.inr ⟨hs', fun hready => hw.2 (h.graph.ready i hw.1 hs' hready)⟩)
  · exact .inr (.inl (.of_status cfg hs' (by decide)))
  · cases hq
  · cases hr

theorem Advances.step {db'' : Database} (h : Advances cfg db db') (hserved : Served db' db'') :
    Advances cfg db db'' where
  edges := (show db''.deps = db'.deps from hserved.graph.edges).trans h.edges
  succeeded i hs := hserved.succeeded (h.succeeded i hs)
  resumable i hres := by
    obtain hs | hres := h.resumable i hres
    · exact .inl (hserved.succeeded hs)
    · exact hserved.resumable hres
  waiting i hw := by
    obtain hs | hres | hw := h.waiting i hw
    · exact .inl (hserved.succeeded hs)
    · exact (hserved.resumable hres).imp id .inl
    · exact hserved.waiting cfg hw

end

/-- The task can go on, or it is blocked by parents that have succeeded or are hopeful, and by one
at least that has not succeeded. -/
inductive Hopeful (cfg : Settings) (db : Database) : TaskId → Prop where
  | resumable {id : TaskId} {row : Task} : db.tasks.get id = some row → row.Resumable cfg →
      Hopeful cfg db id
  | blocked {id : TaskId} {row : Task} : db.tasks.get id = some row → row.status = .created →
      (∃ parent ∈ db.parentsOf id, succeeded db parent = false) →
      (∀ parent ∈ db.parentsOf id, succeeded db parent = false → Hopeful cfg db parent) →
      Hopeful cfg db id

section

variable {cfg : Settings} {b₀ b : Bus} {id : TaskId}

theorem Bus.Lawful.reaches_success (h : b.Lawful) (hres : b.platform.db.Resumable cfg id)
    (c : Time) : CanReachFrom (Bus.step cfg) Event.Service
      (fun t => t.platform.db.graph.status id = some .success) c b := by
  obtain ⟨row, hrow, hres⟩ := hres
  obtain ⟨n, hn, hreach⟩ := h.can_succeed hrow hres "{}" c
  refine .of_canReach hn (hreach.mono fun t ht => .here ?_)
  obtain ⟨row', hrow', hs, -⟩ := ht
  rw [graph_status hrow', hs]

/-- Service steps keep what is known of the bus and of its database since `b₀`. -/
theorem Bus.advances_step (b : Bus) (n : Time) (e : Event) (he : Event.Service n e)
    (h : b.Lawful ∧ Advances cfg b₀.platform.db b.platform.db) :
    (b.step cfg e).Lawful ∧ Advances cfg b₀.platform.db (b.step cfg e).platform.db :=
  ⟨h.1.step cfg e, h.2.step (h.1.step_served cfg he)⟩

theorem Bus.advances_all (b₀ : Bus) {goals : List TaskId}
    (hgoals : ∀ i ∈ goals, ∀ n b, b.Lawful ∧ Advances cfg b₀.platform.db b.platform.db →
      CanReachFrom (Bus.step cfg) Event.Service
        (fun t => t.platform.db.graph.status i = some .success) n b) (c : Time)
    (h : b.Lawful ∧ Advances cfg b₀.platform.db b.platform.db) :
    CanReachFrom (Bus.step cfg) Event.Service
      (fun t => (t.Lawful ∧ Advances cfg b₀.platform.db t.platform.db) ∧
        ∀ i ∈ goals, t.platform.db.graph.status i = some .success) c b :=
  .all (fun b n e he hb => Bus.advances_step b n e he hb)
    (fun _ _ _ _ he hb hs => (hb.1.step_served cfg he).succeeded hs) hgoals h

/-- A hopeful task is brought to success from every state that service steps lead to. The induction
goes along the edges: when the last of its parents has succeeded, a blocked task is queued. -/
theorem Hopeful.reaches_success (hid : Hopeful cfg b₀.platform.db id) (c : Time)
    (h : b.Lawful ∧ Advances cfg b₀.platform.db b.platform.db) :
    CanReachFrom (Bus.step cfg) Event.Service
      (fun t => t.platform.db.graph.status id = some .success) c b := by
  induction hid generalizing c b with
  | resumable hrow hres =>
    obtain hs | hres := h.2.resumable _ ⟨_, hrow, hres⟩
    · exact .here hs
    · exact h.1.reaches_success hres c
  | @blocked id row hrow hcreated hunready _ ih =>
    have hwaits : b₀.platform.db.graph.Waits id := by
      refine ⟨by rw [graph_status hrow, hcreated], fun hready => ?_⟩
      obtain ⟨parent, hparent, hnot⟩ := hunready
      rw [(succeeded_iff _ parent).mpr (hready parent ((Database.mem_parentsOf _ _ _).mp hparent))]
        at hnot
      cases hnot
    have hparents : ∀ parent ∈ b₀.platform.db.parentsOf id, ∀ n t,
        t.Lawful ∧ Advances cfg b₀.platform.db t.platform.db →
        CanReachFrom (Bus.step cfg) Event.Service
          (fun t => t.platform.db.graph.status parent = some .success) n t := by
      intro parent hparent n t ht
      cases hs : succeeded b₀.platform.db parent with
      | true => exact .here (ht.2.succeeded parent ((succeeded_iff _ _).mp hs))
      | false => exact ih parent hparent hs n ht
    refine (Bus.advances_all b₀ hparents c h).trans fun n t _ ht => ?_
    obtain ⟨ht, hall⟩ := ht
    obtain hs | hres | hw := ht.2.waiting id hwaits
    · exact .here hs
    · exact ht.1.reaches_success hres n
    · refine absurd (fun parent hparent => hall parent ?_) hw.2
      rw [graph_edges, ht.2.edges] at hparent
      exact (Database.mem_parentsOf _ _ _).mpr hparent

/-- One run of service steps makes successes of all hopeful tasks, and keeps the others. -/
theorem Bus.Lawful.completes (h : b.Lawful) (cfg : Settings) (c : Time) :
    CanReachFrom (Bus.step cfg) Event.Service
      (fun t => ∀ id, succeeded b.platform.db id = true ∨ Hopeful cfg b.platform.db id →
        succeeded t.platform.db id = true) c b := by
  have hfinite : {id | Hopeful cfg b.platform.db id}.Finite := by
    refine (Set.finite_Iio b.platform.db.tasks.next).subset ?_
    rintro id (⟨hrow, -⟩ | ⟨hrow, -, -, -⟩) <;> exact Table.get_lt hrow
  have hgoals : ∀ id ∈ hfinite.toFinset.toList, ∀ n t,
      t.Lawful ∧ Advances cfg b.platform.db t.platform.db →
      CanReachFrom (Bus.step cfg) Event.Service
        (fun t => t.platform.db.graph.status id = some .success) n t := by
    intro id hid n t ht
    rw [Finset.mem_toList, Set.Finite.mem_toFinset] at hid
    exact Hopeful.reaches_success hid n ht
  refine (Bus.advances_all b hgoals c ⟨h, .refl cfg _⟩).mono fun t ht id hid => ?_
  rw [succeeded_iff] at hid ⊢
  obtain hs | hid := hid
  · exact ht.1.2.succeeded id hs
  · refine ht.2 id ?_
    rw [Finset.mem_toList, Set.Finite.mem_toFinset]
    exact hid

end

/-- Whatever workers, relays, operators and coordinators have done so far, one run of service steps
brings all hopeful tasks to success, and leaves the others in success that are. -/
theorem workflow_can_complete (cfg : Settings) (events : List Event) (c : Time) :
    CanReachFrom (Bus.step cfg) Event.Service
      (fun b => ∀ id, succeeded (Bus.after cfg events).platform.db id = true ∨
        Hopeful cfg (Bus.after cfg events).platform.db id → succeeded b.platform.db id = true)
      c (Bus.after cfg events) :=
  (Bus.after_lawful cfg events).completes cfg c

/-- Every edge goes from a task to a younger one. -/
def Database.Older (db : Database) : Prop := ∀ d ∈ db.deps, d.parentTaskId < d.childTaskId

section

variable {cfg : Settings} {p : Platform} {db db' : Database}

theorem Graph.Step.edges_subset {g g' : Graph} {l : Label} (h : Graph.Step g l g')
    (hblock : ∀ i parents, l ≠ .block i parents) : g'.edges ⊆ g.edges := by
  cases h with
  | block hs hparents => exact absurd rfl (hblock _ _)
  | delete ids hids => exact List.filter_sublist.subset
  | _ => exact List.Subset.refl _

/-- A new task is the youngest one. -/
theorem createTask_older {now : Time} {spec : TaskSpec} {id : TaskId} (hfk : db.ForeignKeys)
    (h : db.Older) (hcreate : createTask cfg now db spec = .ok (db', id)) : db'.Older := by
  obtain ⟨-, hdeps⟩ | ⟨p, ps, deps, hspec, -⟩ := (deps_footprint now).createTask hcreate
  · rw [Database.Older, show db'.deps = db.deps from hdeps]
    exact h
  · have hexist : ∀ q ∈ spec.dependsOn.getD [], q ∈ db.keys.map Prod.fst := by
      obtain ⟨-, herror⟩ | ⟨-, hcreatable, -⟩ | ⟨-, -, e, -, herror⟩ :=
        createTask_cases cfg now hfk spec
      · rw [herror] at hcreate
        cases hcreate
      · exact hcreatable.1
      · rw [herror] at hcreate
        cases hcreate
    obtain ⟨rfl, rfl⟩ := createTask_blocked (List.cons_ne_nil p ps) hspec hcreate
    intro d hd
    obtain hd | hd := List.mem_append.mp hd
    · exact h d hd
    · obtain ⟨q, hq, rfl⟩ := List.mem_map.mp hd
      have hmem := hexist q (by rw [hspec]; exact List.mem_eraseDups.mp hq)
      obtain ⟨row, hrow⟩ := Option.isSome_iff_exists.mp ((isSome_get_iff db q).mpr hmem)
      exact Table.get_lt hrow

theorem step_older (hp : p.Sound) (h : p.db.Older) (cfg : Settings) (a : Action) :
    (p.step cfg a).db.Older := by
  obtain ⟨ls, htr, hls⟩ : ∃ ls, Trace (Change cfg) p.db ls (p.step cfg a).db ∧
    ∀ l ∈ ls, a.Allows cfg p l := step_trace hp.foreignKeys hp.held a
  have hkept : (∀ l ∈ ls, ∀ i parents, l ≠ .block i parents) → (p.step cfg a).db.Older := by
    intro hblock
    refine (htr.invariant (P := fun d => d.ForeignKeys ∧ (∀ i, (d.view i).Ok) ∧ d.Older)
      ?_ hblock ⟨hp.foreignKeys, hp.views, h⟩).2.2
    rintro d l d' ⟨hfk, hok, hd⟩ hl hc
    exact ⟨hc.foreignKeys hfk, hc.views hok,
      fun e he => hd e ((hc.graph hfk hok).edges_subset hl he)⟩
  cases a with
  | createTask now spec =>
    simp only [Platform.step]
    cases hcreate : createTask cfg now p.db spec with
    | error e => exact h
    | ok r => exact createTask_older hp.foreignKeys h hcreate
  | _ =>
    refine hkept fun l hl i parents he => ?_
    have hallow := hls l hl
    rw [he] at hallow
    simp [Action.Allows, IsOutcome, IsCascade] at hallow

theorem Bus.after_older (cfg : Settings) (events : List Event) :
    (Bus.after cfg events).platform.db.Older := by
  refine (run_invariant (P := fun b : Bus => b.Lawful ∧ b.platform.db.Older) ?_
    ⟨Bus.after_lawful cfg [], fun d hd => by cases hd⟩ events).2
  rintro b e ⟨hb, h⟩
  refine ⟨hb.step cfg e, ?_⟩
  obtain hsame | ⟨a, -, ha⟩ | ⟨t, ht⟩ := Bus.step_platform hb.inv cfg e
  · rw [hsame]
    exact h
  · rw [ha]
    exact step_older hb.fencing.sound h cfg a
  · rw [ht]
    exact h

end

/-- The row is a success, or can go on, or it is blocked and a parent has not succeeded. -/
def Database.Pending (cfg : Settings) (db : Database) (id : TaskId) (row : Task) : Prop :=
  row.status = .success ∨ row.Resumable cfg ∨
    row.status = .created ∧ ∃ parent ∈ db.parentsOf id, succeeded db parent = false

/-- As long as no task is lost, the platform can complete all of them by its own steps. -/
theorem all_can_complete (cfg : Settings) (events : List Event)
    (h : ∀ id row, (Bus.after cfg events).platform.db.tasks.get id = some row →
      (Bus.after cfg events).platform.db.Pending cfg id row) (c : Time) :
    CanReachFrom (Bus.step cfg) Event.Service
      (fun b => ∀ id, ((Bus.after cfg events).platform.db.tasks.get id).isSome →
        succeeded b.platform.db id = true) c (Bus.after cfg events) := by
  have hlawful := Bus.after_lawful cfg events
  -- the edges come from older tasks, so the induction is on the key
  have hhopeful : ∀ id row, (Bus.after cfg events).platform.db.tasks.get id = some row →
      succeeded (Bus.after cfg events).platform.db id = true ∨
        Hopeful cfg (Bus.after cfg events).platform.db id := by
    intro id
    induction id using Nat.strong_induction_on with
    | _ id ih =>
      intro row hrow
      obtain hs | hres | ⟨hcreated, hunready⟩ := h id row hrow
      · exact .inl ((succeeded_iff _ id).mpr (by rw [graph_status hrow, hs]))
      · exact .inr (.resumable hrow hres)
      · refine .inr (.blocked hrow hcreated hunready fun parent hparent hnot => ?_)
        have hedge := (Database.mem_parentsOf _ _ _).mp hparent
        obtain ⟨row', hrow'⟩ := Option.isSome_iff_exists.mp
          (hlawful.fencing.sound.foreignKeys _ hedge).1
        refine (ih parent (Bus.after_older cfg events _ hedge) row' hrow').resolve_left fun hs => ?_
        rw [hs] at hnot
        cases hnot
  refine (hlawful.completes cfg c).mono fun t ht id hid => ht id ?_
  obtain ⟨row, hrow⟩ := Option.isSome_iff_exists.mp hid
  exact hhopeful id row hrow

/-- The worker of a task crashes before a second task, that depends on the first, is created. -/
def crashedParentRun : List Event := crashedRun ++ [.act (.createTask 3 childSpec)]

theorem all_can_complete_crashedParentRun :
    CanReachFrom (Bus.step .default) Event.Service
      (fun b => ∀ id, ((Bus.after .default crashedParentRun).platform.db.tasks.get id).isSome →
        succeeded b.platform.db id = true) 4 (Bus.after .default crashedParentRun) := by
  refine all_can_complete .default crashedParentRun (fun id row hrow => ?_) 4
  have hlt : id < 3 := Table.get_lt hrow
  have hstatuses : ((Bus.after .default crashedParentRun).platform.db.tasks.get 0).isNone ∧
      ((Bus.after .default crashedParentRun).platform.db.tasks.get 1).map (·.status) =
        some .running ∧
      ((Bus.after .default crashedParentRun).platform.db.tasks.get 2).map (·.status) =
        some .created := by decide +kernel
  obtain ⟨hzero, hone, htwo⟩ := hstatuses
  interval_cases id
  · rw [hrow] at hzero
    cases hzero
  · rw [hrow, Option.map_some, Option.some.injEq] at hone
    exact .inr (.inl (.inl (by rw [hone]; decide)))
  · rw [hrow, Option.map_some, Option.some.injEq] at htwo
    exact .inr (.inr ⟨htwo, by decide +kernel⟩)

end TaskPlatform
