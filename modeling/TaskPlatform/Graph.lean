import TaskPlatform.Invariant

/-!
# The dependency graph

What the DAG rules of the platform depend on: the status of every task and the
edges of `task_dependencies`. Every change of a sound database is a step of the
machine `Graph.Step` on them.
-/

namespace TaskPlatform

open Run

structure Graph where
  status : TaskId → Option Status
  edges : List TaskDependency

def Database.graph (db : Database) : Graph :=
  ⟨fun id => (db.tasks.get id).map (·.status), db.deps⟩

namespace Graph

def set (g : Graph) (id : TaskId) (new : Status) : Graph :=
  { g with status := Function.update g.status id (some new) }

def remove (g : Graph) (ids : List TaskId) : Graph where
  status := fun i => if i ∈ ids then none else g.status i
  edges := g.edges.filter (fun d => decide (d.parentTaskId ∉ ids ∧ d.childTaskId ∉ ids))

@[simp] theorem set_edges (g : Graph) (id : TaskId) (new : Status) :
    (g.set id new).edges = g.edges := rfl

@[simp] theorem set_status_self (g : Graph) (id : TaskId) (new : Status) :
    (g.set id new).status id = some new := by simp [set]

theorem set_status_of_ne (g : Graph) {id i : TaskId} (new : Status) (h : i ≠ id) :
    (g.set id new).status i = g.status i := by simp [set, h]

theorem set_of_status {g : Graph} {id : TaskId} {s : Status} (h : g.status id = some s) :
    g.set id s = g := by
  rw [set, ← h, Function.update_eq_self]

/-- All parents of the task succeeded. -/
def Ready (g : Graph) (id : TaskId) : Prop :=
  ∀ p, ⟨p, id⟩ ∈ g.edges → g.status p = some .success

def ForeignKeys (g : Graph) : Prop :=
  ∀ d ∈ g.edges, (g.status d.parentTaskId).isSome ∧ (g.status d.childTaskId).isSome

inductive Step : Graph → Label → Graph → Prop where
  | same {g} (l : Label) : Step g l g
  | insert {g} {id : TaskId} : g.status id = none → Step g .other (g.set id .created)
  | block {g} {id : TaskId} {parents : List TaskId} : g.status id = some .created →
      (∀ p ∈ parents, p ≠ id ∧ (g.status p).isSome) →
      Step g (.block id parents) { g with edges := g.edges ++ parents.map (fun p => ⟨p, id⟩) }
  | schedule {g} {id : TaskId} : g.status id = some .created → (∀ p, ⟨p, id⟩ ∉ g.edges) →
      Step g .other (g.set id .scheduled)
  | enqueue {g} {id : TaskId} {old : Status} {cause : Cause} : g.status id = some old →
      old ∈ cause.sources → (cause.requeues = false → g.Ready id) →
      Step g (.enqueue cause id) (g.set id .queued)
  | start {g} {id : TaskId} (w : WorkerId) : g.status id = some .queued →
      Step g (.start w id) (g.set id .running)
  | cancel {g} {id : TaskId} {old : Status} : g.status id = some old → old ∈ cancelable →
      Step g (.settle id .cancelled) (g.set id .cancelled)
  | finish {g} {id : TaskId} {new : Status} : g.status id = some .running →
      canTransition .running new = true → new ≠ .queued →
      Step g (.settle id new) (g.set id new)
  | recover {g} {id : TaskId} : g.status id = some .running →
      Step g (.recover id) (g.set id .queued)
  | delete {g} (ids : List TaskId) : (∀ i ∈ ids, ∃ s ∈ terminal, g.status i = some s) →
      Step g .other (g.remove ids)

end Graph

@[simp] theorem graph_edges (db : Database) : db.graph.edges = db.deps := rfl

theorem graph_status {db : Database} {id : TaskId} {row : Task}
    (h : db.tasks.get id = some row) : db.graph.status id = some row.status := by
  simp [Database.graph, h]

theorem graph_foreignKeys {db : Database} (h : db.ForeignKeys) : db.graph.ForeignKeys := by
  intro d hd
  simpa [Database.graph] using h d hd

theorem graph_setTask {db : Database} {id : TaskId} {old : Task} (row : Task)
    (h : db.tasks.get id = some old) : (db.setTask id row).graph = db.graph.set id row.status := by
  have hstatus : (db.setTask id row).graph.status = (db.graph.set id row.status).status := by
    funext i
    by_cases hi : i = id
    · subst hi
      rw [graph_status (get_setTask_self row h), Graph.set_status_self]
    · rw [Graph.set_status_of_ne _ _ hi]
      simp only [Database.graph, get_setTask_of_ne db row hi]
  rw [show (db.setTask id row).graph = ⟨(db.setTask id row).graph.status, db.deps⟩ from rfl, hstatus]
  rfl

theorem graph_change {now : Time} {db : Database} {id : TaskId} {old : Task} (row : Task)
    (oldStatus new : Status) (eventType : EventType) (details : Option Details) (seen : Task)
    (h : db.tasks.get id = some old) :
    (db.change now id row oldStatus new eventType details seen).graph =
      db.graph.set id row.status := by
  have hrow : (recordEvent now db id oldStatus eventType new details).tasks.get id = some old := h
  exact graph_setTask row hrow

theorem graph_move {now : Time} {db : Database} {id : TaskId} {row : Task} (task : Task)
    (new : Status) (eventType : EventType) (details : Option Details)
    (h : db.tasks.get id = some row) :
    (db.move now id task new eventType details).graph = db.graph.set id new :=
  graph_change _ _ _ _ _ _ h

/-- Writing a row with the status it has. -/
theorem graph_setTask_same {db : Database} {id : TaskId} {row row' : Task}
    (h : db.tasks.get id = some row) (hs : row'.status = row.status) :
    (db.setTask id row').graph = db.graph := by
  rw [graph_setTask row' h, hs, Graph.set_of_status (graph_status h)]

@[simp] theorem graph_addOutbox (cfg : Settings) (db : Database) (id : TaskId) (task : Task)
    (reattempt : Bool) : (addOutbox cfg db id task reattempt).graph = db.graph := rfl

theorem graph_startedDb {now : Time} {db : Database} {w : WorkerId} {id : TaskId} {row : Task}
    (started seen : Task) (h : db.tasks.get id = some row) :
    (startedDb now db w id row started seen).graph = db.graph.set id started.status :=
  graph_change started row.status .running .running none seen h

theorem graph_closeLastAttempt (now : Time) (db : Database) (id : TaskId) :
    (closeLastAttempt now db id).graph = db.graph := by
  unfold closeLastAttempt
  split <;> rfl

theorem graph_insertTask (cfg : Settings) (now : Time) (db : Database) (spec : TaskSpec) :
    (insertTask cfg now db spec).graph = db.graph.set db.tasks.next .created := by
  have hstatus : (insertTask cfg now db spec).graph.status =
      (db.graph.set db.tasks.next .created).status := by
    funext i
    by_cases hi : i = db.tasks.next
    · subst hi
      rw [graph_status (insertTask_get cfg now db spec), Graph.set_status_self]
      rfl
    · rw [Graph.set_status_of_ne _ _ hi]
      simp only [Database.graph, insertTask, recordEvent, Table.get_insert, hi, if_false]
  rw [show (insertTask cfg now db spec).graph =
    ⟨(insertTask cfg now db spec).graph.status, db.deps⟩ from rfl, hstatus]
  rfl

/-- The test `set(statuses) == {TaskStatus.success}` on a nonempty list. -/
theorem allSuccess_iff (s : Status) (statuses : List Status) :
    ((s :: statuses).eraseDups.length == 1 && (s :: statuses).eraseDups.contains .success) = true ↔
      ∀ t ∈ s :: statuses, t = .success := by
  have hnil : ∀ l : List Status, l.eraseDups = [] ↔ l = [] := by
    intro l
    cases l with
    | nil => simp
    | cons a l => simp [List.eraseDups_cons]
  rw [List.eraseDups_cons, Bool.and_eq_true, beq_iff_eq, List.length_cons, Nat.add_eq_right,
    List.length_eq_zero_iff]
  constructor
  · rintro ⟨hrest, hsuccess⟩
    rw [hrest] at hsuccess
    have hs : s = .success := by simpa [eq_comm] using hsuccess
    have hall : ∀ t ∈ statuses, t = s := by simpa using List.filter_eq_nil_iff.mp ((hnil _).mp hrest)
    intro t ht
    rcases List.mem_cons.mp ht with rfl | ht
    · exact hs
    · rw [hall t ht, hs]
  · intro h
    have hs := h s List.mem_cons_self
    have hrest : statuses.filter (fun t => !t == s) = [] := by
      rw [List.filter_eq_nil_iff]
      intro t ht
      simp [h t (List.mem_cons_of_mem _ ht), hs]
    exact ⟨(hnil _).mpr hrest, by simp [hs]⟩

/-- `_all_parents_succeeded` asks every parent for its status. -/
theorem allParentsSucceeded_iff_status {db : Database} {id : TaskId}
    (hparents : ∀ p ∈ db.parentsOf id, (db.tasks.get p).isSome) :
    allParentsSucceeded db id = true ↔
      ∀ p ∈ db.parentsOf id, (db.tasks.get p).map (·.status) = some .success := by
  have hstatus : ∀ p ∈ db.parentsOf id, ∃ row, db.tasks.get p = some row := fun p hp =>
    Option.isSome_iff_exists.mp (hparents p hp)
  have hready : (∀ p ∈ db.parentsOf id, (db.tasks.get p).map (·.status) = some .success) ↔
      ∀ s ∈ (db.parentsOf id).filterMap (fun p => (db.tasks.get p).map (·.status)),
        s = .success := by
    constructor
    · intro h s hs
      obtain ⟨p, hp, he⟩ := List.mem_filterMap.mp hs
      rw [h p hp] at he
      exact (Option.some.inj he).symm
    · intro h p hp
      obtain ⟨row, hrow⟩ := hstatus p hp
      rw [hrow, Option.map_some, h row.status (List.mem_filterMap.mpr ⟨p, hp, by rw [hrow]; rfl⟩)]
  rw [hready, allParentsSucceeded]
  cases hparents : db.parentsOf id with
  | nil => simp
  | cons p ps =>
    obtain ⟨row, hrow⟩ := hstatus p (by rw [hparents]; exact List.mem_cons_self)
    simp only [List.isEmpty_cons, Bool.false_eq_true, if_false, List.filterMap_cons, hrow,
      Option.map_some]
    exact allSuccess_iff row.status _

/-- It says of an existing task what its name says. -/
theorem allParentsSucceeded_iff {db : Database} (hfk : db.ForeignKeys) (id : TaskId) :
    allParentsSucceeded db id = true ↔ db.graph.Ready id := by
  rw [allParentsSucceeded_iff_status fun p hp => (hfk _ ((db.mem_parentsOf p id).mp hp)).1]
  exact forall_congr' fun p => by rw [db.mem_parentsOf]; rfl

theorem Change.graph {cfg : Settings} {db db' : Database} {l : Label} (h : Change cfg db l db')
    (hfk : db.ForeignKeys) (hok : ∀ id, (db.view id).Ok) :
    Graph.Step db.graph l db'.graph := by
  cases h with
  | skip => exact .same _
  | insert now spec =>
    have hnone : db.graph.status db.tasks.next = none := by
      simp [Database.graph, Table.get_of_le (le_refl db.tasks.next)]
    rw [graph_insertTask]
    exact .insert hnone
  | @block now id row parents details hrow hs hparents =>
    refine .block (by rw [graph_status hrow, hs]) fun p hp => ⟨(hparents p hp).1, ?_⟩
    simpa [Database.graph] using (hparents p hp).2
  | @schedule now id row hrow hs hat hparents =>
    rw [graph_move _ _ _ _ hrow]
    refine .schedule (by rw [graph_status hrow, hs]) fun p hp => ?_
    have hmem := (db.mem_parentsOf p id).mpr hp
    rw [hparents] at hmem
    cases hmem
  | @enqueue now id row cause eventType details reattempt hrow hs hready =>
    rw [graph_addOutbox, graph_move _ _ _ _ hrow]
    refine .enqueue (graph_status hrow) hs fun hfirst => ?_
    cases cause with
    | create =>
      intro p hp
      have hmem := (db.mem_parentsOf p id).mpr hp
      rw [show db.parentsOf id = [] from hready] at hmem
      cases hmem
    | unblock => exact (allParentsSucceeded_iff hfk id).mp hready
    | _ => cases hfirst
  | @cancel now id row details hrow hs =>
    rw [graph_move _ _ _ _ hrow]
    exact .cancel (graph_status hrow) hs
  | @start now w id row seen hrow hs hfree =>
    rw [graph_startedDb _ _ hrow]
    exact .start w (by rw [graph_status hrow, hs])
  | @renew now w id row hrow howner hs =>
    have hsame : (db.setTask id (renewed now cfg.taskLeaseSeconds row)).graph = db.graph :=
      graph_setTask_same hrow rfl
    rw [hsame]
    exact .same _
  | close hsome hclose => exact .same _
  | @finish now w held row task new eventType details hv hrow hs hout =>
    rw [graph_change _ _ _ _ _ _ hrow,
      show ((Task.merge held.task.loaded (setStatusFields now task new) row).touch now).status = new
        from (hv.merge row now hout).1]
    refine .finish (by rw [graph_status hrow, hs]) hout.transition ?_
    cases hout <;> decide
  | @stamp now id row dlqRetryAt hrow =>
    have hsame : (db.setTask id { row with dlqRetryAt := dlqRetryAt, updatedAt := now }).graph =
        db.graph := graph_setTask_same hrow rfl
    rw [hsame]
    exact .same _
  | @recover now id row details hrow hs hexpired =>
    have hrow' : (closeLastAttempt now db id).tasks.get id = some row := by
      rw [closeLastAttempt_tasks]; exact hrow
    rw [graph_addOutbox, graph_move _ _ _ _ hrow', graph_closeLastAttempt]
    exact .recover (by rw [graph_status hrow, hs])
  | @release now id row hrow hs hlease =>
    have hsame : (db.setTask id
        { row with leaseOwner := none, leaseExpiresAt := none, updatedAt := now }).graph = db.graph :=
      graph_setTask_same hrow rfl
    rw [graph_addOutbox, hsame]
    exact .same _
  | republish hs => exact .same _
  | deleteTasks ids hids =>
    have hg : (TaskPlatform.deleteTasks db ids).graph = db.graph.remove ids := by
      have hstatus : (TaskPlatform.deleteTasks db ids).graph.status =
          (db.graph.remove ids).status := by
        funext i
        have hview := congrArg View.row (view_deleteTasks db ids i)
        simp only [Database.graph, Graph.remove]
        rw [← view_row, hview]
        split <;> rfl
      rw [show (TaskPlatform.deleteTasks db ids).graph =
        ⟨(TaskPlatform.deleteTasks db ids).graph.status, (db.graph.remove ids).edges⟩ from rfl,
        hstatus]
    rw [hg]
    refine .delete ids fun i hi => ?_
    obtain ⟨row, hrow, hfin⟩ := hids i hi
    exact ⟨row.status, ((hok i).sound hrow).wellFormed.finishedAt.mp hfin, graph_status hrow⟩
  | deleteOutbox ids hids => exact .same _
  | side subscriptions deliveries workers auditLogs => exact .same _

end TaskPlatform
