import TaskPlatform.Lib.Flood
import TaskPlatform.Sweep
import TaskPlatform.Moved
import TaskPlatform.Requeue

/-!
# What a finished task does to the others

A task that ends without success floods the created tasks below it: the cascade
cancels all of them and nothing else. A task that succeeds releases the created
children that waited for it alone.
-/

namespace TaskPlatform

open Run

namespace Graph

def created (g : Graph) : Set TaskId := {i | g.status i = some .created}

def Edge (g : Graph) (p c : TaskId) : Prop := ⟨p, c⟩ ∈ g.edges

instance (g : Graph) (p c : TaskId) : Decidable (g.Edge p c) := by
  unfold Edge; infer_instance

open Classical in
/-- Every task of a set gets the same status. -/
noncomputable def setAll (g : Graph) (C : Set TaskId) (s : Status) : Graph :=
  { g with status := fun i => if i ∈ C then some s else g.status i }

/-- The created tasks that are reached from a task through created tasks. -/
def doomed (g : Graph) (id : TaskId) : Set TaskId := Flood.below g.Edge g.created id

/-- The created children of a task whose parents all succeeded. -/
def released (g : Graph) (id : TaskId) : Set TaskId :=
  {c | g.Edge id c ∧ c ∈ g.created ∧ g.Ready c}

theorem setAll_status_of_mem (g : Graph) {C : Set TaskId} (s : Status) {i : TaskId} (h : i ∈ C) :
    (g.setAll C s).status i = some s := by simp [setAll, h]

theorem setAll_status_of_notMem (g : Graph) {C : Set TaskId} (s : Status) {i : TaskId}
    (h : i ∉ C) : (g.setAll C s).status i = g.status i := by simp [setAll, h]

@[simp] theorem setAll_empty (g : Graph) (s : Status) : g.setAll ∅ s = g := by simp [setAll]

theorem setAll_setAll (g : Graph) (C D : Set TaskId) (s : Status) :
    (g.setAll C s).setAll D s = g.setAll (C ∪ D) s := by
  have hstatus : ((g.setAll C s).setAll D s).status = (g.setAll (C ∪ D) s).status := by
    funext i
    by_cases hC : i ∈ C <;> by_cases hD : i ∈ D <;> simp [setAll, hC, hD]
  rw [setAll, setAll, Graph.mk.injEq]
  exact ⟨hstatus, rfl⟩

theorem set_eq_setAll (g : Graph) (id : TaskId) (s : Status) : g.set id s = g.setAll {id} s := by
  have hstatus : (g.set id s).status = (g.setAll {id} s).status := by
    funext i
    by_cases hi : i = id
    · subst hi
      rw [set_status_self, setAll_status_of_mem g s (Set.mem_singleton i)]
    · have hmem : i ∉ ({id} : Set TaskId) := hi
      rw [set_status_of_ne g s hi, setAll_status_of_notMem g s hmem]
  rw [set, setAll, Graph.mk.injEq]
  exact ⟨hstatus, rfl⟩

theorem created_setAll (g : Graph) (C : Set TaskId) {s : Status} (h : s ≠ .created) :
    (g.setAll C s).created = g.created \ C := by
  ext i
  by_cases hi : i ∈ C <;> simp [created, setAll, hi, h]

theorem created_set (g : Graph) (id : TaskId) {s : Status} (h : s ≠ .created) :
    (g.set id s).created = g.created \ {id} := by
  rw [set_eq_setAll, created_setAll g {id} h]

/-- Cancelling a task and everything doomed by it is the flood from it. -/
theorem setAll_doomed (g : Graph) (id : TaskId) :
    (g.set id .cancelled).setAll ((g.set id .cancelled).doomed id) .cancelled =
      g.setAll (Flood.flood g.Edge g.created {id}) .cancelled := by
  rw [doomed, created_set g id (by decide), set_eq_setAll, setAll_setAll, ← Set.insert_eq,
    ← Flood.flood_singleton]
  exact congrArg (fun C => g.setAll C .cancelled) Flood.flood_diff

/-- What a task dooms does not depend on its own status. -/
theorem mem_doomed_set (g : Graph) {id i : TaskId} {s : Status} (hs : s ≠ .created) (h : i ≠ id) :
    i ∈ (g.set id s).doomed id ↔ i ∈ g.doomed id := by
  have hflood : Flood.flood g.Edge (g.created \ {id}) {id} =
      Flood.flood g.Edge g.created {id} := Flood.flood_diff
  rw [Flood.flood_singleton, Flood.flood_singleton] at hflood
  have hmem := Set.ext_iff.mp hflood i
  rw [Set.mem_insert_iff, Set.mem_insert_iff, or_iff_right h, or_iff_right h] at hmem
  rw [doomed, created_set g id hs]
  exact hmem

/-- Queueing created tasks makes no other task ready. -/
theorem ready_setAll {g : Graph} {C : Set TaskId} (hC : C ⊆ g.created) (c : TaskId) :
    (g.setAll C .queued).Ready c ↔ g.Ready c := by
  refine forall_congr' fun p => imp_congr Iff.rfl ?_
  by_cases hp : p ∈ C
  · have hcreated : g.status p = some .created := hC hp
    rw [setAll_status_of_mem g _ hp, hcreated]
    simp
  · rw [setAll_status_of_notMem g _ hp]

end Graph

theorem graph_created {db : Database} {id : TaskId} :
    id ∈ db.graph.created ↔ ∃ row, db.tasks.get id = some row ∧ row.status = .created :=
  Option.map_eq_some_iff

/-- One turn of a cascade of cancellations floods from its child. -/
theorem ChildTurn.graph_cancelled {cfg : Settings} {now : Time} {fuel : Nat} {db db' : Database}
    {id child : TaskId} {status : Status} (h : ChildTurn cfg now fuel id status db child db')
    (hne : status ≠ .success)
    (ih : ∀ m < fuel, ∀ db db' id, cascade cfg now m db id .cancelled = .ok db' →
      db'.graph = db.graph.setAll (db.graph.doomed id) .cancelled) :
    db'.graph = db.graph.setAll
      (Flood.flood db.graph.Edge db.graph.created ({child} ∩ db.graph.created)) .cancelled := by
  cases h with
  | passed hnot =>
    have hempty : ({child} ∩ db.graph.created : Set TaskId) = ∅ := by
      rw [Set.singleton_inter_eq_empty, graph_created]
      rintro ⟨row, hrow, hs⟩
      exact hnot row hrow hs
    rw [hempty, Flood.flood_empty, Graph.setAll_empty]
  | waiting hs => exact absurd hs hne
  | unblocked _ _ hs => exact absurd hs hne
  | @cancelled row _ m hrow hcreated _ hm hcascade =>
    have hmem : child ∈ db.graph.created := graph_created.mpr ⟨row, hrow, hcreated⟩
    rw [Set.inter_eq_left.mpr (Set.singleton_subset_iff.mpr hmem), ih m hm _ _ _ hcascade,
      graph_move _ _ _ _ hrow, Graph.setAll_doomed]

/-- When the created tasks of `S` were entered, a turn enters its child too. -/
theorem ChildTurn.graph_swept {cfg : Settings} {now : Time} {fuel : Nat} {db db' : Database}
    {id child : TaskId} {status : Status} (h : ChildTurn cfg now fuel id status db child db')
    (hne : status ≠ .success)
    (ih : ∀ m < fuel, ∀ db db' id, cascade cfg now m db id .cancelled = .ok db' →
      db'.graph = db.graph.setAll (db.graph.doomed id) .cancelled)
    {g : Graph} {S : Set TaskId}
    (hg : db.graph = g.setAll (Flood.flood g.Edge g.created S) .cancelled) :
    db'.graph = g.setAll (Flood.flood g.Edge g.created (S ∪ {child} ∩ g.created)) .cancelled := by
  rw [h.graph_cancelled hne ih, hg, Graph.created_setAll g _ (by decide), Graph.setAll_setAll,
    ← Set.inter_sdiff_assoc]
  exact congrArg (fun C => g.setAll C .cancelled) Flood.flood_next

/-- A cascade of cancellations reaches exactly the doomed tasks. -/
theorem cascade_cancelled {cfg : Settings} {now : Time} {n : Nat} {db db' : Database}
    {id : TaskId} {new : Status} (h : cascade cfg now n db id new = .ok db')
    (hnew : new ∈ terminal) (hne : new ≠ .success) :
    db'.graph = db.graph.setAll (db.graph.doomed id) .cancelled := by
  induction n using Nat.strong_induction_on generalizing db db' id new with
  | _ n ih =>
    rw [cascade, if_pos hnew, advanceChildren] at h
    have htargets : ∀ c, Flood.Arc db.graph.Edge db.graph.created id c ↔
        c ∈ db.childrenOf id ∧ c ∈ db.graph.created := fun c =>
      and_congr_left fun _ => (db.mem_childrenOf id c).symm
    rw [Graph.doomed, ← Flood.flood_targets, show {c | Flood.Arc db.graph.Edge db.graph.created
      id c} = ∅ ∪ {c | c ∈ db.childrenOf id} ∩ db.graph.created by ext c; simp [htargets]]
    generalize db.childrenOf id = children at h
    -- `S` are the created children that the loop has passed
    have hfold : ∀ (g : Graph) (S : Set TaskId) (db : Database),
        db.graph = g.setAll (Flood.flood g.Edge g.created S) .cancelled →
        children.foldlM (advanceChild (setStatusFuel cfg now n) cfg id new) db = .ok db' →
        db'.graph = g.setAll (Flood.flood g.Edge g.created
          (S ∪ {c | c ∈ children} ∩ g.created)) .cancelled := by
      clear h htargets
      induction children with
      | nil =>
        intro g S db hg h
        cases h
        simpa using hg
      | cons child children ihc =>
        intro g S db hg h
        rw [List.foldlM_cons] at h
        obtain ⟨db₁, hturn, hrest⟩ := bind_ok h
        have hnext := (advanceChild_ok hturn).graph_swept hne
          (fun m hm db db' id hc => ih m hm hc (by decide) (by decide)) hg
        have hchildren : ({c | c ∈ child :: children} : Set TaskId) =
            {child} ∪ {c | c ∈ children} := by
          ext c
          simp
        rw [hchildren, Set.union_inter_distrib_right, ← Set.union_assoc]
        exact ihc g _ db₁ hnext hrest
    exact hfold db.graph ∅ db (by simp) h

/-- One turn after a success releases its child if it is ready. -/
theorem ChildTurn.graph_queued {cfg : Settings} {now : Time} {fuel : Nat} {db db' : Database}
    {id child : TaskId} (h : ChildTurn cfg now fuel id .success db child db')
    (hfk : db.ForeignKeys) :
    db'.graph = db.graph.setAll ({child} ∩ {c | c ∈ db.graph.created ∧ db.graph.Ready c})
      .queued := by
  cases h with
  | passed hnot =>
    have hempty : ({child} ∩ {c | c ∈ db.graph.created ∧ db.graph.Ready c} : Set TaskId) = ∅ := by
      rw [Set.singleton_inter_eq_empty]
      rintro ⟨hcreated, -⟩
      obtain ⟨row, hrow, hs⟩ := graph_created.mp hcreated
      exact hnot row hrow hs
    rw [hempty, Graph.setAll_empty]
  | waiting _ hparents =>
    have hempty : ({child} ∩ {c | c ∈ db.graph.created ∧ db.graph.Ready c} : Set TaskId) = ∅ := by
      rw [Set.singleton_inter_eq_empty]
      rintro ⟨-, hready⟩
      rw [(allParentsSucceeded_iff hfk child).mpr hready] at hparents
      cases hparents
    rw [hempty, Graph.setAll_empty]
  | @unblocked row hrow hcreated _ hparents =>
    have hmem : child ∈ {c | c ∈ db.graph.created ∧ db.graph.Ready c} :=
      ⟨graph_created.mpr ⟨row, hrow, hcreated⟩, (allParentsSucceeded_iff hfk child).mp hparents⟩
    rw [Set.inter_eq_left.mpr (Set.singleton_subset_iff.mpr hmem), graph_addOutbox,
      graph_move _ _ _ _ hrow, Graph.set_eq_setAll]
  | cancelled _ _ hne => exact absurd rfl hne

/-- The cascade of a success releases exactly the ready children. -/
theorem cascade_released {cfg : Settings} {now : Time} {n : Nat} {db db' : Database}
    {id : TaskId} (h : cascade cfg now n db id .success = .ok db') (hfk : db.ForeignKeys) :
    db'.graph = db.graph.setAll (db.graph.released id) .queued := by
  rw [cascade, if_pos (by decide), advanceChildren] at h
  have hreleased : db.graph.released id =
      ∅ ∪ {c | c ∈ db.childrenOf id} ∩ {c | c ∈ db.graph.created ∧ db.graph.Ready c} := by
    ext c
    simp [Graph.released, Graph.Edge, db.mem_childrenOf]
  rw [hreleased]
  generalize db.childrenOf id = children at h
  have hfold : ∀ (g : Graph) (D : Set TaskId) (db : Database), D ⊆ g.created → db.ForeignKeys →
      db.graph = g.setAll D .queued →
      children.foldlM (advanceChild (setStatusFuel cfg now n) cfg id .success) db = .ok db' →
      db'.graph = g.setAll (D ∪ {c | c ∈ children} ∩ {c | c ∈ g.created ∧ g.Ready c}) .queued := by
    clear h hreleased
    induction children with
    | nil =>
      intro g D db hD hfk hg h
      cases h
      simpa using hg
    | cons child children ihc =>
      intro g D db hD hfk hg h
      rw [List.foldlM_cons] at h
      obtain ⟨db₁, hturn, hrest⟩ := bind_ok h
      have hturn' := advanceChild_ok hturn
      have hnext : db₁.graph =
          g.setAll (D ∪ {child} ∩ {c | c ∈ g.created ∧ g.Ready c}) .queued := by
        rw [hturn'.graph_queued hfk, hg, Graph.created_setAll g _ (by decide), Graph.setAll_setAll]
        refine congrArg (fun C => g.setAll C .queued) ?_
        ext c
        have hready := Graph.ready_setAll hD c
        simp only [Set.mem_union, Set.mem_inter_iff, Set.mem_singleton_iff, Set.mem_ofPred_eq,
          Set.mem_sdiff, hready]
        tauto
      have hchildren : ({c | c ∈ child :: children} : Set TaskId) =
          {child} ∪ {c | c ∈ children} := by
        ext c
        simp
      rw [hchildren, Set.union_inter_distrib_right, ← Set.union_assoc]
      refine ihc g _ db₁ (Set.union_subset hD ?_) (hturn'.foreignKeys hfk) hnext hrest
      exact fun c hc => hc.2.1
  exact hfold db.graph ∅ db (Set.empty_subset _) hfk (by simp) h

/-- The task was cancelled with one event. -/
structure Entry.Cancelled (x y : Entry) : Prop where
  row : ∃ row, y.row = some row ∧ row.status = .cancelled
  event : ∃ e, y.log = x.log ++ [e] ∧ e.eventType = .cancelled ∧ e.oldStatus = .created ∧
    e.newStatus = .cancelled
  outbox : y.outbox = x.outbox

/-- The task was put into the queue with one event and one outbox row. -/
structure Entry.Released (id : TaskId) (x y : Entry) : Prop where
  row : ∃ row, y.row = some row ∧ row.status = .queued
  event : ∃ e, y.log = x.log ++ [e] ∧ e.eventType = .unblocked ∧ e.oldStatus = .created ∧
    e.newStatus = .queued
  outbox : ∃ e, y.outbox = x.outbox ++ [e] ∧ e.2.payload.taskId = id ∧ e.2.status = .pending

/-- The tables that a change of statuses does not write. -/
structure SameTables (db db' : Database) : Prop where
  attempts : db'.attempts = db.attempts
  deps : db'.deps = db.deps
  subscriptions : db'.subscriptions = db.subscriptions
  workers : db'.workers = db.workers
  auditLogs : db'.auditLogs = db.auditLogs

theorem entry_move_self (now : Time) {db : Database} {id : TaskId} {row : Task} (task : Task)
    (new : Status) (eventType : EventType) (details : Option Details)
    (h : db.tasks.get id = some row) :
    (db.move now id task new eventType details).entry id =
      ⟨some (movedTask now task new),
        db.eventsOf id ++ [⟨id, eventType, task.status, new, details, now⟩], db.outboxOf id⟩ := by
  have hview := view_move_self now task new eventType details h
  have hrow := congrArg View.row hview
  have hlog := congrArg View.log hview
  rw [Database.entry, Entry.mk.injEq]
  exact ⟨hrow, hlog, rfl⟩

theorem entry_move_of_ne (now : Time) (db : Database) {id i : TaskId} (task : Task)
    (new : Status) (eventType : EventType) (details : Option Details) (h : i ≠ id) :
    (db.move now id task new eventType details).entry i = db.entry i := by
  have hview := view_move_of_ne now db task new eventType details h
  have hrow := congrArg View.row hview
  have hlog := congrArg View.log hview
  rw [Database.entry, Database.entry, Entry.mk.injEq]
  exact ⟨hrow, hlog, rfl⟩

theorem CascadeStep.sameTables {cfg : Settings} {db db' : Database} {l : Label}
    (h : CascadeStep cfg db l db') : SameTables db db' := by
  cases h <;> exact ⟨rfl, rfl, rfl, rfl, rfl⟩

/-- A step of the cascade leaves a task alone, or it takes it out of `created`. -/
theorem CascadeStep.entry {cfg : Settings} {db db' : Database} {l : Label}
    (h : CascadeStep cfg db l db') (i : TaskId) : db'.entry i = db.entry i ∨
      i ∈ db.graph.created ∧
        ((db.entry i).Cancelled (db'.entry i) ∨ (db.entry i).Released i (db'.entry i)) := by
  cases h with
  | @cancel now id row details hrow hs =>
    by_cases hi : i = id
    · subst hi
      refine .inr ⟨graph_created.mpr ⟨row, hrow, hs⟩, .inl ?_⟩
      rw [entry_move_self now row _ _ _ hrow]
      exact ⟨⟨_, rfl, rfl⟩, ⟨_, rfl, rfl, hs, rfl⟩, rfl⟩
    · exact .inl (entry_move_of_ne now db row _ _ _ hi)
  | @unblock now id row details hrow hs hparents =>
    let moved := db.move now id row .queued .unblocked details
    by_cases hi : i = id
    · subst hi
      refine .inr ⟨graph_created.mpr ⟨row, hrow, hs⟩, .inr ?_⟩
      have hentry := entry_move_self now row .queued .unblocked details hrow
      have hrow' := congrArg Entry.row hentry
      have hlog := congrArg Entry.log hentry
      exact ⟨⟨_, hrow', rfl⟩, ⟨_, hlog, rfl, hs, rfl⟩,
        outboxOf_addOutbox_self cfg moved i (movedTask now row .queued) false⟩
    · have hentry := entry_move_of_ne now db row .queued .unblocked details hi
      have houtbox := outboxOf_addOutbox_of_ne cfg moved (movedTask now row .queued) false hi
      have hrow' := congrArg Entry.row hentry
      have hlog := congrArg Entry.log hentry
      refine .inl ?_
      rw [Database.entry, Database.entry, Entry.mk.injEq]
      exact ⟨hrow', hlog, houtbox⟩

theorem entry_status {db : Database} {id : TaskId} {row : Task}
    (h : (db.entry id).row = some row) : db.graph.status id = some row.status :=
  graph_status h

/-- So a whole cascade takes a task out of `created` once or leaves it alone. -/
theorem cascade_entry {cfg : Settings} {db db' : Database} {ls : List Label}
    (h : Trace (CascadeStep cfg) db ls db') (i : TaskId) : db'.entry i = db.entry i ∨
      i ∈ db.graph.created ∧
        ((db.entry i).Cancelled (db'.entry i) ∨ (db.entry i).Released i (db'.entry i)) := by
  induction h with
  | nil db => exact .inl rfl
  | @cons db db₁ db' l ls hstep _ ih =>
    obtain hfirst | ⟨hcreated, hfirst⟩ := hstep.entry i
    · have hsame : i ∈ db₁.graph.created ↔ i ∈ db.graph.created := by
        rw [graph_created, graph_created, show db₁.tasks.get i = db.tasks.get i from
          congrArg Entry.row hfirst]
      rw [hsame, hfirst] at ih
      exact ih
    · have hleft : i ∉ db₁.graph.created := by
        intro hmem
        have hst : db₁.graph.status i = some .created := hmem
        obtain h | h := hfirst
        · obtain ⟨row, hrow, hs⟩ := h.row
          rw [entry_status hrow, hs] at hst
          cases hst
        · obtain ⟨row, hrow, hs⟩ := h.row
          rw [entry_status hrow, hs] at hst
          cases hst
      have hrest := ih.resolve_right fun hagain => hleft hagain.1
      rw [hrest]
      exact .inr ⟨hcreated, hfirst⟩

/-- The statuses tell which tasks a cascade wrote. -/
theorem entry_of_setAll {cfg : Settings} {db db' : Database} {ls : List Label} {C : Set TaskId}
    {s : Status} (h : Trace (CascadeStep cfg) db ls db') (hgraph : db'.graph = db.graph.setAll C s)
    (hs : s ≠ .created) (hC : C ⊆ db.graph.created) (i : TaskId) :
    (i ∈ C → s = .cancelled ∧ (db.entry i).Cancelled (db'.entry i) ∨
      s = .queued ∧ (db.entry i).Released i (db'.entry i)) ∧
    (i ∉ C → db'.entry i = db.entry i) := by
  constructor
  · intro hi
    have hcreated : db.graph.status i = some .created := hC hi
    have hst : db'.graph.status i = some s := by
      rw [hgraph, Graph.setAll_status_of_mem _ _ hi]
    obtain hsame | ⟨-, hwritten | hwritten⟩ := cascade_entry h i
    · have hrow : db'.tasks.get i = db.tasks.get i := congrArg Entry.row hsame
      have hkept : db'.graph.status i = db.graph.status i :=
        congrArg (Option.map Task.status) hrow
      rw [hst, hcreated, Option.some.injEq] at hkept
      exact absurd hkept hs
    · obtain ⟨row, hrow, hcancelled⟩ := hwritten.row
      rw [entry_status hrow, hcancelled, Option.some.injEq] at hst
      exact .inl ⟨hst.symm, hwritten⟩
    · obtain ⟨row, hrow, hqueued⟩ := hwritten.row
      rw [entry_status hrow, hqueued, Option.some.injEq] at hst
      exact .inr ⟨hst.symm, hwritten⟩
  · intro hi
    obtain hsame | ⟨hcreated, hwritten⟩ := cascade_entry h i
    · exact hsame
    · have hst : db'.graph.status i = some .created := by
        rw [hgraph, Graph.setAll_status_of_notMem _ _ hi]
        exact hcreated
      obtain h | h := hwritten
      · obtain ⟨row, hrow, hs⟩ := h.row
        rw [entry_status hrow, hs] at hst
        cases hst
      · obtain ⟨row, hrow, hs⟩ := h.row
        rw [entry_status hrow, hs] at hst
        cases hst

theorem SameTables.trans {a b c : Database} (hab : SameTables a b) (hbc : SameTables b c) :
    SameTables a c :=
  ⟨hbc.attempts.trans hab.attempts, hbc.deps.trans hab.deps,
    hbc.subscriptions.trans hab.subscriptions, hbc.workers.trans hab.workers,
    hbc.auditLogs.trans hab.auditLogs⟩

theorem cascade_sameTables {cfg : Settings} {db db' : Database} {ls : List Label}
    (h : Trace (CascadeStep cfg) db ls db') : SameTables db db' := by
  induction h with
  | nil db => exact ⟨rfl, rfl, rfl, rfl, rfl⟩
  | cons hstep _ ih => exact hstep.sameTables.trans ih

/-- Cancellations write no outbox row. -/
theorem cascade_outbox {cfg : Settings} {db db' : Database} {ls : List Label}
    (h : Trace (CascadeStep cfg) db ls db') (hls : ∀ l ∈ ls, ∃ i, l = .settle i .cancelled) :
    db'.outbox = db.outbox := by
  induction h with
  | nil db => rfl
  | cons hstep _ ih =>
    rw [ih fun l hl => hls l (List.mem_cons_of_mem _ hl)]
    obtain ⟨i, hi⟩ := hls _ List.mem_cons_self
    cases hstep with
    | cancel => rfl
    | unblock => cases hi

section

variable {cfg : Settings} {now : Time} {db : Database} {task : Instance} {row : Task}
  {new : Status} (eventType : EventType) (details : Option Details)

/-- The change that `set_status` makes before its cascade. -/
def Instance.changed (now : Time) (db : Database) (task : Instance) (row : Task) (new : Status)
    (eventType : EventType) (details : Option Details) : Database :=
  db.change now task.id
    ((Task.merge task.loaded (setStatusFields now task.cur new) row).touch now)
    task.cur.status new eventType details (movedTask now task.cur new)

theorem graph_changed (now : Time) (hrow : db.tasks.get task.id = some row)
    (hst : task.loaded.status = task.cur.status)
    (ht : canTransition task.cur.status new = true) :
    (task.changed now db row new eventType details).graph = db.graph.set task.id new := by
  have hne : (setStatusFields now task.cur new).status ≠ task.loaded.status := by
    rw [setStatusFields_status, hst]
    exact (canTransition_ne ht).symm
  have hmerged : (Task.merge task.loaded (setStatusFields now task.cur new) row).status = new :=
    mergeColumn_of_ne row.status hne
  rw [Instance.changed, graph_change _ _ _ _ _ _ hrow]
  exact congrArg (db.graph.set task.id) hmerged

theorem entry_changed_of_ne {i : TaskId} (h : i ≠ task.id) :
    (task.changed now db row new eventType details).entry i = db.entry i := by
  have hview : (task.changed now db row new eventType details).view i = db.view i :=
    view_change_of_ne _ _ _ _ _ _ _ _ h
  have hrow := congrArg View.row hview
  have hlog := congrArg View.log hview
  rw [Database.entry, Database.entry, Entry.mk.injEq]
  exact ⟨hrow, hlog, rfl⟩

/-- Foreign keys are about which tasks exist. -/
theorem Database.ForeignKeys.of_graph {db db' : Database} {id : TaskId} {s : Status}
    (h : db.ForeignKeys) (hgraph : db'.graph = db.graph.set id s) : db'.ForeignKeys := by
  have hsome : ∀ i, (db.tasks.get i).isSome → (db'.tasks.get i).isSome := by
    intro i hi
    have hstatus : (db'.graph.status i).isSome := by
      rw [hgraph]
      by_cases hid : i = id
      · rw [hid, Graph.set_status_self]
        rfl
      · rw [Graph.set_status_of_ne _ _ hid]
        simpa [Database.graph] using hi
    simpa [Database.graph] using hstatus
  have hdeps : db'.deps = db.deps := congrArg Graph.edges hgraph
  intro d hd
  rw [hdeps] at hd
  exact ⟨hsome _ (h d hd).1, hsome _ (h d hd).2⟩

end

/-- The effect of a terminal status. A failure cancels exactly the created tasks that it reaches
through created tasks; a success queues exactly the children that are ready after it. -/
structure Finished (id : TaskId) (old new : Status) (db db' : Database) : Prop where
  moved : Moved id old new db db'
  tables : SameTables db db'
  failure : new ≠ .success → db'.outbox = db.outbox ∧ ∀ i, i ≠ id →
    (i ∈ db.graph.doomed id → (db.entry i).Cancelled (db'.entry i)) ∧
    (i ∉ db.graph.doomed id → db'.entry i = db.entry i)
  success : new = .success → db'.outboxOf id = db.outboxOf id ∧ ∀ i, i ≠ id →
    (i ∈ (db.graph.set id .success).released id → (db.entry i).Released i (db'.entry i)) ∧
    (i ∉ (db.graph.set id .success).released id → db'.entry i = db.entry i)

/-- A `set_status` that returns has this effect. -/
theorem setStatusFuel_finished {cfg : Settings} {now : Time} {levels : Nat} {db db' : Database}
    {task task' : Instance} {row : Task} {new : Status} {eventType : EventType}
    {details : Option Details} (hfk : db.ForeignKeys) (hrow : db.tasks.get task.id = some row)
    (hst : task.loaded.status = task.cur.status)
    (ht : canTransition task.cur.status new = true) (hnew : new ∈ terminal)
    (h : setStatusFuel cfg now levels db task new eventType details = .ok (db', task')) :
    Finished task.id task.cur.status new db db' := by
  obtain ⟨-, n, hcascade⟩ := setStatusFuel_ok hrow hst ht h
  obtain ⟨ls, htr, hls⟩ := cascade_labels hcascade
  rw [← Instance.changed] at hcascade htr
  have hgraph := graph_changed eventType details now hrow hst ht
  have hterminal : new ≠ .created := by
    rintro rfl
    exact absurd hnew (by decide)
  have hchanged : ∀ i, i ≠ task.id →
      (task.changed now db row new eventType details).entry i = db.entry i :=
    fun i hi => entry_changed_of_ne eventType details hi
  have htables : SameTables db (task.changed now db row new eventType details) :=
    ⟨rfl, rfl, rfl, rfl, rfl⟩
  refine ⟨setStatusFuel_moved hrow hst ht h, htables.trans (cascade_sameTables htr),
    fun hne => ?_, ?_⟩
  · have hcancelled := cascade_cancelled hcascade hnew hne
    have houtbox : db'.outbox = (task.changed now db row new eventType details).outbox := by
      refine cascade_outbox htr fun l hl => ?_
      exact (hls l hl).resolve_right fun hsuccess => hne hsuccess.1
    refine ⟨houtbox, fun i hi => ?_⟩
    have hentry := entry_of_setAll htr hcancelled (by decide) Flood.below_subset i
    rw [hchanged i hi, hgraph, Graph.mem_doomed_set _ hterminal hi] at hentry
    refine ⟨fun hmem => ?_, hentry.2⟩
    exact ((hentry.1 hmem).resolve_right fun hqueued => absurd hqueued.1 (by decide)).2
  · rintro rfl
    have hreleased := cascade_released hcascade (hfk.of_graph hgraph)
    have hsub : (task.changed now db row .success eventType details).graph.released task.id ⊆
        (task.changed now db row .success eventType details).graph.created :=
      fun c hc => hc.2.1
    have hentry := entry_of_setAll htr hreleased (by decide) hsub
    rw [hgraph] at hentry hsub
    have hself : task.id ∉ (db.graph.set task.id .success).released task.id := by
      intro hmem
      have hcreated : (db.graph.set task.id .success).status task.id = some .created := hsub hmem
      rw [Graph.set_status_self] at hcreated
      cases hcreated
    refine ⟨congrArg Entry.outbox ((hentry task.id).2 hself), fun i hi => ?_⟩
    have hother := hentry i
    rw [hchanged i hi] at hother
    refine ⟨fun hmem => ?_, hother.2⟩
    exact ((hother.1 hmem).resolve_left fun hcancelled => absurd hcancelled.1 (by decide)).2

end TaskPlatform
