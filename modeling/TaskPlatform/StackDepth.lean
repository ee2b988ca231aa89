import Mathlib.Order.Interval.Set.Nat
import TaskPlatform.Lib.DepthFirst
import TaskPlatform.BulkCreate
import TaskPlatform.Finish

/-!
# How deep a cascade recurses

Below a task that ends without success `set_status` calls itself for every task
that the cascade enters, four frames deep in the interpreter, and the stack has
room for so many calls only. `Graph.Room` is what a status change asks of it.
With that room the change has its whole effect; without it a `RecursionError`
leaves `set_status`, and the transaction is rolled back.
-/

namespace TaskPlatform

open Run DepthFirst

namespace Graph

def childrenOf (g : Graph) (id : TaskId) : List TaskId :=
  (g.edges.filter (fun d => d.parentTaskId == id)).map (·.childTaskId)

/-- Cancelling the task nests so many calls of `set_status` below its own. -/
def Deep (g : Graph) (levels : Nat) (id : TaskId) : Prop :=
  Nested g.childrenOf levels (g.created \ {id}) id

/-- The stack has room for the calls of `set_status` that the new status of a task leads to. -/
def Room (g : Graph) (levels : Nat) (id : TaskId) (new : Status) : Prop :=
  if new = .success then 1 < levels ∨ levels = 1 ∧ (g.set id .success).released id = ∅
  else ¬ g.Deep levels id

theorem edge_eq (g : Graph) : Arrow g.childrenOf = g.Edge := by
  funext p c
  exact propext (Database.mem_childrenOf { Database.empty with deps := g.edges } p c)

/-- Tasks that were cancelled together with all that they flood make no cascade deeper. -/
theorem Deep.of_setAll {g : Graph} {D : Set TaskId} {levels : Nat} {id : TaskId}
    (hD : Flood.Closed g.Edge g.created D) (h : (g.setAll D .cancelled).Deep levels id) :
    g.Deep levels id := by
  rw [Deep, created_setAll g D (by decide), Set.sdiff_sdiff_comm] at h
  rw [← edge_eq] at hD
  exact Nested.of_diff (closed_mono hD Set.sdiff_subset) h

end Graph

section

variable {cfg : Settings} {now : Time} {n : Nat} {db : Database} {id child : TaskId}
  {new : Status}

/-- A turn of a cascade of cancellations needs room below its child, if it enters it. -/
theorem advanceChild_ok_iff (hne : new ≠ .success)
    (ih : ∀ m < n, ∀ db id, (∃ db', cascade cfg now m db id .cancelled = .ok db') ↔
      ¬ Nested db.graph.childrenOf (m + 1) db.graph.created id) :
    (∃ db', advanceChild (setStatusFuel cfg now n) cfg id new db child = .ok db') ↔
      (child ∈ db.graph.created →
        ¬ Nested db.graph.childrenOf n (db.graph.created \ {child}) child) := by
  unfold advanceChild
  cases hrow : db.tasks.get child with
  | none =>
    refine iff_of_true ⟨db, rfl⟩ fun hcreated => ?_
    obtain ⟨row, hget, -⟩ := graph_created.mp hcreated
    rw [hrow] at hget
    cases hget
  | some row =>
    by_cases hcreated : row.status = .created
    · have hmem : child ∈ db.graph.created := graph_created.mpr ⟨row, hrow, hcreated⟩
      simp only [hcreated, ne_eq, not_true_eq_false, if_false, hne, cancelBlocked]
      rw [imp_iff_right hmem]
      cases n with
      | zero => exact iff_of_false (by rintro ⟨db', h⟩; cases h) fun h => h trivial
      | succ m =>
        let moved := db.move now child row .cancelled .cancelled (some (.parentTerminal id new))
        have hgraph : moved.graph = db.graph.set child .cancelled := graph_move _ _ _ _ hrow
        have hbelow := ih m (Nat.lt_succ_self m) moved child
        rw [hgraph, Graph.created_set db.graph child (by decide)] at hbelow
        rw [setStatusFuel_cancelled m _ hrow hcreated, show Nested db.graph.childrenOf (m + 1)
          (db.graph.created \ {child}) child = Nested (db.graph.set child .cancelled).childrenOf
          (m + 1) (db.graph.created \ {child}) child from rfl, ← hbelow]
        cases hcascade : cascade cfg now m moved child .cancelled with
        | ok db' => exact iff_of_true ⟨db', rfl⟩ ⟨db', rfl⟩
        | error e =>
          rw [cascade_error hcascade]
          exact iff_of_false (by rintro ⟨db', h⟩; cases h) (by rintro ⟨db', h⟩; cases h)
    · simp only [ne_eq, hcreated, not_false_eq_true, if_true]
      refine iff_of_true ⟨db, rfl⟩ fun hmem => ?_
      obtain ⟨row', hget, hs⟩ := graph_created.mp hmem
      rw [hrow, Option.some.injEq] at hget
      exact absurd (hget ▸ hs) hcreated

/-- The children that the loop has passed are entered, with all that they flood. -/
def Passed (g : Graph) (before : List TaskId) (db : Database) : Prop :=
  db.graph = g.setAll (Flood.flood g.Edge g.created ({c | c ∈ before} ∩ g.created)) .cancelled

theorem Passed.created {g : Graph} {before : List TaskId} (h : Passed g before db) :
    db.graph.created = left g.childrenOf g.created before := by
  rw [h, Graph.created_setAll g _ (by decide), left, Graph.edge_eq]

theorem Passed.next {g : Graph} {before : List TaskId} {db' : Database} (h : Passed g before db)
    (hne : new ≠ .success)
    (hturn : advanceChild (setStatusFuel cfg now n) cfg id new db child = .ok db') :
    Passed g (before ++ [child]) db' := by
  have hpassed : ({c | c ∈ before ++ [child]} : Set TaskId) = {c | c ∈ before} ∪ {child} := by
    ext c
    simp [or_comm]
  rw [Passed, hpassed, Set.union_inter_distrib_right]
  exact (advanceChild_ok hturn).graph_swept hne
    (fun m hm db db' id hc => cascade_cancelled hc (by decide) (by decide)) h

/-- A cascade of cancellations returns exactly if its calls do not nest too deep. -/
theorem cascade_ok_iff (hnew : new ∈ terminal) (hne : new ≠ .success) :
    (∃ db', cascade cfg now n db id new = .ok db') ↔
      ¬ Nested db.graph.childrenOf (n + 1) db.graph.created id := by
  induction n using Nat.strong_induction_on generalizing db id new with
  | _ n ih =>
    have ih' : ∀ m < n, ∀ db id, (∃ db', cascade cfg now m db id .cancelled = .ok db') ↔
        ¬ Nested db.graph.childrenOf (m + 1) db.graph.created id :=
      fun m hm db id => ih m hm (by decide) (by decide)
    rw [cascade, if_pos hnew, advanceChildren]
    have hfold : ∀ (g : Graph) (children before : List TaskId) (db : Database),
        Passed g before db →
        ((∃ db', children.foldlM (advanceChild (setStatusFuel cfg now n) cfg id new) db = .ok db') ↔
          ∀ passed child after, children = passed ++ child :: after →
            child ∈ left g.childrenOf g.created (before ++ passed) →
            ¬ Nested g.childrenOf n (left g.childrenOf g.created (before ++ passed) \ {child})
              child) := by
      intro g children
      induction children with
      | nil =>
        intro before db hpassed
        exact iff_of_true ⟨db, rfl⟩ fun passed child after he => by simp at he
      | cons child children ihc =>
        intro before db hpassed
        have hturn : (∃ db', advanceChild (setStatusFuel cfg now n) cfg id new db child = .ok db') ↔
            _ := advanceChild_ok_iff hne ih'
        rw [hpassed.created, show db.graph.childrenOf = g.childrenOf by rw [hpassed]; rfl] at hturn
        rw [List.foldlM_cons]
        constructor
        · rintro ⟨db', h⟩ passed c after he hc
          obtain ⟨db₁, hok, hrest⟩ := bind_ok h
          cases passed with
          | nil =>
            obtain ⟨rfl, -⟩ := List.cons.inj he
            rw [List.append_nil] at hc ⊢
            exact hturn.mp ⟨db₁, hok⟩ hc
          | cons first passed =>
            obtain ⟨rfl, hsplit⟩ := List.cons.inj he
            have hlater := (ihc _ db₁ (hpassed.next hne hok)).mp ⟨db', hrest⟩ passed c after hsplit
            rw [List.append_assoc, List.singleton_append] at hlater
            exact hlater hc
        · intro hall
          obtain ⟨db₁, hok⟩ := hturn.mpr fun hc => by
            have hfirst := hall [] child children rfl
            rw [List.append_nil] at hfirst
            exact hfirst hc
          obtain ⟨db', hrest⟩ := (ihc _ db₁ (hpassed.next hne hok)).mpr
            fun passed c after he => by
              have hlater := hall (child :: passed) c after (by rw [he]; rfl)
              rw [List.append_assoc, List.singleton_append]
              exact hlater
          exact ⟨db', by rw [hok]; exact hrest⟩
    rw [hfold db.graph (db.childrenOf id) [] db (by simp [Passed])]
    simp only [List.nil_append]
    constructor
    · rintro hall ⟨before, child, after, hchildren, hmem, hnested⟩
      exact hall before child after hchildren hmem hnested
    · intro hnot before child after hchildren hmem hnested
      exact hnot ⟨before, child, after, hchildren, hmem, hnested⟩

/-- A child that is released needs one call more, and its own change ends that call. -/
theorem advanceChild_success_iff (hfk : db.ForeignKeys) :
    (∃ db', advanceChild (setStatusFuel cfg now n) cfg id .success db child = .ok db') ↔
      (0 < n ∨ ¬ (child ∈ db.graph.created ∧ db.graph.Ready child)) := by
  unfold advanceChild
  cases hrow : db.tasks.get child with
  | none =>
    refine iff_of_true ⟨db, rfl⟩ (.inr ?_)
    rintro ⟨hmem, -⟩
    obtain ⟨row, hget, -⟩ := graph_created.mp hmem
    rw [hrow] at hget
    cases hget
  | some row =>
    by_cases hcreated : row.status = .created
    · have hmem : child ∈ db.graph.created := graph_created.mpr ⟨row, hrow, hcreated⟩
      simp only [hcreated, ne_eq, not_true_eq_false, if_false, if_true]
      by_cases hparents : allParentsSucceeded db child = true
      · have hready := (allParentsSucceeded_iff hfk child).mp hparents
        rw [if_pos hparents, or_iff_left (not_not.mpr ⟨hmem, hready⟩)]
        cases n with
        | zero => exact iff_of_false (by rintro ⟨db', h⟩; cases h) (lt_irrefl 0)
        | succ m =>
          refine iff_of_true ⟨_, unblock_created m id hrow hcreated⟩ (Nat.succ_pos m)
      · rw [if_neg hparents]
        refine iff_of_true ⟨db, rfl⟩ (.inr fun h => hparents ?_)
        exact (allParentsSucceeded_iff hfk child).mpr h.2
    · simp only [ne_eq, hcreated, not_false_eq_true, if_true]
      refine iff_of_true ⟨db, rfl⟩ (.inr fun h => ?_)
      obtain ⟨row', hget, hs⟩ := graph_created.mp h.1
      rw [hrow, Option.some.injEq] at hget
      exact absurd (hget ▸ hs) hcreated

/-- Without room for another call a turn after a success changes nothing. -/
theorem advanceChild_success_zero {db' : Database}
    (h : advanceChild (setStatusFuel cfg now 0) cfg id .success db child = .ok db') : db' = db := by
  cases advanceChild_ok h with
  | passed => rfl
  | waiting => rfl
  | unblocked hrow hcreated hs hparents =>
    unfold advanceChild at h
    simp only [hrow, hcreated, ne_eq, not_true_eq_false, if_false, if_true, hparents] at h
    cases h
  | cancelled _ _ hne => exact absurd rfl hne

/-- The cascade of a success returns if there is room for another call, or no child to release. -/
theorem cascade_success_iff (hfk : db.ForeignKeys) :
    (∃ db', cascade cfg now n db id .success = .ok db') ↔
      (0 < n ∨ db.graph.released id = ∅) := by
  rw [cascade, if_pos (by decide), advanceChildren]
  have hreleased : db.graph.released id = ∅ ↔
      ∀ c ∈ db.childrenOf id, ¬ (c ∈ db.graph.created ∧ db.graph.Ready c) := by
    rw [Set.eq_empty_iff_forall_notMem]
    refine forall_congr' fun c => ?_
    rw [db.mem_childrenOf]
    exact ⟨fun h hedge hc => h ⟨hedge, hc⟩, fun h hc => h hc.1 hc.2⟩
  rw [hreleased]
  clear hreleased
  generalize db.childrenOf id = children
  cases n with
  | zero =>
    rw [or_iff_right (lt_irrefl 0)]
    induction children with
    | nil => exact iff_of_true ⟨db, rfl⟩ fun c hc => absurd hc List.not_mem_nil
    | cons child children ih =>
      have hturn : (∃ db', advanceChild (setStatusFuel cfg now 0) cfg id .success db child =
        .ok db') ↔ _ := advanceChild_success_iff hfk
      rw [or_iff_right (lt_irrefl 0)] at hturn
      rw [List.foldlM_cons, List.forall_mem_cons]
      constructor
      · rintro ⟨db', h⟩
        obtain ⟨db₁, hok, hloop⟩ := bind_ok h
        obtain rfl := advanceChild_success_zero hok
        exact ⟨hturn.mp ⟨_, hok⟩, ih.mp ⟨db', hloop⟩⟩
      · rintro ⟨hchild, hchildren⟩
        obtain ⟨db₁, hok⟩ := hturn.mpr hchild
        obtain rfl := advanceChild_success_zero hok
        obtain ⟨db', hloop⟩ := ih.mpr hchildren
        exact ⟨db', by rw [hok]; exact hloop⟩
  | succ m =>
    refine iff_of_true ?_ (.inl (Nat.succ_pos m))
    induction children generalizing db with
    | nil => exact ⟨db, rfl⟩
    | cons child children ih =>
      obtain ⟨db₁, hok⟩ : ∃ db₁, advanceChild (setStatusFuel cfg now (m + 1)) cfg id .success db
        child = .ok db₁ := (advanceChild_success_iff hfk).mpr (.inl (Nat.succ_pos m))
      obtain ⟨db', hloop⟩ := ih ((advanceChild_ok hok).foreignKeys hfk)
      exact ⟨db', by rw [List.foldlM_cons, hok]; exact hloop⟩

end

section

variable {cfg : Settings} {now : Time} {db : Database} {task : Instance} {row : Task}
  {new : Status} (eventType : EventType) (details : Option Details) (levels : Nat)

/-- `set_status` returns exactly if its cascade does. -/
theorem setStatusFuel_ok_iff_cascade (n : Nat) (hrow : db.tasks.get task.id = some row)
    (hst : task.loaded.status = task.cur.status)
    (ht : canTransition task.cur.status new = true) :
    (∃ db', setStatusFuel cfg now (n + 1) db task new eventType details =
        .ok (db', Instance.fresh task.id (movedTask now task.cur new))) ↔
      ∃ db', cascade cfg now n (task.changed now db row new eventType details) task.id new =
        .ok db' := by
  rw [setStatusFuel_succ n eventType details hrow hst ht, ← Instance.changed]
  cases cascade cfg now n (task.changed now db row new eventType details) task.id new with
  | ok db' => exact iff_of_true ⟨db', rfl⟩ ⟨db', rfl⟩
  | error e => exact iff_of_false (by rintro ⟨db', h⟩; cases h) (by rintro ⟨db', h⟩; cases h)

/-- A failure returns exactly if the cancellations below it do not nest too deep. -/
theorem setStatusFuel_failure_iff (hrow : db.tasks.get task.id = some row)
    (hst : task.loaded.status = task.cur.status)
    (ht : canTransition task.cur.status new = true) (hnew : new ∈ terminal) (hne : new ≠ .success) :
    (∃ db', setStatusFuel cfg now levels db task new eventType details =
        .ok (db', Instance.fresh task.id (movedTask now task.cur new))) ↔
      ¬ db.graph.Deep levels task.id := by
  cases levels with
  | zero => exact iff_of_false (by rintro ⟨db', h⟩; cases h) fun h => h trivial
  | succ n =>
    have hcreated : new ≠ .created := by
      rintro rfl
      exact absurd hnew (by decide)
    rw [setStatusFuel_ok_iff_cascade eventType details n hrow hst ht, cascade_ok_iff hnew hne,
      graph_changed eventType details now hrow hst ht, Graph.created_set _ _ hcreated]
    rfl

/-- A success returns exactly if it has room for another call, or nothing to release. -/
theorem setStatusFuel_success_iff (hfk : db.ForeignKeys) (hrow : db.tasks.get task.id = some row)
    (hst : task.loaded.status = task.cur.status)
    (ht : canTransition task.cur.status .success = true) :
    (∃ db', setStatusFuel cfg now levels db task .success eventType details =
        .ok (db', Instance.fresh task.id (movedTask now task.cur .success))) ↔
      (1 < levels ∨ levels = 1 ∧ (db.graph.set task.id .success).released task.id = ∅) := by
  have hgraph := graph_changed eventType details now hrow hst ht
  cases levels with
  | zero => exact iff_of_false (by rintro ⟨db', h⟩; cases h) (by rintro (h | ⟨h, -⟩) <;> omega)
  | succ n =>
    rw [setStatusFuel_ok_iff_cascade eventType details n hrow hst ht,
      cascade_success_iff (hfk.of_graph hgraph), hgraph]
    constructor
    · rintro (hn | hnone)
      · exact .inl (Nat.succ_lt_succ hn)
      · rcases Nat.eq_zero_or_pos n with rfl | hn
        · exact .inr ⟨rfl, hnone⟩
        · exact .inl (Nat.succ_lt_succ hn)
    · rintro (hn | ⟨-, hnone⟩)
      · exact .inl (Nat.lt_of_succ_lt_succ hn)
      · exact .inr hnone

/-- What keeps a status change from returning is a `RecursionError`. -/
theorem setStatusFuel_overflow (hrow : db.tasks.get task.id = some row)
    (hst : task.loaded.status = task.cur.status)
    (ht : canTransition task.cur.status new = true)
    (h : ¬ ∃ db', setStatusFuel cfg now levels db task new eventType details =
      .ok (db', Instance.fresh task.id (movedTask now task.cur new))) :
    setStatusFuel cfg now levels db task new eventType details = .error .recursion := by
  cases levels with
  | zero => rfl
  | succ n =>
    rw [setStatusFuel_succ n eventType details hrow hst ht] at h ⊢
    cases hcascade : cascade cfg now n _ task.id new with
    | ok db' =>
      rw [hcascade] at h
      exact absurd ⟨db', rfl⟩ h
    | error e =>
      rw [cascade_error hcascade]
      rfl

end

/-- Every call takes a task out of `created`, so the number of tasks bounds the depth. -/
theorem not_deep_of_next {db : Database} {levels : Nat} (h : db.tasks.next < levels)
    (id : TaskId) : ¬ db.graph.Deep levels id := by
  have hsub : db.graph.created \ {id} ⊆ Set.Iio db.tasks.next := by
    rintro i ⟨hi, -⟩
    obtain ⟨row, hrow, -⟩ := graph_created.mp hi
    exact Table.get_lt hrow
  have hfinite : (Set.Iio db.tasks.next).Finite := Set.finite_Iio _
  intro hdeep
  have hle := hdeep.le_ncard (hfinite.subset hsub)
  have hmono := Set.ncard_le_ncard hsub hfinite
  rw [Set.ncard_Iio_nat] at hmono
  exact absurd (hle.trans hmono) (Nat.not_le_of_lt h)

/-- A task that waits for the given one alone. -/
def waitingSpec (parent : TaskId) : TaskSpec := { plainSpec with dependsOn := some [parent] }

/-- A task and a chain of `n` tasks below it, each of which waits for the one before. -/
def chainRun : Nat → List Action
  | 0 => [.createTask 0 plainSpec]
  | n + 1 => chainRun n ++ [.createTask 0 (waitingSpec (n + 1))]

def chainDb (n : Nat) : Database := (Platform.after .default (chainRun n)).db

structure IsChain (n : Nat) (db : Database) : Prop where
  next : db.tasks.next = n + 2
  head : db.graph.status 1 = some .queued
  below : ∀ k < n, db.graph.status (k + 2) = some .created
  deps : db.deps = (List.range n).map fun k => ⟨k + 1, k + 2⟩

theorem chainDb_foreignKeys (n : Nat) : (chainDb n).ForeignKeys :=
  (Platform.after_sound .default (chainRun n)).foreignKeys

theorem IsChain.row {n : Nat} {db : Database} (h : IsChain n db) :
    ∃ row, db.tasks.get 1 = some row ∧ row.status = .queued :=
  Option.map_eq_some_iff.mp h.head

theorem IsChain.next_task {n : Nat} {db : Database} (h : IsChain n db) (hfk : db.ForeignKeys) :
    ∃ db', createTask .default 0 db (waitingSpec (n + 1)) = .ok (db', n + 2) ∧
      IsChain (n + 1) db' := by
  have hparent : n + 1 ∈ db.keys.map Prod.fst := by
    rw [← isSome_get_iff]
    have hstatus : (db.graph.status (n + 1)).isSome := by
      cases n with
      | zero => rw [h.head]; rfl
      | succ n => rw [h.below n (Nat.lt_succ_self n)]; rfl
    simpa [Database.graph] using hstatus
  have hcreatable : (waitingSpec (n + 1)).Creatable (db.keys.map Prod.fst) :=
    ⟨fun p hp => List.mem_singleton.mp hp ▸ hparent, fun _ => rfl⟩
  have hkey : keyTaken db (waitingSpec (n + 1)).idempotencyKey = false := rfl
  obtain ⟨htaken, -⟩ | ⟨-, -, db', hcreate, -⟩ | ⟨-, hnot, -⟩ :=
    createTask_cases .default 0 hfk (waitingSpec (n + 1))
  · rw [hkey] at htaken
    cases htaken
  · obtain ⟨rfl, -⟩ := createTask_blocked (List.cons_ne_nil _ _) rfl hcreate
    rw [h.next] at hcreate
    refine ⟨_, hcreate, ?_⟩
    have hstatus : ((waitingSpec (n + 1)).blocked .default 0 [n + 1] db).graph.status =
        (db.graph.set (n + 2) .created).status := by
      rw [← h.next, ← graph_insertTask .default 0 db (waitingSpec (n + 1))]
      rfl
    refine ⟨congrArg (· + 1) h.next, ?_, fun k hk => ?_, ?_⟩
    · rw [hstatus, Graph.set_status_of_ne _ _ (Nat.ne_of_lt (Nat.lt_add_left n Nat.one_lt_two))]
      exact h.head
    · rw [hstatus]
      rcases Nat.lt_succ_iff_lt_or_eq.mp hk with hk | rfl
      · rw [Graph.set_status_of_ne _ _ (Nat.ne_of_lt (Nat.add_lt_add_right hk 2))]
        exact h.below k hk
      · rw [Graph.set_status_self]
    · rw [List.range_succ, List.map_append, ← h.deps]
      show db.deps ++ [⟨n + 1, db.tasks.next⟩] = db.deps ++ [⟨n + 1, n + 2⟩]
      rw [h.next]
  · exact absurd hcreatable hnot

theorem chainDb_isChain (n : Nat) : IsChain n (chainDb n) := by
  induction n with
  | zero =>
    exact ⟨rfl, rfl, fun k hk => absurd hk (Nat.not_lt_zero k), rfl⟩
  | succ n ih =>
    obtain ⟨db', hcreate, hchain⟩ := ih.next_task (chainDb_foreignKeys n)
    have hdb : chainDb (n + 1) = db' := by
      rw [chainDb, chainRun, Platform.after, run_append]
      exact congrArg (commitCreated (chainDb n)) hcreate
    rw [hdb]
    exact hchain

theorem chain_childrenOf {n k : Nat} (h : k < n) :
    (chainDb n).graph.childrenOf (k + 1) = [k + 2] := by
  have hparent : (List.range n).filter ((fun d => d.parentTaskId == k + 1) ∘
      fun i => (⟨i + 1, i + 2⟩ : TaskDependency)) = [k] := by
    rw [List.filter_congr (q := fun i => i == k) fun i _ => by simp, List.filter_beq,
      List.count_eq_one_of_mem List.nodup_range (List.mem_range.mpr h)]
    rfl
  rw [Graph.childrenOf, show (chainDb n).graph.edges = _ from (chainDb_isChain n).deps,
    List.filter_map, hparent]
  rfl

/-- Cancelling the head of a chain nests as many calls as there are tasks below it. -/
theorem chain_deep {n levels : Nat} (h : levels ≤ n) : (chainDb n).graph.Deep levels 1 := by
  refine Nested.of_le h (nested_of_path (f := fun k => k + 1) ?_ ?_ ?_)
  · exact fun a b hab => Nat.succ_injective hab
  · exact fun k hk => chain_childrenOf hk
  · exact fun k hk => ⟨(chainDb_isChain n).below k hk, fun he => by cases he⟩

section

variable {cfg : Settings} {now : Time} {db : Database} {task : Instance} {row : Task}
  {new : Status} (eventType : EventType) (details : Option Details) (levels : Nat)

/-- `set_status` to a terminal status has its exact effect, exactly if the stack has room for its
cascade. -/
theorem finished_effect_iff (hfk : db.ForeignKeys) (hrow : db.tasks.get task.id = some row)
    (hst : task.loaded.status = task.cur.status)
    (ht : canTransition task.cur.status new = true) (hnew : new ∈ terminal) :
    (∃ db', setStatusFuel cfg now levels db task new eventType details =
          .ok (db', Instance.fresh task.id (movedTask now task.cur new)) ∧
        Finished task.id task.cur.status new db db') ↔
      db.graph.Room levels task.id new := by
  have hok : (∃ db', setStatusFuel cfg now levels db task new eventType details =
      .ok (db', Instance.fresh task.id (movedTask now task.cur new))) ↔
      db.graph.Room levels task.id new := by
    rw [Graph.Room]
    split
    · rename_i hs
      subst hs
      exact setStatusFuel_success_iff eventType details levels hfk hrow hst ht
    · rename_i hne
      exact setStatusFuel_failure_iff eventType details levels hrow hst ht hnew hne
  rw [← hok]
  exact exists_congr fun db' =>
    and_iff_left_of_imp fun hset => setStatusFuel_finished hfk hrow hst ht hnew hset

end

theorem finished_effect_iff_chainRun : ∃ row, (chainDb 2).tasks.get 1 = some row ∧
    ∃ db', setStatusFuel .default 3 5 (chainDb 2) (Instance.fresh 1 row) .cancelled .cancelled none =
        .ok (db', Instance.fresh 1 (movedTask 3 row .cancelled)) ∧
      ((chainDb 2).entry 3).Cancelled (db'.entry 3) := by
  have hchain := chainDb_isChain 2
  obtain ⟨row, hrow, hqueued⟩ := hchain.row
  have hedge : ∀ k < 2, (chainDb 2).graph.Edge (k + 1) (k + 2) := by
    intro k hk
    rw [Graph.Edge, show (chainDb 2).graph.edges = _ from hchain.deps]
    exact List.mem_map_of_mem (List.mem_range.mpr hk)
  have hdoomed : 3 ∈ (chainDb 2).graph.doomed 1 :=
    .tail (.single ⟨hedge 0 (by decide), hchain.below 0 (by decide)⟩)
      ⟨hedge 1 (by decide), hchain.below 1 (by decide)⟩
  have hroom : (chainDb 2).graph.Room 5 1 .cancelled :=
    not_deep_of_next (by rw [hchain.next]; decide) 1
  have hobject : (chainDb 2).tasks.get (Instance.fresh 1 row).id = some row := hrow
  have ht : canTransition row.status .cancelled = true := by rw [hqueued]; rfl
  obtain ⟨db', hset, hfinished⟩ := (finished_effect_iff .cancelled none 5 (chainDb_foreignKeys 2)
    hobject rfl ht (by decide)).mpr hroom
  have hother : (3 : TaskId) ≠ 1 := by decide
  exact ⟨row, hrow, db', hset, ((hfinished.failure (by decide)).2 3 hother).1 hdoomed⟩

/-- The interpreter's stack ends before a chain of 260 tasks does. -/
theorem long_chain_never_finishes : ∃ row, (chainDb 260).tasks.get 1 = some row ∧
    canTransition row.status .cancelled = true ∧ ∀ levels ≤ 250,
      setStatusFuel .default 3 levels (chainDb 260) (Instance.fresh 1 row) .cancelled .cancelled
        none = .error .recursion := by
  obtain ⟨row, hrow, hqueued⟩ := (chainDb_isChain 260).row
  have hobject : (chainDb 260).tasks.get (Instance.fresh 1 row).id = some row := hrow
  have ht : canTransition row.status .cancelled = true := by rw [hqueued]; rfl
  refine ⟨row, hrow, ht, fun levels hlevels => ?_⟩
  have hdeep : (chainDb 260).graph.Deep levels 1 := chain_deep (hlevels.trans (by decide))
  refine setStatusFuel_overflow .cancelled none levels hobject rfl ht ?_
  rw [setStatusFuel_failure_iff .cancelled none levels hobject rfl ht (by decide) (by decide)]
  exact not_not.mpr hdeep

end TaskPlatform
