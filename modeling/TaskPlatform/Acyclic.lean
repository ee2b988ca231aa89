import TaskPlatform.OperatorTrace

/-!
# The cycle check

`_ensure_no_cycle` walks up from the new parents. Its worklist grows while it
runs; what bounds the walk are the edges above tasks that were not expanded yet,
and what makes it exact is that every parent of an expanded task is expanded or
still on the list. An accepted registration therefore keeps the graph acyclic.
-/

namespace TaskPlatform

open Relation

/-- `task_dependencies` followed from the child to the parent. -/
def Database.Above (db : Database) (child parent : TaskId) : Prop := ⟨parent, child⟩ ∈ db.deps

def Database.Acyclic (db : Database) : Prop := ∀ i, ¬ TransGen db.Above i i

/-- The edges above tasks that are not expanded. -/
def Database.edgesLeft (db : Database) (seen : List TaskId) : Nat :=
  (db.deps.filter (fun d => decide (d.childTaskId ∉ seen))).length

/-- Expanding a task takes exactly its edges away. -/
theorem edgesLeft_cons (db : Database) {seen : List TaskId} {i : TaskId} (h : i ∉ seen) :
    db.edgesLeft seen = (db.parentsOf i).length + db.edgesLeft (i :: seen) := by
  unfold Database.edgesLeft Database.parentsOf
  induction db.deps with
  | nil => rfl
  | cons d deps ih =>
    rw [List.length_map] at ih ⊢
    by_cases hi : d.childTaskId = i
    · rw [List.filter_cons_of_pos (by simpa [hi] using h), List.filter_cons_of_pos (by simp [hi]),
        List.filter_cons_of_neg (by simp [hi]), List.length_cons, List.length_cons, ih]
      omega
    · by_cases hseen : d.childTaskId ∈ seen
      · rw [List.filter_cons_of_neg (by simpa using hseen),
          List.filter_cons_of_neg (by simpa using hi), List.filter_cons_of_neg (by simp [hseen]), ih]
      · rw [List.filter_cons_of_pos (by simpa using hseen),
          List.filter_cons_of_neg (by simpa using hi),
          List.filter_cons_of_pos (by simp [hi, hseen]), List.length_cons, List.length_cons, ih]
        omega

/-- What the loop knows of the tasks that it expanded. -/
structure Expanded (db : Database) (taskId : TaskId) (seen queue : List TaskId) : Prop where
  other : taskId ∉ seen
  parents : ∀ c ∈ seen, ∀ p ∈ db.parentsOf c, p ≠ taskId ∧ (p ∈ seen ∨ p ∈ queue)

/-- A way from an expanded task to the task of the check leads over the worklist. -/
theorem Expanded.exit {db : Database} {taskId : TaskId} {seen queue : List TaskId}
    (h : Expanded db taskId seen queue) {c : TaskId} (hc : c ∈ seen)
    (hreach : ReflTransGen db.Above c taskId) :
    ∃ q ∈ queue, ReflTransGen db.Above q taskId := by
  induction hreach using ReflTransGen.head_induction_on with
  | refl => exact absurd hc h.other
  | @head c p hstep hrest ih =>
    obtain ⟨-, hseen | hqueue⟩ := h.parents c hc p ((db.mem_parentsOf p c).mpr hstep)
    · exact ih hseen
    · exact ⟨p, hqueue, hrest⟩

/-- An entry that was expanded before is dropped. -/
theorem Expanded.drop {db : Database} {taskId current : TaskId} {seen queue : List TaskId}
    (h : Expanded db taskId seen (current :: queue)) (hseen : current ∈ seen) :
    Expanded db taskId seen queue where
  other := h.other
  parents := by
    intro c hc p hp
    obtain ⟨hne, hs | hq⟩ := h.parents c hc p hp
    · exact ⟨hne, .inl hs⟩
    · rcases List.mem_cons.mp hq with rfl | hq
      · exact ⟨hne, .inl hseen⟩
      · exact ⟨hne, .inr hq⟩

/-- An entry is expanded: its parents get onto the worklist. -/
theorem Expanded.expand {db : Database} {taskId current : TaskId} {seen queue : List TaskId}
    (h : Expanded db taskId seen (current :: queue)) (hself : current ≠ taskId)
    (hparent : taskId ∉ db.parentsOf current) :
    Expanded db taskId (current :: seen) ((db.parentsOf current).reverse ++ queue) where
  other := by
    intro hmem
    rcases List.mem_cons.mp hmem with he | hmem
    · exact hself he.symm
    · exact h.other hmem
  parents := by
    intro c hc p hp
    rcases List.mem_cons.mp hc with rfl | hc
    · refine ⟨?_, .inr (List.mem_append_left _ (List.mem_reverse.mpr hp))⟩
      rintro rfl
      exact hparent hp
    · obtain ⟨hne, hs | hq⟩ := h.parents c hc p hp
      · exact ⟨hne, .inl (List.mem_cons_of_mem _ hs)⟩
      · rcases List.mem_cons.mp hq with rfl | hq
        · exact ⟨hne, .inl List.mem_cons_self⟩
        · exact ⟨hne, .inr (List.mem_append_right _ hq)⟩

/-- Expanding an entry changes none of the answers that the worklist can give. -/
theorem reach_expand {db : Database} {taskId current : TaskId} (queue : List TaskId)
    (hself : current ≠ taskId) :
    (∃ q ∈ (db.parentsOf current).reverse ++ queue, ReflTransGen db.Above q taskId) ↔
      ∃ q ∈ current :: queue, ReflTransGen db.Above q taskId := by
  constructor
  · rintro ⟨q, hq, hreach⟩
    rcases List.mem_append.mp hq with hq | hq
    · have hstep : db.Above current q := (db.mem_parentsOf q current).mp (List.mem_reverse.mp hq)
      exact ⟨current, List.mem_cons_self, .head hstep hreach⟩
    · exact ⟨q, List.mem_cons_of_mem _ hq, hreach⟩
  · rintro ⟨q, hq, hreach⟩
    rcases List.mem_cons.mp hq with rfl | hq
    · obtain he | ⟨p, hstep, hrest⟩ := hreach.cases_head
      · exact absurd he hself
      · refine ⟨p, List.mem_append_left _ (List.mem_reverse.mpr ?_), hrest⟩
        exact (db.mem_parentsOf p q).mpr hstep
    · exact ⟨q, List.mem_append_right _ hq, hreach⟩

/-- The loop ends, with the conflict exactly if some entry leads up to the task. -/
theorem ensureNoCycleLoop_eq {db : Database} {taskId : TaskId} (fuel : Nat)
    {seen queue : List TaskId} (h : Expanded db taskId seen queue)
    (hfuel : queue.length + db.edgesLeft seen ≤ fuel) :
    ((∃ q ∈ queue, ReflTransGen db.Above q taskId) ∧
      ensureNoCycleLoop db taskId fuel seen queue = .error (.taskConflict cycleMessage)) ∨
    ((∀ q ∈ queue, ¬ ReflTransGen db.Above q taskId) ∧
      ensureNoCycleLoop db taskId fuel seen queue = .ok ()) := by
  induction fuel generalizing seen queue with
  | zero =>
    cases queue with
    | nil => exact .inr ⟨by simp, rfl⟩
    | cons current queue => simp at hfuel
  | succ fuel ih =>
    cases queue with
    | nil => exact .inr ⟨by simp, rfl⟩
    | cons current queue =>
      rw [List.length_cons] at hfuel
      unfold ensureNoCycleLoop
      by_cases hself : current = taskId
      · exact .inl ⟨⟨current, List.mem_cons_self, by rw [hself]⟩, if_pos hself⟩
      rw [if_neg hself]
      by_cases hseen : current ∈ seen
      · rw [if_pos hseen]
        have hnext := h.drop hseen
        obtain ⟨⟨q, hq, hreach⟩, hloop⟩ | ⟨hnone, hloop⟩ := ih hnext (by omega)
        · exact .inl ⟨⟨q, List.mem_cons_of_mem _ hq, hreach⟩, hloop⟩
        · refine .inr ⟨fun q hq hreach => ?_, hloop⟩
          rcases List.mem_cons.mp hq with rfl | hq
          · obtain ⟨p, hp, hp'⟩ := hnext.exit hseen hreach
            exact hnone p hp hp'
          · exact hnone q hq hreach
      rw [if_neg hseen]
      by_cases hparent : taskId ∈ db.parentsOf current
      · have hstep : db.Above current taskId := (db.mem_parentsOf taskId current).mp hparent
        exact .inl ⟨⟨current, List.mem_cons_self, .single hstep⟩, if_pos hparent⟩
      rw [if_neg hparent]
      have hleft := edgesLeft_cons db hseen
      have hlength : ((db.parentsOf current).reverse ++ queue).length +
          db.edgesLeft (current :: seen) ≤ fuel := by
        rw [List.length_append, List.length_reverse]
        omega
      obtain ⟨hsome, hloop⟩ | ⟨hnone, hloop⟩ := ih (h.expand hself hparent) hlength
      · exact .inl ⟨(reach_expand queue hself).mp hsome, hloop⟩
      · refine .inr ⟨fun q hq hreach => ?_, hloop⟩
        obtain ⟨p, hp, hp'⟩ := (reach_expand queue hself).mpr ⟨q, hq, hreach⟩
        exact hnone p hp hp'

/-- The cycle check decides whether a parent is the task or leads up to it. -/
theorem ensureNoCycle_eq (db : Database) (taskId : TaskId) (parentIds : List TaskId) :
    ((∃ p ∈ parentIds, ReflTransGen db.Above p taskId) ∧
      ensureNoCycle db taskId parentIds = .error (.taskConflict cycleMessage)) ∨
    ((∀ p ∈ parentIds, ¬ ReflTransGen db.Above p taskId) ∧
      ensureNoCycle db taskId parentIds = .ok ()) := by
  have hstart : Expanded db taskId [] parentIds.reverse :=
    ⟨List.not_mem_nil, fun c hc => absurd hc List.not_mem_nil⟩
  have hfuel : parentIds.reverse.length + db.edgesLeft [] ≤ parentIds.length + db.deps.length := by
    simp [Database.edgesLeft]
  have hloop := ensureNoCycleLoop_eq _ hstart hfuel
  simp only [List.mem_reverse] at hloop
  exact hloop

/-- A cycle through the new edges would lead from a parent up to the task already before. -/
theorem acyclic_append {db : Database} {id : TaskId} {parents : List TaskId} (h : db.Acyclic)
    (hnew : ∀ p ∈ parents, ¬ ReflTransGen db.Above p id) :
    ({ db with deps := db.deps ++ parents.map (fun p => ⟨p, id⟩) } : Database).Acyclic := by
  let db' : Database := { db with deps := db.deps ++ parents.map (fun p => ⟨p, id⟩) }
  have harc : ∀ c p, db'.Above c p → db.Above c p ∨ c = id ∧ p ∈ parents := by
    intro c p hstep
    rcases List.mem_append.mp hstep with hold | hadded
    · exact .inl hold
    · obtain ⟨q, hq, he⟩ := List.mem_map.mp hadded
      cases he
      exact .inr ⟨rfl, hq⟩
  -- until it takes a new edge a path is a path of the old graph
  have hpath : ∀ c p, ReflTransGen db'.Above c p →
      ReflTransGen db.Above c p ∨ ReflTransGen db.Above c id := by
    intro c p hreach
    induction hreach with
    | refl => exact .inl .refl
    | tail _ hstep ih =>
      obtain hold | hid := ih
      · obtain hstep | ⟨rfl, -⟩ := harc _ _ hstep
        · exact .inl (hold.tail hstep)
        · exact .inr hold
      · exact .inr hid
  have hcycle : ∀ i j, TransGen db'.Above i j → TransGen db.Above i j ∨
      ReflTransGen db.Above i id ∧ ∃ p ∈ parents, ReflTransGen db'.Above p j := by
    intro i j hij
    induction hij with
    | single hstep =>
      obtain hstep | ⟨rfl, hp⟩ := harc _ _ hstep
      · exact .inl (.single hstep)
      · exact .inr ⟨.refl, _, hp, .refl⟩
    | tail _ hstep ih =>
      obtain hold | ⟨hid, p, hp, hrest⟩ := ih
      · obtain hstep | ⟨rfl, hp⟩ := harc _ _ hstep
        · exact .inl (hold.tail hstep)
        · exact .inr ⟨hold.to_reflTransGen, _, hp, .refl⟩
      · exact .inr ⟨hid, p, hp, hrest.tail hstep⟩
  intro i hi
  obtain hold | ⟨hid, p, hp, hrest⟩ := hcycle i i hi
  · exact h i hold
  · obtain hold | hold := hpath p i hrest
    · exact hnew p hp (hold.trans hid)
    · exact hnew p hp hold

/-- An edge violates its primary key, or a foreign key. -/
def Database.Refuses (db : Database) (d : TaskDependency) : Prop :=
  d ∈ db.deps ∨ db.tasks.get d.parentTaskId = none ∨ db.tasks.get d.childTaskId = none

theorem insertEdges_cases (db : Database) (edges : List TaskDependency) :
    ((∃ d ∈ edges, db.Refuses d) ∧ insertEdges db edges = .error .integrity) ∨
    ((∀ d ∈ edges, ¬ db.Refuses d) ∧
      insertEdges db edges = .ok { db with deps := db.deps ++ edges }) := by
  have hrefuses : (edges.any fun d => decide (d ∈ db.deps) ||
      (db.tasks.get d.parentTaskId).isNone || (db.tasks.get d.childTaskId).isNone) = true ↔
      ∃ d ∈ edges, db.Refuses d := by
    simp [Database.Refuses, or_assoc]
  unfold insertEdges
  split
  · rename_i hany
    exact .inl ⟨hrefuses.mp hany, rfl⟩
  · rename_i hany
    refine .inr ⟨fun d hd hrefused => ?_, rfl⟩
    exact hany (hrefuses.mpr ⟨d, hd, hrefused⟩)

/-- A registration is a conflict of its parents, an edge that the table refuses, or one new edge for
each parent. -/
theorem registerDependencies_cases (db : Database) (taskId : TaskId) (parentIds : List TaskId) :
    ((∃ message, registerDependencies db taskId parentIds = .error (.taskConflict message)) ∧
      ∃ p ∈ parentIds, p = taskId ∨ db.tasks.get p = none ∨ ReflTransGen db.Above p taskId) ∨
    (∀ p ∈ parentIds, p ≠ taskId ∧ (db.tasks.get p).isSome ∧ ¬ ReflTransGen db.Above p taskId) ∧
      ((registerDependencies db taskId parentIds = .error .integrity ∧
          ∃ p ∈ parentIds, ⟨p, taskId⟩ ∈ db.deps ∨ db.tasks.get taskId = none) ∨
        (registerDependencies db taskId parentIds =
            .ok { db with deps := db.deps ++ parentIds.eraseDups.map (fun p => ⟨p, taskId⟩) } ∧
          ∀ p ∈ parentIds, ⟨p, taskId⟩ ∉ db.deps ∧ (db.tasks.get taskId).isSome)) := by
  unfold registerDependencies
  simp only
  split
  · rename_i hself
    exact .inl ⟨⟨_, rfl⟩, taskId, List.mem_eraseDups.mp hself, .inl rfl⟩
  rename_i hself
  split
  · rename_i hmissing
    obtain ⟨p, hp⟩ := List.exists_mem_of_ne_nil _ hmissing
    obtain ⟨hp, hnone⟩ := List.mem_filter.mp hp
    exact .inl ⟨⟨_, rfl⟩, p, List.mem_eraseDups.mp hp, .inr (.inl (by simpa using hnone))⟩
  rename_i hmissing
  rw [not_not, List.filter_eq_nil_iff] at hmissing
  obtain ⟨⟨p, hp, hreach⟩, hcheck⟩ | ⟨hnone, hcheck⟩ :=
    ensureNoCycle_eq db taskId parentIds.eraseDups
  · rw [hcheck]
    exact .inl ⟨⟨_, rfl⟩, p, List.mem_eraseDups.mp hp, .inr (.inr hreach)⟩
  have hsome : ∀ p ∈ parentIds, (db.tasks.get p).isSome := by
    intro p hp
    simpa [Option.isSome_iff_ne_none] using hmissing p (List.mem_eraseDups.mpr hp)
  have hparents : ∀ p ∈ parentIds,
      p ≠ taskId ∧ (db.tasks.get p).isSome ∧ ¬ ReflTransGen db.Above p taskId := by
    intro p hp
    have hmem : p ∈ parentIds.eraseDups := List.mem_eraseDups.mpr hp
    exact ⟨fun he => hself (he ▸ hmem), hsome p hp, hnone p hmem⟩
  rw [hcheck]
  refine .inr ⟨hparents, ?_⟩
  obtain ⟨⟨d, hd, hrefused⟩, hinsert⟩ | ⟨hall, hinsert⟩ :=
    insertEdges_cases db (parentIds.eraseDups.map (fun p => ⟨p, taskId⟩))
  · obtain ⟨p, hp, rfl⟩ := List.mem_map.mp hd
    have hp := List.mem_eraseDups.mp hp
    refine .inl ⟨hinsert, p, hp, ?_⟩
    obtain hold | hparent | hchild := hrefused
    · exact .inl hold
    · exact absurd hparent (Option.isSome_iff_ne_none.mp (hsome p hp))
    · exact .inr hchild
  · refine .inr ⟨hinsert, fun p hp => ?_⟩
    have haccepted := hall ⟨p, taskId⟩ (List.mem_map.mpr ⟨p, List.mem_eraseDups.mpr hp, rfl⟩)
    refine ⟨fun hold => haccepted (.inl hold), ?_⟩
    exact Option.isSome_iff_ne_none.mpr fun hchild => haccepted (.inr (.inr hchild))

/-- The cycle check ends and is exact, and a registration keeps an acyclic graph acyclic and its
edges distinct, or adds nothing. -/
theorem cycle_check_exact (db : Database) (taskId : TaskId) (parentIds : List TaskId) :
    (ensureNoCycle db taskId parentIds = .error (.taskConflict cycleMessage) ↔
      ∃ p ∈ parentIds, ReflTransGen db.Above p taskId) ∧
    (ensureNoCycle db taskId parentIds = .error (.taskConflict cycleMessage) ∨
      ensureNoCycle db taskId parentIds = .ok ()) ∧
    (db.Acyclic →
      (∃ e, registerDependencies db taskId parentIds = .error e) ∨
      ∃ db' added, registerDependencies db taskId parentIds = .ok db' ∧
        db' = { db with deps := db.deps ++ added } ∧ added.Nodup ∧
        (∀ d, d ∈ added ↔ d.childTaskId = taskId ∧ d.parentTaskId ∈ parentIds) ∧
        (∀ d ∈ added, d ∉ db.deps) ∧ db'.Acyclic) := by
  refine ⟨?_, ?_, fun hacyclic => ?_⟩
  · obtain ⟨hreach, hcheck⟩ | ⟨hnone, hcheck⟩ := ensureNoCycle_eq db taskId parentIds
    · exact iff_of_true hcheck hreach
    · refine iff_of_false (by rw [hcheck]; intro h; cases h) ?_
      rintro ⟨p, hp, hreach⟩
      exact hnone p hp hreach
  · exact (ensureNoCycle_eq db taskId parentIds).imp And.right And.right
  · obtain ⟨⟨message, hconflict⟩, -⟩ | ⟨hparents, ⟨hrefused, -⟩ | ⟨hok, hnew⟩⟩ :=
      registerDependencies_cases db taskId parentIds
    · exact .inl ⟨_, hconflict⟩
    · exact .inl ⟨_, hrefused⟩
    · have hadded : ∀ d : TaskDependency, d ∈ parentIds.eraseDups.map (fun p => ⟨p, taskId⟩) ↔
          d.childTaskId = taskId ∧ d.parentTaskId ∈ parentIds := by
        rintro ⟨p, c⟩
        simp only [List.mem_map, List.mem_eraseDups, TaskDependency.mk.injEq]
        constructor
        · rintro ⟨q, hq, rfl, rfl⟩
          exact ⟨rfl, hq⟩
        · rintro ⟨rfl, hp⟩
          exact ⟨p, hp, rfl, rfl⟩
      refine .inr ⟨_, parentIds.eraseDups.map (fun p => ⟨p, taskId⟩), hok, rfl, ?_, hadded, ?_, ?_⟩
      · refine List.Nodup.map ?_ (nodup_eraseDups parentIds)
        intro p q he
        exact congrArg TaskDependency.parentTaskId he
      · rintro ⟨p, c⟩ hd
        obtain ⟨rfl, hp⟩ := (hadded _).mp hd
        exact (hnew p hp).1
      · exact acyclic_append hacyclic fun p hp => (hparents p (List.mem_eraseDups.mp hp)).2.2

end TaskPlatform
