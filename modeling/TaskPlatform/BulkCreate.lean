import TaskPlatform.Acyclic
import TaskPlatform.Batches
import TaskPlatform.Invariant

/-!
# Bulk creation

A creation fails for a taken key, which `bulk_create` catches, or for its
parents or its `schedule_at`, which it does not. So the whole request fails
exactly if some spec that is not a conflict names a parent that is missing when
its turn comes, or compares a time without a zone with the clock. A conflict
leaves a gap in the ids of the tasks that are created after it.
-/

namespace TaskPlatform

open Run Relation

/-- The ids of the tasks with their idempotency keys. -/
def Database.keys (db : Database) : List (TaskId × Option String) :=
  db.tasks.rows.map (fun r => (r.1, r.2.idempotencyKey))

theorem isSome_get_iff (db : Database) (i : TaskId) :
    (db.tasks.get i).isSome ↔ i ∈ db.keys.map Prod.fst := by
  rw [Option.isSome_iff_exists, Database.keys, List.map_map, List.mem_map]
  constructor
  · rintro ⟨row, hrow⟩
    exact ⟨(i, row), (db.tasks.get_eq_some_iff i row).mp hrow, rfl⟩
  · rintro ⟨⟨j, row⟩, hr, rfl⟩
    exact ⟨row, (db.tasks.get_eq_some_iff j row).mpr hr⟩

theorem keyTaken_iff (db : Database) (key : Option String) :
    keyTaken db key = true ↔ key.isSome ∧ key ∈ db.keys.map Prod.snd := by
  cases key with
  | none => simp [keyTaken]
  | some k =>
    rw [keyTaken, List.any_eq_true, Database.keys, List.map_map, List.mem_map]
    simp

/-- Rewriting a row without its key. -/
theorem keys_setTask {db : Database} {id : TaskId} {old : Task} (row : Task)
    (h : db.tasks.get id = some old) (hkey : row.idempotencyKey = old.idempotencyKey) :
    (db.setTask id row).keys = db.keys := by
  have hrows : ∀ r ∈ db.tasks.rows, (fun r : TaskId × Task => (r.1, r.2.idempotencyKey))
      (if r.1 = id then (r.1, row) else r) = (r.1, r.2.idempotencyKey) := by
    rintro ⟨j, task⟩ hr
    by_cases hj : j = id
    · subst hj
      have hget := (db.tasks.get_eq_some_iff j task).mpr hr
      rw [h, Option.some.injEq] at hget
      simp [hkey, hget]
    · simp [hj]
  simp only [Database.keys, Database.setTask, Table.modify, List.map_map]
  exact List.map_congr_left hrows

theorem keys_insertTask (cfg : Settings) (now : Time) (db : Database) (spec : TaskSpec) :
    (insertTask cfg now db spec).keys = db.keys ++ [(db.tasks.next, spec.idempotencyKey)] := by
  simp [Database.keys, insertTask, recordEvent, Table.insert, TaskSpec.row]

/-- The move of a new task keeps its key. -/
theorem keys_move_next (cfg : Settings) (now : Time) (db : Database) (spec : TaskSpec)
    (new : Status) (eventType : EventType) :
    ((insertTask cfg now db spec).move now db.tasks.next (spec.row cfg now) new eventType
      none).keys = db.keys ++ [(db.tasks.next, spec.idempotencyKey)] := by
  have hrow : (recordEvent now (insertTask cfg now db spec) db.tasks.next
      (spec.row cfg now).status eventType new none).tasks.get db.tasks.next =
      some (spec.row cfg now) := insertTask_get cfg now db spec
  have hkey : (movedTask now (spec.row cfg now) new).idempotencyKey =
      (spec.row cfg now).idempotencyKey := by
    simp [movedTask, Task.touch, setStatusFields_eq]
  rw [← keys_insertTask cfg now db spec]
  exact keys_setTask _ hrow hkey

/-- What a creation needs: its parents, or a `schedule_at` that can be compared with the clock. -/
def TaskSpec.Creatable (spec : TaskSpec) (ids : List TaskId) : Prop :=
  (∀ p ∈ spec.dependsOn.getD [], p ∈ ids) ∧
    (spec.dependsOn.getD [] = [] → spec.incomparable = false)

/-- The database has one task more, the new one. -/
structure CreatedBy (db : Database) (spec : TaskSpec) (db' : Database) : Prop where
  keys : db'.keys = db.keys ++ [(db.tasks.next, spec.idempotencyKey)]
  next : db'.tasks.next = db.tasks.next + 1

/-- A new task is above no other. -/
theorem Database.ForeignKeys.not_above_next {db : Database} (h : db.ForeignKeys) {p : TaskId}
    (hp : p ≠ db.tasks.next) : ¬ ReflTransGen db.Above p db.tasks.next := by
  intro hreach
  obtain he | ⟨c, -, hstep⟩ := ReflTransGen.cases_tail hreach
  · exact hp he.symm
  · have hparent := (h _ hstep).1
    rw [Table.get_of_le (le_refl _)] at hparent
    cases hparent

/-- The parents of a new task are registered exactly if they exist. -/
theorem registerDependencies_new (cfg : Settings) (now : Time) {db : Database}
    (hfk : db.ForeignKeys) (spec : TaskSpec) (parents : List TaskId) :
    ((∃ message, registerDependencies (insertTask cfg now db spec) db.tasks.next parents =
        .error (.taskConflict message)) ∧ ¬ ∀ p ∈ parents, (db.tasks.get p).isSome) ∨
    ((∀ p ∈ parents, (db.tasks.get p).isSome) ∧
      registerDependencies (insertTask cfg now db spec) db.tasks.next parents =
        .ok { insertTask cfg now db spec with
          deps := db.deps ++ parents.eraseDups.map (fun p => ⟨p, db.tasks.next⟩) }) := by
  have hget : ∀ p, p ≠ db.tasks.next →
      (insertTask cfg now db spec).tasks.get p = db.tasks.get p := by
    intro p hp
    simp only [insertTask, recordEvent, Table.get_insert, hp, if_false]
  have hnone : db.tasks.get db.tasks.next = none := Table.get_of_le (le_refl _)
  obtain ⟨hconflict, p, hp, hbad⟩ | ⟨hparents, ⟨-, p, hp, hrefused⟩ | ⟨hok, -⟩⟩ :=
    registerDependencies_cases (insertTask cfg now db spec) db.tasks.next parents
  · refine .inl ⟨hconflict, fun hall => ?_⟩
    have hsome := hall p hp
    have hne : p ≠ db.tasks.next := by
      rintro rfl
      rw [hnone] at hsome
      cases hsome
    obtain hself | hmissing | hreach := hbad
    · exact hne hself
    · rw [hget p hne] at hmissing
      rw [hmissing] at hsome
      cases hsome
    · exact hfk.not_above_next hne hreach
  · -- the row of the child is new
    obtain hold | hmissing := hrefused
    · have hchild := (hfk _ hold).2
      rw [hnone] at hchild
      cases hchild
    · rw [insertTask_get] at hmissing
      cases hmissing
  · refine .inr ⟨fun p hp => ?_, hok⟩
    obtain ⟨hne, hsome, -⟩ := hparents p hp
    rw [← hget p hne]
    exact hsome

/-- A creation without parents succeeds if its time has a zone. -/
theorem createTask_free (cfg : Settings) (now : Time) {db : Database} {spec : TaskSpec}
    (hkey : keyTaken db spec.idempotencyKey = false) (hdep : spec.dependsOn.getD [] = [])
    (hzone : spec.incomparable = false) :
    ∃ db', createTask cfg now db spec = .ok (db', db.tasks.next) ∧ CreatedBy db spec db' := by
  have hrow := insertTask_get cfg now db spec
  have hfree : spec.dependsOn = none ∨ spec.dependsOn = some [] := by
    cases hd : spec.dependsOn with
    | none => exact .inl rfl
    | some parents =>
      rw [hd] at hdep
      exact .inr (congrArg some hdep)
  have hset : ∀ new eventType, canTransition .created new = true → new ∉ terminal →
      setStatus cfg now (insertTask cfg now db spec)
        (Instance.fresh db.tasks.next (spec.row cfg now)) new eventType none =
      .ok ((insertTask cfg now db spec).move now db.tasks.next (spec.row cfg now) new eventType
        none, Instance.fresh db.tasks.next (movedTask now (spec.row cfg now) new)) :=
    fun new eventType ht hn => setStatusFuel_fresh _ _ _ hrow rfl ht hn
  have hkeys := keys_move_next cfg now db spec
  unfold createTask
  simp only [hkey, hzone, Bool.false_eq_true, if_false]
  by_cases hat : (spec.scheduleAt.any fun t => decide (now < t)) = true
  · refine ⟨_, ?_, hkeys .scheduled .scheduled, rfl⟩
    obtain hd | hd := hfree <;>
      simp only [hd, hat, if_true, hset .scheduled .scheduled rfl (by decide)] <;> rfl
  · refine ⟨addOutbox cfg ((insertTask cfg now db spec).move now db.tasks.next (spec.row cfg now)
      .queued .queued none) db.tasks.next (movedTask now (spec.row cfg now) .queued) false, ?_,
      hkeys .queued .queued, rfl⟩
    obtain hd | hd := hfree <;>
      simp only [hd, hat, Bool.false_eq_true, if_false,
        hset .queued .queued rfl (by decide)] <;> rfl

/-- How a creation ends. -/
theorem createTask_cases (cfg : Settings) (now : Time) {db : Database} (hfk : db.ForeignKeys)
    (spec : TaskSpec) :
    (keyTaken db spec.idempotencyKey = true ∧ createTask cfg now db spec = .error .integrity) ∨
    (keyTaken db spec.idempotencyKey = false ∧ spec.Creatable (db.keys.map Prod.fst) ∧
      ∃ db', createTask cfg now db spec = .ok (db', db.tasks.next) ∧ CreatedBy db spec db') ∨
    (keyTaken db spec.idempotencyKey = false ∧ ¬ spec.Creatable (db.keys.map Prod.fst) ∧
      ∃ e, e ≠ .integrity ∧ createTask cfg now db spec = .error e) := by
  cases hkey : keyTaken db spec.idempotencyKey with
  | true => exact .inl ⟨rfl, by simp only [createTask, hkey, if_true]⟩
  | false =>
    refine .inr ?_
    cases hparents : spec.dependsOn.getD [] with
    | nil =>
      cases hzone : spec.incomparable with
      | false =>
        refine .inl ⟨rfl, ⟨?_, fun _ => hzone⟩, createTask_free cfg now hkey hparents hzone⟩
        rw [hparents]
        exact fun p hp => absurd hp List.not_mem_nil
      | true =>
        refine .inr ⟨rfl, ?_, .typeError, by decide, ?_⟩
        · rintro ⟨-, h⟩
          rw [h hparents] at hzone
          cases hzone
        · simp only [createTask, hkey, Bool.false_eq_true, if_false, hzone, if_true]
          split
          · rename_i p ps hdep
            rw [hdep] at hparents
            cases hparents
          · rfl
    | cons p ps =>
      have hdep : spec.dependsOn = some (p :: ps) := by
        cases hd : spec.dependsOn with
        | none =>
          rw [hd] at hparents
          cases hparents
        | some parents =>
          rw [hd] at hparents
          exact congrArg some hparents
      have hcreatable : spec.Creatable (db.keys.map Prod.fst) ↔
          ∀ q ∈ p :: ps, (db.tasks.get q).isSome := by
        rw [TaskSpec.Creatable, hparents, and_iff_left fun h => by cases h]
        exact forall₂_congr fun q _ => (isSome_get_iff db q).symm
      obtain ⟨⟨message, hconflict⟩, hbad⟩ | ⟨hall, hregistered⟩ :=
        registerDependencies_new cfg now hfk spec (p :: ps)
      · refine .inr ⟨rfl, fun h => hbad (hcreatable.mp h), .taskConflict message, ?_, ?_⟩
        · intro he
          cases he
        · simp only [createTask, hkey, Bool.false_eq_true, if_false, hdep, hconflict]
          rfl
      · refine .inl ⟨rfl, hcreatable.mpr hall, spec.blocked cfg now (p :: ps) db, ?_,
          keys_insertTask cfg now db spec, rfl⟩
        simp only [createTask, hkey, Bool.false_eq_true, if_false, hdep, hregistered]
        rfl

theorem createTask_foreignKeys {cfg : Settings} {now : Time} {db db' : Database} {spec : TaskSpec}
    {id : TaskId} (hfk : db.ForeignKeys) (h : createTask cfg now db spec = .ok (db', id)) :
    db'.ForeignKeys := by
  obtain ⟨ls, htr, -⟩ := createTask_trace hfk h
  exact htr.invariant (P := Database.ForeignKeys) (Q := fun _ => True)
    (fun _ _ _ hp _ hc => hc.foreignKeys hp) (fun _ _ => trivial) hfk

/-- What became of each spec, `true` for a created task. -/
abbrev Turns : Type := List (TaskSpec × Bool)

def Turns.created (turns : Turns) : List TaskSpec := (turns.filter (·.2)).map Prod.fst

def Turns.conflicts (turns : Turns) : List TaskSpec := (turns.filter (fun t => !t.2)).map Prod.fst

/-- The created specs one after the other, each with the id that the sequence has for it: a conflict
has drawn an id too. -/
def createMarked (cfg : Settings) (now : Time) (db : Database) :
    Turns → Except TaskError (Database × List TaskId)
  | [] => .ok (db, [])
  | (_, false) :: turns => createMarked cfg now db.skipTaskId turns
  | (spec, true) :: turns => do
    let (db, id) ← createTask cfg now db spec
    let (db, ids) ← createMarked cfg now db turns
    return (db, id :: ids)

/-- The specs one after the other, with no failure among them. -/
def createEach (cfg : Settings) (now : Time) (db : Database) :
    List TaskSpec → Except TaskError (Database × List TaskId)
  | [] => .ok (db, [])
  | spec :: specs => do
    let (db, id) ← createTask cfg now db spec
    let (db, ids) ← createEach cfg now db specs
    return (db, id :: ids)

/-- The key of the spec belongs to a task. -/
def TaskSpec.Taken (spec : TaskSpec) (keys : List (TaskId × Option String)) : Prop :=
  spec.idempotencyKey.isSome ∧ spec.idempotencyKey ∈ keys.map Prod.snd

instance (spec : TaskSpec) (keys : List (TaskId × Option String)) : Decidable (spec.Taken keys) := by
  unfold TaskSpec.Taken; infer_instance

/-- Of tasks with these ids and keys and of the next id: a spec is a conflict if its key is taken
when its turn comes. -/
def bulkTurns : List (TaskId × Option String) → TaskId → List TaskSpec → Turns
  | _, _, [] => []
  | keys, next, spec :: specs =>
    if spec.Taken keys then (spec, false) :: bulkTurns keys (next + 1) specs
    else (spec, true) :: bulkTurns (keys ++ [(next, spec.idempotencyKey)]) (next + 1) specs

/-- Every spec whose key is free when its turn comes can be created then. -/
def CreatableInTurn : List (TaskId × Option String) → TaskId → List TaskSpec → Prop
  | _, _, [] => True
  | keys, next, spec :: specs =>
    if spec.Taken keys then CreatableInTurn keys (next + 1) specs
    else spec.Creatable (keys.map Prod.fst) ∧
      CreatableInTurn (keys ++ [(next, spec.idempotencyKey)]) (next + 1) specs

/-- No spec is created after a conflict. -/
def Turns.ConflictsLast (turns : Turns) : Prop := turns.Pairwise (fun x y => y.2 = true → x.2 = true)

/-- What a bulk creation answers when every spec is created or has a conflict: the created ones got
the next ids, as if the conflicts had done nothing but drawn theirs. -/
structure BulkCreated.Isolates (cfg : Settings) (now : Time) (db : Database) (turns : Turns)
    (r : BulkCreated) : Prop where
  count : r.created.length + r.conflicts.length = turns.length
  conflicts : r.conflicts = turns.conflicts
  state : createMarked cfg now db turns = .ok (r.db, r.created)

/-- The answer and the rows are those of a creation of the created specs alone. -/
def BulkCreated.SameAlone (cfg : Settings) (now : Time) (db : Database) (turns : Turns)
    (r : BulkCreated) : Prop :=
  ∃ db', createEach cfg now db turns.created = .ok (db', r.created) ∧
    r.db = { db' with tasks := r.db.tasks } ∧ r.db.tasks.rows = db'.tasks.rows

section

variable {cfg : Settings} {now : Time} {db db' : Database} {turns : Turns} {ids : List TaskId}

theorem createMarked_length (h : createMarked cfg now db turns = .ok (db', ids)) :
    ids.length = turns.created.length := by
  induction turns generalizing db ids with
  | nil =>
    cases h
    rfl
  | cons turn turns ih =>
    obtain ⟨spec, created⟩ := turn
    cases created with
    | false => exact ih h
    | true =>
      obtain ⟨⟨db₁, id⟩, -, h⟩ := bind_ok h
      obtain ⟨⟨db₂, rest⟩, hrest, h⟩ := bind_ok h
      cases h
      exact congrArg (· + 1) (ih hrest)

theorem Turns.length_eq (turns : Turns) :
    turns.created.length + turns.conflicts.length = turns.length := by
  rw [Turns.created, Turns.conflicts, List.length_map, List.length_map]
  exact (List.length_eq_length_filter_add fun t : TaskSpec × Bool => t.2).symm

/-- A created task has the next id. -/
theorem createTask_id {spec : TaskSpec} {id : TaskId} (hfk : db.ForeignKeys)
    (h : createTask cfg now db spec = .ok (db', id)) :
    id = db.tasks.next ∧ db'.tasks.next = db.tasks.next + 1 := by
  obtain ⟨-, hcreate⟩ | ⟨-, -, db₁, hcreate, hdb⟩ | ⟨-, -, e, -, hcreate⟩ :=
    createTask_cases cfg now hfk spec <;> rw [hcreate] at h <;> cases h
  exact ⟨rfl, hdb.next⟩

theorem createMarked_le (hfk : db.ForeignKeys) (h : createMarked cfg now db turns = .ok (db', ids)) :
    ∀ id ∈ ids, db.tasks.next ≤ id := by
  induction turns generalizing db ids with
  | nil =>
    cases h
    exact fun id hid => absurd hid List.not_mem_nil
  | cons turn turns ih =>
    obtain ⟨spec, created⟩ := turn
    cases created with
    | false =>
      have hskip : db.skipTaskId.ForeignKeys := hfk
      exact fun id hid => Nat.le_of_succ_le (ih hskip h id hid)
    | true =>
      obtain ⟨⟨db₁, id⟩, hcreate, h⟩ := bind_ok h
      obtain ⟨⟨db₂, rest⟩, hrest, h⟩ := bind_ok h
      cases h
      obtain ⟨rfl, hnext⟩ := createTask_id hfk hcreate
      intro i hi
      rcases List.mem_cons.mp hi with rfl | hi
      · exact le_refl _
      · have hle := ih (createTask_foreignKeys hfk hcreate) hrest i hi
        rw [hnext] at hle
        exact Nat.le_of_succ_le hle

theorem Turns.created_eq_nil_iff (turns : Turns) :
    turns.created = [] ↔ ∀ t ∈ turns, t.2 = false := by
  simp [Turns.created, List.filter_eq_nil_iff]

/-- Conflicts alone draw ids and write nothing. -/
theorem createMarked_conflicts (hnone : turns.created = []) :
    ∃ db', createMarked cfg now db turns = .ok (db', []) ∧ db' = { db with tasks := db'.tasks } ∧
      db'.tasks.rows = db.tasks.rows := by
  induction turns generalizing db with
  | nil => exact ⟨db, rfl, rfl, rfl⟩
  | cons turn turns ih =>
    obtain ⟨spec, created⟩ := turn
    cases created with
    | false =>
      obtain ⟨db₁, hmarked, hdb, hrows⟩ : ∃ db₁, createMarked cfg now db.skipTaskId turns = _ ∧
        db₁ = _ ∧ _ := ih hnone
      exact ⟨db₁, hmarked, hdb, hrows⟩
    | true => cases hnone

theorem Turns.conflictsLast_false {spec : TaskSpec} :
    Turns.ConflictsLast ((spec, false) :: turns) ↔ turns.created = [] := by
  rw [Turns.created_eq_nil_iff, Turns.ConflictsLast, List.pairwise_cons]
  constructor
  · rintro ⟨hlater, -⟩ t ht
    cases hcreated : t.2 with
    | false => rfl
    | true => cases hlater t ht hcreated
  · intro hnone
    refine ⟨fun t ht hcreated => ?_, List.pairwise_of_forall_mem_list fun _ _ t ht hcreated => ?_⟩ <;>
      rw [hnone t ht] at hcreated <;> cases hcreated

theorem Turns.conflictsLast_true {spec : TaskSpec} :
    Turns.ConflictsLast ((spec, true) :: turns) ↔ Turns.ConflictsLast turns := by
  rw [Turns.ConflictsLast, List.pairwise_cons]
  exact and_iff_right fun _ _ _ => rfl

/-- The created specs alone give the same tasks exactly if the conflicts come last: a conflict before
a created spec moves its id. -/
theorem createEach_iff (hfk : db.ForeignKeys) (h : createMarked cfg now db turns = .ok (db', ids)) :
    (∃ alone, createEach cfg now db turns.created = .ok (alone, ids) ∧
      db' = { alone with tasks := db'.tasks } ∧ db'.tasks.rows = alone.tasks.rows) ↔
    turns.ConflictsLast := by
  induction turns generalizing db ids with
  | nil =>
    cases h
    exact iff_of_true ⟨_, rfl, rfl, rfl⟩ List.Pairwise.nil
  | cons turn turns ih =>
    obtain ⟨spec, created⟩ := turn
    cases created with
    | false =>
      have hmarked : createMarked cfg now db.skipTaskId turns = .ok (db', ids) := h
      rw [Turns.conflictsLast_false]
      constructor
      · rintro ⟨alone, heach, -⟩
        have hskip : db.skipTaskId.ForeignKeys := hfk
        have hids := createMarked_le hskip hmarked
        cases hcreated : Turns.created turns with
        | nil => rfl
        | cons first rest =>
          rw [show Turns.created ((spec, false) :: turns) = first :: rest from hcreated] at heach
          obtain ⟨⟨db₁, id⟩, hcreate, heach⟩ := bind_ok heach
          obtain ⟨⟨db₂, others⟩, -, heach⟩ := bind_ok heach
          cases heach
          have hid := hids id List.mem_cons_self
          rw [(createTask_id hfk hcreate).1] at hid
          exact absurd hid (Nat.not_succ_le_self _)
      · intro hnone
        obtain ⟨db₁, hconflicts, hdb, hrows⟩ : ∃ db₁,
          createMarked cfg now db.skipTaskId turns = .ok (db₁, []) ∧ _ :=
          createMarked_conflicts hnone
        rw [hconflicts] at hmarked
        cases hmarked
        refine ⟨db, ?_, hdb, hrows⟩
        rw [show Turns.created ((spec, false) :: turns) = Turns.created turns from rfl, hnone]
        rfl
    | true =>
      obtain ⟨⟨db₁, id⟩, hcreate, h⟩ := bind_ok h
      obtain ⟨⟨db₂, rest⟩, hrest, h⟩ := bind_ok h
      cases h
      rw [Turns.conflictsLast_true, ← ih (createTask_foreignKeys hfk hcreate) hrest]
      refine exists_congr fun alone => and_congr_left fun _ => ?_
      rw [show Turns.created ((spec, true) :: turns) = spec :: Turns.created turns from rfl]
      simp only [createEach, hcreate, bind, Except.bind]
      cases createEach cfg now db₁ (Turns.created turns) with
      | error e => simp
      | ok r => simp [pure, Except.pure, Prod.ext_iff]

end

/-- The loop goes on as long as the specs can be created, and the first that cannot ends it. -/
theorem bulkCreate_loop (cfg : Settings) (now : Time) (specs : List TaskSpec) {r : BulkCreated}
    (hfk : r.db.ForeignKeys) :
    (CreatableInTurn r.db.keys r.db.tasks.next specs ∧
      ∃ r' ids, specs.foldlM (bulkCreateTurn cfg now) r = .ok r' ∧
        createMarked cfg now r.db (bulkTurns r.db.keys r.db.tasks.next specs) = .ok (r'.db, ids) ∧
        r'.created = r.created ++ ids ∧
        r'.conflicts = r.conflicts ++ (bulkTurns r.db.keys r.db.tasks.next specs).conflicts) ∨
    (¬ CreatableInTurn r.db.keys r.db.tasks.next specs ∧
      ∃ e, specs.foldlM (bulkCreateTurn cfg now) r = .error e) := by
  induction specs generalizing r with
  | nil => exact .inl ⟨trivial, r, [], rfl, rfl, by simp, by simp [bulkTurns, Turns.conflicts]⟩
  | cons spec specs ih =>
    have htaken : keyTaken r.db spec.idempotencyKey = true ↔ spec.Taken r.db.keys :=
      keyTaken_iff r.db spec.idempotencyKey
    rw [List.foldlM_cons, CreatableInTurn, bulkTurns]
    obtain ⟨hkey, hcreate⟩ | ⟨hkey, hcreatable, db', hcreate, hdb⟩ |
      ⟨hkey, hbad, e, he, hcreate⟩ := createTask_cases cfg now hfk spec
    · have hturn : bulkCreateTurn cfg now r spec =
          .ok ⟨r.db.skipTaskId, r.created, r.conflicts ++ [spec]⟩ := by
        rw [bulkCreateTurn, hcreate]
      rw [if_pos (htaken.mp hkey), if_pos (htaken.mp hkey), hturn]
      refine (ih (r := ⟨r.db.skipTaskId, r.created, r.conflicts ++ [spec]⟩) hfk).imp_left ?_
      rintro ⟨hrest, r', ids, hloop, hmarked, hids, hconflicts⟩
      refine ⟨hrest, r', ids, hloop, hmarked, hids, ?_⟩
      rw [hconflicts, List.append_assoc]
      rfl
    · have hfree := fun h => Bool.false_ne_true (hkey.symm.trans (htaken.mpr h))
      have hturn : bulkCreateTurn cfg now r spec =
          .ok ⟨db', r.created ++ [r.db.tasks.next], r.conflicts⟩ := by
        rw [bulkCreateTurn, hcreate]
      have hrest := ih (r := ⟨db', r.created ++ [r.db.tasks.next], r.conflicts⟩)
        (createTask_foreignKeys hfk hcreate)
      rw [if_neg hfree, if_neg hfree, hturn, and_iff_right hcreatable, ← hdb.keys, ← hdb.next]
      refine hrest.imp_left ?_
      rintro ⟨hrest, r', ids, hloop, hmarked, hids, hconflicts⟩
      refine ⟨hrest, r', r.db.tasks.next :: ids, hloop, ?_, ?_, hconflicts⟩
      · simp only [createMarked, hcreate, bind, Except.bind, hmarked]
        rfl
      · rw [hids, List.append_assoc]
        rfl
    · have hfree := fun h => Bool.false_ne_true (hkey.symm.trans (htaken.mpr h))
      rw [if_neg hfree, if_neg hfree]
      refine .inr ⟨fun h => hbad h.1, e, ?_⟩
      have hturn : bulkCreateTurn cfg now r spec = .error e := by
        rw [bulkCreateTurn, hcreate]
        cases e <;> first | rfl | exact absurd rfl he
      rw [hturn]
      rfl

/-- The second spec waits for the task `parent`. -/
def pairSpecs (parent : TaskId) : List TaskSpec :=
  [plainSpec, { plainSpec with dependsOn := some [parent] }]

end TaskPlatform
