import TaskPlatform.Cascade

/-!
# What the task operations do

Creation, retry and cancellation as sequences of changes.
-/

namespace TaskPlatform

open Run

/-- The foreign keys of `task_dependencies`. -/
def Database.ForeignKeys (db : Database) : Prop :=
  ∀ d ∈ db.deps, (db.tasks.get d.parentTaskId).isSome ∧ (db.tasks.get d.childTaskId).isSome

/-- A task that is not there yet has no dependency. -/
theorem Database.ForeignKeys.parentsOf_next {db : Database} (h : db.ForeignKeys) :
    db.parentsOf db.tasks.next = [] := by
  rw [List.eq_nil_iff_forall_not_mem]
  intro p hp
  have hd := (h _ ((db.mem_parentsOf p _).mp hp)).2
  rw [Table.get_of_le (le_refl _)] at hd
  cases hd

theorem nodup_eraseDups (xs : List TaskId) : xs.eraseDups.Nodup := by
  induction hn : xs.length using Nat.strong_induction_on generalizing xs with
  | _ n ih =>
    cases xs with
    | nil => simp
    | cons a xs =>
      rw [List.eraseDups_cons, List.nodup_cons]
      constructor
      · simp [List.mem_eraseDups]
      · refine ih _ ?_ _ rfl
        rw [← hn, List.length_cons]
        exact Nat.lt_succ_of_le (List.length_filter_le _ _)

theorem insertEdges_ok {db db' : Database} {edges : List TaskDependency}
    (h : insertEdges db edges = .ok db') : db' = { db with deps := db.deps ++ edges } := by
  unfold insertEdges at h
  split at h
  · cases h
  · cases h
    rfl

theorem registerDependencies_ok {db db' : Database} {id : TaskId} {parentIds : List TaskId}
    (h : registerDependencies db id parentIds = .ok db') :
    db' = { db with deps := db.deps ++ parentIds.eraseDups.map (fun p => ⟨p, id⟩) } ∧
      ∀ p ∈ parentIds.eraseDups, p ≠ id ∧ (db.tasks.get p).isSome := by
  unfold registerDependencies at h
  simp only at h
  split at h
  · cases h
  · rename_i hself
    split at h
    · cases h
    · rename_i hmissing
      obtain ⟨_, -, hedges⟩ := bind_ok h
      refine ⟨insertEdges_ok hedges, fun p hp => ⟨fun he => hself (he ▸ hp), ?_⟩⟩
      rw [not_not, List.filter_eq_nil_iff] at hmissing
      simpa [Option.isSome_iff_ne_none] using hmissing p hp

/-- The new row and its first event. -/
theorem insertTask_get (cfg : Settings) (now : Time) (db : Database) (spec : TaskSpec) :
    (insertTask cfg now db spec).tasks.get db.tasks.next = some (spec.row cfg now) :=
  Table.get_insert_next _ _

/-- The labels of a creation. -/
def IsCreate (db : Database) (spec : TaskSpec) (l : Label) : Prop :=
  l = .other ∨ l = .enqueue .create db.tasks.next ∨
    ∃ parents, spec.dependsOn = some parents ∧ l = .block db.tasks.next parents.eraseDups

theorem createTask_trace {cfg : Settings} {now : Time} {db db' : Database} {spec : TaskSpec}
    {id : TaskId} (hfk : db.ForeignKeys) (h : createTask cfg now db spec = .ok (db', id)) :
    ∃ ls, Trace (Change cfg) db ls db' ∧ ∀ l ∈ ls, IsCreate db spec l := by
  have hrow := insertTask_get cfg now db spec
  have hparents : (insertTask cfg now db spec).parentsOf db.tasks.next = [] := hfk.parentsOf_next
  have hinsert : Change cfg db .other (insertTask cfg now db spec) := .insert now spec
  unfold createTask at h
  simp only at h
  split at h
  · cases h
  · split at h
    · rename_i p ps hdep
      obtain ⟨db₁, hreg, hdb⟩ := bind_ok h
      cases hdb
      obtain ⟨rfl, hvalid⟩ := registerDependencies_ok hreg
      refine ⟨_, .cons hinsert (.single (.block now (p :: ps).eraseDups _ hrow rfl hvalid)), ?_⟩
      intro l hl
      simp only [List.mem_cons, List.not_mem_nil, or_false] at hl
      rcases hl with rfl | rfl
      · exact .inl rfl
      · exact .inr (.inr ⟨p :: ps, hdep, rfl⟩)
    · split at h
      · cases h
      split at h
      · rename_i hlater
        obtain ⟨⟨db₁, task⟩, hset, hdb⟩ := bind_ok h
        cases hdb
        obtain ⟨rfl, rfl⟩ := setStatus_ok hrow rfl rfl (by decide) hset
        have hat : (spec.row cfg now).scheduledAt ≠ none := by
          intro hnone
          rw [show spec.scheduleAt = none from hnone] at hlater
          cases hlater
        refine ⟨_, .cons hinsert (.single (.schedule now hrow rfl hat hparents)), ?_⟩
        intro l hl
        simp only [List.mem_cons, List.not_mem_nil, or_false, or_self] at hl
        exact .inl hl
      · obtain ⟨⟨db₁, task⟩, hset, hdb⟩ := bind_ok h
        cases hdb
        obtain ⟨rfl, rfl⟩ := setStatus_ok hrow rfl rfl (by decide) hset
        refine ⟨_, .cons hinsert
          (.single (.enqueue now .create .queued none false hrow List.mem_cons_self hparents)), ?_⟩
        intro l hl
        simp only [List.mem_cons, List.not_mem_nil, or_false] at hl
        rcases hl with rfl | rfl
        · exact .inl rfl
        · exact .inr (.inl rfl)

/-- A creation that is rolled back loses its id. -/
theorem commitCreated_trace {cfg : Settings} {now : Time} {db : Database} {spec : TaskSpec}
    (hfk : db.ForeignKeys) :
    ∃ ls, Trace (Change cfg) db ls (commitCreated db (createTask cfg now db spec)) ∧
      ∀ l ∈ ls, IsCreate db spec l := by
  cases hcreate : createTask cfg now db spec with
  | ok r => exact createTask_trace hfk hcreate
  | error e =>
    refine ⟨[.other], .single .skip, fun l hl => ?_⟩
    exact .inl (List.mem_singleton.mp hl)

/-- What `create_task` writes for a task with dependencies. -/
def TaskSpec.blocked (cfg : Settings) (now : Time) (spec : TaskSpec) (parents : List TaskId)
    (db : Database) : Database :=
  recordEvent now
    { insertTask cfg now db spec with
      deps := db.deps ++ parents.eraseDups.map (fun p => ⟨p, db.tasks.next⟩) }
    db.tasks.next .created .blocked .created (some (.waitingFor parents))

theorem createTask_blocked {cfg : Settings} {now : Time} {db db' : Database} {spec : TaskSpec}
    {parents : List TaskId} {id : TaskId} (hparents : parents ≠ [])
    (hspec : spec.dependsOn = some parents) (h : createTask cfg now db spec = .ok (db', id)) :
    db' = spec.blocked cfg now parents db ∧ id = db.tasks.next := by
  obtain ⟨p, ps, rfl⟩ := List.exists_cons_of_ne_nil hparents
  unfold createTask at h
  simp only [hspec] at h
  split at h
  · cases h
  · obtain ⟨db₁, hregister, h⟩ := bind_ok h
    obtain ⟨rfl, -⟩ := registerDependencies_ok hregister
    cases h
    exact ⟨rfl, rfl⟩

theorem manualRetry_change {cfg : Settings} {now : Time} {db db' : Database} {id : TaskId}
    (h : manualRetry cfg now db id = .ok (some db')) : Change cfg db (.enqueue .retry id) db' := by
  unfold manualRetry at h
  split at h
  · cases h
  · rename_i row hrow
    split at h
    · cases h
    · rename_i hretry
      rw [not_not] at hretry
      obtain ⟨⟨db₁, task⟩, hset, hdb⟩ := bind_ok h
      cases hdb
      obtain ⟨rfl, rfl⟩ := setStatus_ok hrow rfl (canTransition_retry hretry) (by decide) hset
      exact .enqueue now .retry .retried _ true hrow hretry trivial

/-- What `cancel_task` did: the change of the task, and its cascade. -/
theorem cancelTask_ok {cfg : Settings} {now : Time} {db db' : Database} {id : TaskId}
    (h : cancelTask cfg now db id = .ok (some db')) :
    ∃ row, db.tasks.get id = some row ∧ row.status ∈ cancelable ∧
      ∃ n, cascade cfg now n (db.move now id row .cancelled .cancelled none) id .cancelled
        = .ok db' := by
  unfold cancelTask cancelTaskBody at h
  split at h
  · cases h
  · rename_i row hrow
    split at h
    · cases h
    · rename_i hcancel
      rw [not_not] at hcancel
      obtain ⟨⟨db₁, task⟩, hset, hdb⟩ := bind_ok h
      cases hdb
      have hobject : db.tasks.get (Instance.fresh id row).id = some row := hrow
      obtain ⟨-, n, hn⟩ := setStatusFuel_ok hobject rfl
        ((canTransition_cancelled row.status).mpr hcancel) hset
      simp only [Instance.fresh, Task.merge_row] at hn
      exact ⟨row, hrow, hcancel, n, hn⟩

/-- The labels of a cancellation. -/
theorem cancelTask_trace {cfg : Settings} {now : Time} {db db' : Database} {id : TaskId}
    (h : cancelTask cfg now db id = .ok (some db')) :
    ∃ ls, Trace (Change cfg) db ls db' ∧ ∀ l ∈ ls, ∃ i, l = .settle i .cancelled := by
  obtain ⟨row, hrow, hcancel, n, hn⟩ := cancelTask_ok h
  obtain ⟨ls, htr, hls⟩ := change_cascade_trace (.cancel now none hrow hcancel) hn
  refine ⟨_, htr, fun l hl => ?_⟩
  rcases List.mem_cons.mp hl with rfl | hl
  · exact ⟨id, rfl⟩
  · exact (hls l hl).resolve_right fun hsuccess => by cases hsuccess.1

/-- A bulk operation does what its turns do. -/
theorem bulk_trace {cfg : Settings} {Q : Label → Prop}
    {op : Database → TaskId → Except TaskError (Option Database)} {ids : List TaskId}
    (hop : ∀ db id db', id ∈ ids → op db id = .ok (some db') →
      ∃ ls, Trace (Change cfg) db ls db' ∧ ∀ l ∈ ls, Q l)
    {r r' : BulkResult} (h : ids.foldlM (bulkTurn op) r = .ok r') :
    ∃ ls, Trace (Change cfg) r.db ls r'.db ∧ ∀ l ∈ ls, Q l := by
  refine trace_foldlM (·.db) (fun rest _ => rest ⊆ ids) (fun r id rest r' hrest hturn => ?_)
    ids (List.Subset.refl _) h
  have hid : id ∈ ids := hrest List.mem_cons_self
  refine ⟨?_, fun x hx => hrest (List.mem_cons_of_mem _ hx)⟩
  unfold bulkTurn at hturn
  split at hturn
  · cases hturn
  split at hturn
  · cases hturn; exact ⟨[], .nil _, by simp⟩
  · rename_i db₁ hdb₁
    cases hturn
    exact hop _ _ _ hid hdb₁
  · cases hturn; exact ⟨[], .nil _, by simp⟩
  · cases hturn

theorem bulkRetry_trace {cfg : Settings} {now : Time} {db : Database} {ids : List TaskId}
    {r : BulkResult} (h : bulkRetry cfg now db ids = .ok r) :
    ∃ ls, Trace (Change cfg) db ls r.db ∧ ∀ l ∈ ls, ∃ id ∈ ids, l = .enqueue .retry id :=
  bulk_trace (fun _ id _ hid hop => ⟨_, .single (manualRetry_change hop), by
    intro l hl
    exact ⟨id, hid, List.mem_singleton.mp hl⟩⟩) h

theorem bulkCancel_trace {cfg : Settings} {now : Time} {db : Database} {ids : List TaskId}
    {r : BulkResult} (h : bulkCancel cfg now db ids = .ok r) :
    ∃ ls, Trace (Change cfg) db ls r.db ∧ ∀ l ∈ ls, ∃ i, l = .settle i .cancelled :=
  bulk_trace (fun _ _ _ _ hop => cancelTask_trace hop) h

end TaskPlatform
