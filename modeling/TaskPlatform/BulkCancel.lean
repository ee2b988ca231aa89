import TaskPlatform.Batches
import TaskPlatform.StackDepth

/-!
# Cancelling many tasks

A cancellation floods the created tasks below its task, so later entries of the
list find their tasks cancelled already and take the conflict branch. Whatever
the order is, a loop that runs to its end cancels the flood from the listed
tasks that could be cancelled when it began. It runs to its end in every order
if none of these tasks has a cascade too deep for the stack.
-/

namespace TaskPlatform

namespace Graph

/-- The tasks that can be cancelled. -/
def cancelables (g : Graph) : Set TaskId := {i | ∃ s ∈ cancelable, g.status i = some s}

theorem created_subset_cancelables (g : Graph) : g.created ⊆ g.cancelables :=
  fun _ hi => ⟨.created, by decide, hi⟩

theorem cancelables_setAll (g : Graph) (C : Set TaskId) :
    (g.setAll C .cancelled).cancelables = g.cancelables \ C := by
  have hnot : Status.cancelled ∉ cancelable := by decide
  ext i
  by_cases hi : i ∈ C <;> simp [cancelables, setAll, hi, hnot]

/-- The tasks of a set are cancelled, one after the other. -/
noncomputable def cancelAll (g : Graph) (S : Set TaskId) : Graph :=
  g.setAll (Flood.flood g.Edge g.created S) .cancelled

/-- Tasks that were cancelled before make no cascade deeper. -/
theorem Deep.of_cancelAll {g : Graph} {S : Set TaskId} {levels : Nat} {id : TaskId}
    (h : (g.cancelAll S).Deep levels id) : g.Deep levels id :=
  Deep.of_setAll Flood.flood_closed h

end Graph

theorem graph_cancelables {db : Database} {id : TaskId} {row : Task}
    (hrow : db.tasks.get id = some row) :
    id ∈ db.graph.cancelables ↔ row.status ∈ cancelable := by
  simp [Graph.cancelables, graph_status hrow]

/-- What one cancellation does to the statuses. -/
theorem cancelTaskFuel_cases (cfg : Settings) (now : Time) (levels : Nat) (db : Database)
    (id : TaskId) :
    (db.graph.status id = none ∧ cancelTaskFuel cfg now levels db id = .ok none) ∨
    (∃ s ∉ cancelable, db.graph.status id = some s ∧
      cancelTaskFuel cfg now levels db id = .error (.taskConflict (cancelConflictMessage s))) ∨
    (id ∈ db.graph.cancelables ∧ db.graph.Deep levels id ∧
      cancelTaskFuel cfg now levels db id = .error .recursion) ∨
    (id ∈ db.graph.cancelables ∧ ¬ db.graph.Deep levels id ∧
      ∃ db', cancelTaskFuel cfg now levels db id = .ok (some db') ∧
        db'.graph = db.graph.cancelAll {id}) := by
  cases hrow : db.tasks.get id with
  | none =>
    refine .inl ⟨by simp [Database.graph, hrow], ?_⟩
    simp only [cancelTaskFuel, cancelTaskBody, hrow]
  | some row =>
    have hst := graph_status hrow
    by_cases hs : row.status ∈ cancelable
    · have hmem : id ∈ db.graph.cancelables := ⟨row.status, hs, hst⟩
      have hobject : db.tasks.get (Instance.fresh id row).id = some row := hrow
      have ht := (canTransition_cancelled row.status).mpr hs
      have hiff : (∃ db', setStatusFuel cfg now levels db (Instance.fresh id row) .cancelled
          .cancelled none = .ok (db', Instance.fresh id (movedTask now row .cancelled))) ↔
          ¬ db.graph.Deep levels id :=
        setStatusFuel_failure_iff .cancelled none levels hobject rfl ht (by decide) (by decide)
      by_cases hdeep : db.graph.Deep levels id
      · have hset := setStatusFuel_overflow .cancelled none levels hobject rfl ht
          fun hok => hiff.mp hok hdeep
        refine .inr (.inr (.inl ⟨hmem, hdeep, ?_⟩))
        simp only [cancelTaskFuel, cancelTaskBody, hrow, hs, not_true_eq_false, if_false, hset, bind,
          Except.bind]
      · obtain ⟨db', hset⟩ := hiff.mpr hdeep
        refine .inr (.inr (.inr ⟨hmem, hdeep, db', ?_, ?_⟩))
        · simp only [cancelTaskFuel, cancelTaskBody, hrow, hs, not_true_eq_false, if_false, hset,
            bind, Except.bind, pure, Except.pure]
        · obtain ⟨-, n, hcascade⟩ := setStatusFuel_ok hobject rfl ht hset
          rw [cascade_cancelled hcascade (by decide) (by decide), ← Instance.changed,
            graph_changed .cancelled none now hobject rfl ht]
          exact Graph.setAll_doomed _ id
    · refine .inr (.inl ⟨row.status, hs, hst, ?_⟩)
      simp only [cancelTaskFuel, cancelTaskBody, hrow, hs, not_false_eq_true, if_true]

/-- The database after the tasks `S` were cancelled in `g`, one after the other. -/
def CancelledFrom (g : Graph) (S : Set TaskId) (db : Database) : Prop :=
  db.graph = g.cancelAll S

theorem CancelledFrom.start (db : Database) : CancelledFrom db.graph ∅ db := by
  rw [CancelledFrom, Graph.cancelAll, Flood.flood_empty, Graph.setAll_empty]

theorem CancelledFrom.cancelables {g : Graph} {S : Set TaskId} {db : Database}
    (h : CancelledFrom g S db) :
    db.graph.cancelables = g.cancelables \ Flood.flood g.Edge g.created S := by
  rw [h, Graph.cancelAll, Graph.cancelables_setAll]

/-- A task that can be cancelled now is one more source of the flood. -/
theorem CancelledFrom.next {g : Graph} {S : Set TaskId} {db db' : Database} {id : TaskId}
    (h : CancelledFrom g S db) (hid : id ∈ db.graph.cancelables)
    (hdb : db'.graph = db.graph.cancelAll {id}) :
    CancelledFrom g (S ∪ {id} ∩ g.cancelables) db' := by
  rw [h.cancelables] at hid
  have hsource : ({id} ∩ g.cancelables) \ Flood.flood g.Edge g.created S = {id} := by
    rw [Set.inter_eq_left.mpr (Set.singleton_subset_iff.mpr hid.1), sdiff_eq_left,
      Set.disjoint_singleton_left]
    exact hid.2
  rw [CancelledFrom, hdb, h, Graph.cancelAll, Graph.cancelAll,
    Graph.created_setAll g _ (by decide), Graph.setAll_setAll, Graph.cancelAll, ← Flood.flood_next,
    hsource]
  rfl

/-- A task that cannot be cancelled now is none. -/
theorem CancelledFrom.skip {g : Graph} {S : Set TaskId} {db : Database} {id : TaskId}
    (h : CancelledFrom g S db) (hid : id ∉ db.graph.cancelables) :
    CancelledFrom g (S ∪ {id} ∩ g.cancelables) db := by
  rw [h.cancelables] at hid
  have hsub : {id} ∩ g.cancelables ⊆ Flood.flood g.Edge g.created S := by
    rintro i ⟨rfl, hi⟩
    by_contra hflood
    exact hid ⟨hi, hflood⟩
  have hflood := Flood.flood_subset hsub Flood.flood_closed
  rw [CancelledFrom, Graph.cancelAll, Flood.flood_union, Set.union_eq_left.mpr hflood]
  exact h

theorem not_cancelable_of_none {db : Database} {id : TaskId} (h : db.graph.status id = none) :
    id ∉ db.graph.cancelables := by
  rintro ⟨s, -, hs⟩
  rw [h] at hs
  cases hs

theorem not_cancelable_of_status {db : Database} {id : TaskId} {s : Status}
    (h : db.graph.status id = some s) (hs : s ∉ cancelable) : id ∉ db.graph.cancelables := by
  rintro ⟨t, ht, he⟩
  rw [h, Option.some.injEq] at he
  exact hs (he ▸ ht)

/-- One turn reports its id once, or it raises for an id out of range or a cascade too deep. -/
theorem bulkCancel_turn (cfg : Settings) (now : Time) (levels : Nat) {g : Graph} {S : Set TaskId}
    {r : BulkResult} (h : CancelledFrom g S r.db) {id : TaskId} (hid : id < idBound)
    (hdeep : id ∈ g.cancelables → ¬ g.Deep levels id) :
    ∃ r', bulkTurn (cancelTaskFuel cfg now levels) r id = .ok r' ∧
      CancelledFrom g (S ∪ {id} ∩ g.cancelables) r'.db ∧
      (r'.succeeded ++ r'.conflicts.map Prod.fst).Perm
        (r.succeeded ++ r.conflicts.map Prod.fst ++ [id]) := by
  have hrange := Nat.not_le_of_lt hid
  obtain ⟨hnone, hcancel⟩ | ⟨s, hs, hst, hcancel⟩ | ⟨hmem, hnow, -⟩ |
    ⟨hmem, -, db', hcancel, hdb⟩ := cancelTaskFuel_cases cfg now levels r.db id
  · refine ⟨{ r with conflicts := r.conflicts ++ [(id, "task not found")] }, ?_,
      h.skip (not_cancelable_of_none hnone), ?_⟩
    · rw [bulkTurn, if_neg hrange, hcancel]
    · simp
  · refine ⟨{ r with conflicts := r.conflicts ++ [(id, cancelConflictMessage s)] }, ?_,
      h.skip (not_cancelable_of_status hst hs), ?_⟩
    · rw [bulkTurn, if_neg hrange, hcancel]
    · simp
  · -- the earlier turns made its cascade no deeper
    rw [h.cancelables] at hmem
    rw [h] at hnow
    exact absurd hnow.of_cancelAll (hdeep hmem.1)
  · refine ⟨{ r with db := db', succeeded := r.succeeded ++ [id] }, ?_, h.next hmem hdb, ?_⟩
    · rw [bulkTurn, if_neg hrange, hcancel]
    · rw [List.append_assoc, List.append_assoc]
      exact List.Perm.append_left _ List.perm_append_comm

theorem bulkCancel_loop (cfg : Settings) (now : Time) (levels : Nat) {g : Graph}
    (ids : List TaskId)
    (hids : ∀ id ∈ ids, id < idBound ∧ (id ∈ g.cancelables → ¬ g.Deep levels id))
    {S : Set TaskId} {r : BulkResult} (h : CancelledFrom g S r.db) :
    ∃ r', ids.foldlM (bulkTurn (cancelTaskFuel cfg now levels)) r = .ok r' ∧
      CancelledFrom g (S ∪ {i | i ∈ ids} ∩ g.cancelables) r'.db ∧
      (r'.succeeded ++ r'.conflicts.map Prod.fst).Perm
        (r.succeeded ++ r.conflicts.map Prod.fst ++ ids) := by
  induction ids generalizing S r with
  | nil => exact ⟨r, rfl, by simpa using h, by simp⟩
  | cons id ids ih =>
    obtain ⟨hid, hdeep⟩ := hids id List.mem_cons_self
    obtain ⟨r₁, hturn, hdb₁, hperm₁⟩ := bulkCancel_turn cfg now levels h hid hdeep
    obtain ⟨r', hloop, hdb', hperm'⟩ :=
      ih (fun i hi => hids i (List.mem_cons_of_mem _ hi)) hdb₁
    have hmem : ({i | i ∈ id :: ids} : Set TaskId) = {id} ∪ {i | i ∈ ids} := by
      ext i
      simp
    refine ⟨r', ?_, ?_, ?_⟩
    · rw [List.foldlM_cons, hturn]
      exact hloop
    · rw [hmem, Set.union_inter_distrib_right, ← Set.union_assoc]
      exact hdb'
    · have hmid := hperm₁.append_right ids
      rw [List.append_assoc _ [id] ids, List.singleton_append] at hmid
      exact hperm'.trans hmid

theorem bulkTurn_overflow (cfg : Settings) (now : Time) {levels : Nat} {r : BulkResult}
    {id : TaskId} (hid : id < idBound) (hmem : id ∈ r.db.graph.cancelables)
    (hdeep : r.db.graph.Deep levels id) :
    bulkTurn (cancelTaskFuel cfg now levels) r id = .error .recursion := by
  rw [bulkTurn, if_neg (Nat.not_le_of_lt hid)]
  obtain ⟨hnone, -⟩ | ⟨s, hs, hst, -⟩ | ⟨-, -, hcancel⟩ | ⟨-, hnot, -⟩ :=
    cancelTaskFuel_cases cfg now levels r.db id
  · exact absurd hmem (not_cancelable_of_none hnone)
  · exact absurd hmem (not_cancelable_of_status hst hs)
  · rw [hcancel]
  · exact absurd hdeep hnot

/-- A loop whose first turn raises does not return. -/
theorem bulkCancel_first {cfg : Settings} {now : Time} {levels : Nat} {db : Database}
    {id : TaskId} {ids : List TaskId} {r : BulkResult}
    (h : bulkCancelFuel cfg now levels db (id :: ids) = .ok r) :
    id < idBound ∧ (id ∈ db.graph.cancelables → ¬ db.graph.Deep levels id) := by
  rw [bulkCancelFuel, List.foldlM_cons] at h
  obtain ⟨r₁, hturn, -⟩ := bind_ok h
  have hid : id < idBound := by
    by_contra hrange
    rw [bulkTurn, if_pos (Nat.le_of_not_lt hrange)] at hturn
    cases hturn
  refine ⟨hid, fun hmem hdeep => ?_⟩
  rw [bulkTurn_overflow cfg now (r := ⟨db, [], []⟩) hid hmem hdeep] at hturn
  cases hturn

/-- `bulk_cancel` cancels the least set around the listed tasks that could be cancelled, in every
order of the list, and reports each entry of the list once, exactly if the listed ids are in the
range of the column and no listed task that can be cancelled has a cascade too deep. -/
theorem bulk_cancel_order_free_iff (cfg : Settings) (now : Time) (levels : Nat) (db : Database)
    (ids : List TaskId) :
    (∃ C : Set TaskId,
      IsLeast {C | (∀ i ∈ ids, (∃ s ∈ cancelable, db.graph.status i = some s) → i ∈ C) ∧
        ∀ p ∈ C, ∀ c, ⟨p, c⟩ ∈ db.deps → db.graph.status c = some .created → c ∈ C} C ∧
      ∀ ids' : List TaskId, ids'.Perm ids → ∃ r, bulkCancelFuel cfg now levels db ids' = .ok r ∧
        (∀ i ∈ C, r.db.graph.status i = some .cancelled) ∧
        (∀ i, i ∉ C → r.db.graph.status i = db.graph.status i) ∧
        (r.succeeded ++ r.conflicts.map Prod.fst).Perm ids') ↔
      ∀ id ∈ ids, id < idBound ∧ (id ∈ db.graph.cancelables → ¬ db.graph.Deep levels id) := by
  constructor
  · rintro ⟨C, -, hall⟩ id hid
    obtain ⟨r, hrun, -⟩ := hall (id :: ids.erase id) (List.perm_cons_erase hid).symm
    exact bulkCancel_first hrun
  · intro hids
    let S : Set TaskId := {i | i ∈ ids} ∩ db.graph.cancelables
    refine ⟨Flood.flood db.graph.Edge db.graph.created S, ⟨⟨?_, ?_⟩, ?_⟩, fun ids' hperm => ?_⟩
    · exact fun i hi hs => Flood.subset_flood ⟨hi, hs⟩
    · exact fun p hp c hpc hc => Flood.flood_closed p hp c hc hpc
    · rintro C ⟨hlisted, hclosed⟩
      refine Flood.flood_subset (fun i hi => hlisted i hi.1 hi.2) ?_
      exact fun p hp c hc hpc => hclosed p hp c hpc hc
    · have hstart : CancelledFrom db.graph ∅ (BulkResult.mk db [] []).db := CancelledFrom.start db
      obtain ⟨r, hloop, hdb, hreport⟩ := bulkCancel_loop cfg now levels ids'
        (fun id hid => hids id (hperm.mem_iff.mp hid)) hstart
      have hsame : (∅ ∪ {i | i ∈ ids'} ∩ db.graph.cancelables : Set TaskId) = S := by
        ext i
        simp [S, hperm.mem_iff]
      rw [hsame, CancelledFrom] at hdb
      refine ⟨r, hloop, fun i hi => ?_, fun i hi => ?_, hreport⟩
      · rw [hdb, Graph.cancelAll, Graph.setAll_status_of_mem _ _ hi]
      · rw [hdb, Graph.cancelAll, Graph.setAll_status_of_notMem _ _ hi]

theorem bulk_cancel_order_free_iff_chainRun : (∃ C : Set TaskId,
      IsLeast {C | (∀ i ∈ [2, 1], (∃ s ∈ cancelable, (chainDb 2).graph.status i = some s) → i ∈ C) ∧
        ∀ p ∈ C, ∀ c, ⟨p, c⟩ ∈ (chainDb 2).deps →
          (chainDb 2).graph.status c = some .created → c ∈ C} C ∧
      ∀ ids' : List TaskId, ids'.Perm [2, 1] → ∃ r,
        bulkCancelFuel .default 3 5 (chainDb 2) ids' = .ok r ∧
        (∀ i ∈ C, r.db.graph.status i = some .cancelled) ∧
        (∀ i, i ∉ C → r.db.graph.status i = (chainDb 2).graph.status i) ∧
        (r.succeeded ++ r.conflicts.map Prod.fst).Perm ids') :=
  (bulk_cancel_order_free_iff .default 3 5 (chainDb 2) [2, 1]).mpr fun id hid => by
    have hrange : id < idBound := by
      simp only [List.mem_cons, List.not_mem_nil, or_false] at hid
      rcases hid with rfl | rfl <;> simp [idBound]
    exact ⟨hrange, fun _ => not_deep_of_next (by rw [(chainDb_isChain 2).next]; decide) id⟩

theorem bulkCancel_chain {n levels : Nat} (h : levels ≤ n) (ids : List TaskId) :
    bulkCancelFuel .default 3 levels (chainDb n) (1 :: ids) = .error .recursion := by
  have hmem : 1 ∈ (chainDb n).graph.cancelables :=
    ⟨.queued, by decide, (chainDb_isChain n).head⟩
  have hrange : 1 < idBound := by simp [idBound]
  rw [bulkCancelFuel, List.foldlM_cons,
    bulkTurn_overflow .default 3 (r := ⟨chainDb n, [], []⟩) hrange hmem (chain_deep h)]
  rfl

/-- The cascade below the head of a chain of 260 tasks is too deep for the interpreter's stack. -/
theorem long_chain_fails_bulk : ¬ ∃ levels ≤ 250, ∃ r,
    bulkCancelFuel .default 3 levels (chainDb 260) (List.range' 1 260) = .ok r := by
  rintro ⟨levels, hlevels, r, hrun⟩
  rw [show List.range' 1 260 = 1 :: List.range' 2 259 from rfl,
    bulkCancel_chain (hlevels.trans (by decide))] at hrun
  cases hrun

/-- One turn counts its task if it can be cancelled now, and else reports a conflict; a cascade too
deep ends the loop. -/
theorem cancelBatch_turn (cfg : Settings) (now : Time) (levels : Nat) {g : Graph} {S : Set TaskId}
    {r : BatchCancelled} (h : CancelledFrom g S r.db) {id : TaskId}
    (hrow : (r.db.graph.status id).isSome) :
    (id ∈ r.db.graph.cancelables ∧ r.db.graph.Deep levels id ∧
      cancelBatchTurn (cancelTaskFuel cfg now levels) r id = .error .recursion) ∨
    ((id ∈ r.db.graph.cancelables → ¬ r.db.graph.Deep levels id) ∧
      ∃ r', cancelBatchTurn (cancelTaskFuel cfg now levels) r id = .ok r' ∧
        CancelledFrom g (S ∪ {id} ∩ g.cancelables) r'.db ∧
        ((id ∈ r.db.graph.cancelables ∧ r'.cancelled = r.cancelled + 1 ∧
            r'.conflicts = r.conflicts) ∨
          (id ∉ r.db.graph.cancelables ∧ r'.cancelled = r.cancelled ∧
            ∃ reason, r'.conflicts = r.conflicts ++ [(id, reason)]))) := by
  obtain ⟨hnone, -⟩ | ⟨s, hs, hst, hcancel⟩ | ⟨hid, hdeep, hcancel⟩ |
    ⟨hid, hroom, db', hcancel, hdb⟩ := cancelTaskFuel_cases cfg now levels r.db id
  · rw [hnone] at hrow
    cases hrow
  · have hnot := not_cancelable_of_status hst hs
    refine .inr ⟨fun hmem => absurd hmem hnot,
      { r with conflicts := r.conflicts ++ [(id, cancelConflictMessage s)] }, ?_,
      h.skip hnot, .inr ⟨hnot, rfl, _, rfl⟩⟩
    rw [cancelBatchTurn, hcancel]
  · refine .inl ⟨hid, hdeep, ?_⟩
    rw [cancelBatchTurn, hcancel]
  · refine .inr ⟨fun _ => hroom, { r with db := db', cancelled := r.cancelled + 1 }, ?_,
      h.next hid hdb, .inl ⟨hid, rfl, rfl⟩⟩
    rw [cancelBatchTurn, hcancel]
    rfl

/-- None of the tasks is flooded before its turn, when the tasks `S` were cancelled. -/
def InTurn (g : Graph) (S : Set TaskId) (ids : List TaskId) : Prop :=
  (∀ c ∈ ids, c ∈ g.cancelables → c ∉ Flood.flood g.Edge g.created S) ∧
    ids.Pairwise (fun p c => p ∈ g.cancelables → c ∉ g.doomed p)

/-- Each task that can be cancelled has a cascade that the stack has room for when its turn comes. -/
def RoomInTurn (g : Graph) (levels : Nat) : Set TaskId → List TaskId → Prop
  | _, [] => True
  | S, id :: ids => (id ∈ g.cancelables → ¬ (g.cancelAll S).Deep levels id) ∧
      RoomInTurn g levels (S ∪ {id} ∩ g.cancelables) ids

theorem inTurn_cons {g : Graph} {S : Set TaskId} {id : TaskId} {ids : List TaskId}
    (hid : id ∉ ids) : InTurn g S (id :: ids) ↔
      (id ∈ g.cancelables → id ∉ Flood.flood g.Edge g.created S) ∧
        InTurn g (S ∪ {id} ∩ g.cancelables) ids := by
  have hmem : ∀ c ∈ ids, (c ∈ Flood.flood g.Edge g.created ({id} ∩ g.cancelables) ↔
      id ∈ g.cancelables ∧ c ∈ g.doomed id) := by
    intro c hc
    have hne : c ≠ id := fun he => hid (he ▸ hc)
    by_cases hcancel : id ∈ g.cancelables
    · rw [Set.inter_eq_left.mpr (Set.singleton_subset_iff.mpr hcancel), Flood.flood_singleton,
        Set.mem_insert_iff, or_iff_right hne, and_iff_right hcancel]
      rfl
    · rw [Set.singleton_inter_eq_empty.mpr hcancel, Flood.flood_empty]
      simp [hcancel]
  have hdoomed : ∀ c, c ∈ g.doomed id → c ∈ g.cancelables :=
    fun c hc => g.created_subset_cancelables (Flood.below_subset hc)
  unfold InTurn
  rw [List.forall_mem_cons, List.pairwise_cons, Flood.flood_union]
  constructor
  · rintro ⟨⟨hself, hbefore⟩, hnext, hrest⟩
    refine ⟨hself, fun c hc hcancel hflood => ?_, hrest⟩
    rcases hflood with hflood | hflood
    · exact hbefore c hc hcancel hflood
    · obtain ⟨hsource, hbelow⟩ := (hmem c hc).mp hflood
      exact hnext c hc hsource hbelow
  · rintro ⟨hself, hbefore, hrest⟩
    refine ⟨⟨hself, fun c hc hcancel hflood => hbefore c hc hcancel (.inl hflood)⟩,
      fun c hc hsource hbelow => ?_, hrest⟩
    exact hbefore c hc (hdoomed c hbelow) (.inr ((hmem c hc).mpr ⟨hsource, hbelow⟩))

open Classical in
/-- What the turns over `ids` add to the report, when the cascade took the tasks of `late` before
their turn. -/
structure BatchCancelled.Reports (g : Graph) (ids late : List TaskId) (r r' : BatchCancelled) :
    Prop where
  late_subset : late ⊆ ids
  late_cancelable : ∀ i ∈ late, i ∈ g.cancelables
  count : r'.cancelled + late.length =
    r.cancelled + (ids.filter (fun i => decide (i ∈ g.cancelables))).length
  conflicts : ∀ i, i ∈ r'.conflicts.map Prod.fst ↔
    i ∈ r.conflicts.map Prod.fst ∨ (i ∈ ids ∧ i ∉ g.cancelables) ∨ i ∈ late

section

variable {g : Graph} {id : TaskId} {ids late : List TaskId} {r r₁ r' : BatchCancelled}
  {reason : String}

theorem BatchCancelled.Reports.nil (g : Graph) (r : BatchCancelled) :
    BatchCancelled.Reports g [] [] r r where
  late_subset := List.Subset.refl _
  late_cancelable := by simp
  count := rfl
  conflicts := by simp

/-- The task was cancelled by an earlier turn's cascade. -/
theorem BatchCancelled.Reports.cons_late (h : BatchCancelled.Reports g ids late r₁ r')
    (hid : id ∈ g.cancelables) (hcount : r₁.cancelled = r.cancelled)
    (hconflict : r₁.conflicts = r.conflicts ++ [(id, reason)]) :
    BatchCancelled.Reports g (id :: ids) (id :: late) r r' where
  late_subset := List.cons_subset_cons id h.late_subset
  late_cancelable := List.forall_mem_cons.mpr ⟨hid, h.late_cancelable⟩
  count := by
    have hrest := h.count
    rw [List.filter_cons_of_pos (by simpa using hid), List.length_cons, List.length_cons]
    omega
  conflicts := by
    intro i
    rw [h.conflicts, hconflict]
    by_cases hi : i = id
    · simp [hi]
    · simp [hi]

/-- The task is cancelled by its own turn. -/
theorem BatchCancelled.Reports.cons_cancelled (h : BatchCancelled.Reports g ids late r₁ r')
    (hid : id ∈ g.cancelables) (hfirst : id ∉ ids) (hcount : r₁.cancelled = r.cancelled + 1)
    (hconflict : r₁.conflicts = r.conflicts) :
    BatchCancelled.Reports g (id :: ids) late r r' where
  late_subset := List.subset_cons_of_subset id h.late_subset
  late_cancelable := h.late_cancelable
  count := by
    have hrest := h.count
    rw [List.filter_cons_of_pos (by simpa using hid), List.length_cons]
    omega
  conflicts := by
    intro i
    have hlate : id ∉ late := fun hmem => hfirst (h.late_subset hmem)
    rw [h.conflicts, hconflict]
    by_cases hi : i = id
    · simp [hi, hid, hfirst]
    · simp [hi]

/-- The task could not be cancelled at the start either. -/
theorem BatchCancelled.Reports.cons_conflict (h : BatchCancelled.Reports g ids late r₁ r')
    (hid : id ∉ g.cancelables) (hcount : r₁.cancelled = r.cancelled)
    (hconflict : r₁.conflicts = r.conflicts ++ [(id, reason)]) :
    BatchCancelled.Reports g (id :: ids) late r r' where
  late_subset := List.subset_cons_of_subset id h.late_subset
  late_cancelable := h.late_cancelable
  count := by
    have hrest := h.count
    rw [List.filter_cons_of_neg (by simpa using hid)]
    omega
  conflicts := by
    intro i
    rw [h.conflicts, hconflict]
    by_cases hi : i = id
    · simp [hi, hid]
    · simp [hi]

end

theorem CancelledFrom.isSome {g : Graph} {S : Set TaskId} {db : Database} {id : TaskId}
    (h : CancelledFrom g S db) (hid : (g.status id).isSome) : (db.graph.status id).isSome := by
  rw [h, Graph.cancelAll]
  by_cases hflood : id ∈ Flood.flood g.Edge g.created S
  · rw [Graph.setAll_status_of_mem _ _ hflood]
    rfl
  · rw [Graph.setAll_status_of_notMem _ _ hflood]
    exact hid

section

variable {cfg : Settings} {now : Time} {levels : Nat} {g : Graph} {ids : List TaskId}
  {S : Set TaskId} {r : BatchCancelled}

/-- The loop returns if every task is there in its turn, with room for its cascade. -/
theorem cancelBatch_runs (hnodup : ids.Nodup) (hrows : ∀ i ∈ ids, (g.status i).isSome)
    (h : CancelledFrom g S r.db) (hturns : InTurn g S ids) (hroom : RoomInTurn g levels S ids) :
    ∃ r', ids.foldlM (cancelBatchTurn (cancelTaskFuel cfg now levels)) r = .ok r' := by
  induction ids generalizing S r with
  | nil => exact ⟨r, rfl⟩
  | cons id ids ih =>
    obtain ⟨hid, hnodup⟩ := List.nodup_cons.mp hnodup
    obtain ⟨hfirst, hroom⟩ := hroom
    obtain ⟨hmem, hdeep, -⟩ | ⟨-, r₁, hturn, hdb₁, -⟩ :=
      cancelBatch_turn cfg now levels h (h.isSome (hrows id List.mem_cons_self))
    · rw [h.cancelables] at hmem
      rw [h] at hdeep
      exact absurd hdeep (hfirst hmem.1)
    · obtain ⟨r', hloop⟩ := ih hnodup (fun i hi => hrows i (List.mem_cons_of_mem _ hi)) hdb₁
        ((inTurn_cons hid).mp hturns).2 hroom
      exact ⟨r', by rw [List.foldlM_cons, hturn]; exact hloop⟩

/-- What a loop that returns did; `late` are the tasks that could have been cancelled and were
flooded before their turn. -/
theorem cancelBatch_loop (hnodup : ids.Nodup) (hrows : ∀ i ∈ ids, (g.status i).isSome)
    (h : CancelledFrom g S r.db) {r' : BatchCancelled}
    (hloop : ids.foldlM (cancelBatchTurn (cancelTaskFuel cfg now levels)) r = .ok r') :
    CancelledFrom g (S ∪ {i | i ∈ ids} ∩ g.cancelables) r'.db ∧
      ∃ late, BatchCancelled.Reports g ids late r r' ∧
        (late = [] ↔ InTurn g S ids ∧ RoomInTurn g levels S ids) := by
  induction ids generalizing S r with
  | nil =>
    cases hloop
    refine ⟨by simpa using h, [], .nil g r', ?_⟩
    exact iff_of_true rfl ⟨⟨by simp, List.Pairwise.nil⟩, trivial⟩
  | cons id ids ih =>
    obtain ⟨hid, hnodup⟩ := List.nodup_cons.mp hnodup
    obtain ⟨r₀, hturn₀, hloop⟩ := bind_ok hloop
    obtain ⟨-, -, hturn⟩ | ⟨hroom, r₁, hturn, hdb₁, hreport⟩ :=
      cancelBatch_turn cfg now levels h (h.isSome (hrows id List.mem_cons_self)) <;>
      rw [hturn] at hturn₀ <;> cases hturn₀
    obtain ⟨hdb', late, hreports, hlate⟩ :=
      ih hnodup (fun i hi => hrows i (List.mem_cons_of_mem _ hi)) hdb₁ hloop
    have hids : ({i | i ∈ id :: ids} : Set TaskId) = {id} ∪ {i | i ∈ ids} := by
      ext i
      simp
    refine ⟨by rw [hids, Set.union_inter_distrib_right, ← Set.union_assoc]; exact hdb', ?_⟩
    rw [h.cancelables] at hreport hroom
    rw [h] at hroom
    obtain ⟨⟨hcancel, hflood⟩, hcount, hconflict⟩ | ⟨hnot, hcount, reason, hconflict⟩ := hreport
    · refine ⟨late, hreports.cons_cancelled hcancel hid hcount hconflict, ?_⟩
      rw [inTurn_cons hid, hlate, RoomInTurn, and_iff_right fun _ => hflood,
        and_iff_right fun _ => hroom ⟨hcancel, hflood⟩]
    · by_cases hcancel : id ∈ g.cancelables
      · -- the task was flooded before its turn
        refine ⟨id :: late, hreports.cons_late hcancel hcount hconflict, ?_⟩
        rw [inTurn_cons hid]
        exact iff_of_false (List.cons_ne_nil _ _) fun hall => hnot ⟨hcancel, hall.1.1 hcancel⟩
      · refine ⟨late, hreports.cons_conflict hcancel hcount hconflict, ?_⟩
        rw [inTurn_cons hid, hlate, RoomInTurn, and_iff_right fun hc => absurd hc hcancel,
          and_iff_right fun hc => absurd hc hcancel]

end

/-- The answer tells what became of the batch: nothing is left to cancel, the count is that of the
tasks that could be cancelled, and the conflicts are the others. -/
structure BatchCancelled.Faithful (db : Database) (batchId : Nat) (r : BatchCancelled) : Prop where
  left : ∀ i row, db.tasks.get i = some row → row.batchId = some batchId →
    i ∉ r.db.graph.cancelables
  cancelled : ∀ i row, db.tasks.get i = some row → row.batchId = some batchId →
    row.status ∈ cancelable → r.db.graph.status i = some .cancelled
  count : r.cancelled = (db.tasks.select
    (fun x => x.2.batchId == some batchId && decide (x.2.status ∈ cancelable))).length
  conflicts : ∀ i, i ∈ r.conflicts.map Prod.fst ↔
    ∃ row, db.tasks.get i = some row ∧ row.batchId = some batchId ∧ row.status ∉ cancelable

section

variable {order : List (TaskId × Task) → List (TaskId × Task)}
  (horder : ∀ rows, (order rows).Perm rows) (db : Database) (batchId : Nat)

include horder

theorem mem_batchTasks (i : TaskId) : i ∈ batchTasks order db batchId ↔
    ∃ row, db.tasks.get i = some row ∧ row.batchId = some batchId := by
  rw [batchTasks, List.mem_map]
  constructor
  · rintro ⟨⟨j, row⟩, hr, rfl⟩
    obtain ⟨hrow, hbatch⟩ := (db.tasks.mem_select _ j row).mp ((horder _).mem_iff.mp hr)
    exact ⟨row, hrow, by simpa using hbatch⟩
  · rintro ⟨row, hrow, hbatch⟩
    refine ⟨(i, row), (horder _).mem_iff.mpr ?_, rfl⟩
    exact (db.tasks.mem_select _ i row).mpr ⟨hrow, by simpa using hbatch⟩

theorem batchTasks_nodup : (batchTasks order db batchId).Nodup :=
  ((horder _).map Prod.fst).nodup_iff.mpr (db.tasks.select_nodup _)

open Classical in
theorem batchTasks_cancelables :
    ((batchTasks order db batchId).filter (fun i => decide (i ∈ db.graph.cancelables))).length =
      (db.tasks.select
        (fun x => x.2.batchId == some batchId && decide (x.2.status ∈ cancelable))).length := by
  have hperm : (batchTasks order db batchId).Perm
      ((db.tasks.select (fun r => r.2.batchId == some batchId)).map Prod.fst) :=
    (horder _).map Prod.fst
  rw [(hperm.filter _).length_eq, List.filter_map, List.length_map, Table.select, Table.select,
    List.filter_filter]
  refine congrArg List.length (List.filter_congr ?_)
  rintro ⟨i, row⟩ hr
  have hiff := graph_cancelables ((db.tasks.get_eq_some_iff i row).mpr hr)
  simp [hiff, Bool.and_comm]

/-- `cancel_batch` reports what it did exactly if no task of the batch is below one that it cancels
before, and each has a cascade that the stack has room for when its turn comes. -/
theorem batch_cancel_faithful_iff (cfg : Settings) (now : Time) (levels : Nat)
    {batches : Table TaskBatch} (hbatch : (batches.get batchId).isSome) :
    (∃ r, cancelBatchFuel cfg now levels order batches db batchId = .ok r ∧
        r.Faithful db batchId) ↔
      (batchTasks order db batchId).Pairwise
          (fun p c => p ∈ db.graph.cancelables → c ∉ db.graph.doomed p) ∧
        RoomInTurn db.graph levels ∅ (batchTasks order db batchId) := by
  have hmem := mem_batchTasks horder db batchId
  have hnodup := batchTasks_nodup horder db batchId
  have hrows : ∀ i ∈ batchTasks order db batchId, (db.graph.status i).isSome := by
    intro i hi
    obtain ⟨row, hrow, -⟩ := (hmem i).mp hi
    rw [graph_status hrow]
    rfl
  have hstart : CancelledFrom db.graph ∅ (BatchCancelled.mk db 0 []).db := CancelledFrom.start db
  obtain ⟨batch, hget⟩ := Option.isSome_iff_exists.mp hbatch
  have hfold : cancelBatchFuel cfg now levels order batches db batchId =
      (batchTasks order db batchId).foldlM (cancelBatchTurn (cancelTaskFuel cfg now levels))
        ⟨db, 0, []⟩ := by
    simp only [cancelBatchFuel, cancelBatchBody, hget]
  have hcondition : InTurn db.graph ∅ (batchTasks order db batchId) ↔
      (batchTasks order db batchId).Pairwise
        (fun p c => p ∈ db.graph.cancelables → c ∉ db.graph.doomed p) := by
    simp [InTurn]
  rw [hfold, ← hcondition]
  constructor
  · rintro ⟨r, hloop, hfaithful⟩
    obtain ⟨-, late, ⟨-, -, hcount, -⟩, hlate⟩ := cancelBatch_loop hnodup hrows hstart hloop
    rw [batchTasks_cancelables horder db batchId, Nat.zero_add, hfaithful.count] at hcount
    exact hlate.mp (List.length_eq_zero_iff.mp (by omega))
  · rintro ⟨hturns, hroom⟩
    obtain ⟨r, hloop⟩ : ∃ r, (batchTasks order db batchId).foldlM
        (cancelBatchTurn (cancelTaskFuel cfg now levels)) ⟨db, 0, []⟩ = .ok r :=
      cancelBatch_runs hnodup hrows hstart hturns hroom
    obtain ⟨hdb, late, ⟨-, -, hcount, hconflicts⟩, hlate⟩ :=
      cancelBatch_loop hnodup hrows hstart hloop
    obtain rfl := hlate.mpr ⟨hturns, hroom⟩
    rw [batchTasks_cancelables horder db batchId, Nat.zero_add] at hcount
    have hsources : ∀ i row, db.tasks.get i = some row → row.batchId = some batchId →
        row.status ∈ cancelable → r.db.graph.status i = some .cancelled := by
      intro i row hrow hin hs
      rw [hdb, Graph.cancelAll]
      refine Graph.setAll_status_of_mem _ _ (Flood.subset_flood (.inr ⟨?_, ?_⟩))
      · exact (hmem i).mpr ⟨row, hrow, hin⟩
      · exact (graph_cancelables hrow).mpr hs
    refine ⟨r, hloop, fun i row hrow hin => ?_, hsources, hcount, fun i => ?_⟩
    · by_cases hs : row.status ∈ cancelable
      · exact not_cancelable_of_status (hsources i row hrow hin hs) (by decide)
      · rw [hdb, Graph.cancelAll, Graph.cancelables_setAll]
        exact fun h => hs ((graph_cancelables hrow).mp h.1)
    · rw [hconflicts, hmem]
      constructor
      · rintro (hnil | ⟨⟨row, hrow, hin⟩, hnot⟩ | hnil)
        · cases hnil
        · exact ⟨row, hrow, hin, fun hs => hnot ((graph_cancelables hrow).mpr hs)⟩
        · cases hnil
      · rintro ⟨row, hrow, hin, hs⟩
        exact .inr (.inl ⟨⟨row, hrow, hin⟩, fun h => hs ((graph_cancelables hrow).mp h)⟩)

end

/-- A batch of two tasks, the second one waiting for the first. -/
def pairRun : List Action :=
  [.createTask 0 { plainSpec with batchId := some 1 },
    .createTask 1 { plainSpec with batchId := some 1, dependsOn := some [1] }]

def pairDb : Database := (Platform.after .default pairRun).db

def oneBatch : Table TaskBatch := Table.empty.insert ⟨"pair", none⟩

theorem batch_cancel_faithful_iff_reversed :
    (∃ r, cancelBatchFuel .default 2 250 List.reverse oneBatch pairDb 1 = .ok r ∧
        r.Faithful pairDb 1) ↔
      (batchTasks List.reverse pairDb 1).Pairwise
          (fun p c => p ∈ pairDb.graph.cancelables → c ∉ pairDb.graph.doomed p) ∧
        RoomInTurn pairDb.graph 250 ∅ (batchTasks List.reverse pairDb 1) :=
  batch_cancel_faithful_iff List.reverse_perm pairDb 1 .default 2 250 (by decide +kernel)

/-- The child is cancelled by the cascade; it is reported as a conflict and not counted. -/
theorem pairRun_cancel_miscounts :
    ¬ ∃ r, cancelBatchFuel .default 2 250 id oneBatch pairDb 1 = .ok r ∧ r.Faithful pairDb 1 := by
  rintro ⟨r, hrun, hfaithful⟩
  have hcount : (cancelBatchFuel .default 2 250 id oneBatch pairDb 1).toOption.map (·.cancelled) =
      some 1 := by decide +kernel
  have hmembers : (pairDb.tasks.select
      (fun x => x.2.batchId == some 1 && decide (x.2.status ∈ cancelable))).length = 2 := by
    decide +kernel
  have hreported := hfaithful.count
  rw [hmembers] at hreported
  rw [hrun, Except.toOption, Option.map_some, hreported, Option.some.injEq] at hcount
  omega

end TaskPlatform
