import TaskPlatform.Graph
import TaskPlatform.Execution

/-!
# Children start after their parents

Every way into the queue keeps the order of the graph except a retry: the parents
of a task are looked at when it is unblocked, and an operator can retry a task
that was cancelled while it was blocked. As long as cancelled tasks are retried
only after all their parents succeeded, no child starts before that.
-/

namespace TaskPlatform

open Run

namespace Graph

/-- A child that left `created` other than by a cancellation has successful parents. -/
def Ordered (g : Graph) : Prop :=
  ∀ d ∈ g.edges, ∀ s, g.status d.childTaskId = some s → s ≠ .created → s ≠ .cancelled →
    g.status d.parentTaskId = some .success

theorem Ordered.ready {g : Graph} (h : g.Ordered) {id : TaskId} {s : Status}
    (hs : g.status id = some s) (hc : s ≠ .created) (hx : s ≠ .cancelled) : g.Ready id :=
  fun p hp => h ⟨p, id⟩ hp s hs hc hx

/-- A parent that has not succeeded has no child that started. -/
theorem Ordered.set {g : Graph} (h : g.Ordered) {id : TaskId} {new : Status}
    (hold : g.status id ≠ some .success)
    (hnew : new = .created ∨ new = .cancelled ∨ g.Ready id) : (g.set id new).Ordered := by
  intro d hd s hs hc hx
  have hchild : g.Ready d.childTaskId := by
    by_cases hi : d.childTaskId = id
    · rw [hi, set_status_self] at hs
      cases hs
      rcases hnew with h | h | h
      · exact absurd h hc
      · exact absurd h hx
      · rw [hi]; exact h
    · rw [set_status_of_ne _ _ hi] at hs
      exact h.ready hs hc hx
  have hparent := hchild d.parentTaskId hd
  have hne : d.parentTaskId ≠ id := fun hi => hold (hi ▸ hparent)
  rw [set_status_of_ne _ _ hne, hparent]

theorem Ordered.remove {g : Graph} (h : g.Ordered) (ids : List TaskId) :
    (g.remove ids).Ordered := by
  intro d hd s hs hc hx
  simp only [Graph.remove, List.mem_filter, decide_eq_true_eq] at hd hs ⊢
  rw [if_neg hd.2.2] at hs
  rw [if_neg hd.2.1]
  exact h d hd.1 s hs hc hx

theorem Ordered.block {g : Graph} (h : g.Ordered) {id : TaskId} {parents : List TaskId}
    (hs : g.status id = some .created) :
    Ordered { g with edges := g.edges ++ parents.map (fun p => ⟨p, id⟩) } := by
  intro d hd s hs' hc hx
  rcases List.mem_append.mp hd with hd | hd
  · exact h d hd s hs' hc hx
  · obtain ⟨p, -, rfl⟩ := List.mem_map.mp hd
    rw [show g.status id = some s from hs'] at hs
    cases hs
    exact absurd rfl hc

/-- Where the parents of the tasks that are retried stand. -/
def Retriable (g : Graph) (ids : List TaskId) : Prop :=
  ∀ id ∈ ids, g.status id = some .cancelled → g.Ready id

theorem Step.ordered {g g' : Graph} {l : Label} (h : Step g l g') (ho : g.Ordered)
    (hretry : ∀ id, l = .enqueue .retry id → g.Retriable [id]) : g'.Ordered := by
  cases h with
  | same => exact ho
  | insert hnone => exact ho.set (by rw [hnone]; simp) (.inl rfl)
  | block hs => exact ho.block hs
  | schedule hs hnone =>
    exact ho.set (by rw [hs]; decide) (.inr (.inr fun p hp => absurd hp (hnone p)))
  | @enqueue id old cause hs hsource hready =>
    have hready' : g.Ready id := by
      cases cause with
      | create => exact hready rfl
      | unblock => exact hready rfl
      | retry =>
        by_cases hx : old = .cancelled
        · exact hretry id rfl id List.mem_cons_self (by rw [hs, hx])
        · refine ho.ready hs ?_ hx
          rintro rfl
          exact absurd hsource (by decide)
      | due =>
        have hne : old ≠ .created ∧ old ≠ .cancelled := by
          constructor <;> (rintro rfl; exact absurd hsource (by decide))
        exact ho.ready hs hne.1 hne.2
      | dlq =>
        have hne : old ≠ .created ∧ old ≠ .cancelled := by
          constructor <;> (rintro rfl; exact absurd hsource (by decide))
        exact ho.ready hs hne.1 hne.2
    refine ho.set ?_ (.inr (.inr hready'))
    rw [hs]
    rintro he
    cases he
    have ht := Cause.sources_transition hsource
    rw [canTransition_success] at ht
    cases ht
  | start w hs =>
    exact ho.set (by rw [hs]; decide) (.inr (.inr (ho.ready hs (by decide) (by decide))))
  | cancel hs hc =>
    refine ho.set ?_ (.inr (.inl rfl))
    rw [hs]
    rintro he
    cases he
    exact absurd hc (by decide)
  | finish hs =>
    exact ho.set (by rw [hs]; decide) (.inr (.inr (ho.ready hs (by decide) (by decide))))
  | recover hs =>
    exact ho.set (by rw [hs]; decide) (.inr (.inr (ho.ready hs (by decide) (by decide))))
  | delete ids hids => exact ho.remove ids

/-- Retrying a task leaves the parents of the others where they are. -/
theorem Step.retriable {g g' : Graph} {cause : Cause} {i : TaskId}
    (h : Step g (.enqueue cause i) g') {ids : List TaskId} (hr : g.Retriable ids) :
    g'.Retriable ids := by
  cases h with
  | same => exact hr
  | @enqueue _ old _ hs hsource =>
    intro id hid hx p hp
    have hne : id ≠ i := by
      rintro rfl
      rw [set_status_self] at hx
      cases hx
    rw [set_status_of_ne _ _ hne] at hx
    have hparent := hr id hid hx p hp
    have hpi : p ≠ i := by
      rintro rfl
      rw [hparent] at hs
      cases hs
      have ht := Cause.sources_transition hsource
      rw [canTransition_success] at ht
      cases ht
    rw [set_status_of_ne _ _ hpi, hparent]

end Graph

/-- Of the tasks that would be retried, the cancelled ones have only successful parents. -/
def RetriesReady (p : Platform) : Action → Prop
  | .manualRetry _ id => ∀ row ∈ p.db.tasks.get id, row.status = .cancelled →
    allParentsSucceeded p.db id = true
  | .bulkRetry _ ids => ∀ id ∈ ids, ∀ row ∈ p.db.tasks.get id, row.status = .cancelled →
    allParentsSucceeded p.db id = true
  | _ => True

instance (p : Platform) (a : Action) : Decidable (RetriesReady p a) := by
  rcases a <;> unfold RetriesReady <;> infer_instance

/-- When `start_attempt` moves the task to `running`, all its parents are in `success`. -/
def ParentsSucceeded (cfg : Settings) (p : Platform) (a : Action) : Prop :=
  ∀ id, starts cfg id p a = true → ∀ parent ∈ (p.step cfg a).db.parentsOf id,
    ((p.step cfg a).db.tasks.get parent).map (·.status) = some .success

theorem retriable_of_ready {db : Database} (hfk : db.ForeignKeys) {ids : List TaskId}
    (h : ∀ id ∈ ids, ∀ row ∈ db.tasks.get id, row.status = .cancelled →
      allParentsSucceeded db id = true) : db.graph.Retriable ids := by
  intro id hid hx
  obtain ⟨row, hrow, hs⟩ := Option.map_eq_some_iff.mp hx
  exact (allParentsSucceeded_iff hfk id).mp (h id hid row hrow hs)

theorem retries_ordered {cfg : Settings} {db db' : Database} {ls : List Label}
    {ids : List TaskId} (h : Trace (Change cfg) db ls db')
    (hls : ∀ l ∈ ls, ∃ id ∈ ids, l = .enqueue .retry id) (hfk : db.ForeignKeys)
    (hok : ∀ id, (db.view id).Ok) (ho : db.graph.Ordered) (hr : db.graph.Retriable ids) :
    db'.graph.Ordered := by
  have hinv := h.invariant (P := fun db => db.ForeignKeys ∧ (∀ id, (db.view id).Ok) ∧
    db.graph.Ordered ∧ db.graph.Retriable ids) ?_ hls ⟨hfk, hok, ho, hr⟩
  · exact hinv.2.2.1
  · rintro db l db₁ ⟨hfk, hok, ho, hr⟩ ⟨i, hi, rfl⟩ hc
    have hstep := hc.graph hfk hok
    refine ⟨hc.foreignKeys hfk, hc.views hok, hstep.ordered ho ?_, hstep.retriable hr⟩
    intro id he j hj
    cases he
    rw [List.mem_singleton.mp hj]
    exact hr i hi

theorem others_ordered {cfg : Settings} {db db' : Database} {ls : List Label}
    (h : Trace (Change cfg) db ls db') (hls : ∀ l ∈ ls, ∀ id, l ≠ .enqueue .retry id)
    (hfk : db.ForeignKeys) (hok : ∀ id, (db.view id).Ok) (ho : db.graph.Ordered) :
    db'.graph.Ordered := by
  have hinv := h.invariant (P := fun db => db.ForeignKeys ∧ (∀ id, (db.view id).Ok) ∧
    db.graph.Ordered) ?_ hls ⟨hfk, hok, ho⟩
  · exact hinv.2.2
  · rintro db l db₁ ⟨hfk, hok, ho⟩ hl hc
    exact ⟨hc.foreignKeys hfk, hc.views hok,
      (hc.graph hfk hok).ordered ho fun id he => absurd he (hl id)⟩

theorem step_ordered {cfg : Settings} {p : Platform} (h : p.Sound) (ho : p.db.graph.Ordered)
    (a : Action) (hc : RetriesReady p a) : (p.step cfg a).db.graph.Ordered := by
  obtain ⟨ls, htr, hls⟩ : ∃ ls, Trace (Change cfg) p.db ls (p.step cfg a).db ∧
    ∀ l ∈ ls, a.Allows cfg p l := step_trace h.foreignKeys h.held a
  cases a with
  | manualRetry now id =>
    have hready : p.db.graph.Retriable [id] := by
      apply retriable_of_ready h.foreignKeys
      intro i hi
      rw [List.mem_singleton.mp hi]
      exact hc
    exact retries_ordered htr (fun l hl => ⟨id, List.mem_cons_self, hls l hl⟩) h.foreignKeys
      h.views ho hready
  | bulkRetry now ids =>
    exact retries_ordered htr hls h.foreignKeys h.views ho
      (retriable_of_ready h.foreignKeys hc)
  | requeueDue now limit locked =>
    refine others_ordered htr (fun l hl i he => ?_) h.foreignKeys h.views ho
    obtain ⟨j, -, hl'⟩ := hls l hl
    rw [hl'] at he
    cases he
  | requeueDlq now limit locked =>
    refine others_ordered htr (fun l hl i he => ?_) h.foreignKeys h.views ho
    obtain ⟨j, -, hl'⟩ := hls l hl
    rw [hl'] at he
    cases he
  | _ =>
    refine others_ordered htr (fun l hl i he => ?_) h.foreignKeys h.views ho
    have hfirst := Action.Allows.not_requeues (he ▸ hls l hl) rfl
    cases hfirst

theorem parentsSucceeded_of_ordered {cfg : Settings} {p : Platform} {a : Action}
    (ho : (p.step cfg a).db.graph.Ordered) : ParentsSucceeded cfg p a := by
  intro id hstart parent hparent
  have hmem := (Database.mem_parentsOf _ parent id).mp hparent
  obtain ⟨-, row, hrow, hs⟩ := row_of_starts hstart
  exact ho.ready (graph_status hrow) (by rw [hs]; decide) (by rw [hs]; decide) parent hmem

/-- Along a run in which cancelled tasks are retried only after all their parents succeeded, every
task starts after all its parents succeeded. -/
theorem parents_succeeded_of_retries_ready (cfg : Settings) (acts : List Action)
    (h : Along (Platform.step cfg) RetriesReady Platform.initial acts) :
    Along (Platform.step cfg) (ParentsSucceeded cfg) Platform.initial acts := by
  refine along_of_along_invariant (P := fun p : Platform => p.Sound ∧ p.db.graph.Ordered)
    ?_ ?_ ⟨Platform.initial_sound, fun d hd => by cases hd⟩ h
  · exact fun p a hp hc => ⟨hp.1.step cfg a, step_ordered hp.1 hp.2 a hc⟩
  · exact fun p a hp hc => parentsSucceeded_of_ordered (step_ordered hp.1 hp.2 a hc)

/-- A child of one parent, which is started after the parent succeeded. -/
def joinRun : List Action :=
  [.createTask 0 plainSpec, .createTask 1 { plainSpec with dependsOn := some [1] }, .start 2 "w1" 1,
    .recordSuccess 3 "w1" "{}", .start 4 "w1" 2]

theorem parents_succeeded_of_retries_ready_joinRun :
    Along (Platform.step .default) (ParentsSucceeded .default) Platform.initial joinRun :=
  parents_succeeded_of_retries_ready .default joinRun (by decide +kernel)

/-- A blocked child is cancelled and retried while its parent is still in the queue. -/
def skipRun : List Action :=
  [.createTask 0 plainSpec, .createTask 1 { plainSpec with dependsOn := some [1] }, .cancelTask 2 2,
    .manualRetry 3 2]

/-- Then the child is started before its parent. -/
theorem skipRun_parent_queued :
    ¬ Along (Platform.step .default) (ParentsSucceeded .default) Platform.initial
      (skipRun ++ [.start 4 "w1" 2]) := by
  intro h
  have hlast := ((along_append _ _ _ _ _).mp h).2.1
  exact absurd (hlast 2 (by decide +kernel) 1 (by decide +kernel)) (by decide +kernel)

end TaskPlatform
