import TaskPlatform.Sweep

/-!
# Blocked children wait for undecided parents

A blocked child is looked at only when one of its parents reaches a terminal
status. `Waiting` says that every blocked child has a parent that still will; a
cascade breaks it for the children that it has not visited yet, and each of its
turns takes one child out of the exceptions. Two places break it for good: a
child that is registered when all its parents are decided, and the success of a
last parent next to one that failed before the child was registered.
-/

namespace TaskPlatform

open Run

namespace Graph

/-- The task is there and not in a terminal status. -/
def Undecided (g : Graph) (id : TaskId) : Prop := ∃ s, g.status id = some s ∧ s ∉ terminal

def Open (g : Graph) (id : TaskId) : Prop := ∃ p, ⟨p, id⟩ ∈ g.edges ∧ g.Undecided p

/-- Every blocked child outside `E` has an undecided parent. -/
def Waiting (g : Graph) (E : List TaskId) : Prop :=
  ∀ id, g.status id = some .created → id ∉ E → (∃ p, ⟨p, id⟩ ∈ g.edges) → g.Open id

theorem Undecided.set {g : Graph} {p : TaskId} (h : g.Undecided p) (id : TaskId) {new : Status}
    (hnew : p = id → new ∉ terminal) : (g.set id new).Undecided p := by
  by_cases hp : p = id
  · exact ⟨new, by rw [hp, set_status_self], hnew hp⟩
  · obtain ⟨s, hs, hn⟩ := h
    exact ⟨s, by rw [set_status_of_ne _ _ hp, hs], hn⟩

theorem created_of_set {g : Graph} {id i : TaskId} {new : Status} (hnew : new ≠ .created)
    (h : (g.set id new).status i = some .created) : i ≠ id ∧ g.status i = some .created := by
  have hi : i ≠ id := by
    rintro rfl
    rw [set_status_self] at h
    cases h
    exact hnew rfl
  exact ⟨hi, by rwa [set_status_of_ne _ _ hi] at h⟩

/-- A step to a status that is not terminal keeps every parent undecided. -/
theorem Waiting.set {g : Graph} {E : List TaskId} (h : g.Waiting E) (id : TaskId) {new : Status}
    (hc : new ≠ .created) (hnew : new ∉ terminal) : (g.set id new).Waiting E := by
  intro i hi hE hparent
  obtain ⟨p, hp, hund⟩ := h i (created_of_set hc hi).2 hE hparent
  exact ⟨p, hp, hund.set id fun _ => hnew⟩

/-- A step to a terminal status leaves the children of the task to be visited. -/
theorem Waiting.settle {g : Graph} {E : List TaskId} (h : g.Waiting E) {id : TaskId}
    {new : Status} (hnew : new ∈ terminal) {children : List TaskId}
    (hchildren : ∀ c, ⟨id, c⟩ ∈ g.edges → c ∈ children) :
    (g.set id new).Waiting (children ++ E) := by
  have hc : new ≠ .created := by
    rintro rfl
    exact absurd hnew (by decide)
  intro i hi hE hparent
  rw [List.mem_append, not_or] at hE
  obtain ⟨p, hp, hund⟩ := h i (created_of_set hc hi).2 hE.2 hparent
  refine ⟨p, hp, hund.set id fun he => ?_⟩
  rw [he] at hp
  exact absurd (hchildren i hp) hE.1

/-- A child that was visited is no exception any more. -/
theorem Waiting.visited {g : Graph} {E : List TaskId} {c : TaskId} (h : g.Waiting (c :: E))
    (hc : g.status c = some .created → (∃ p, ⟨p, c⟩ ∈ g.edges) → g.Open c) : g.Waiting E := by
  intro i hi hE hparent
  by_cases hic : i = c
  · rw [hic] at hi hparent ⊢
    exact hc hi hparent
  · exact h i hi (by simp [hic, hE]) hparent

theorem Waiting.weaken {g : Graph} {E F : List TaskId} (h : g.Waiting E) (hEF : E ⊆ F) :
    g.Waiting F :=
  fun i hi hF hparent => h i hi (fun hE => hF (hEF hE)) hparent

/-- What is asked of a child when a parent of it succeeds. -/
def Settled (g : Graph) (c : TaskId) : Prop :=
  g.status c = some .created → g.Ready c ∨ g.Open c

theorem Settled.set {g : Graph} {c id : TaskId} {old new : Status} (h : g.Settled c)
    (hold : g.status id = some old) (hs : old ≠ .success) (hc : new ≠ .created)
    (hnew : new ∉ terminal) : (g.set id new).Settled c := by
  intro hcreated
  obtain hready | ⟨p, hp, hund⟩ := h (created_of_set hc hcreated).2
  · refine .inl fun p hp => ?_
    have hsuccess := hready p hp
    have hne : p ≠ id := by
      rintro rfl
      rw [hold] at hsuccess
      cases hsuccess
      exact hs rfl
    rw [set_status_of_ne _ _ hne, hsuccess]
  · exact .inr ⟨p, hp, hund.set id fun _ => hnew⟩

theorem Waiting.insert {g : Graph} (h : g.Waiting []) (hfk : g.ForeignKeys) {id : TaskId}
    (hnone : g.status id = none) : (g.set id .created).Waiting [] := by
  intro i hi _ hparent
  have hne : i ≠ id := by
    rintro rfl
    obtain ⟨p, hp⟩ := hparent
    have hsome := (hfk _ hp).2
    rw [hnone] at hsome
    cases hsome
  rw [set_status_of_ne _ _ hne] at hi
  obtain ⟨p, hp, hund⟩ := h i hi (by simp) hparent
  exact ⟨p, hp, hund.set id fun _ => by decide⟩

theorem Waiting.block {g : Graph} (h : g.Waiting []) {id : TaskId} {parents : List TaskId}
    (hopen : parents = [] ∨ ∃ p ∈ parents, g.Undecided p) :
    Waiting { g with edges := g.edges ++ parents.map (fun p => ⟨p, id⟩) } [] := by
  intro i hi _ ⟨q, hq⟩
  rcases List.mem_append.mp hq with hold | hnew
  · obtain ⟨p, hp, hund⟩ := h i hi (by simp) ⟨q, hold⟩
    exact ⟨p, List.mem_append_left _ hp, hund⟩
  · obtain ⟨p, hp, he⟩ := List.mem_map.mp hnew
    cases he
    rcases hopen with rfl | ⟨p, hp, hund⟩
    · cases hp
    · exact ⟨p, List.mem_append_right _ (List.mem_map.mpr ⟨p, hp, rfl⟩), hund⟩

theorem Waiting.remove {g : Graph} (h : g.Waiting []) {ids : List TaskId}
    (hids : ∀ i ∈ ids, ∃ s ∈ terminal, g.status i = some s) : (g.remove ids).Waiting [] := by
  intro i hi _ ⟨q, hq⟩
  simp only [Graph.remove, List.mem_filter] at hi hq
  split at hi
  · cases hi
  · rename_i hout
    obtain ⟨p, hp, s, hs, hn⟩ := h i hi (by simp) ⟨q, hq.1⟩
    have hpout : p ∉ ids := by
      intro hmem
      obtain ⟨s', hterm, hs'⟩ := hids p hmem
      rw [hs] at hs'
      cases hs'
      exact hn hterm
    refine ⟨p, ?_, s, ?_, hn⟩
    · simp only [Graph.remove, List.mem_filter, decide_eq_true_eq]
      exact ⟨hp, hpout, hout⟩
    · simp only [Graph.remove, if_neg hpout, hs]

/-- A step outside the outcomes and cancellations. -/
theorem Step.waiting {g g' : Graph} {l : Label} (h : Step g l g') (hw : g.Waiting [])
    (hfk : g.ForeignKeys) (hl : ∀ id new, l ≠ .settle id new)
    (hblock : ∀ id parents, l = .block id parents →
      parents = [] ∨ ∃ p ∈ parents, g.Undecided p) : g'.Waiting [] := by
  cases h with
  | same => exact hw
  | insert hnone => exact hw.insert hfk hnone
  | block hs hparents => exact hw.block (hblock _ _ rfl)
  | schedule hs hnone => exact hw.set _ (by decide) (by decide)
  | enqueue hs hsource hready => exact hw.set _ (by decide) (by decide)
  | start w hs => exact hw.set _ (by decide) (by decide)
  | cancel hs hc => exact absurd rfl (hl _ _)
  | finish hs => exact absurd rfl (hl _ _)
  | recover hs => exact hw.set _ (by decide) (by decide)
  | delete ids hids => exact hw.remove hids

/-- The same steps decide no task. -/
theorem Step.undecided {g g' : Graph} {l : Label} (h : Step g l g')
    (hl : ∀ id new, l ≠ .settle id new) {p : TaskId}
    (hp : ∀ s, g.status p = some s → s ∉ terminal) :
    ∀ s, g'.status p = some s → s ∉ terminal := by
  have hset : ∀ (id : TaskId) (new : Status), new ∉ terminal →
      ∀ s, (g.set id new).status p = some s → s ∉ terminal := by
    intro id new hnew s hs
    by_cases hi : p = id
    · rw [hi, set_status_self] at hs
      cases hs
      exact hnew
    · rw [set_status_of_ne _ _ hi] at hs
      exact hp s hs
  cases h with
  | same => exact hp
  | insert hnone => exact hset _ _ (by decide)
  | block hs hparents => exact hp
  | schedule hs hnone => exact hset _ _ (by decide)
  | enqueue hs hsource hready => exact hset _ _ (by decide)
  | start w hs => exact hset _ _ (by decide)
  | cancel hs hc => exact absurd rfl (hl _ _)
  | finish hs => exact absurd rfl (hl _ _)
  | recover hs => exact hset _ _ (by decide)
  | delete ids hids =>
    intro s hs
    simp only [Graph.remove] at hs
    split at hs
    · cases hs
    · exact hp s hs

end Graph

theorem Graph.waiting_sweep : Graph.Sweep Graph.Waiting Graph.Settled where
  weaken := Graph.Waiting.weaken
  pass hw hc := hw.visited fun hcreated => absurd hcreated hc
  wait hw hs hready := hw.visited fun hcreated _ => (hs hcreated).resolve_left hready
  unblock hw _ := hw.set _ (by decide) (by decide)
  cancel hw _ _ hchildren := hw.settle (by decide) hchildren
  keep hs hd := hs.set hd (by decide) (by decide) (by decide)

/-- A status change to a terminal status, with its cascade. -/
theorem settle_waiting {cfg : Settings} {now : Time} {n : Nat} {db db₁ db' : Database}
    {id : TaskId} {new : Status} (hgraph : db₁.graph = db.graph.set id new)
    (hw : db.graph.Waiting []) (hfk : db₁.ForeignKeys) (hnew : new ∈ terminal)
    (hsettled : new = .success → ∀ c ∈ db₁.childrenOf id, db₁.graph.Settled c)
    (h : cascade cfg now n db₁ id new = .ok db') : db'.graph.Waiting [] := by
  refine cascade_sweep Graph.waiting_sweep h hnew hfk ?_ ?_ hsettled
  · rw [hgraph, Graph.set_status_self]
  rw [hgraph]
  refine hw.settle hnew fun c hc => (db₁.mem_childrenOf id c).mpr ?_
  have hedges := congrArg Graph.edges hgraph
  simp only [graph_edges, Graph.set_edges] at hedges
  rw [hedges]
  exact hc

theorem cancelTask_waiting {cfg : Settings} {now : Time} {db db' : Database} {id : TaskId}
    (hw : db.graph.Waiting []) (hfk : db.ForeignKeys)
    (h : cancelTask cfg now db id = .ok (some db')) : db'.graph.Waiting [] := by
  obtain ⟨row, hrow, hcancel, n, hcascade⟩ := cancelTask_ok h
  have hchange : Change cfg db (.settle id .cancelled)
      (db.move now id row .cancelled .cancelled none) := .cancel now none hrow hcancel
  refine settle_waiting (graph_move _ _ _ _ hrow) hw (hchange.foreignKeys hfk) (by decide) ?_
    hcascade
  intro he
  cases he

def undecided (db : Database) (id : TaskId) : Bool :=
  (db.tasks.get id).any (fun row => decide (row.status ∉ terminal))

def succeeded (db : Database) (id : TaskId) : Bool :=
  (db.tasks.get id).any (fun row => row.status == .success)

/-- Every task in `created` with a dependency has a parent that is not in `TERMINAL`. -/
def BlockedWait (db : Database) : Prop :=
  ∀ id row, db.tasks.get id = some row → row.status = .created → db.parentsOf id ≠ [] →
    ∃ parent ∈ db.parentsOf id, undecided db parent = true

/-- The other parents of every blocked child all succeeded, or one of them is undecided. -/
def JoinsSettled (db : Database) (id : TaskId) : Prop :=
  ∀ c ∈ db.childrenOf id, ∀ row ∈ db.tasks.get c, row.status = .created →
    (∀ q ∈ db.parentsOf c, q ≠ id → succeeded db q = true) ∨
    ∃ q ∈ db.parentsOf c, q ≠ id ∧ undecided db q = true

/-- A new blocked task has an undecided parent, and a task that succeeds leaves no blocked child
without an undecided parent unless all the parents succeeded. -/
def ParentsOpen (p : Platform) : Action → Prop
  | .createTask _ spec => keyTaken p.db spec.idempotencyKey = false →
    ∀ parents ∈ spec.dependsOn, parents ≠ [] →
      ∃ parent ∈ parents, ∀ row ∈ p.db.tasks.get parent, row.status ∉ terminal
  | .recordSuccess _ w _ => ∀ held ∈ p.holding w, stillRunning p.db held.task.id = true →
    JoinsSettled p.db held.task.id
  | _ => True

instance (db : Database) (id : TaskId) : Decidable (JoinsSettled db id) := by
  unfold JoinsSettled; infer_instance

instance (p : Platform) (a : Action) : Decidable (ParentsOpen p a) := by
  rcases a <;> unfold ParentsOpen <;> infer_instance

theorem undecided_iff (db : Database) (id : TaskId) :
    undecided db id = true ↔ db.graph.Undecided id := by
  simp only [undecided, Graph.Undecided, Database.graph, Option.any_eq_true, Option.map_eq_some_iff,
    decide_eq_true_eq]
  constructor
  · rintro ⟨row, hrow, hn⟩
    exact ⟨row.status, ⟨row, hrow, rfl⟩, hn⟩
  · rintro ⟨s, ⟨row, hrow, rfl⟩, hn⟩
    exact ⟨row, hrow, hn⟩

theorem status_of_succeeded {db : Database} {id : TaskId} (h : succeeded db id = true) :
    db.graph.status id = some .success := by
  obtain ⟨row, hrow, hs⟩ := (Option.any_eq_true _ _).mp h
  rw [graph_status hrow, beq_iff_eq.mp hs]

theorem blockedWait_of_waiting {db : Database} (h : db.graph.Waiting []) : BlockedWait db := by
  intro id row hrow hs hparents
  obtain ⟨q, hq⟩ := List.exists_mem_of_ne_nil _ hparents
  obtain ⟨p, hp, hund⟩ := h id (by rw [graph_status hrow, hs]) (by simp)
    ⟨q, (db.mem_parentsOf q id).mp hq⟩
  exact ⟨p, (db.mem_parentsOf p id).mpr hp, (undecided_iff db p).mpr hund⟩

/-- After the success of a task its children are settled, if their joins were before. -/
theorem JoinsSettled.settled {db : Database} {id : TaskId} (h : JoinsSettled db id) {c : TaskId}
    (hc : c ∈ db.childrenOf id) : (db.graph.set id .success).Settled c := by
  intro hcreated
  obtain ⟨-, hbefore⟩ := Graph.created_of_set (by decide) hcreated
  obtain ⟨row, hrow, hs⟩ := Option.map_eq_some_iff.mp hbefore
  obtain hall | ⟨q, hq, hne, hund⟩ := h c hc row hrow hs
  · refine .inl fun p hp => ?_
    by_cases hpi : p = id
    · rw [hpi, Graph.set_status_self]
    · rw [Graph.set_status_of_ne _ _ hpi]
      exact status_of_succeeded (hall p ((db.mem_parentsOf p c).mpr hp) hpi)
  · refine .inr ⟨q, (db.mem_parentsOf q c).mp hq, ?_⟩
    exact ((undecided_iff db q).mp hund).set id fun he => absurd he hne

theorem Stamped.graph {now : Time} {id : TaskId} {db db' : Database}
    (h : Stamped now id db db') : db'.graph = db.graph := by
  obtain rfl | ⟨row, dlqRetryAt, hrow, rfl⟩ := h
  · rfl
  · exact graph_setTask_same hrow rfl

/-- In the graph an outcome sets the status of its task. -/
theorem finishedDb_graph {now : Time} {db : Database} {w : WorkerId} {held : Held}
    {row task : Task} {new : Status} (hv : held.Valid w)
    (hrow : db.tasks.get held.task.id = some row)
    (hout : OutcomeFields now held.task.loaded new task) (eventType : EventType)
    (details : Option Details) :
    (finishedDb now db held row task new eventType details).graph =
      db.graph.set held.task.id new := by
  have hstatus : ((Task.merge held.task.loaded (setStatusFields now task new) row).touch now).status
      = new := (hv.merge row now hout).1
  rw [finishedDb, graph_change _ _ _ _ _ _ hrow, hstatus]

theorem Outcome.waiting {cfg : Settings} {now : Time} {db db' : Database} {w : WorkerId}
    {held : Held} {succeeds : Bool} (hv : held.Valid w) (h : Outcome cfg now db held succeeds db')
    (hw : db.graph.Waiting []) (hfk : db.ForeignKeys)
    (hjoins : succeeds = true → stillRunning db held.task.id = true →
      JoinsSettled db held.task.id) : db'.graph.Waiting [] := by
  cases h with
  | refused => exact hw
  | @finished cur row task new eventType details n db₁ _ ha hclose hrow hrun hout hnew hcascade
      hstamp =>
    rw [hstamp.graph]
    let closed := closeHeld db held.attemptId held.attempt cur
    have hrow' : closed.tasks.get held.task.id = some row := hrow
    have hgraph := finishedDb_graph hv hrow' hout eventType details
    by_cases hterm : new ∈ terminal
    · refine settle_waiting hgraph hw ?_ hterm ?_ hcascade
      · have hchange : Change cfg closed (.settle held.task.id new)
            (finishedDb now closed held row task new eventType details) :=
          .finish now eventType details hv hrow' hrun hout
        exact hchange.foreignKeys hfk
      · rintro rfl c hc
        rw [hgraph]
        refine (hjoins (hnew.mp rfl) ?_).settled hc
        simp [stillRunning, hrow, hrun]
    · rw [cascade, if_neg hterm] at hcascade
      cases hcascade
      rw [hgraph]
      refine hw.set _ ?_ hterm
      rintro rfl
      cases hout

/-- The trace of an action without outcomes and cancellations keeps what the joins need. -/
theorem trace_waiting {cfg : Settings} {db db' : Database} {ls : List Label}
    (htr : Trace (Change cfg) db ls db') (hsettle : ∀ l ∈ ls, ∀ id new, l ≠ .settle id new)
    (hblock : ∀ l ∈ ls, ∀ id parents, l = .block id parents → parents = [] ∨
      ∃ p ∈ parents, ∀ s, db.graph.status p = some s → s ∉ terminal)
    (hfk : db.ForeignKeys) (hok : ∀ id, (db.view id).Ok) (hw : db.graph.Waiting []) :
    db'.graph.Waiting [] := by
  -- a parent that is not decided at the start of the transaction stays so
  have hinv := htr.invariant
    (P := fun d => d.ForeignKeys ∧ (∀ id, (d.view id).Ok) ∧ d.graph.Waiting [] ∧
      ∀ p, (∀ s, db.graph.status p = some s → s ∉ terminal) →
        ∀ s, d.graph.status p = some s → s ∉ terminal)
    (Q := fun l => (∀ id new, l ≠ .settle id new) ∧ ∀ id parents, l = .block id parents →
      parents = [] ∨ ∃ p ∈ parents, ∀ s, db.graph.status p = some s → s ∉ terminal)
    ?_ (fun l hl => ⟨hsettle l hl, hblock l hl⟩) ⟨hfk, hok, hw, fun p hp => hp⟩
  · exact hinv.2.2.1
  · rintro d l d' ⟨hfk, hok, hw, hkeep⟩ ⟨hl, hopen⟩ hc
    have hstep := hc.graph hfk hok
    refine ⟨hc.foreignKeys hfk, hc.views hok, hstep.waiting hw (graph_foreignKeys hfk) hl ?_,
      fun p hp => hstep.undecided hl (hkeep p hp)⟩
    intro id parents he
    obtain rfl | ⟨p, hp, hund⟩ := hopen id parents he
    · exact .inl rfl
    · refine .inr ⟨p, hp, ?_⟩
      subst he
      cases hc with
      | block now _ details hrow hs hparents =>
        obtain ⟨row, hget⟩ := Option.isSome_iff_exists.mp (hparents p hp).2
        exact ⟨row.status, graph_status hget, hkeep p hund _ (graph_status hget)⟩

theorem bulkCancel_waiting {cfg : Settings} {now : Time} {db : Database} {ids : List TaskId}
    {r : BulkResult} (hw : db.graph.Waiting []) (hfk : db.ForeignKeys)
    (h : bulkCancel cfg now db ids = .ok r) : r.db.graph.Waiting [] := by
  have hboth := foldlM_invariant
    (P := fun r : BulkResult => r.db.graph.Waiting [] ∧ r.db.ForeignKeys) ids ?_ ⟨hw, hfk⟩ h
  · exact hboth.1
  · rintro r id - r' ⟨hw, hfk⟩ hturn
    unfold bulkTurn at hturn
    split at hturn
    · cases hturn
    split at hturn
    · cases hturn; exact ⟨hw, hfk⟩
    · rename_i db₁ hdb₁
      cases hturn
      obtain ⟨ls, htr, -⟩ := cancelTask_trace hdb₁
      exact ⟨cancelTask_waiting hw hfk hdb₁, htr.invariant (P := Database.ForeignKeys)
        (Q := fun _ => True) (fun _ _ _ hp _ hc => hc.foreignKeys hp) (fun _ _ => trivial) hfk⟩
    · cases hturn; exact ⟨hw, hfk⟩
    · cases hturn

theorem finishStep_waiting {cfg : Settings} {now : Time} {p : Platform} (hp : p.Sound)
    {w : WorkerId} {body : Held → Except TaskError Database} {succeeds : Bool}
    (hbody : ∀ held db', held.Valid w → body held = .ok db' →
      Outcome cfg now p.db held succeeds db')
    (hw : p.db.graph.Waiting [])
    (hjoins : succeeds = true → ∀ held ∈ p.holding w, stillRunning p.db held.task.id = true →
      JoinsSettled p.db held.task.id) : (finishStep body w p).db.graph.Waiting [] := by
  rw [finishStep_db]
  cases hheld : p.holding w with
  | none => exact hw
  | some held =>
    have hvalid := hp.held w held hheld
    simp only
    cases hrun : body held with
    | error e => exact hw
    | ok db' =>
      exact (hbody held db' hvalid hrun).waiting hvalid hw hp.foreignKeys
        fun hs hstill => hjoins hs held hheld hstill

theorem step_waiting {cfg : Settings} {p : Platform} (h : p.Sound) (hw : p.db.graph.Waiting [])
    (a : Action) (hc : ParentsOpen p a) : (p.step cfg a).db.graph.Waiting [] := by
  obtain ⟨ls, htr, hls⟩ : ∃ ls, Trace (Change cfg) p.db ls (p.step cfg a).db ∧
    ∀ l ∈ ls, a.Allows cfg p l := step_trace h.foreignKeys h.held a
  cases a with
  | createTask now spec =>
    cases hkey : keyTaken p.db spec.idempotencyKey with
    | true =>
      have hlost : (p.step cfg (.createTask now spec)).db = p.db.skipTaskId := by
        simp [Platform.step, createTask, hkey, commitCreated]
      rw [hlost]
      exact hw
    | false =>
      refine trace_waiting htr (fun l hl id new he => ?_) (fun l hl id parents he => ?_)
        h.foreignKeys h.views hw
      · rcases hls l hl with rfl | rfl | ⟨parents, -, rfl⟩ <;> cases he
      · rcases hls l hl with rfl | rfl | ⟨parents', hdep, rfl⟩
        · cases he
        · cases he
        · cases he
          by_cases hnil : parents' = []
          · exact .inl (by rw [hnil]; rfl)
          · obtain ⟨p', hp', hund⟩ := hc hkey parents' hdep hnil
            refine .inr ⟨p', List.mem_eraseDups.mpr hp', fun s hs => ?_⟩
            obtain ⟨row, hrow, rfl⟩ := Option.map_eq_some_iff.mp hs
            exact hund row hrow
  | cancelTask now id =>
    simp only [Platform.step]
    cases hcancel : cancelTask cfg now p.db id with
    | error e => exact hw
    | ok found =>
      cases found with
      | none => exact hw
      | some db' => exact cancelTask_waiting hw h.foreignKeys hcancel
  | bulkCancel now ids =>
    simp only [Platform.step]
    cases hbulk : bulkCancel cfg now p.db ids with
    | error e => exact hw
    | ok r => exact bulkCancel_waiting hw h.foreignKeys hbulk
  | recordSuccess now w result =>
    exact finishStep_waiting h (fun held db' hvalid hok => recordSuccess_ok hvalid hok) hw
      fun _ => hc
  | recordFailure now w error retryable =>
    refine finishStep_waiting h (fun held db' hvalid hok => recordFailure_ok hvalid hok) hw ?_
    intro he
    cases he
  | _ =>
    refine trace_waiting htr (fun l hl id new he => ?_) (fun l hl id parents he => ?_)
      h.foreignKeys h.views hw
    · subst he
      have hallow := hls _ hl
      simp [Action.Allows] at hallow
    · subst he
      have hallow := hls _ hl
      simp [Action.Allows] at hallow

/-- Along a run in which new blocked tasks have an undecided parent and joins do not end with a
parent that failed before, every blocked task waits for an undecided parent. -/
theorem blocked_waits_for_undecided (cfg : Settings) (acts : List Action)
    (h : Along (Platform.step cfg) ParentsOpen Platform.initial acts) :
    BlockedWait (Platform.after cfg acts).db := by
  have hinv := along_invariant
    (P := fun p : Platform => p.Sound ∧ p.db.graph.Waiting [])
    (fun p a hp hc => ⟨hp.1.step cfg a, step_waiting hp.1 hp.2 a hc⟩)
    ⟨Platform.initial_sound, fun id hid => by cases hid⟩ h
  exact blockedWait_of_waiting hinv.2

/-- A task is created, and a second one that depends on it. -/
def childRun : List Action :=
  [.createTask 0 plainSpec, .createTask 1 { plainSpec with dependsOn := some [1] }]

theorem blocked_waits_for_undecided_childRun :
    BlockedWait (Platform.after .default childRun).db :=
  blocked_waits_for_undecided .default childRun (by decide +kernel)

/-- A task succeeds, and then a second one is created that depends on it. -/
def lateChildRun : List Action :=
  successRun ++ [.createTask 3 { plainSpec with dependsOn := some [1] }]

/-- The second task waits for a parent that is decided. -/
theorem lateChildRun_not_blockedWait : ¬ BlockedWait (Platform.after .default lateChildRun).db := by
  intro h
  obtain ⟨row, hrow, hs⟩ : ∃ row, (Platform.after .default lateChildRun).db.tasks.get 2 = some row ∧
      row.status = .created := by
    have hsome : ((Platform.after .default lateChildRun).db.tasks.get 2).map (·.status) =
        some .created := by decide +kernel
    obtain ⟨row, hrow, hs⟩ := Option.map_eq_some_iff.mp hsome
    exact ⟨row, hrow, hs⟩
  obtain ⟨parent, hparent, hund⟩ := h 2 row hrow hs (by decide +kernel)
  have hparents : (Platform.after .default lateChildRun).db.parentsOf 2 = [1] := by decide +kernel
  rw [hparents, List.mem_singleton] at hparent
  rw [hparent] at hund
  exact absurd hund (by decide +kernel)

end TaskPlatform
