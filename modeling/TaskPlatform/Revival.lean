import TaskPlatform.Blocked

/-!
# Dead letters that come back

A dead letter cancels the blocked children of its task, as every other failure
does; then the coordinator puts the task back into the queue, and nobody puts
back its children. As long as no parent of a child is taken out of the dead
letters, a child that was cancelled has a parent that never succeeds.
-/

namespace TaskPlatform

open Run

namespace Graph

/-- The task succeeded or still can, without a retry. -/
def Alive (g : Graph) (id : TaskId) : Prop := g.status id = some .success ∨ g.Undecided id

/-- The task is gone, or in a status that only a retry leaves. -/
def Lost (g : Graph) (id : TaskId) : Prop := ∀ s, g.status id = some s → s ∈ retryable

theorem Alive.set {g : Graph} {p : TaskId} (h : g.Alive p) (id : TaskId) {new : Status}
    (hnew : p = id → new = .success ∨ new ∉ terminal) : (g.set id new).Alive p := by
  by_cases hp : p = id
  · rcases hnew hp with rfl | hopen
    · exact .inl (by rw [hp, set_status_self])
    · exact .inr ⟨new, by rw [hp, set_status_self], hopen⟩
  · obtain hs | hund := h
    · exact .inl (by rw [set_status_of_ne _ _ hp, hs])
    · exact .inr (hund.set id fun he => absurd he hp)

theorem Lost.set {g : Graph} {p id : TaskId} (h : g.Lost p) (new : Status) (hp : p ≠ id) :
    (g.set id new).Lost p := by
  intro s hs
  rw [set_status_of_ne _ _ hp] at hs
  exact h s hs

theorem Lost.ne {g : Graph} {p id : TaskId} {s : Status} (h : g.Lost p)
    (hs : g.status id = some s) (hn : s ∉ retryable) : p ≠ id := by
  rintro rfl
  exact hn (h s hs)

theorem Failed.lost {g : Graph} {p : TaskId} (h : g.Failed p) : g.Lost p := by
  obtain ⟨s, hterm, hne, hs⟩ := h
  intro t ht
  rw [hs] at ht
  cases ht
  cases s <;> simp_all [terminal, retryable]

/-- What is known of a child that waits for the tasks `parents`: while it is blocked one of them is
undecided and none has failed, and if it was cancelled one of them is lost. -/
structure Joined (c : TaskId) (parents : List TaskId) (g : Graph) (E : List TaskId) : Prop where
  edges : ∀ p, ⟨p, c⟩ ∈ g.edges → p ∈ parents
  created : g.status c = some .created → c ∉ E → (∀ p, ⟨p, c⟩ ∈ g.edges → g.Alive p) ∧ g.Open c
  cancelled : g.status c = some .cancelled → ∃ p ∈ parents, g.Lost p

variable {c : TaskId} {parents : List TaskId} {g : Graph} {E : List TaskId}

/-- Another task, or the child, goes to a status from which it can still succeed. -/
theorem Joined.set (h : Joined c parents g E) {id : TaskId} {new : Status} (hc : new ≠ .created)
    (hcancel : new ≠ .cancelled) (hnew : new ∉ terminal)
    (hid : id ∈ parents → ∃ s, g.status id = some s ∧ s ∉ retryable) :
    Joined c parents (g.set id new) E where
  edges := h.edges
  created := by
    intro hcreated hE
    obtain ⟨halive, p, hp, hund⟩ := h.created (created_of_set hc hcreated).2 hE
    exact ⟨fun p hp => (halive p hp).set id fun _ => .inr hnew, p, hp, hund.set id fun _ => hnew⟩
  cancelled := by
    intro hcancelled
    have hne : c ≠ id := by
      rintro rfl
      rw [set_status_self] at hcancelled
      exact hcancel (Option.some.inj hcancelled)
    rw [set_status_of_ne _ _ hne] at hcancelled
    obtain ⟨p, hp, hlost⟩ := h.cancelled hcancelled
    refine ⟨p, hp, hlost.set new ?_⟩
    rintro rfl
    obtain ⟨s, hs, hn⟩ := hid hp
    exact hn (hlost s hs)

/-- A task ends, and its children are to be visited. -/
theorem Joined.settle (h : Joined c parents g E) {id : TaskId} {old new : Status}
    (hold : g.status id = some old) (hopen : old ∉ terminal) (hnew : new ∈ terminal)
    (hreason : id = c → new = .cancelled → ∃ p ∈ parents, g.Lost p) {children : List TaskId}
    (hchildren : ∀ d, ⟨id, d⟩ ∈ g.edges → d ∈ children) :
    Joined c parents (g.set id new) (children ++ E) where
  edges := h.edges
  created := by
    have hc : new ≠ .created := by
      rintro rfl
      exact absurd hnew (by decide)
    intro hcreated hE
    rw [List.mem_append, not_or] at hE
    obtain ⟨halive, p, hp, hund⟩ := h.created (created_of_set hc hcreated).2 hE.2
    have hne : ∀ p, ⟨p, c⟩ ∈ g.edges → p ≠ id := by
      rintro p hp rfl
      exact hE.1 (hchildren c hp)
    exact ⟨fun p hp => (halive p hp).set id fun he => absurd he (hne p hp), p, hp,
      hund.set id fun he => absurd he (hne p hp)⟩
  cancelled := by
    intro hcancelled
    have hn : old ∉ retryable := fun hr => hopen (by
      cases old <;> simp_all [retryable, terminal])
    obtain ⟨p, hp, hlost⟩ : ∃ p ∈ parents, g.Lost p := by
      by_cases hc : c = id
      · subst hc
        rw [set_status_self] at hcancelled
        exact hreason rfl (Option.some.inj hcancelled)
      · rw [set_status_of_ne _ _ hc] at hcancelled
        exact h.cancelled hcancelled
    exact ⟨p, hp, hlost.set new (hlost.ne hold hn)⟩

/-- The child leaves the exceptions. -/
theorem Joined.visited {d : TaskId} (h : Joined c parents g (d :: E))
    (hd : d = c → g.status c = some .created → (∀ p, ⟨p, c⟩ ∈ g.edges → g.Alive p) ∧ g.Open c) :
    Joined c parents g E where
  edges := h.edges
  created := by
    intro hcreated hE
    by_cases hdc : d = c
    · exact hd hdc hcreated
    · exact h.created hcreated (by simp [Ne.symm hdc, hE])
  cancelled := h.cancelled

theorem joined_sweep (c : TaskId) (parents : List TaskId) :
    Sweep (Joined c parents)
      (fun g d => d = c → g.status c = some .created → ∀ p, ⟨p, c⟩ ∈ g.edges → g.Alive p) where
  weaken h hEF := ⟨h.edges, fun hc hF => h.created hc fun hE => hF (hEF hE), h.cancelled⟩
  pass h hd := h.visited fun hdc hcreated => absurd (hdc ▸ hcreated) hd
  wait := by
    intro g E d h hs hready
    refine h.visited ?_
    rintro rfl hcreated
    have halive := hs rfl hcreated
    obtain ⟨p, hp, hne⟩ : ∃ p, ⟨p, d⟩ ∈ g.edges ∧ g.status p ≠ some .success := by
      simpa [Ready] using hready
    exact ⟨halive, p, hp, (halive p hp).resolve_left hne⟩
  unblock := by
    intro g E d h hd
    exact h.set (by decide) (by decide) (by decide) fun _ => ⟨_, hd, by decide⟩
  cancel := by
    intro g E children d h hd hfailed hchildren
    refine h.settle hd (by decide) (by decide) ?_ hchildren
    rintro rfl -
    obtain ⟨p, hp, hfailed⟩ := hfailed
    exact ⟨p, h.edges p hp, hfailed.lost⟩
  keep := by
    intro g d e hs he hdc hcreated p hp
    exact (hs hdc (created_of_set (by decide) hcreated).2 p hp).set e fun _ => .inr (by decide)

theorem Joined.insert (h : Joined c parents g []) {id : TaskId}
    (hne : ∀ i, i = c ∨ i ∈ parents → i ≠ id) : Joined c parents (g.set id .created) [] where
  edges := h.edges
  created := by
    have hpne : ∀ p, ⟨p, c⟩ ∈ g.edges → p ≠ id := fun p hp => hne p (.inr (h.edges p hp))
    intro hcreated hE
    rw [set_status_of_ne _ _ (hne c (.inl rfl))] at hcreated
    obtain ⟨halive, p, hp, hund⟩ := h.created hcreated hE
    exact ⟨fun p hp => (halive p hp).set id fun he => absurd he (hpne p hp), p, hp,
      hund.set id fun he => absurd he (hpne p hp)⟩
  cancelled := by
    intro hcancelled
    rw [set_status_of_ne _ _ (hne c (.inl rfl))] at hcancelled
    obtain ⟨p, hp, hlost⟩ := h.cancelled hcancelled
    exact ⟨p, hp, hlost.set _ (hne p (.inr hp))⟩

theorem Joined.block (h : Joined c parents g []) {id : TaskId} (hid : id ≠ c) (ps : List TaskId) :
    Joined c parents { g with edges := g.edges ++ ps.map (fun p => ⟨p, id⟩) } [] := by
  have hedge : ∀ p, ⟨p, c⟩ ∈ g.edges ++ ps.map (fun p => (⟨p, id⟩ : TaskDependency)) →
      ⟨p, c⟩ ∈ g.edges := by
    intro p hp
    refine (List.mem_append.mp hp).resolve_right fun hnew => ?_
    obtain ⟨q, -, he⟩ := List.mem_map.mp hnew
    cases he
    exact hid rfl
  refine ⟨fun p hp => h.edges p (hedge p hp), fun hcreated hE => ?_, h.cancelled⟩
  obtain ⟨halive, p, hp, hund⟩ := h.created hcreated hE
  exact ⟨fun p hp => halive p (hedge p hp), p, List.mem_append_left _ hp, hund⟩

/-- Only decided tasks are deleted. -/
theorem Joined.remove (h : Joined c parents g []) {ids : List TaskId}
    (hids : ∀ i ∈ ids, ∃ s ∈ terminal, g.status i = some s) :
    Joined c parents (g.remove ids) [] := by
  have hopen : ∀ p, g.Undecided p → p ∉ ids := by
    rintro p ⟨s, hs, hn⟩ hp
    obtain ⟨s', hterm, hs'⟩ := hids p hp
    rw [hs] at hs'
    cases hs'
    exact hn hterm
  have hstatus : ∀ i, i ∉ ids → (g.remove ids).status i = g.status i := fun i hi => if_neg hi
  have hkept : ∀ d, d ∈ (g.remove ids).edges ↔
      d ∈ g.edges ∧ d.parentTaskId ∉ ids ∧ d.childTaskId ∉ ids := by
    intro d
    simp [Graph.remove]
  have hout : ∀ i s, (g.remove ids).status i = some s → i ∉ ids ∧ g.status i = some s := by
    intro i s hs
    by_cases hi : i ∈ ids
    · simp [Graph.remove, hi] at hs
    · exact ⟨hi, by rwa [hstatus i hi] at hs⟩
  refine ⟨fun p hp => h.edges p ((hkept _).mp hp).1, fun hcreated hE => ?_, fun hcancelled => ?_⟩
  · obtain ⟨hc, hcreated⟩ := hout _ _ hcreated
    obtain ⟨halive, p, hp, hund⟩ := h.created hcreated hE
    refine ⟨fun p hp => ?_, p, (hkept _).mpr ⟨hp, hopen p hund, hc⟩, ?_⟩
    · obtain ⟨hp, hpids, -⟩ := (hkept _).mp hp
      simpa only [Alive, Undecided, hstatus p hpids] using halive p hp
    · simpa only [Undecided, hstatus p (hopen p hund)] using hund
  · obtain ⟨-, hcancelled⟩ := hout _ _ hcancelled
    obtain ⟨p, hp, hlost⟩ := h.cancelled hcancelled
    exact ⟨p, hp, fun s hs => hlost s (hout p s hs).2⟩

/-- A step outside the outcomes and cancellations, which takes no parent back. -/
theorem Step.joined {g' : Graph} {l : Label} (h : Step g l g') (hj : Joined c parents g [])
    (hgone : ∀ i, i = c ∨ i ∈ parents → g.status i = none → g'.status i = none)
    (hl : ∀ id new, l ≠ .settle id new) (hblock : ∀ ps, l ≠ .block c ps)
    (hback : ∀ cause id, l = .enqueue cause id → cause = .retry ∨ cause = .dlq → id ∉ parents) :
    Joined c parents g' [] := by
  cases h with
  | same => exact hj
  | @insert id hnone =>
    refine hj.insert ?_
    rintro i hi rfl
    have hnone' := hgone i hi hnone
    rw [set_status_self] at hnone'
    cases hnone'
  | @block id ps hs hparents => exact hj.block (fun he => hblock ps (by rw [he])) ps
  | @schedule id hs hnone =>
    exact hj.set (by decide) (by decide) (by decide) fun _ => ⟨_, hs, by decide⟩
  | @enqueue id old cause hs hsource hready =>
    refine hj.set (by decide) (by decide) (by decide) fun hid => ⟨old, hs, ?_⟩
    cases cause with
    | create | unblock => rw [List.mem_singleton.mp hsource]; decide
    | due => revert hsource; cases old <;> decide
    | retry => exact absurd hid (hback _ _ rfl (.inl rfl))
    | dlq => exact absurd hid (hback _ _ rfl (.inr rfl))
  | @start id w hs => exact hj.set (by decide) (by decide) (by decide) fun _ => ⟨_, hs, by decide⟩
  | cancel hs hc => exact absurd rfl (hl _ _)
  | finish hs => exact absurd rfl (hl _ _)
  | @recover id hs => exact hj.set (by decide) (by decide) (by decide) fun _ => ⟨_, hs, by decide⟩
  | delete ids hids => exact hj.remove hids

end Graph

/-- Every parent succeeded, and then the child is neither blocked nor cancelled. -/
def Released (db : Database) (child : TaskId) (parents : List TaskId) : Prop :=
  (∀ parent ∈ parents, succeeded db parent = true) →
    ∀ row ∈ db.tasks.get child, row.status ≠ .created ∧ row.status ≠ .cancelled

/-- No operator cancels or retries a task. -/
def Action.unattended : Action → Bool
  | .manualRetry _ _ | .cancelTask _ _ | .bulkRetry _ _ | .bulkCancel _ _ => false
  | _ => true

/-- The step is not one of an operator, and the coordinator takes none of `parents` out of the dead
letters. -/
def ParentsFinal (cfg : Settings) (parents : List TaskId) (p : Platform) : Action → Prop
  | .requeueDlq now limit locked => ∀ id ∈ dlqIds cfg now limit locked p.db, id ∉ parents
  | a => a.unattended = true

instance (db : Database) (child : TaskId) (parents : List TaskId) :
    Decidable (Released db child parents) := by
  unfold Released; infer_instance

instance (cfg : Settings) (parents : List TaskId) (p : Platform) (a : Action) :
    Decidable (ParentsFinal cfg parents p a) := by
  rcases a <;> unfold ParentsFinal <;> infer_instance

/-- What a run keeps of a child and its parents. -/
structure Enrolled (c : TaskId) (parents : List TaskId) (db : Database) : Prop where
  childKey : c < db.tasks.next
  parentKeys : ∀ p ∈ parents, p < db.tasks.next
  joined : Graph.Joined c parents db.graph []

variable {c : TaskId} {parents : List TaskId}

theorem Enrolled.released {db : Database} (h : Enrolled c parents db) : Released db c parents := by
  intro hsuccess row hrow
  have hstatus : ∀ p ∈ parents, db.graph.status p = some .success := fun p hp =>
    status_of_succeeded (hsuccess p hp)
  constructor
  · intro hcreated
    obtain ⟨-, p, hp, s, hs, hn⟩ := h.joined.created (by rw [graph_status hrow, hcreated]) (by simp)
    rw [hstatus p (h.joined.edges p hp)] at hs
    cases hs
    exact hn (by decide)
  · intro hcancelled
    obtain ⟨p, hp, hlost⟩ := h.joined.cancelled (by rw [graph_status hrow, hcancelled])
    exact absurd (hlost _ (hstatus p hp)) (by decide)

theorem Change.enrolled {cfg : Settings} {db db' : Database} {l : Label} (h : Change cfg db l db')
    (hfk : db.ForeignKeys) (hok : ∀ id, (db.view id).Ok) (he : Enrolled c parents db)
    (hl : ∀ id new, l ≠ .settle id new) (hblock : ∀ ps, l ≠ .block c ps)
    (hback : ∀ cause id, l = .enqueue cause id → cause = .retry ∨ cause = .dlq → id ∉ parents) :
    Enrolled c parents db' := by
  obtain ⟨hnext, hgone⟩ := h.gone
  refine ⟨Nat.lt_of_lt_of_le he.childKey hnext,
    fun p hp => Nat.lt_of_lt_of_le (he.parentKeys p hp) hnext,
    (h.graph hfk hok).joined he.joined ?_ hl hblock hback⟩
  intro i hi hnone
  have hid : i < db.tasks.next := by
    rcases hi with rfl | hi
    · exact he.childKey
    · exact he.parentKeys i hi
  rw [Database.graph, Option.map_eq_none_iff] at hnone ⊢
  exact hgone i hid hnone

/-- An outcome, with its cascade. -/
theorem Outcome.enrolled {cfg : Settings} {now : Time} {db db' : Database} {w : WorkerId}
    {held : Held} {succeeds : Bool} (hv : held.Valid w) (h : Outcome cfg now db held succeeds db')
    (hfk : db.ForeignKeys) (he : Enrolled c parents db) : Enrolled c parents db' := by
  obtain ⟨ls, htr, -⟩ := h.trace hv
  have hnext : db.tasks.next ≤ db'.tasks.next :=
    htr.invariant (P := fun d => db.tasks.next ≤ d.tasks.next) (Q := fun _ => True)
      (fun _ _ _ hp _ hc => hp.trans hc.gone.1) (fun _ _ => trivial) (le_refl _)
  refine ⟨Nat.lt_of_lt_of_le he.childKey hnext,
    fun p hp => Nat.lt_of_lt_of_le (he.parentKeys p hp) hnext, ?_⟩
  cases h with
  | refused => exact he.joined
  | @finished cur row task new eventType details n db₁ _ ha hclose hrow hrun hout hnew hcascade
      hstamp =>
    rw [hstamp.graph]
    let closed := closeHeld db held.attemptId held.attempt cur
    have hrow' : closed.tasks.get held.task.id = some row := hrow
    have hgraph := finishedDb_graph hv hrow' hout eventType details
    have hold : closed.graph.status held.task.id = some .running := by
      rw [graph_status hrow', hrun]
    have hcancel : new ≠ .cancelled := by
      rintro rfl
      cases hout
    by_cases hterm : new ∈ terminal
    · have hchange : Change cfg closed (.settle held.task.id new)
          (finishedDb now closed held row task new eventType details) :=
        .finish now eventType details hv hrow' hrun hout
      refine cascade_sweep (Graph.joined_sweep c parents) hcascade hterm (hchange.foreignKeys hfk)
        ?_ ?_ ?_
      · rw [hgraph, Graph.set_status_self]
      · rw [hgraph]
        exact he.joined.settle hold (by decide) hterm (fun _ h => absurd h hcancel)
          fun d hd => (Database.mem_childrenOf _ _ d).mpr hd
      · rintro rfl d - rfl hcreated p hp
        rw [hgraph] at hcreated hp ⊢
        have hbefore := (Graph.created_of_set (by decide) hcreated).2
        exact ((he.joined.created hbefore (by simp)).1 p hp).set _ fun _ => .inl rfl
    · rw [cascade, if_neg hterm] at hcascade
      cases hcascade
      rw [hgraph]
      refine he.joined.set ?_ hcancel hterm fun _ => ⟨_, hold, by decide⟩
      rintro rfl
      cases hout

/-- A label of the actions that are neither outcomes nor an operator's. -/
def IsRoutine (c : TaskId) (parents : List TaskId) (l : Label) : Prop :=
  (∀ id new, l ≠ .settle id new) ∧ (∀ ps, l ≠ .block c ps) ∧
    ∀ cause id, l = .enqueue cause id → cause = .retry ∨ cause = .dlq → id ∉ parents

theorem trace_enrolled {cfg : Settings} {db db' : Database} {ls : List Label}
    (htr : Trace (Change cfg) db ls db') (hls : ∀ l ∈ ls, IsRoutine c parents l)
    (hfk : db.ForeignKeys) (hok : ∀ id, (db.view id).Ok) (he : Enrolled c parents db) :
    Enrolled c parents db' := by
  have hinv := htr.invariant (P := fun db => db.ForeignKeys ∧ (∀ id, (db.view id).Ok) ∧
    Enrolled c parents db) (Q := IsRoutine c parents) ?_ hls ⟨hfk, hok, he⟩
  · exact hinv.2.2
  · rintro db l db' ⟨hfk, hok, he⟩ ⟨hl, hblock, hback⟩ hc
    exact ⟨hc.foreignKeys hfk, hc.views hok, hc.enrolled hfk hok he hl hblock hback⟩

theorem finishStep_enrolled {cfg : Settings} {now : Time} {p : Platform} (hp : p.Sound)
    {w : WorkerId} {body : Held → Except TaskError Database} {succeeds : Bool}
    (hbody : ∀ held db', held.Valid w → body held = .ok db' →
      Outcome cfg now p.db held succeeds db')
    (he : Enrolled c parents p.db) : Enrolled c parents (finishStep body w p).db := by
  rw [finishStep_db]
  cases hheld : p.holding w with
  | none => exact he
  | some held =>
    have hvalid := hp.held w held hheld
    cases hrun : body held with
    | error e => simpa only [hrun, commit] using he
    | ok db' =>
      simp only [hrun, commit]
      exact (hbody held db' hvalid hrun).enrolled hvalid hp.foreignKeys he

theorem step_enrolled {cfg : Settings} {p : Platform} (h : p.Sound) (he : Enrolled c parents p.db)
    (a : Action) (hc : ParentsFinal cfg parents p a) :
    Enrolled c parents (p.step cfg a).db := by
  obtain ⟨ls, htr, hls⟩ : ∃ ls, Trace (Change cfg) p.db ls (p.step cfg a).db ∧
    ∀ l ∈ ls, a.Allows cfg p l := step_trace h.foreignKeys h.held a
  have hroutine : (∀ l ∈ ls, IsRoutine c parents l) → Enrolled c parents (p.step cfg a).db :=
    fun hls => trace_enrolled htr hls h.foreignKeys h.views he
  cases a with
  | manualRetry | cancelTask | bulkRetry | bulkCancel => cases hc
  | recordSuccess now w result =>
    exact finishStep_enrolled h (fun held db' hvalid hok => recordSuccess_ok hvalid hok) he
  | recordFailure now w error retryable =>
    exact finishStep_enrolled h (fun held db' hvalid hok => recordFailure_ok hvalid hok) he
  | createTask now spec =>
    refine hroutine fun l hl => ?_
    rcases hls l hl with rfl | rfl | ⟨ps, -, rfl⟩
    · simp [IsRoutine]
    · simp [IsRoutine]
    · have hne : p.db.tasks.next ≠ c := Nat.ne_of_gt he.childKey
      simp [IsRoutine, hne]
  | requeueDlq now limit locked =>
    refine hroutine fun l hl => ?_
    obtain ⟨id, hid, rfl⟩ := hls l hl
    have hout := hc id hid
    simp only [IsRoutine, ne_eq, reduceCtorEq, not_false_eq_true, implies_true, true_and]
    rintro cause i he -
    cases he
    exact hout
  | requeueDue now limit locked =>
    refine hroutine fun l hl => ?_
    obtain ⟨id, -, rfl⟩ := hls l hl
    simp [IsRoutine]
  | recoverStuck now limit locked =>
    refine hroutine fun l hl => ?_
    rcases hls l hl with rfl | ⟨id, -, rfl⟩ <;> simp [IsRoutine]
  | _ =>
    refine hroutine fun l hl => ?_
    have hallow := hls l hl
    simp only [Action.Allows] at hallow
    simp [IsRoutine, hallow]

/-- A child that was registered while its parents were open is enrolled. -/
theorem enrolled_created {cfg : Settings} {now : Time} {db db' : Database} {spec : TaskSpec}
    (hfk : db.ForeignKeys) (hspec : spec.dependsOn = some parents) (hparents : parents ≠ [])
    (hcreate : createTask cfg now db spec = .ok (db', c))
    (hopen : ∀ parent ∈ parents, undecided db parent = true) : Enrolled c parents db' := by
  obtain ⟨rfl, rfl⟩ := createTask_blocked hparents hspec hcreate
  have hund : ∀ p ∈ parents, db.graph.Undecided p := fun p hp =>
    (undecided_iff db p).mp (hopen p hp)
  have hlt : ∀ p ∈ parents, p < db.tasks.next := by
    intro p hp
    obtain ⟨s, hs, -⟩ := hund p hp
    obtain ⟨row, hrow, -⟩ := Option.map_eq_some_iff.mp hs
    exact Table.get_lt hrow
  have hstatus : (spec.blocked cfg now parents db).graph.status =
      (db.graph.set db.tasks.next .created).status := by
    rw [← graph_insertTask cfg now db spec]
    rfl
  have hnew : ∀ p ∈ parents, (spec.blocked cfg now parents db).graph.Undecided p := by
    intro p hp
    rw [Graph.Undecided, hstatus]
    exact (hund p hp).set db.tasks.next fun _ => by decide
  have hedge : ∀ p, ⟨p, db.tasks.next⟩ ∈ (spec.blocked cfg now parents db).deps ↔
      p ∈ parents := by
    intro p
    have hnone : ⟨p, db.tasks.next⟩ ∉ db.deps := by
      rw [← db.mem_parentsOf, hfk.parentsOf_next]
      simp
    simp [TaskSpec.blocked, recordEvent, hnone]
  refine ⟨Nat.lt_succ_self _, fun p hp => Nat.lt_succ_of_lt (hlt p hp), fun p hp => (hedge p).mp hp,
    fun _ _ => ⟨fun p hp => .inr (hnew p ((hedge p).mp hp)), ?_⟩, fun hcancelled => ?_⟩
  · obtain ⟨p, hp⟩ := List.exists_mem_of_ne_nil _ hparents
    exact ⟨p, (hedge p).mpr hp, hnew p hp⟩
  · rw [hstatus, Graph.set_status_self] at hcancelled
    cases hcancelled

/-- A child that was registered while all its parents were open is released when they all have
succeeded, in every run in which no operator retries or cancels and none of the parents is taken out
of the dead letters. -/
theorem child_released_of_parents_final (cfg : Settings) (before acts : List Action) (now : Time)
    (spec : TaskSpec) (db : Database) (hspec : spec.dependsOn = some parents)
    (hparents : parents ≠ [])
    (hcreate : createTask cfg now (Platform.after cfg before).db spec = .ok (db, c))
    (hopen : ∀ parent ∈ parents, undecided (Platform.after cfg before).db parent = true)
    (h : Along (Platform.step cfg) (ParentsFinal cfg parents)
      (Platform.after cfg (before ++ [.createTask now spec])) acts) :
    Released (Platform.after cfg (before ++ .createTask now spec :: acts)).db c parents := by
  have hsound := Platform.after_sound cfg before
  have hdb : (Platform.after cfg (before ++ [.createTask now spec])).db = db := by
    rw [Platform.after, run_append, ← Platform.after]
    simp [Platform.step, hcreate, commitCreated]
  have hstart := enrolled_created hsound.foreignKeys hspec hparents hcreate hopen
  rw [← hdb] at hstart
  have hinv := along_invariant (P := fun p : Platform => p.Sound ∧ Enrolled c parents p.db)
    (fun p a hp hc => ⟨hp.1.step cfg a, step_enrolled hp.1 hp.2 a hc⟩)
    ⟨Platform.after_sound cfg _, hstart⟩ h
  rw [Platform.after, ← run_append, List.append_assoc, List.singleton_append] at hinv
  exact hinv.2.released

/-- A task that depends on the first one. -/
def childSpec : TaskSpec := { plainSpec with dependsOn := some [1] }

/-- The first task succeeds. -/
def parentRun : List Action := [.start 2 "w1" 1, .recordSuccess 3 "w1" "{}"]

theorem child_released_of_parents_final_parentRun :
    Released (Platform.after .default
      ([.createTask 0 plainSpec] ++ .createTask 1 childSpec :: parentRun)).db 2 [1] := by
  have hok : (createTask .default 1 (Platform.after .default [.createTask 0 plainSpec]).db
      childSpec).toOption.isSome = true := by decide +kernel
  cases hcreate : createTask .default 1 (Platform.after .default [.createTask 0 plainSpec]).db
      childSpec with
  | error e => rw [hcreate] at hok; cases hok
  | ok created =>
    obtain ⟨db, id⟩ := created
    obtain rfl : id = 2 :=
      (createTask_blocked (by decide) rfl hcreate).2.trans (by decide +kernel)
    exact child_released_of_parents_final .default [.createTask 0 plainSpec] parentRun 1 childSpec
      db rfl (by decide) hcreate (by decide +kernel) (by decide +kernel)

/-- A task with a single attempt. -/
def oneShotRun : List Action := [.createTask 0 { plainSpec with maxAttempts := some 1 }]

/-- The first task fails for good, comes back from the dead letters and succeeds. -/
def revivalRun : List Action :=
  [.start 2 "w1" 1, .recordFailure 3 "w1" "boom" true, .requeueDlq 400000000 10 (fun _ => false),
    .start 400000001 "w1" 1, .recordSuccess 400000002 "w1" "{}"]

/-- Its child, which was registered before, stays cancelled. -/
theorem revivalRun_child_cancelled :
    undecided (Platform.after .default oneShotRun).db 1 = true ∧
      (∀ a ∈ revivalRun, a.unattended = true) ∧
      ¬ Released (Platform.after .default
        (oneShotRun ++ .createTask 1 childSpec :: revivalRun)).db 2 [1] := by
  refine ⟨by decide +kernel, ?_, by decide +kernel⟩
  simp [revivalRun, Action.unattended]

end TaskPlatform
