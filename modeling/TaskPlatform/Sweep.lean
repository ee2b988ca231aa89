import TaskPlatform.Graph

/-!
# The sweep of a cascade

A cascade visits the children of a task that reached a terminal status, and
below a child that it cancels the children of this child. A statement about the
graph can fail for the children that are still to be visited. `Sweep` collects
what each kind of turn has to do for such a statement, and `cascade_sweep` is
the induction over the whole cascade.
-/

namespace TaskPlatform

open Run

namespace Graph

/-- The task ended without success. -/
def Failed (g : Graph) (id : TaskId) : Prop :=
  ∃ s ∈ terminal, s ≠ .success ∧ g.status id = some s

/-- `P g E` holds of the graph but for the tasks `E`; `S g c` is what a success asks of a child. -/
structure Sweep (P : Graph → List TaskId → Prop) (S : Graph → TaskId → Prop) : Prop where
  weaken {g : Graph} {E F : List TaskId} : P g E → E ⊆ F → P g F
  pass {g : Graph} {E : List TaskId} {c : TaskId} : P g (c :: E) → g.status c ≠ some .created →
    P g E
  wait {g : Graph} {E : List TaskId} {c : TaskId} : P g (c :: E) → S g c → ¬ g.Ready c → P g E
  unblock {g : Graph} {E : List TaskId} {c : TaskId} : P g E → g.status c = some .created →
    P (g.set c .queued) E
  cancel {g : Graph} {E children : List TaskId} {c : TaskId} : P g E →
    g.status c = some .created → (∃ p, ⟨p, c⟩ ∈ g.edges ∧ g.Failed p) →
    (∀ d, ⟨c, d⟩ ∈ g.edges → d ∈ children) → P (g.set c .cancelled) (children ++ E)
  keep {g : Graph} {c d : TaskId} : S g c → g.status d = some .created → S (g.set d .queued) c

end Graph

variable {P : Graph → List TaskId → Prop} {S : Graph → TaskId → Prop}

theorem CascadeStep.deps_trace {cfg : Settings} {db db' : Database} {ls : List Label}
    (h : Trace (CascadeStep cfg) db ls db') : db'.deps = db.deps := by
  induction h with
  | nil db => rfl
  | cons hstep _ ih =>
    rw [ih]
    cases hstep <;> rfl

theorem ChildTurn.foreignKeys {cfg : Settings} {now : Time} {fuel : Nat} {db db' : Database}
    {id child : TaskId} {status : Status} (h : ChildTurn cfg now fuel id status db child db')
    (hfk : db.ForeignKeys) : db'.ForeignKeys := by
  obtain ⟨ls, htr⟩ := h.trace
  exact htr.invariant (P := Database.ForeignKeys) (Q := fun _ => True)
    (fun _ _ _ hp _ hc => hc.change.foreignKeys hp) (fun _ _ => trivial) hfk

/-- The task whose children are visited keeps its status. -/
theorem ChildTurn.status {cfg : Settings} {now : Time} {fuel : Nat} {db db' : Database}
    {id child : TaskId} {status new : Status} (h : ChildTurn cfg now fuel id status db child db')
    (hnew : new ∈ terminal) (hst : db.graph.status id = some new) :
    db'.graph.status id = some new := by
  obtain ⟨ls, htr⟩ := h.trace
  obtain ⟨row, hrow, hs⟩ := Option.map_eq_some_iff.mp hst
  have hcreated : row.status ≠ .created := by
    rintro hc
    rw [hs] at hc
    rw [hc] at hnew
    exact absurd hnew (by decide)
  rw [graph_status (CascadeStep.frame_trace htr hrow hcreated), hs]

/-- One turn takes its child out of the exceptions. -/
theorem ChildTurn.sweep {cfg : Settings} {now : Time} {fuel : Nat} {db db' : Database}
    {id child : TaskId} {status : Status} (h : ChildTurn cfg now fuel id status db child db')
    (hsweep : Graph.Sweep P S) (hterm : status ∈ terminal) (hfk : db.ForeignKeys)
    (hst : db.graph.status id = some status) (hedge : ⟨id, child⟩ ∈ db.deps) {E : List TaskId}
    (hw : P db.graph (child :: E)) (hs : status = .success → S db.graph child)
    (ih : ∀ m < fuel, ∀ db db' id E, cascade cfg now m db id .cancelled = .ok db' →
      db.ForeignKeys → db.graph.status id = some .cancelled →
      P db.graph (db.childrenOf id ++ E) → P db'.graph E) : P db'.graph E := by
  cases h with
  | passed hnot =>
    refine hsweep.pass hw fun hc => ?_
    obtain ⟨row, hrow, hs⟩ := Option.map_eq_some_iff.mp hc
    exact hnot row hrow hs
  | waiting hsuccess hparents =>
    refine hsweep.wait hw (hs hsuccess) fun hready => ?_
    rw [(allParentsSucceeded_iff hfk child).mpr hready] at hparents
    cases hparents
  | @unblocked row hrow hcreated hsuccess hparents =>
    rw [graph_addOutbox, graph_move _ _ _ _ hrow]
    have hset := hsweep.unblock hw (by rw [graph_status hrow, hcreated])
    exact hsweep.pass hset (by rw [Graph.set_status_self]; decide)
  | @cancelled row _ m hrow hcreated hne hm hcascade =>
    have hchange : Change cfg db (.settle child .cancelled) (db.move now child row .cancelled
        .cancelled (some (.parentTerminal id status))) :=
      .cancel now _ hrow (by rw [hcreated]; decide)
    have hgraph : (db.move now child row .cancelled .cancelled
        (some (.parentTerminal id status))).graph = db.graph.set child .cancelled :=
      graph_move _ _ _ _ hrow
    refine ih m hm _ _ _ _ hcascade (hchange.foreignKeys hfk) ?_ ?_
    · rw [hgraph, Graph.set_status_self]
    · rw [hgraph]
      have hset : P (db.graph.set child .cancelled) (db.childrenOf child ++ child :: E) :=
        hsweep.cancel hw (by rw [graph_status hrow, hcreated])
          ⟨id, hedge, status, hterm, hne, hst⟩ fun c hc => (db.mem_childrenOf child c).mpr hc
      have hsub : db.childrenOf child ++ child :: E ⊆ child :: (db.childrenOf child ++ E) := by
        intro i hi
        simp only [List.mem_append, List.mem_cons] at hi ⊢
        tauto
      exact hsweep.pass (hsweep.weaken hset hsub) (by rw [Graph.set_status_self]; decide)

/-- A turn after a success keeps what the success asks of the other children. -/
theorem ChildTurn.keep {cfg : Settings} {now : Time} {fuel : Nat} {db db' : Database}
    {id child c : TaskId} {status : Status} (h : ChildTurn cfg now fuel id status db child db')
    (hsweep : Graph.Sweep P S) (hs : status = .success) (hc : S db.graph c) : S db'.graph c := by
  cases h with
  | passed => exact hc
  | waiting => exact hc
  | @unblocked row hrow hcreated =>
    rw [graph_addOutbox, graph_move _ _ _ _ hrow]
    exact hsweep.keep hc (by rw [graph_status hrow, hcreated])
  | cancelled _ _ hne => exact absurd hs hne

/-- When the cascade of a task has visited all its children, no exception is left. -/
theorem cascade_sweep (hsweep : Graph.Sweep P S) {cfg : Settings} {now : Time} {n : Nat}
    {db db' : Database} {id : TaskId} {new : Status} {E : List TaskId}
    (h : cascade cfg now n db id new = .ok db') (hnew : new ∈ terminal) (hfk : db.ForeignKeys)
    (hst : db.graph.status id = some new) (hw : P db.graph (db.childrenOf id ++ E))
    (hs : new = .success → ∀ c ∈ db.childrenOf id, S db.graph c) : P db'.graph E := by
  induction n using Nat.strong_induction_on generalizing db db' id new E with
  | _ n ih =>
    rw [cascade, if_pos hnew, advanceChildren] at h
    have ih' : ∀ m < n, ∀ db db' id E, cascade cfg now m db id .cancelled = .ok db' →
        db.ForeignKeys → db.graph.status id = some .cancelled →
        P db.graph (db.childrenOf id ++ E) → P db'.graph E :=
      fun m hm db db' id E hc hfk hst hw =>
        ih m hm hc (by decide) hfk hst hw (by intro he; cases he)
    have hedges : ∀ c ∈ db.childrenOf id, ⟨id, c⟩ ∈ db.deps :=
      fun c hc => (db.mem_childrenOf id c).mp hc
    generalize db.childrenOf id = children at h hw hs hedges
    -- the children that are still to be visited are the exceptions
    induction children generalizing db with
    | nil =>
      cases h
      exact hw
    | cons child children ihc =>
      rw [List.foldlM_cons] at h
      obtain ⟨db₁, hturn, hrest⟩ := bind_ok h
      have hturn' := advanceChild_ok hturn
      have hdeps : db₁.deps = db.deps := by
        obtain ⟨ls, htr⟩ := hturn'.trace
        exact CascadeStep.deps_trace htr
      refine ihc (hturn'.foreignKeys hfk) (hturn'.status hnew hst) hrest ?_ ?_ ?_
      · exact hturn'.sweep hsweep hnew hfk hst (hedges child List.mem_cons_self) hw
          (fun he => hs he child List.mem_cons_self) ih'
      · exact fun he c hc => hturn'.keep hsweep he (hs he c (List.mem_cons_of_mem _ hc))
      · intro c hc
        rw [hdeps]
        exact hedges c (List.mem_cons_of_mem _ hc)

end TaskPlatform
