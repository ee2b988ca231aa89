import TaskPlatform.Requests

/-!
# What a statement of a creation request does

To its own session: the rows of finished creations are those of the ids in
`created`, the other rows are those of the id at hand. To the service: at most it
draws an id, inserts a key that is free, or commits.
-/

namespace TaskPlatform.Requests

section

variable (r r' : Rows)

@[simp] theorem Rows.append_batches : (r ++ r').batches = r.batches ++ r'.batches := rfl
@[simp] theorem Rows.append_tasks : (r ++ r').tasks = r.tasks ++ r'.tasks := rfl
@[simp] theorem Rows.append_events : (r ++ r').events = r.events ++ r'.events := rfl
@[simp] theorem Rows.append_outbox : (r ++ r').outbox = r.outbox ++ r'.outbox := rfl
@[simp] theorem Rows.append_deliveries : (r ++ r').deliveries = r.deliveries ++ r'.deliveries := rfl
@[simp] theorem Rows.append_deps : (r ++ r').deps = r.deps ++ r'.deps := rfl

/-- The number of `task.created` events of a task. -/
def Rows.creations (id : TaskId) : Nat :=
  r.events.countP (fun e => e.taskId == id && e.eventType == .created)

@[simp] theorem Rows.keys_append : (r ++ r').keys = r.keys ++ r'.keys := List.filterMap_append

@[simp] theorem Rows.creations_append (id : TaskId) :
    (r ++ r').creations id = r.creations id + r'.creations id := List.countP_append

@[simp] theorem Rows.mem_subjects_append (x : Subject) :
    x ∈ (r ++ r').subjects ↔ x ∈ r.subjects ∨ x ∈ r'.subjects := by
  simp only [subjects, append_batches, append_tasks, append_events, append_outbox,
    append_deliveries, append_deps, List.map_append, List.mem_append]
  tauto

@[simp] theorem Rows.subjects_empty : ({} : Rows).subjects = [] := rfl
@[simp] theorem Rows.keys_empty : ({} : Rows).keys = [] := rfl
@[simp] theorem Rows.creations_empty (id : TaskId) : ({} : Rows).creations id = 0 := rfl

/-- A task that has a row is among the subjects. -/
theorem Rows.mem_subjects_of_task {r : Rows} {t : TaskId × Task} (h : t ∈ r.tasks) :
    .task t.1 ∈ r.subjects := by
  simp only [subjects, List.mem_append, List.mem_map]
  exact .inl (.inl (.inl (.inl (.inr ⟨t, h, rfl⟩))))

/-- Without rows of a task there are no events of it. -/
theorem Rows.creations_eq_zero {r : Rows} {id : TaskId} (h : .task id ∉ r.subjects) :
    r.creations id = 0 := by
  rw [creations, List.countP_eq_zero]
  intro e he hcreation
  simp only [Bool.and_eq_true, beq_iff_eq] at hcreation
  refine h ?_
  simp only [subjects, List.mem_append, List.mem_map]
  exact .inl (.inl (.inl (.inr ⟨e, he, by rw [hcreation.1]⟩)))

end

/-- The statement is one of the creation of `id` from `spec`. -/
def Statement.For (id : TaskId) (spec : TaskSpec) : Statement → Prop
  | .event e => e.taskId = id
  | .update task => task.idempotencyKey = spec.idempotencyKey
  | .outbox e => e.payload.taskId = id
  | .delivery _ _ _ _ => True
  | .dependency _ => True

/-- The statement records the `task.created` of `id`. -/
def Statement.isCreation (id : TaskId) : Statement → Bool
  | .event e => e.taskId == id && e.eventType == .created
  | _ => false

theorem Rows.mem_subjects_write {r : Rows} {id : TaskId} {spec : TaskSpec} {n : Nat}
    {statement : Statement} (h : statement.For id spec) {x : Subject}
    (hx : x ∈ (r.write id n statement).subjects) : x ∈ r.subjects ∨ x = .task id := by
  cases statement with
  | update task =>
    refine .inl ?_
    have htasks : (r.write id n (.update task)).tasks.map (fun t => Subject.task t.1) =
        r.tasks.map (fun t => Subject.task t.1) := by
      simp only [write, List.map_map, List.map_inj_left]
      intro t _
      by_cases ht : t.1 = id
      · simp [ht]
      · simp [ht]
    rw [subjects, htasks] at hx
    exact hx
  | event e =>
    simp only [subjects, write, List.map_append, List.map_singleton, List.mem_append,
      List.mem_singleton] at hx ⊢
    rw [show e.taskId = id from h] at hx
    tauto
  | outbox e =>
    simp only [subjects, write, List.map_append, List.map_singleton, List.mem_append,
      List.mem_singleton] at hx ⊢
    rw [show e.payload.taskId = id from h] at hx
    tauto
  | delivery now eventType task sub =>
    simp only [subjects, write, List.map_append, List.map_singleton, List.mem_append,
      List.mem_singleton, newDelivery] at hx ⊢
    tauto
  | dependency parent =>
    simp only [subjects, write, List.map_append, List.map_singleton, List.mem_append,
      List.mem_singleton] at hx ⊢
    tauto

theorem Rows.creations_write (r : Rows) (id : TaskId) (n : Nat) (statement : Statement) :
    (r.write id n statement).creations id =
      r.creations id + if statement.isCreation id then 1 else 0 := by
  cases statement with
  | event e => simp [creations, write, Statement.isCreation, List.countP_append, List.countP_cons]
  | _ => rfl

/-- The row of the creation at hand. -/
def Rows.Holds (r : Rows) (id : TaskId) (spec : TaskSpec) : Prop :=
  ∃ row, r.tasks = [(id, row)] ∧ row.idempotencyKey = spec.idempotencyKey

theorem Rows.Holds.write {r : Rows} {id : TaskId} {spec : TaskSpec} (hr : r.Holds id spec) (n : Nat)
    {statement : Statement} (h : statement.For id spec) :
    (r.write id n statement).Holds id spec := by
  obtain ⟨row, htasks, hkey⟩ := hr
  cases statement with
  | update task =>
    refine ⟨task, ?_, h⟩
    simp [Rows.write, htasks]
  | _ => exact ⟨row, htasks, hkey⟩

theorem Rows.Holds.keys {r : Rows} {id : TaskId} {spec : TaskSpec} (h : r.Holds id spec) :
    r.keys = spec.idempotencyKey.toList := by
  obtain ⟨row, htasks, hkey⟩ := h
  rw [Rows.keys, htasks, ← hkey]
  cases hrow : row.idempotencyKey <;> simp [hrow]

/-- The id and the spec of the creation at hand, once its id is drawn. -/
def Stage.current : Stage → Option (TaskId × TaskSpec)
  | .check id spec => some (id, spec)
  | .write id spec _ _ => some (id, spec)
  | _ => none

/-- The spec of the creation at hand. -/
def Stage.spec : Stage → Option TaskSpec
  | .insert spec => some spec
  | .check _ spec => some spec
  | .write _ spec _ _ => some spec
  | _ => none

theorem Stage.spec_of_current {stage : Stage} {id : TaskId} {spec : TaskSpec}
    (h : stage.current = some (id, spec)) : stage.spec = some spec := by
  cases stage <;> cases h <;> rfl

def Stage.isAnswered : Stage → Bool
  | .answered _ => true
  | _ => false

theorem Stage.open_of_current {stage : Stage} {id : TaskId} {spec : TaskSpec}
    (h : stage.current = some (id, spec)) : stage.isAnswered = false := by
  cases stage <;> cases h <;> rfl

theorem Stage.eq_answered {stage : Stage} (h : stage.isAnswered = true) :
    ∃ answer, stage = .answered answer := by
  cases stage <;> first | exact ⟨_, rfl⟩ | cases h

/-- Before the first statement and after the last. -/
def Stage.isUnwritten : Stage → Bool
  | .begun => true
  | .answered _ => true
  | _ => false

/-- The specs whose creation is not finished. -/
def Session.remaining (c : Session) : List TaskSpec := c.stage.spec.toList ++ c.todo

/-- The rows that a request has written and not committed. -/
def Session.rows (c : Session) : Rows := c.done ++ c.current

/-- The creation at hand: its events are written or wait for the flush. -/
structure Writing (id : TaskId) (spec : TaskSpec) (queue : List Statement) (next : Next)
    (rows : Rows) : Prop where
  queued : ∀ statement ∈ queue, statement.For id spec
  holds : rows.Holds id spec
  subjects : ∀ x ∈ rows.subjects, x = .task id
  once : rows.creations id + queue.countP (Statement.isCreation id) = 1
  later : ∀ eventType task rest, next = .notify eventType task rest →
    ∀ statement ∈ rest, statement.For id spec ∧ statement.isCreation id = false

/-- A row of the subject can be among the rows that the request commits. -/
def Session.Won (c : Session) (x : Subject) : Prop :=
  x ∈ c.drawn ∧ ∀ id, x = .task id → id ∈ c.created

/-- The request of one spec creates one task from it. -/
structure Session.Single (c : Session) (spec : TaskSpec) : Prop where
  one : c.created.length + c.remaining.length = 1
  specs : ∀ spec' ∈ c.remaining, spec' = spec
  rows : ∀ t ∈ c.done.tasks, t.2.idempotencyKey = spec.idempotencyKey

structure Session.Ok (c : Session) : Prop where
  created : ∀ id ∈ c.created, .task id ∈ c.drawn
  conflicts : ∀ r ∈ c.conflicts, .task r.1 ∈ c.drawn ∧ r.1 ∉ c.created
  working : ∀ id spec, c.stage.current = some (id, spec) →
    .task id ∈ c.drawn ∧ id ∉ c.created ∧ ∀ r ∈ c.conflicts, r.1 ≠ id
  done : ∀ x ∈ c.done.subjects, c.Won x
  once : ∀ t ∈ c.done.tasks, c.done.creations t.1 = 1
  current : (∀ id spec queue next, c.stage ≠ .write id spec queue next) → c.current = {}
  writing : ∀ id spec queue next, c.stage = .write id spec queue next →
    Writing id spec queue next c.current
  unwritten : c.stage.isUnwritten = true → c.done = {}
  tasks : c.stage.isAnswered = false → c.done.tasks.map Prod.fst = c.created
  single : c.stage.isAnswered = false → ∀ spec, c.request = .single spec → c.Single spec

theorem Request.start_ok (request : Request) : request.start.Ok where
  created := by intro id h; cases h
  conflicts := by intro r h; cases h
  working := by intro id spec h; cases h
  done := by intro x h; cases h
  once := by intro t h; cases h
  current := fun _ => rfl
  writing := by intro id spec queue next h; cases h
  unwritten := fun _ => rfl
  tasks := fun _ => rfl
  single := by
    intro _ spec h
    cases request with
    | single spec' =>
      cases h
      refine ⟨rfl, fun s hs => List.mem_singleton.mp hs, ?_⟩
      intro t ht
      cases ht
    | bulk specs => cases h
    | batch name createdBy specs => cases h

/-- A roll-back keeps what is known of the ids. -/
theorem Session.Ok.close {c : Session} (h : c.Ok) (answer : Answer) : (c.close answer).Ok where
  created := h.created
  conflicts := h.conflicts
  working := by intro id spec hw; cases hw
  done := by intro x hx; cases hx
  once := by intro t ht; cases ht
  current := fun _ => rfl
  writing := by intro id spec queue next hw; cases hw
  unwritten := fun _ => rfl
  tasks := by intro ha; cases ha
  single := by intro ha; cases ha

/-- An exception that leaves the session rolls everything back. -/
theorem Session.raise_eq_close (c : Session) (e : Raised) :
    ∃ answer, c.raise e = c.close answer ∧ ∀ ids conflicts, answer ≠ .created ids conflicts := by
  unfold Session.raise
  split
  all_goals
    refine ⟨_, rfl, ?_⟩
    intro ids conflicts h
    cases h

/-- A stage without rows of its own, entered with nothing written since the last one. -/
theorem Session.Ok.idle {c : Session} (h : c.Ok) {stage : Stage} {todo : List TaskSpec}
    (hopen : c.stage.isAnswered = false) (hcurrent : c.current = {})
    (hstage : stage.current = none) (hwritten : stage.isUnwritten = false)
    (hremaining : stage.spec.toList ++ todo = c.remaining) :
    Session.Ok { c with stage := stage, todo := todo } where
  created := h.created
  conflicts := h.conflicts
  working := by
    intro id spec hw
    rw [show stage.current = some (id, spec) from hw] at hstage
    cases hstage
  done := h.done
  once := h.once
  current := fun _ => hcurrent
  writing := by
    intro id spec queue next hw
    rw [show stage = .write id spec queue next from hw] at hstage
    cases hstage
  unwritten := by
    intro hu
    rw [show stage.isUnwritten = true from hu] at hwritten
    cases hwritten
  tasks := fun _ => h.tasks hopen
  single := by
    intro _ spec hrequest
    obtain ⟨hone, hspecs, hrows⟩ := h.single hopen spec hrequest
    rw [← hremaining] at hone hspecs
    exact ⟨hone, hspecs, hrows⟩

/-- The answer to a request whose key has a task. -/
theorem Session.Ok.replay {c : Session} (h : c.Ok) (hcurrent : c.current = {}) (hdone : c.done = {})
    (id : TaskId) : Session.Ok { c with stage := .answered (.replayed id) } where
  created := h.created
  conflicts := h.conflicts
  working := by intro id spec hw; cases hw
  done := h.done
  once := h.once
  current := fun _ => hcurrent
  writing := by intro id spec queue next hw; cases hw
  unwritten := fun _ => hdone
  tasks := by intro ha; cases ha
  single := by intro ha; cases ha

/-- The row of a batch is inserted. -/
theorem Session.Ok.batch {c : Session} (h : c.Ok) (hopen : c.stage.isAnswered = false)
    (hcurrent : c.current = {}) {name : String} {createdBy : Option Nat} {specs : List TaskSpec}
    (hrequest : c.request = .batch name createdBy specs) (todo : List TaskSpec) (id : Nat)
    (row : TaskBatch) :
    Session.Ok { c with
      stage := .turn
      todo := todo
      done := c.done ++ { batches := [(id, row)] }
      drawn := c.drawn ++ [.batch id] } where
  created i hi := List.mem_append.mpr (.inl (h.created i hi))
  conflicts r hr := ⟨List.mem_append.mpr (.inl (h.conflicts r hr).1), (h.conflicts r hr).2⟩
  working := by intro id spec hw; cases hw
  done := by
    intro x hx
    rcases (Rows.mem_subjects_append _ _ x).mp hx with hx | hx
    · exact ⟨List.mem_append.mpr (.inl (h.done x hx).1), (h.done x hx).2⟩
    · rw [show x = .batch id from List.mem_singleton.mp hx]
      refine ⟨List.mem_append.mpr (.inr List.mem_cons_self), ?_⟩
      intro i hi
      cases hi
  once := by
    intro t ht
    rw [Rows.append_tasks, List.append_nil] at ht
    rw [Rows.creations_append, h.once t ht]
    rfl
  current := fun _ => hcurrent
  writing := by intro id spec queue next hw; cases hw
  unwritten := by intro hu; cases hu
  tasks := by
    intro _
    rw [Rows.append_tasks, List.append_nil]
    exact h.tasks hopen
  single := by
    intro _ spec hsingle
    cases hrequest.symm.trans hsingle

/-- The `INSERT` of a task has drawn its id. -/
theorem Session.Ok.draw {c : Session} (h : c.Ok) {spec : TaskSpec} (hstage : c.stage = .insert spec)
    {id : TaskId} (hnew : .task id ∉ c.drawn) :
    Session.Ok { c with stage := .check id spec, drawn := c.drawn ++ [.task id] } where
  created i hi := List.mem_append.mpr (.inl (h.created i hi))
  conflicts r hr := ⟨List.mem_append.mpr (.inl (h.conflicts r hr).1), (h.conflicts r hr).2⟩
  working := by
    intro id' spec' hw
    cases hw
    refine ⟨List.mem_append.mpr (.inr List.mem_cons_self), ?_, ?_⟩
    · intro hmem
      exact hnew (h.created _ hmem)
    · rintro r hr rfl
      exact hnew (h.conflicts r hr).1
  done x hx := ⟨List.mem_append.mpr (.inl (h.done x hx).1), (h.done x hx).2⟩
  once := h.once
  current := fun _ => h.current (by rw [hstage]; intro _ _ _ _ hw; cases hw)
  writing := by intro id spec queue next hw; cases hw
  unwritten := by intro hu; cases hu
  tasks := fun _ => h.tasks (by rw [hstage]; rfl)
  single := by
    intro _ spec' hrequest
    obtain ⟨hone, hspecs, hrows⟩ := h.single (by rw [hstage]; rfl) spec' hrequest
    rw [Session.remaining, hstage] at hone hspecs
    exact ⟨hone, hspecs, hrows⟩

/-- Another part of the creation at hand. -/
theorem Session.Ok.write {c : Session} (h : c.Ok) {id : TaskId} {spec : TaskSpec}
    (hstage : c.stage.current = some (id, spec)) {queue : List Statement} {next : Next}
    {rows : Rows} (hw : Writing id spec queue next rows) :
    Session.Ok { c with stage := .write id spec queue next, current := rows } where
  created := h.created
  conflicts := h.conflicts
  working := by
    intro id' spec' hcurrent
    cases hcurrent
    exact h.working id spec hstage
  done := h.done
  once := h.once
  current := fun hne => absurd rfl (hne id spec queue next)
  writing := by
    intro id' spec' queue' next' hstage'
    cases hstage'
    exact hw
  unwritten := by intro hu; cases hu
  tasks := fun _ => h.tasks (Stage.open_of_current hstage)
  single := by
    intro _ spec' hrequest
    obtain ⟨hone, hspecs, hrows⟩ := h.single (Stage.open_of_current hstage) spec' hrequest
    rw [Session.remaining, Stage.spec_of_current hstage] at hone hspecs
    exact ⟨hone, hspecs, hrows⟩

/-- A violated constraint loses the creation at hand, or the request. -/
theorem Session.Ok.violate {c : Session} (h : c.Ok) {id : TaskId} {spec : TaskSpec}
    (hstage : c.stage.current = some (id, spec)) : (c.violate id spec).Ok := by
  obtain ⟨hdrawn, hcreated, -⟩ := h.working id spec hstage
  unfold Session.violate
  split
  · rename_i specs hbulk
    have hopen := Stage.open_of_current hstage
    refine ⟨h.created, ?_, ?_, h.done, h.once, fun _ => rfl, ?_, ?_, fun _ => h.tasks hopen, ?_⟩
    · intro r hr
      rcases List.mem_append.mp hr with hr | hr
      · exact h.conflicts r hr
      · rw [List.mem_singleton.mp hr]
        exact ⟨hdrawn, hcreated⟩
    · intro id' spec' hw
      cases hw
    · intro id' spec' queue next hw
      cases hw
    · intro hu
      cases hu
    · intro _ spec' hrequest
      cases hbulk.symm.trans hrequest
  · obtain ⟨answer, heq, -⟩ := c.raise_eq_close .integrity
    rw [heq]
    exact h.close answer

/-- The creation at hand is finished. -/
theorem Session.Ok.finish {c : Session} (h : c.Ok) {id : TaskId} {spec : TaskSpec} {next : Next}
    (hstage : c.stage = .write id spec [] next) :
    Session.Ok { c with
      stage := .turn
      done := c.done ++ c.current
      current := {}
      created := c.created ++ [id] } := by
  have hcurrent : c.stage.current = some (id, spec) := by rw [hstage]; rfl
  obtain ⟨hdrawn, hcreated, hconflicts⟩ := h.working id spec hcurrent
  have hw := h.writing id spec [] next hstage
  obtain ⟨row, htasks, hkey⟩ := hw.holds
  have hopen := Stage.open_of_current hcurrent
  have honce : c.current.creations id = 1 := by
    have hsum := hw.once
    rwa [List.countP_nil, Nat.add_zero] at hsum
  have hnew : ∀ t ∈ c.done.tasks, t.1 ≠ id := by
    rintro t ht rfl
    exact hcreated ((h.done _ (Rows.mem_subjects_of_task ht)).2 _ rfl)
  refine ⟨?_, ?_, ?_, ?_, ?_, fun _ => rfl, ?_, ?_, fun _ => ?_, ?_⟩
  · intro i hi
    rcases List.mem_append.mp hi with hi | hi
    · exact h.created i hi
    · rw [List.mem_singleton.mp hi]
      exact hdrawn
  · intro r hr
    refine ⟨(h.conflicts r hr).1, fun hmem => ?_⟩
    rcases List.mem_append.mp hmem with hmem | hmem
    · exact (h.conflicts r hr).2 hmem
    · exact hconflicts r hr (List.mem_singleton.mp hmem)
  · intro id' spec' hw
    cases hw
  · intro x hx
    rcases (Rows.mem_subjects_append _ _ x).mp hx with hx | hx
    · obtain ⟨hx, hid⟩ := h.done x hx
      exact ⟨hx, fun i hi => List.mem_append.mpr (.inl (hid i hi))⟩
    · rw [hw.subjects x hx]
      refine ⟨hdrawn, fun i hi => ?_⟩
      cases hi
      exact List.mem_append.mpr (.inr List.mem_cons_self)
  · intro t ht
    rw [Rows.append_tasks, htasks] at ht
    rw [Rows.creations_append]
    rcases List.mem_append.mp ht with hold | hat
    · have hzero : c.current.creations t.1 = 0 := by
        apply Rows.creations_eq_zero
        intro hmem
        exact hnew t hold (Subject.task.inj (hw.subjects _ hmem))
      rw [h.once t hold, hzero]
    · rw [List.mem_singleton.mp hat]
      have hzero : c.done.creations id = 0 := by
        apply Rows.creations_eq_zero
        intro hmem
        exact hcreated ((h.done _ hmem).2 id rfl)
      rw [hzero, honce]
  · intro id' spec' queue next' hw
    cases hw
  · intro hu
    cases hu
  · rw [Rows.append_tasks, htasks, List.map_append, h.tasks hopen]
    rfl
  · intro _ spec' hrequest
    obtain ⟨hone, hspecs, hrows⟩ := h.single hopen spec' hrequest
    rw [Session.remaining, hstage] at hone hspecs
    have hspec : spec = spec' := hspecs spec List.mem_cons_self
    refine ⟨?_, fun s hs => hspecs s (List.mem_cons_of_mem _ hs), ?_⟩
    · simp only [Session.remaining, Stage.spec, Option.toList, List.length_append,
        List.length_cons, List.length_nil] at hone ⊢
      omega
    · intro t ht
      rw [Rows.append_tasks, htasks] at ht
      rcases List.mem_append.mp ht with ht | ht
      · exact hrows t ht
      · rw [List.mem_singleton.mp ht, ← hspec]
        exact hkey

/-- The rows of a new task. -/
theorem creation_writing (cfg : Settings) (now : Time) (id : TaskId) (spec : TaskSpec) :
    Writing id spec (creation cfg now id spec).1 (creation cfg now id spec).2
      { tasks := [(id, spec.row cfg now)] } := by
  have hholds : Rows.Holds { tasks := [(id, spec.row cfg now)] } id spec := ⟨_, rfl, rfl⟩
  have hsubjects : ∀ x ∈ ({ tasks := [(id, spec.row cfg now)] } : Rows).subjects, x = .task id :=
    fun x hx => List.mem_singleton.mp hx
  have hkey : ∀ new, (movedTask now (spec.row cfg now) new).idempotencyKey =
      spec.idempotencyKey := by
    intro new
    cases new <;> rfl
  unfold creation
  split
  · refine ⟨?_, hholds, hsubjects, ?_, ?_⟩
    · intro statement hs
      rw [List.mem_singleton.mp hs]
      rfl
    · simp [Rows.creations, Statement.isCreation]
    · intro eventType task rest hnext
      cases hnext
  · split
    · refine ⟨?_, hholds, hsubjects, ?_, ?_⟩
      · simp [Statement.For, hkey]
      · simp [Rows.creations, Statement.isCreation]
      · intro eventType task rest hnext
        cases hnext
        simp
    · refine ⟨?_, hholds, hsubjects, ?_, ?_⟩
      · simp [Statement.For, hkey]
      · simp [Rows.creations, Statement.isCreation]
      · intro eventType task rest hnext
        cases hnext
        simp [Statement.For, Statement.isCreation, newOutbox]

/-- A flush writes the first row that waits. -/
theorem Writing.write {id : TaskId} {spec : TaskSpec} {statement : Statement}
    {queue : List Statement} {next : Next} {rows : Rows}
    (h : Writing id spec (statement :: queue) next rows) (n : Nat) :
    Writing id spec queue next (rows.write id n statement) where
  queued s hs := h.queued s (List.mem_cons_of_mem _ hs)
  holds := h.holds.write n (h.queued _ List.mem_cons_self)
  subjects x hx := by
    rcases Rows.mem_subjects_write (h.queued _ List.mem_cons_self) hx with hx | hx
    · exact h.subjects x hx
    · exact hx
  once := by
    have honce := h.once
    rw [List.countP_cons] at honce
    rw [Rows.creations_write]
    omega
  later := h.later

/-- The rows of a creation that is told to go on. -/
theorem Writing.next {id : TaskId} {spec : TaskSpec} {next next' : Next} {rows : Rows}
    (h : Writing id spec [] next rows) {queue : List Statement}
    (hqueue : ∀ s ∈ queue, s.For id spec ∧ s.isCreation id = false)
    (hnext : ∀ eventType task rest, next' ≠ .notify eventType task rest) :
    Writing id spec queue next' rows where
  queued s hs := (hqueue s hs).1
  holds := h.holds
  subjects := h.subjects
  once := by
    have hnone : queue.countP (Statement.isCreation id) = 0 := by
      rw [List.countP_eq_zero]
      intro s hs
      simp [(hqueue s hs).2]
    rw [hnone]
    exact h.once
  later eventType task rest he := absurd he (hnext eventType task rest)

theorem Session.Ok.proceed {c : Session} (h : c.Ok) {id : TaskId} {spec : TaskSpec} {next : Next}
    (hstage : c.stage = .write id spec [] next) (now : Time) (seen : Rows)
    (subs : List (Nat × WebhookSubscription)) : (c.proceed now seen subs id spec next).Ok := by
  have hcurrent : c.stage.current = some (id, spec) := by rw [hstage]; rfl
  have hw := h.writing id spec [] next hstage
  have hraise : ∀ e, (c.raise e).Ok := by
    intro e
    obtain ⟨answer, heq, -⟩ := c.raise_eq_close e
    rw [heq]
    exact h.close answer
  cases next with
  | parents parentIds =>
    simp only [Session.proceed]
    split
    · exact hraise _
    · split
      · exact hraise _
      · exact h.write hcurrent (hw.next (by simp) (by simp))
  | climb parentIds visited queue =>
    cases queue with
    | nil =>
      refine h.write hcurrent (hw.next ?_ (by simp))
      simp [Statement.For, Statement.isCreation, or_imp, forall_and]
    | cons current queue =>
      simp only [Session.proceed]
      split
      · exact hraise _
      · split
        · exact h.write hcurrent (hw.next (by simp) (by simp))
        · split
          · exact hraise _
          · exact h.write hcurrent (hw.next (by simp) (by simp))
  | notify eventType task rest =>
    refine h.write hcurrent (hw.next ?_ (by simp))
    intro s hs
    rcases List.mem_append.mp hs with hs | hs
    · obtain ⟨r, -, rfl⟩ := List.mem_map.mp hs
      exact ⟨trivial, rfl⟩
    · exact hw.later eventType task rest rfl s hs
  | done => exact h.finish hstage

end TaskPlatform.Requests
