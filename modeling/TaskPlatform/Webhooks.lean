import TaskPlatform.BulkCreate
import TaskPlatform.Footprint
import TaskPlatform.Lib.Appended
import TaskPlatform.Moved

/-!
# Webhook deliveries and the event log

`_record_event` writes the log and `enqueue_for` the deliveries. A status change
calls both, but a creation and a worker's start record events of their own, and
nothing queues deliveries for these, although `_validate_events` lets a
subscription name them. So the two records agree as long as nobody has subscribed
to the events of a creation that succeeds or of a start that takes its task.
-/

namespace TaskPlatform

open Run

/-- `TASK_EVENT_TYPES` -/
def taskEventTypes : List String :=
  ["task.created", "task.queued", "task.scheduled", "task.invalidated", "task.running",
    "task.attempt_started", "task.attempt_failed", "task.succeeded", "task.failed",
    "task.cancelled", "task.retried", "task.retry_scheduled", "task.requeued",
    "task.dead_lettered", "task.dlq_requeued", "task.blocked", "task.unblocked"]

/-- `_validate_events`; the refused names are those that the answer 400 lists. -/
def validateEvents (events : List String) : Except (List String) Unit :=
  let unknown := events.filter (fun e => decide (e ∉ "*" :: taskEventTypes))
  if unknown ≠ [] then .error unknown else .ok ()

/-- A subscription can name every event that is ever recorded. -/
theorem validateEvents_value (eventType : EventType) :
    validateEvents [eventType.value] = .ok () := by
  cases eventType <;> rfl

/-- What a delivery tells, and to whom. -/
structure Announcement where
  subscriptionId : Nat
  eventType : EventType
  taskId : TaskId
  deriving DecidableEq, Repr

def WebhookDelivery.announcement (d : WebhookDelivery) : Announcement :=
  ⟨d.subscriptionId, d.eventType, d.taskId⟩

/-- The deliveries that an event calls for: one for each active subscription that matches. -/
def announcements (subs : Table WebhookSubscription) (e : TaskEvent) : List Announcement :=
  (subs.select (fun r => r.2.isActive && r.2.matches e.eventType)).map
    (fun r => ⟨r.1, e.eventType, e.taskId⟩)

/-- The new deliveries are, each once, those that the new events call for. -/
def Announced (db db' : Database) : Prop :=
  ((db.deliveries.newRows db'.deliveries).map (·.2.announcement)).Perm
    ((db.events.newRows db'.events).flatMap (fun r => announcements db.subscriptions r.2))

instance (db db' : Database) : Decidable (Announced db db') :=
  inferInstanceAs (Decidable (List.Perm _ _))

theorem Announced.of_none {db db' : Database} (hevents : db'.events.rows ⊆ db.events.rows)
    (hdeliveries : db'.deliveries.rows ⊆ db.deliveries.rows) : Announced db db' := by
  unfold Announced
  rw [Table.newRows_of_subset hevents, Table.newRows_of_subset hdeliveries]
  exact .refl _

/-- The rows that are appended to the two tables, and the events among them whose deliveries are
left out. -/
structure Trails (missed : List TaskEvent) (db db' : Database) : Prop where
  subscriptions : db'.subscriptions = db.subscriptions
  rows : ∃ es ds, db.events.Appends es db'.events ∧ db.deliveries.Appends ds db'.deliveries ∧
    (es.flatMap (fun r => announcements db.subscriptions r.2)).Perm
      (ds.map (·.2.announcement) ++ missed.flatMap (announcements db.subscriptions))

theorem Trails.of_same {db db' : Database} (hsubs : db'.subscriptions = db.subscriptions)
    (hevents : db'.events = db.events) (hdeliveries : db'.deliveries = db.deliveries) :
    Trails [] db db' := by
  refine ⟨hsubs, [], [], ?_, ?_, .refl _⟩
  · rw [hevents]
    exact .refl _
  · rw [hdeliveries]
    exact .refl _

theorem Trails.trans {ms ns : List TaskEvent} {db₁ db₂ db₃ : Database} (h₁ : Trails ms db₁ db₂)
    (h₂ : Trails ns db₂ db₃) : Trails (ms ++ ns) db₁ db₃ := by
  obtain ⟨hsubs₁, es₁, ds₁, hes₁, hds₁, hperm₁⟩ := h₁
  obtain ⟨hsubs₂, es₂, ds₂, hes₂, hds₂, hperm₂⟩ := h₂
  rw [hsubs₁] at hperm₂ hsubs₂
  refine ⟨hsubs₂, _, _, hes₁.trans hes₂, hds₁.trans hds₂, ?_⟩
  rw [List.flatMap_append, List.map_append, List.flatMap_append]
  refine (hperm₁.append hperm₂).trans ?_
  rw [List.append_assoc, List.append_assoc]
  exact (List.perm_append_comm_assoc _ _ _).append_left _

/-- An event that is recorded alone. -/
theorem Trails.recordEvent (now : Time) (db : Database) (id : TaskId) (old : Status)
    (eventType : EventType) (new : Status) (details : Option Details) :
    Trails [⟨id, eventType, old, new, details, now⟩] db
      (recordEvent now db id old eventType new details) := by
  refine ⟨rfl, _, [], .insert db.events _, .refl db.deliveries, ?_⟩
  rw [List.flatMap_singleton, List.flatMap_singleton]
  exact .refl _

/-- The loop of `enqueue_for`. -/
theorem enqueue_appends (now : Time) (eventType : EventType) (id : TaskId) (task : Task)
    (subs : List (Nat × WebhookSubscription)) (t : Table WebhookDelivery) :
    ∃ ds, t.Appends ds
      (subs.foldl (fun t sub => t.insert (newDelivery now eventType id task sub.1 t.next)) t) ∧
      ds.map (·.2.announcement) = subs.map (fun r => ⟨r.1, eventType, id⟩) := by
  induction subs generalizing t with
  | nil => exact ⟨[], .refl t, rfl⟩
  | cons sub subs ih =>
    obtain ⟨ds, hds, hmap⟩ := ih (t.insert (newDelivery now eventType id task sub.1 t.next))
    refine ⟨_, (Table.Appends.insert t _).trans hds, ?_⟩
    rw [List.map_append, hmap]
    rfl

/-- `enqueue_for` writes what an event of its type calls for. -/
theorem enqueueFor_appends (now : Time) (db : Database) (e : TaskEvent) (task : Task) :
    ∃ ds, db.deliveries.Appends ds (enqueueFor now db e.eventType e.taskId task).deliveries ∧
      ds.map (·.2.announcement) = announcements db.subscriptions e :=
  enqueue_appends now e.eventType e.taskId task _ db.deliveries

/-- What a flush leaves of the rest of the database. -/
theorem flush_tables {now : Time} {db db' : Database} {task task' : Instance}
    (h : flush now db task = .ok (db', task')) :
    task'.id = task.id ∧ ∃ tasks, db' = { db with tasks := tasks } := by
  unfold flush at h
  split at h
  · cases h
    exact ⟨rfl, _, rfl⟩
  · split at h
    · cases h
    · cases h
      exact ⟨rfl, _, rfl⟩

/-- A status change records its event and queues the deliveries of this event. -/
theorem trails_footprint (now : Time) : Footprint now (Trails []) where
  refl db := .of_same rfl rfl rfl
  trans h₁ h₂ := h₁.trans h₂
  flush h := by
    obtain ⟨-, tasks, rfl⟩ := flush_tables h
    exact .of_same rfl rfl rfl
  change := by
    intro db db₁ task task₁ cur eventType new details h
    obtain ⟨hid, tasks, rfl⟩ := flush_tables h
    rw [hid]
    obtain ⟨ds, hds, hmap⟩ := enqueueFor_appends now
      { recordEvent now db task.id task.cur.status eventType new details with tasks := tasks }
      ⟨task.id, eventType, task.cur.status, new, details, now⟩ task₁.cur
    refine ⟨rfl, _, ds, .insert db.events _, hds, ?_⟩
    rw [hmap, List.flatMap_singleton, List.flatMap_nil, List.append_nil]
    exact .refl _
  outbox _ _ _ _ _ := .of_same rfl rfl rfl
  attempts _ _ := .of_same rfl rfl rfl
  workers _ _ := .of_same rfl rfl rfl

/-- The records agree exactly if the events that were left out call for no delivery. -/
theorem Trails.announced_iff {missed : List TaskEvent} {db db' : Database}
    (h : Trails missed db db') :
    Announced db db' ↔ ∀ e ∈ missed, announcements db.subscriptions e = [] := by
  obtain ⟨-, es, ds, hes, hds, hperm⟩ := h
  unfold Announced
  rw [hes.newRows, hds.newRows, ← List.flatMap_eq_nil_iff]
  constructor
  · intro hagree
    have hlen := hperm.length_eq
    have hsame := hagree.length_eq
    rw [List.length_append] at hlen
    apply List.eq_nil_of_length_eq_zero
    omega
  · intro hnone
    rw [hnone, List.append_nil] at hperm
    exact hperm.symm

theorem Trails.announced {db db' : Database} (h : Trails [] db db') : Announced db db' :=
  h.announced_iff.mpr fun _ he => absurd he List.not_mem_nil

/-- No active subscription matches the event type. -/
def Unwatched (db : Database) (eventType : EventType) : Prop :=
  db.subscriptions.select (fun r => r.2.isActive && r.2.matches eventType) = []

theorem announcements_eq_nil_iff (db : Database) (e : TaskEvent) :
    announcements db.subscriptions e = [] ↔ Unwatched db e.eventType :=
  List.map_eq_nil_iff

/-- A creation that succeeds announces neither its `task.created` nor its `task.blocked`. -/
theorem createTask_announced_iff {cfg : Settings} {now : Time} {db db' : Database}
    {spec : TaskSpec} {id : TaskId} (h : createTask cfg now db spec = .ok (db', id)) :
    Announced db db' ↔
      Unwatched db .created ∧ (spec.dependsOn.getD [] ≠ [] → Unwatched db .blocked) := by
  have hrow : Trails [] db { db with tasks := db.tasks.insert (spec.row cfg now) } :=
    .of_same rfl rfl rfl
  have hcreated : Trails [⟨db.tasks.next, .created, .created, .created, none, now⟩] db
      (insertTask cfg now db spec) :=
    hrow.trans (Trails.recordEvent now _ db.tasks.next .created .created .created none)
  obtain ⟨hnone, hrest⟩ | ⟨p, ps, deps, hdep, rfl⟩ := (trails_footprint now).createTask h
  · rw [(hcreated.trans hrest).announced_iff, hnone]
    simp [announcements_eq_nil_iff]
  · have hdeps : Trails [] (insertTask cfg now db spec)
        { insertTask cfg now db spec with deps := deps } := .of_same rfl rfl rfl
    have hblocked := (hcreated.trans hdeps).trans (.recordEvent now _ db.tasks.next .created
      .blocked .created (some (.waitingFor (p :: ps))))
    rw [hblocked.announced_iff, hdep]
    simp [announcements_eq_nil_iff]

/-- A start that takes its task does not announce its `task.attempt_started`. -/
theorem startTask_announced_iff {cfg : Settings} {now : Time} {db db' : Database} {w : WorkerId}
    {id : TaskId} {held : Held} (h : startTask cfg now db w id = .ok (some (db', held))) :
    Announced db db' ↔ Unwatched db .attemptStarted := by
  obtain ⟨row, db₁, number, -, hrun, rfl⟩ := (trails_footprint now).startTask h
  have hleased : Trails [] db (db.setTask id (leased now w cfg.taskLeaseSeconds row)) :=
    .of_same rfl rfl rfl
  have hstarted := (hleased.trans hrun).trans (.recordEvent now _ held.task.id
    held.task.cur.status .attemptStarted .running (some (.attemptNumber number)))
  rw [hstarted.announced_iff]
  simp [announcements_eq_nil_iff]

theorem bind_total {α β : Type} {x : Except TaskError α} {a : α} {f : α → Except TaskError β}
    (hx : x = .ok a) (hf : ∃ b, f a = .ok b) : ∃ b, (x >>= f) = .ok b := by
  rw [hx]
  exact hf

/-- A queued task whose lease is free is started. -/
theorem startTask_queued (cfg : Settings) (now : Time) (w : WorkerId) {db : Database}
    {id : TaskId} {row : Task} (hrow : db.tasks.get id = some row) (hq : row.status = .queued)
    (hfree : leaseFree now row = true) :
    ∃ db' held, startTask cfg now db w id = .ok (some (db', held)) := by
  have hlease : tryAcquireLease now db id w cfg.taskLeaseSeconds =
      (db.setTask id (leased now w cfg.taskLeaseSeconds row), true) := by
    simp [tryAcquireLease, hrow, hq, hfree]
  have hleased := get_setTask_self (leased now w cfg.taskLeaseSeconds row) hrow
  have hset : setStatus cfg now (db.setTask id (leased now w cfg.taskLeaseSeconds row))
      (Instance.fresh id (leased now w cfg.taskLeaseSeconds row)) .running .running none = _ :=
    setStatusFuel_fresh _ _ _ hleased rfl (show canTransition row.status .running = true by
      rw [hq]; rfl) (by decide)
  have hmoved : ((db.setTask id (leased now w cfg.taskLeaseSeconds row)).move now id
      (leased now w cfg.taskLeaseSeconds row) .running .running none).tasks.get id =
        some (movedTask now (leased now w cfg.taskLeaseSeconds row) .running) :=
    get_setTask_self _ hleased
  obtain ⟨r, hstart⟩ : ∃ r, startAttempt cfg now
      (db.setTask id (leased now w cfg.taskLeaseSeconds row))
      (Instance.fresh id (leased now w cfg.taskLeaseSeconds row)) w = .ok r :=
    bind_total hset ((flush_total now _ (Option.isSome_iff_exists.mpr ⟨_, hmoved⟩)).elim
      fun r hflush => bind_total hflush ⟨_, rfl⟩)
  simp only [startTask, hlease, hleased, hstart]
  exact ⟨r.1, r.2, rfl⟩

/-- The worker has no message in hand, and the task of the new one can be started. -/
def Startable (now : Time) (w : WorkerId) (id : TaskId) (p : Platform) : Prop :=
  p.holding w = none ∧
    ∃ row, p.db.tasks.get id = some row ∧ row.status = .queued ∧ leaseFree now row = true

/-- Nobody has subscribed to the events that the action records alone. -/
def Quiet (p : Platform) : Action → Prop
  | .createTask _ spec =>
    keyTaken p.db spec.idempotencyKey = false → spec.Creatable (p.db.keys.map Prod.fst) →
      Unwatched p.db .created ∧ (spec.dependsOn.getD [] ≠ [] → Unwatched p.db .blocked)
  | .start now w id => Startable now w id p → Unwatched p.db .attemptStarted
  | _ => True

theorem step_createTask_announced_iff (cfg : Settings) (now : Time) (spec : TaskSpec)
    {p : Platform} (hp : p.Sound) :
    Announced p.db (p.step cfg (.createTask now spec)).db ↔ Quiet p (.createTask now spec) := by
  simp only [Platform.step, Quiet]
  have hlost : Announced p.db p.db.skipTaskId := (Trails.of_same rfl rfl rfl).announced
  obtain ⟨hkey, herr⟩ | ⟨hkey, hcreatable, db', hok, -⟩ | ⟨hkey, hbad, e, -, herr⟩ :=
    createTask_cases cfg now hp.foreignKeys spec
  · rw [herr]
    simp [hkey, commitCreated, hlost]
  · rw [hok]
    simp [hkey, hcreatable, commitCreated, createTask_announced_iff hok]
  · rw [herr]
    simp [hbad, commitCreated, hlost]

theorem step_start_announced_iff (cfg : Settings) (now : Time) (w : WorkerId) (id : TaskId)
    (p : Platform) :
    Announced p.db (p.step cfg (.start now w id)).db ↔ Quiet p (.start now w id) := by
  have hsame : Announced p.db p.db := (Trails.of_same rfl rfl rfl).announced
  by_cases hs : Startable now w id p
  · obtain ⟨hfree, row, hrow, hq, hlease⟩ := hs
    obtain ⟨db', held, hok⟩ := startTask_queued cfg now w hrow hq hlease
    have hquiet : Quiet p (.start now w id) ↔ Unwatched p.db .attemptStarted :=
      ⟨fun h => h ⟨hfree, row, hrow, hq, hlease⟩, fun h _ => h⟩
    simp only [Platform.step, startStep, hfree, hok]
    rw [hquiet]
    exact startTask_announced_iff hok
  · have hstays : startStep cfg now w id p = p := by
      obtain hstays | ⟨row, seen, hfree, hrow, hq, hlease, -⟩ := startStep_cases cfg now w id p
      · exact hstays
      · exact absurd ⟨hfree, row, hrow, hq, hlease⟩ hs
    simp only [Platform.step, hstays]
    exact ⟨fun _ h => absurd h hs, fun _ => hsame⟩

/-- A purge adds neither events nor deliveries. -/
theorem purgeOldData_subset (cfg : Settings) (now : Time) (limit : Option Nat) (db : Database) :
    (purgeOldData cfg now limit db).events.rows ⊆ db.events.rows ∧
      (purgeOldData cfg now limit db).deliveries.rows ⊆ db.deliveries.rows := by
  refine purgeOldData_keeps
    (R := fun db db' => db'.events.rows ⊆ db.events.rows ∧ db'.deliveries.rows ⊆ db.deliveries.rows)
    (fun db => ⟨List.Subset.refl _, List.Subset.refl _⟩)
    (fun h₁ h₂ => ⟨List.Subset.trans h₂.1 h₁.1, List.Subset.trans h₂.2 h₁.2⟩)
    (fun db ids _ => ⟨Table.erase_subset _ _, List.Subset.refl _⟩) (fun n db => ?_)
    (fun n db => ?_) limit db
  · obtain ⟨outbox, he⟩ := purgeOutbox_eq cfg now n db
    rw [he]
    exact ⟨List.Subset.refl _, List.Subset.refl _⟩
  · obtain ⟨auditLogs, he⟩ := purgeAudit_eq cfg now n db
    rw [he]
    exact ⟨List.Subset.refl _, List.Subset.refl _⟩

/-- The two records agree in a step exactly if nobody waits for what it records alone. -/
theorem step_announced_iff (cfg : Settings) {p : Platform} (hp : p.Sound) (a : Action) :
    Announced p.db (p.step cfg a).db ↔ Quiet p a := by
  have hR := trails_footprint
  have hsame : ∀ {db'}, Trails [] p.db db' → (Announced p.db db' ↔ True) :=
    fun h => iff_true_intro h.announced
  cases a with
  | createTask now spec => exact step_createTask_announced_iff cfg now spec hp
  | start now w id => exact step_start_announced_iff cfg now w id p
  | manualRetry now id => exact hsame ((hR now).commitFound fun _ => (hR now).manualRetry)
  | cancelTask now id => exact hsame ((hR now).commitFound fun _ => (hR now).cancelTask)
  | bulkRetry now ids =>
    refine hsame ((hR now).commit fun db' hok => ?_)
    obtain ⟨r, hbulk, rfl⟩ := map_ok hok
    exact (hR now).bulk (fun _ _ _ => (hR now).manualRetry) hbulk
  | bulkCancel now ids =>
    refine hsame ((hR now).commit fun db' hok => ?_)
    obtain ⟨r, hbulk, rfl⟩ := map_ok hok
    exact (hR now).bulk (fun _ _ _ => (hR now).cancelTask) hbulk
  | renewLease now w id =>
    refine hsame ?_
    simp only [Platform.step, renewLease]
    split
    · exact .of_same rfl rfl rfl
    · split <;> exact .of_same rfl rfl rfl
  | recordSuccess now w result =>
    exact hsame ((hR now).finishStep fun held db' => (hR now).recordSuccess)
  | recordFailure now w error retryable =>
    exact hsame ((hR now).finishStep fun held db' => (hR now).recordFailure)
  | crash w => exact hsame (.of_same rfl rfl rfl)
  | requeueOrphaned now limit locked =>
    exact hsame ((hR now).commit fun _ => (hR now).requeueOrphaned)
  | requeueDue now limit locked =>
    exact hsame ((hR now).commit fun _ => (hR now).requeueDueTasks)
  | requeueDlq now limit locked =>
    exact hsame ((hR now).commit fun _ => (hR now).requeueDlqTasks)
  | recoverStuck now limit locked =>
    exact hsame ((hR now).commit fun _ => (hR now).recoverStuckTasks)
  | purgeOldData now limit =>
    have hpurge := purgeOldData_subset cfg now limit p.db
    exact iff_true_intro (.of_none hpurge.1 hpurge.2)
  | heartbeat now w =>
    refine hsame ?_
    simp only [Platform.step, heartbeat]
    split <;> exact .of_same rfl rfl rfl
  | audit now action => exact hsame (.of_same rfl rfl rfl)
  | putWebhook i sub =>
    refine iff_true_intro (.of_none ?_ ?_) <;> cases i <;> exact List.Subset.refl _
  | deleteWebhook i =>
    exact iff_true_intro (.of_none (List.Subset.refl _) (Table.erase_subset _ _))

/-- In a run the deliveries agree with the event log at every step, if and only if at every step
nobody has subscribed to the events that the step records alone. -/
theorem deliveries_agree (cfg : Settings) (acts : List Action) :
    Along (Platform.step cfg) (fun p a => Announced p.db (p.step cfg a).db) Platform.initial acts ↔
      Along (Platform.step cfg) Quiet Platform.initial acts :=
  along_congr (P := Platform.Sound) (fun _ a hp => hp.step cfg a)
    (fun _ a hp => step_announced_iff cfg hp a) Platform.initial_sound acts

/-- A creation while a subscription that `_validate_events` accepts waits for it. -/
def watchedCreation : List Action :=
  [.putWebhook none ⟨["task.created"], true⟩, .createTask 0 plainSpec]

theorem creation_unannounced :
    validateEvents ["task.created"] = .ok () ∧
      ¬ Along (Platform.step .default) (fun p a => Announced p.db (p.step .default a).db)
        Platform.initial watchedCreation := by
  decide +kernel

end TaskPlatform
