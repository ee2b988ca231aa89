import TaskPlatform.Lib.Locks
import TaskPlatform.Requeue

/-!
# Several coordinators, statement by statement

Every worker process runs a coordinator. Its transactions are cut between their
statements: recovery's `UPDATE` of the workers, the `SELECT` that locks the rows
and passes over locked ones, the turns of the loop, and the commit. What a turn
writes is invisible until the commit and is written there, on rows that nobody
else could write in between. All other transactions run between these statements
and wait for the rows that a coordinator has locked.
-/

namespace TaskPlatform

open Run Locks

/-- The first statement of `recover_stuck_tasks` finds these workers. -/
def deadWorkers (cfg : Settings) (now : Time) (db : Database) : List Nat :=
  let cutoff := now - timedelta cfg.workerHeartbeatTimeoutSeconds
  (db.workers.select (fun r => decide (r.2.lastHeartbeatAt < cutoff) && r.2.alive)).map Prod.fst

def markWorkers (dead : List Nat) (db : Database) : Database :=
  let mark := fun (t : Table Worker) k => t.modify k (fun w => { w with alive := false })
  { db with workers := dead.foldl mark db.workers }

inductive Stage where
  | begun
  | looping (rest : List (TaskId × Task)) (turned : List Turned)
  deriving DecidableEq

/-- A coordinator in one of its transactions. -/
structure Coordinator where
  loop : Loop
  now : Time
  dead : List Nat
  progress : Stage
  deriving DecidableEq

def Coordinator.turned (t : Coordinator) : List Turned :=
  match t.progress with
  | .begun => []
  | .looping _ turned => turned

/-- The rows that the transaction has selected and locked. -/
def Coordinator.rows (t : Coordinator) : List (TaskId × Task) :=
  match t.progress with
  | .begun => []
  | .looping rest turned => turned.map (·.row) ++ rest

def Coordinator.keys (t : Coordinator) : List TaskId := t.rows.map Prod.fst

structure Fleet where
  platform : Platform
  sessions : Sessions WorkerId Coordinator

def Fleet.initial : Fleet := ⟨Platform.initial, []⟩

inductive FleetAction where
  | run (a : Action)
  | begin (workerId : WorkerId) (loop : Loop) (now : Time)
  | select (workerId : WorkerId) (limit : Nat)
  | turn (workerId : WorkerId)
  | commit (workerId : WorkerId)
  | abort (workerId : WorkerId)

/-- The transactions that are cut into statements here. -/
def Action.isLoop : Action → Bool
  | .requeueDue _ _ _ | .requeueDlq _ _ _ | .recoverStuck _ _ _ => true
  | _ => false

/-- A transaction that leads to `db'` writes no row that a coordinator has locked. An event cannot
be inserted either, since its foreign key needs the row; an attempt that is there can be updated. -/
def Fleet.Passes (s : Fleet) (db' : Database) : Prop :=
  ∀ x ∈ s.sessions,
    (∀ id ∈ x.2.keys, db'.tasks.get id = s.platform.db.tasks.get id ∧
      db'.eventsOf id = s.platform.db.eventsOf id) ∧
    ∀ k ∈ x.2.dead, db'.workers.get k = s.platform.db.workers.get k

instance (s : Fleet) (db' : Database) : Decidable (s.Passes db') := by
  unfold Fleet.Passes; infer_instance

/-- Another transaction as a whole; it waits for locked rows. -/
def Fleet.runStep (cfg : Settings) (s : Fleet) (a : Action) : Fleet :=
  if a.isLoop = false ∧ s.Passes (s.platform.step cfg a).db then
    { s with platform := s.platform.step cfg a }
  else s

/-- The clock is read, and recovery marks the dead workers; for this it waits while another
coordinator has marked one of them. -/
def Fleet.begin (cfg : Settings) (s : Fleet) (w : WorkerId) (loop : Loop) (now : Time) : Fleet :=
  let dead := if loop = .stuck then deadWorkers cfg now s.platform.db else []
  if find s.sessions w = none ∧ (loop = .dlq → cfg.dlqRetryEnabled = true) ∧
      ∀ k ∈ dead, ∀ x ∈ s.sessions, k ∉ x.2.dead then
    { s with sessions := (w, ⟨loop, now, dead, .begun⟩) :: s.sessions }
  else s

/-- `SELECT ... FOR UPDATE SKIP LOCKED` -/
def Fleet.select (cfg : Settings) (s : Fleet) (w : WorkerId) (limit : Nat) : Fleet :=
  match find s.sessions w with
  | some ⟨loop, now, dead, .begun⟩ =>
    let rows := selectLocked s.platform.db (loop.cond cfg now) loop.key limit
      (locked Coordinator.keys s.sessions)
    { s with sessions := advance s.sessions w ⟨loop, now, dead, .looping rows []⟩ }
  | _ => s

/-- What a turn reads. -/
def Loop.turned (loop : Loop) (db : Database) (r : TaskId × Task) : Turned :=
  ⟨r, if loop = .stuck then lastRunningAttempt db r.1 else none⟩

def Fleet.turn (s : Fleet) (w : WorkerId) : Fleet :=
  match find s.sessions w with
  | some ⟨loop, now, dead, .looping (r :: rest) turned⟩ =>
    let turned := turned ++ [loop.turned s.platform.db r]
    { s with sessions := advance s.sessions w ⟨loop, now, dead, .looping rest turned⟩ }
  | _ => s

def Fleet.commit (cfg : Settings) (s : Fleet) (w : WorkerId) : Fleet :=
  match find s.sessions w with
  | some ⟨loop, now, dead, .looping [] turned⟩ =>
    let body := turned.foldlM (loop.write cfg now) (markWorkers dead s.platform.db)
    ⟨{ s.platform with db := TaskPlatform.commit s.platform.db body }, release s.sessions w⟩
  | _ => s

def Fleet.step (cfg : Settings) (s : Fleet) : FleetAction → Fleet
  | .run a => s.runStep cfg a
  | .begin w loop now => s.begin cfg w loop now
  | .select w limit => s.select cfg w limit
  | .turn w => s.turn w
  | .commit w => s.commit cfg w
  | .abort w => { s with sessions := release s.sessions w }

def Fleet.after (cfg : Settings) (acts : List FleetAction) : Fleet :=
  run (Fleet.step cfg) Fleet.initial acts

/-- What the transaction selected under a key, and under which condition. -/
def Coordinator.Seen (cfg : Settings) (t : Coordinator) (k : TaskId) (v : Option Task) : Prop :=
  ∀ r ∈ t.rows, r.1 = k → v = some r.2 ∧ t.loop.cond cfg t.now r.2 = true

structure Coordinator.Ok (t : Coordinator) : Prop where
  nodup : t.keys.Nodup
  opened : ∀ x ∈ t.turned, ∀ a ∈ x.attempt, a.2.status = .running

structure Fleet.Inv (cfg : Settings) (s : Fleet) : Prop where
  sound : s.platform.Sound
  kept : Kept Coordinator.keys (Coordinator.Seen cfg) s.platform.db.tasks.get s.sessions
  ok : ∀ x ∈ s.sessions, x.2.Ok

theorem Fleet.initial_inv (cfg : Settings) : Fleet.initial.Inv cfg where
  sound := Platform.initial_sound
  kept := .nil _ _ _
  ok := by intro x hx; cases hx

theorem Coordinator.mem_keys {t : Coordinator} {r : TaskId × Task} (hr : r ∈ t.rows) :
    r.1 ∈ t.keys := List.mem_map_of_mem hr

theorem Fleet.Inv.run {cfg : Settings} {s : Fleet} (h : s.Inv cfg) (a : Action) :
    (s.runStep cfg a).Inv cfg := by
  unfold Fleet.runStep
  split
  · rename_i hpass
    refine ⟨h.sound.step cfg a, h.kept.write fun k hk => ?_, h.ok⟩
    obtain ⟨x, hx, hkx⟩ := List.any_eq_true.mp hk
    exact ((hpass.2 x hx).1 k (of_decide_eq_true hkx)).1
  · exact h

theorem Fleet.Inv.begin {cfg : Settings} {s : Fleet} (h : s.Inv cfg) (w : WorkerId) (loop : Loop)
    (now : Time) : (s.begin cfg w loop now).Inv cfg := by
  rw [Fleet.begin]
  generalize (if loop = .stuck then deadWorkers cfg now s.platform.db else []) = dead
  by_cases hopen : find s.sessions w = none ∧ (loop = .dlq → cfg.dlqRetryEnabled = true) ∧
      ∀ k ∈ dead, ∀ x ∈ s.sessions, k ∉ x.2.dead
  · rw [if_pos hopen]
    have hkeys : (⟨loop, now, dead, .begun⟩ : Coordinator).keys = [] := rfl
    refine ⟨h.sound, h.kept.begin hopen.1 hkeys, fun x hx => ?_⟩
    rcases List.mem_cons.mp hx with rfl | hx
    · exact ⟨List.nodup_nil, by intro x hx; cases hx⟩
    · exact h.ok x hx
  · rw [if_neg hopen]
    exact h

theorem Fleet.Inv.select {cfg : Settings} {s : Fleet} (h : s.Inv cfg) (w : WorkerId)
    (limit : Nat) : (s.select cfg w limit).Inv cfg := by
  unfold Fleet.select
  split
  · rename_i loop now dead hfind
    let rows := selectLocked s.platform.db (loop.cond cfg now) loop.key limit
      (locked Coordinator.keys s.sessions)
    have hrows : (⟨loop, now, dead, .looping rows []⟩ : Coordinator).rows = rows := rfl
    refine ⟨h.sound, h.kept.advance hfind (fun k hk => ?_) (fun k hk r hr he => ?_), ?_⟩
    · obtain ⟨r, hr, rfl⟩ := List.mem_map.mp hk
      exact .inr (mem_selectLocked hr).2.2
    · subst he
      exact ⟨(mem_selectLocked hr).1, (mem_selectLocked hr).2.1⟩
    · intro x hx
      obtain rfl | ⟨hx, -⟩ := mem_advance hx
      · exact ⟨selectLocked_nodup _ _ _ _ _, by intro x hx; cases hx⟩
      · exact h.ok x hx
  · exact h

theorem Loop.turned_opened (loop : Loop) (db : Database) (r : TaskId × Task) :
    ∀ a ∈ (loop.turned db r).attempt, a.2.status = .running := by
  intro a ha
  simp only [turned, Option.mem_def] at ha
  split at ha
  · exact (lastRunning_mem ha).2
  · cases ha

theorem Fleet.Inv.turn {cfg : Settings} {s : Fleet} (h : s.Inv cfg) (w : WorkerId) :
    (s.turn w).Inv cfg := by
  unfold Fleet.turn
  split
  · rename_i loop now dead r rest turned hfind
    let t : Coordinator := ⟨loop, now, dead, .looping (r :: rest) turned⟩
    let t' : Coordinator :=
      ⟨loop, now, dead, .looping rest (turned ++ [loop.turned s.platform.db r])⟩
    have hrows : t'.rows = t.rows := by
      simp [t, t', Coordinator.rows, Loop.turned]
    have hkeys : t'.keys = t.keys := by rw [Coordinator.keys, hrows]; rfl
    have hmem : (w, t) ∈ s.sessions := mem_of_find hfind
    refine ⟨h.sound, h.kept.advance hfind (fun k hk => .inl (hkeys ▸ hk)) (fun k hk => ?_), ?_⟩
    · intro r hr he
      exact h.kept.seen _ hmem k (hkeys ▸ hk) r (hrows ▸ hr) he
    · intro x hx
      obtain rfl | ⟨hx, -⟩ := mem_advance hx
      · refine ⟨hkeys ▸ (h.ok _ hmem).nodup, fun x hx => ?_⟩
        rcases List.mem_append.mp hx with hx | hx
        · exact (h.ok _ hmem).opened x hx
        · rw [List.mem_singleton] at hx
          rw [hx]
          exact loop.turned_opened _ r
      · exact h.ok x hx
  · exact h

/-- A commit succeeds, finds every row as it was selected and requeues its task once. -/
theorem Fleet.Inv.committed {cfg : Settings} {s : Fleet} (h : s.Inv cfg) {w : WorkerId}
    {loop : Loop} {now : Time} {dead : List Nat} {turned : List Turned}
    (hfind : find s.sessions w = some ⟨loop, now, dead, .looping [] turned⟩) :
    ∃ db', s.commit cfg w = ⟨⟨db', s.platform.holding⟩, release s.sessions w⟩ ∧
      (∀ t ∈ turned, s.platform.db.tasks.get t.row.1 = some t.row.2 ∧
        loop.cond cfg now t.row.2 = true ∧ Requeued t.row.1 t.row.2 loop.cycles
          (s.platform.db.entry t.row.1) (db'.entry t.row.1)) ∧
      (∀ i, i ∉ turned.map (·.row.1) → db'.entry i = s.platform.db.entry i) ∧
      Platform.Sound ⟨db', s.platform.holding⟩ := by
  let t : Coordinator := ⟨loop, now, dead, .looping [] turned⟩
  have hmem : (w, t) ∈ s.sessions := mem_of_find hfind
  have hrows : t.rows = turned.map (·.row) := List.append_nil _
  have hkeys : t.keys = turned.map (·.row.1) := by
    rw [Coordinator.keys, hrows, List.map_map]
    rfl
  have hseen : ∀ x ∈ turned, s.platform.db.tasks.get x.row.1 = some x.row.2 ∧
      loop.cond cfg now x.row.2 = true := by
    intro x hx
    have hr : x.row ∈ t.rows := by
      rw [hrows]
      exact List.mem_map_of_mem hx
    exact h.kept.seen _ hmem _ (Coordinator.mem_keys hr) x.row hr rfl
  have hfound : ∀ x ∈ turned,
      (markWorkers dead s.platform.db).tasks.get x.row.1 = some x.row.2 :=
    fun x hx => (hseen x hx).1
  have hmarked : Platform.Sound ⟨markWorkers dead s.platform.db, s.platform.holding⟩ :=
    ⟨h.sound.foreignKeys, h.sound.views, h.sound.held⟩
  obtain ⟨db', hfold, hall, hframe, hsound⟩ := fold_turns
    (fun x hx => loop.turn cfg now (hseen x hx).2 ((h.ok _ hmem).opened x hx) s.platform.holding)
    (hkeys ▸ (h.ok _ hmem).nodup) hfound hmarked
  refine ⟨db', ?_, fun x hx => ⟨(hseen x hx).1, (hseen x hx).2, hall x hx⟩, hframe, hsound⟩
  simp only [Fleet.commit, hfind, hfold, TaskPlatform.commit]

theorem Fleet.Inv.commit {cfg : Settings} {s : Fleet} (h : s.Inv cfg) (w : WorkerId) :
    (s.commit cfg w).Inv cfg := by
  cases hfind : find s.sessions w with
  | none => simpa only [Fleet.commit, hfind] using h
  | some t =>
    obtain ⟨loop, now, dead, progress⟩ := t
    match progress with
    | .begun => simpa only [Fleet.commit, hfind] using h
    | .looping (r :: rest) turned => simpa only [Fleet.commit, hfind] using h
    | .looping [] turned =>
      obtain ⟨db', hcommit, -, hframe, hsound⟩ := h.committed hfind
      rw [hcommit]
      refine ⟨hsound, h.kept.commit hfind (fun k hk => ?_), fun x hx =>
        h.ok x (List.mem_filter.mp hx).1⟩
      have hk' : k ∉ turned.map (·.row.1) := by
        intro hm
        apply hk
        simpa [Coordinator.keys, Coordinator.rows] using hm
      exact congrArg Entry.row (hframe k hk')

theorem Fleet.Inv.step {cfg : Settings} {s : Fleet} (h : s.Inv cfg) (a : FleetAction) :
    (s.step cfg a).Inv cfg := by
  cases a with
  | run a => exact h.run a
  | begin w loop now => exact h.begin w loop now
  | select w limit => exact h.select w limit
  | turn w => exact h.turn w
  | commit w => exact h.commit w
  | abort w =>
    exact ⟨h.sound, h.kept.release w, fun x hx => h.ok x (List.mem_filter.mp hx).1⟩

theorem Fleet.after_inv (cfg : Settings) (acts : List FleetAction) :
    (Fleet.after cfg acts).Inv cfg :=
  run_invariant (fun _ a h => h.step a) (Fleet.initial_inv cfg) acts

/-- The whole transaction. -/
def Loop.action (now : Time) (limit : Nat) : Loop → Action
  | .due => .requeueDue now limit (fun _ => false)
  | .dlq => .requeueDlq now limit (fun _ => false)
  | .stuck => .recoverStuck now limit (fun _ => false)

theorem find_single (w : WorkerId) (t : Coordinator) : find [(w, t)] w = some t := by
  simp [find]

theorem advance_single (w : WorkerId) (t t' : Coordinator) :
    advance [(w, t)] w t' = [(w, t')] := by
  simp [advance]

theorem run_turns (cfg : Settings) (p : Platform) (w : WorkerId) (loop : Loop) (now : Time)
    (dead : List Nat) (rest : List (TaskId × Task)) (turned : List Turned) :
    run (Fleet.step cfg) ⟨p, [(w, ⟨loop, now, dead, .looping rest turned⟩)]⟩
        (List.replicate rest.length (.turn w)) =
      ⟨p, [(w, ⟨loop, now, dead, .looping [] (turned ++ rest.map (loop.turned p.db))⟩)]⟩ := by
  induction rest generalizing turned with
  | nil => simp
  | cons r rest ih =>
    rw [List.length_cons, List.replicate_succ, run_cons]
    have hturn : Fleet.step cfg ⟨p, [(w, ⟨loop, now, dead, .looping (r :: rest) turned⟩)]⟩
        (.turn w) =
          ⟨p, [(w, ⟨loop, now, dead, .looping rest (turned ++ [loop.turned p.db r])⟩)]⟩ := by
      simp only [Fleet.step, Fleet.turn, find_single, advance_single]
    rw [hturn, ih]
    simp

theorem markWorkers_deadWorkers (cfg : Settings) (now : Time) (db : Database) :
    markWorkers (deadWorkers cfg now db) db = markDeadWorkers cfg now db := by
  simp only [markWorkers, deadWorkers, markDeadWorkers, List.foldl_map]

/-- Attempts that were read before the loop are the ones that each turn would read. -/
theorem foldlM_recoverStuckFrom (cfg : Settings) (now : Time) {seen db : Database}
    {sel : List (TaskId × Task)} (hnodup : (sel.map Prod.fst).Nodup)
    (hrows : ∀ r ∈ sel, db.tasks.get r.1 = some r.2 ∧ r.2.status = .running ∧
      db.attemptsOf r.1 = seen.attemptsOf r.1) :
    sel.foldlM (fun db r => recoverStuckFrom cfg now (lastRunningAttempt seen r.1) db r) db =
      sel.foldlM (recoverStuck cfg now) db := by
  induction sel generalizing db with
  | nil => rw [List.foldlM_nil, List.foldlM_nil]
  | cons r sel ih =>
    obtain ⟨hr, hnodup⟩ := List.nodup_cons.mp hnodup
    obtain ⟨hrow, hrun, hattempts⟩ := hrows r List.mem_cons_self
    have hsame : lastRunningAttempt seen r.1 = lastRunningAttempt db r.1 := by
      rw [lastRunningAttempt, lastRunningAttempt, hattempts]
    have hok := recoverStuckFrom_eq cfg now (lastRunningAttempt db r.1) hrow hrun
    rw [List.foldlM_cons, List.foldlM_cons, hsame, ← recoverStuckFrom_lastRunning, hok]
    refine ih hnodup fun x hx => ?_
    obtain ⟨hxrow, hxrun, hxattempts⟩ := hrows x (List.mem_cons_of_mem _ hx)
    have hne : x.1 ≠ r.1 := fun he => hr (he ▸ List.mem_map_of_mem hx)
    have hview := view_move_of_ne now (closeLastAttempt now db r.1) r.2 .queued .requeued
      (some (.leaseExpired r.2.leaseOwner
        ((lastRunningAttempt db r.1).map (·.2.attemptNumber)))) hne
    rw [view_closeLastAttempt_of_ne now db hne, ← closeAttempt_lastRunning] at hview
    exact ⟨(congrArg View.row hview).trans hxrow, hxrun,
      (congrArg View.attempts hview).trans hxattempts⟩

/-- From the first statement on. -/
theorem run_begun (cfg : Settings) (p : Platform) (w : WorkerId) (loop : Loop) (now : Time)
    (dead : List Nat) (limit : Nat) :
    let rows := selectLocked p.db (loop.cond cfg now) loop.key limit (fun _ => false)
    run (Fleet.step cfg) ⟨p, [(w, ⟨loop, now, dead, .begun⟩)]⟩ (.select w limit ::
      (List.replicate rows.length (.turn w) ++ [.commit w])) =
        ⟨{ p with db := commit p.db (rows.foldlM (fun db r =>
          loop.write cfg now db (loop.turned p.db r)) (markWorkers dead p.db)) }, []⟩ := by
  intro rows
  have hselect : Fleet.step cfg ⟨p, [(w, ⟨loop, now, dead, .begun⟩)]⟩ (.select w limit) =
      ⟨p, [(w, ⟨loop, now, dead, .looping rows []⟩)]⟩ := by
    simp only [Fleet.step, Fleet.select, find_single, advance_single]
    rfl
  have hrelease : ∀ t : Coordinator, release [(w, t)] w = [] := by
    intro t
    simp [release]
  rw [run_cons, hselect, run_append, run_turns]
  simp only [run_cons, run_nil, List.nil_append, Fleet.step, Fleet.commit, find_single, hrelease,
    List.foldlM_map]

/-- The statements of one coordinator with nothing in between are the transaction of the source. -/
theorem Fleet.uninterrupted (cfg : Settings) {p : Platform} (hp : p.Sound) (w : WorkerId)
    (loop : Loop) (now : Time) (limit : Nat) (henabled : loop = .dlq → cfg.dlqRetryEnabled = true) :
    let rows := selectLocked p.db (loop.cond cfg now) loop.key limit (fun _ => false)
    run (Fleet.step cfg) ⟨p, []⟩ (.begin w loop now :: .select w limit ::
      (List.replicate rows.length (.turn w) ++ [.commit w])) =
        ⟨p.step cfg (loop.action now limit), []⟩ := by
  intro rows
  let dead := if loop = .stuck then deadWorkers cfg now p.db else []
  have hbegin : Fleet.step cfg ⟨p, []⟩ (.begin w loop now) =
      ⟨p, [(w, ⟨loop, now, dead, .begun⟩)]⟩ := by
    simp only [Fleet.step, Fleet.begin]
    exact if_pos ⟨rfl, henabled, fun _ _ _ hx => nomatch hx⟩
  rw [run_cons, hbegin, run_begun]
  cases loop with
  | due => rfl
  | dlq =>
    simp only [Platform.step, Loop.action, requeueDlqTasks, henabled rfl, if_true]
    rfl
  | stuck =>
    have hrows : ∀ r ∈ rows, (markDeadWorkers cfg now p.db).tasks.get r.1 = some r.2 ∧
        r.2.status = .running ∧
          (markDeadWorkers cfg now p.db).attemptsOf r.1 = p.db.attemptsOf r.1 := by
      intro r hr
      obtain ⟨hrow, hstuck, -⟩ := mem_selectLocked hr
      exact ⟨hrow, running_of_stuck (hp.row hrow).wellFormed hstuck, rfl⟩
    have hfold := foldlM_recoverStuckFrom cfg now (selectLocked_nodup _ _ _ _ _) hrows
    simp only [dead, if_true, markWorkers_deadWorkers, Platform.step, Loop.action,
      recoverStuckTasks]
    exact congrArg (fun body =>
      (⟨{ p with db := TaskPlatform.commit p.db body }, []⟩ : Fleet)) hfold

/-- The task is in a period that the loop ends. -/
def Fleet.inPeriod (loop : Loop) (id : TaskId) (s : Fleet) : Bool :=
  (s.platform.db.tasks.get id).any (fun row => decide (row.status ∈ loop.statuses))

/-- The step begins a new period of the task. -/
def Fleet.entersPeriod (cfg : Settings) (loop : Loop) (id : TaskId) (s : Fleet)
    (a : FleetAction) : Bool :=
  !s.inPeriod loop id && (s.step cfg a).inPeriod loop id

/-- The step is the commit of a coordinator that requeues the task in this loop. -/
def Fleet.takes (loop : Loop) (id : TaskId) (s : Fleet) : FleetAction → Bool
  | .commit w =>
    match find s.sessions w with
    | some ⟨loop', _, _, .looping [] turned⟩ =>
      loop' == loop && decide (id ∈ turned.map (·.row.1))
    | _ => false
  | _ => false

theorem Fleet.committed_of_takes {loop : Loop} {id : TaskId} {s : Fleet} {a : FleetAction}
    (h : s.takes loop id a = true) :
    ∃ w now dead turned, a = .commit w ∧
      find s.sessions w = some ⟨loop, now, dead, .looping [] turned⟩ ∧
        ∃ t ∈ turned, t.row.1 = id := by
  cases a with
  | commit w =>
    rw [takes] at h
    split at h
    · rename_i loop' now dead turned hfind
      rw [Bool.and_eq_true, beq_iff_eq, decide_eq_true_eq, List.mem_map] at h
      obtain ⟨rfl, t, ht, hid⟩ := h
      exact ⟨w, now, dead, turned, rfl, hfind, t, ht, hid⟩
    · cases h
  | _ => cases h

/-- The commit finds the task in the period and leaves it outside. -/
theorem Fleet.Inv.ends {cfg : Settings} {s : Fleet} (h : s.Inv cfg) {loop : Loop} {id : TaskId}
    {a : FleetAction} (htakes : s.takes loop id a = true) :
    s.inPeriod loop id = true ∧ (s.step cfg a).inPeriod loop id = false := by
  obtain ⟨w, now, dead, turned, rfl, hfind, t, ht, rfl⟩ := Fleet.committed_of_takes htakes
  obtain ⟨db', hcommit, hall, -, -⟩ := h.committed hfind
  obtain ⟨hrow, hcond, hrequeued⟩ := hall t ht
  obtain ⟨row', hrow', hqueued, -⟩ := hrequeued.queued
  have hstep : (s.step cfg (.commit w)).platform.db = db' :=
    congrArg (fun s : Fleet => s.platform.db) hcommit
  have hmem : t.row.2.status ∈ loop.statuses :=
    Loop.status_mem (h.sound.row hrow).wellFormed hcond
  have hleft : Status.queued ∉ loop.statuses := by cases loop <;> decide
  constructor
  · simp [Fleet.inPeriod, hrow, hmem]
  · rw [Fleet.inPeriod, hstep, show db'.tasks.get t.row.1 = some row' from hrow']
    simp [hqueued, hleft]

/-- What a step of the fleet does for the selected rows. A commit finds every row as it was when it
was selected, still in its period, and requeues its task with one event and one outbox row; no other
statement of a coordinator writes a task. -/
def Fleet.EndsOnce (cfg : Settings) (s : Fleet) : FleetAction → Prop
  | .run _ => True
  | .commit w => ∀ loop now dead turned,
      find s.sessions w = some ⟨loop, now, dead, .looping [] turned⟩ →
        let db := s.platform.db
        let db' := (s.step cfg (.commit w)).platform.db
        (∀ t ∈ turned, db.tasks.get t.row.1 = some t.row.2 ∧
          loop.cond cfg now t.row.2 = true ∧ t.row.2.status ∈ loop.statuses ∧
          Requeued t.row.1 t.row.2 loop.cycles (db.entry t.row.1) (db'.entry t.row.1)) ∧
        ∀ i, i ∉ turned.map (·.row.1) → db'.entry i = db.entry i
  | a => (s.step cfg a).platform = s.platform

theorem Fleet.Inv.endsOnce {cfg : Settings} {s : Fleet} (h : s.Inv cfg) (a : FleetAction) :
    s.EndsOnce cfg a := by
  cases a with
  | run a => trivial
  | begin w loop now =>
    simp only [Fleet.EndsOnce, Fleet.step, Fleet.begin]
    split <;> split <;> rfl
  | select w limit =>
    simp only [Fleet.EndsOnce, Fleet.step, Fleet.select]
    split <;> rfl
  | turn w =>
    simp only [Fleet.EndsOnce, Fleet.step, Fleet.turn]
    split <;> rfl
  | abort w => rfl
  | commit w =>
    intro loop now dead turned hfind
    obtain ⟨db', hcommit, hall, hframe, -⟩ := h.committed hfind
    have hstep : (s.step cfg (.commit w)).platform.db = db' :=
      congrArg (fun s : Fleet => s.platform.db) hcommit
    rw [hstep]
    refine ⟨fun t ht => ?_, hframe⟩
    obtain ⟨hrow, hcond, hrequeued⟩ := hall t ht
    exact ⟨hrow, hcond, Loop.status_mem (h.sound.row hrow).wellFormed hcond, hrequeued⟩

/-- However the coordinators' statements and all other transactions interleave, every commit
requeues its rows once, and from any state on each loop's commits for a task are no more than the
periods in which the task was or which it entered. -/
theorem coordinators_requeue_once (cfg : Settings) :
    (∀ acts, Along (Fleet.step cfg) (Fleet.EndsOnce cfg) Fleet.initial acts) ∧
    ∀ before acts loop id,
      count (Fleet.step cfg) (Fleet.takes loop id) (Fleet.after cfg before) acts ≤
        count (Fleet.step cfg) (Fleet.entersPeriod cfg loop id) (Fleet.after cfg before) acts +
          ((Fleet.after cfg before).inPeriod loop id).toNat := by
  constructor
  · intro acts
    rw [along_iff]
    intro before a rest _
    exact (Fleet.after_inv cfg before).endsOnce a
  · intro before acts loop id
    exact count_le_of_flag (fun _ a h => h.step a) (fun s a h htakes => h.ends htakes)
      (Fleet.after_inv cfg before) acts

end TaskPlatform
