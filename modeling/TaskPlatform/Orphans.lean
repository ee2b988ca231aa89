import TaskPlatform.Touched
import TaskPlatform.Requeue

/-!
# Republishing orphaned tasks

`requeue_orphaned_queued_tasks` writes outbox rows and leaves the tasks as they
are, `updated_at` included. So nothing that a tick does keeps the next tick from
selecting the same tasks again: all ticks of an interval republish the same
first `limit` tasks, as often as there are ticks.
-/

namespace TaskPlatform

open Run

def Action.isTick : Action → Bool
  | .requeueOrphaned _ _ _ => true
  | _ => false

/-- The ids that a tick republishes. -/
def orphanIds (cfg : Settings) (now : Time) (limit : Nat) (locked : TaskId → Bool)
    (db : Database) : List TaskId :=
  (selectLocked db (isOrphaned cfg now) (·.updatedAt) limit locked).map Prod.fst

/-- The step is a tick that republishes the task. -/
def republishes (cfg : Settings) (id : TaskId) (p : Platform) : Action → Bool
  | .requeueOrphaned now limit locked => decide (id ∈ orphanIds cfg now limit locked p.db)
  | _ => false

/-- How often the ticks of a run republish the task. -/
def republished (cfg : Settings) (id : TaskId) (p : Platform) (acts : List Action) : Nat :=
  count (Platform.step cfg) (republishes cfg id) p acts

/-- All tasks that are orphaned at `t`. -/
def orphansAt (cfg : Settings) (t : Time) (db : Database) : List TaskId :=
  (db.tasks.select (fun r => isOrphaned cfg t r.2)).map Prod.fst

/-- A tick has the limit and finds the tasks unlocked. -/
def Action.TicksWith (limit : Nat) (ids : List TaskId) : Action → Prop
  | .requeueOrphaned _ n locked => n = limit ∧ ∀ id ∈ ids, locked id = false
  | _ => True

instance (limit : Nat) (ids : List TaskId) (a : Action) : Decidable (a.TicksWith limit ids) := by
  rcases a <;> unfold Action.TicksWith <;> infer_instance

/-- A part of a run inside an interval from `t` on that is shorter than `queued_reconcile_seconds`.
Nothing touches the tasks that are orphaned when the interval begins. -/
structure Interval (cfg : Settings) (t : Time) (limit : Nat) (p : Platform)
    (acts : List Action) : Prop where
  short : ∀ a ∈ acts, ∀ now ∈ a.clock, t ≤ now ∧ now < t + timedelta cfg.queuedReconcileSeconds
  ticks : ∀ a ∈ acts, a.TicksWith limit (orphansAt cfg t p.db)
  untouched : Along (Platform.step cfg)
    (fun q a => ∀ id ∈ orphansAt cfg t p.db, Untouched q.db (q.step cfg a).db id) p acts

/-- One outbox row for each selected task, and nothing else. -/
theorem foldl_addOutbox (cfg : Settings) (sel : List (TaskId × Task)) (db : Database)
    (hnodup : (sel.map Prod.fst).Nodup) (id : TaskId) :
    let db' := sel.foldl (fun db r => addOutbox cfg db r.1 r.2 true) db
    db'.tasks = db.tasks ∧ ∃ es, db'.outboxOf id = db.outboxOf id ++ es ∧
      es.length = if id ∈ sel.map Prod.fst then 1 else 0 := by
  induction sel generalizing db with
  | nil => exact ⟨rfl, [], (List.append_nil _).symm, rfl⟩
  | cons r sel ih =>
    obtain ⟨hr, hnodup⟩ := List.nodup_cons.mp hnodup
    obtain ⟨htasks, es, hes, hlength⟩ := ih (addOutbox cfg db r.1 r.2 true) hnodup
    refine ⟨htasks, ?_⟩
    by_cases hid : id = r.1
    · subst hid
      obtain ⟨e, he, -, -⟩ := outboxOf_addOutbox_self cfg db r.1 r.2 true
      refine ⟨e :: es, ?_, ?_⟩
      · rw [List.foldl_cons, hes, he, List.append_assoc]
        rfl
      · rw [List.length_cons, hlength, if_neg hr]
        simp
    · refine ⟨es, ?_, ?_⟩
      · rw [List.foldl_cons, hes, outboxOf_addOutbox_of_ne cfg db r.2 true hid]
      · have hsame : id ∈ sel.map Prod.fst ↔ id ∈ (r :: sel).map Prod.fst := by simp [hid]
        exact hlength.trans (if_congr hsame rfl rfl)

/-- A tick republishes a task with one outbox row and leaves every task as it is. -/
theorem tick_outbox (cfg : Settings) (p : Platform) (now : Time) (limit : Nat)
    (locked : TaskId → Bool) (id : TaskId) :
    let a : Action := .requeueOrphaned now limit locked
    (p.step cfg a).db.tasks = p.db.tasks ∧ ∃ es,
      (p.step cfg a).db.outboxOf id = p.db.outboxOf id ++ es ∧
        es.length = if republishes cfg id p a then 1 else 0 := by
  intro a
  obtain ⟨htasks, es, hes, hlength⟩ :=
    foldl_addOutbox cfg _ p.db (selectLocked_nodup p.db (isOrphaned cfg now) (·.updatedAt) limit
      locked) id
  refine ⟨htasks, es, hes, ?_⟩
  exact hlength.trans (if_congr decide_eq_true_iff.symm rfl rfl)

/-- The orphans are as they were when the interval began, and no other queued task is as old. -/
structure Waiting (cfg : Settings) (t : Time) (db db' : Database) : Prop where
  rows : ∀ id ∈ orphansAt cfg t db, db'.tasks.get id = db.tasks.get id
  others : ∀ id row, db'.tasks.get id = some row → row.status = .queued →
    row.updatedAt ≤ t - timedelta cfg.queuedReconcileSeconds → id ∈ orphansAt cfg t db

theorem mem_orphansAt {cfg : Settings} {t : Time} {db : Database} {id : TaskId} :
    id ∈ orphansAt cfg t db ↔ ∃ row, db.tasks.get id = some row ∧ isOrphaned cfg t row = true := by
  rw [orphansAt, List.mem_map]
  constructor
  · rintro ⟨⟨i, row⟩, hr, rfl⟩
    exact ⟨row, (db.tasks.mem_select _ i row).mp hr⟩
  · rintro ⟨row, hrow⟩
    exact ⟨(id, row), (db.tasks.mem_select _ id row).mpr hrow, rfl⟩

theorem isOrphaned_iff {cfg : Settings} {now : Time} {row : Task} :
    isOrphaned cfg now row = true ↔ row.status = .queued ∧
      row.updatedAt ≤ now - timedelta cfg.queuedReconcileSeconds ∧ leaseFree now row = true := by
  simp [isOrphaned, and_assoc]

/-- A queued row of a sound state has no lease. -/
theorem leaseFree_of_queued {now : Time} {row : Task} (hwf : row.WellFormed)
    (hq : row.status = .queued) : leaseFree now row = true := by
  have howner : row.leaseOwner = none := by simpa [hq] using hwf.leaseOwner
  simp [leaseFree, howner]

theorem Waiting.start {cfg : Settings} {t : Time} {p : Platform} (hp : p.Sound) :
    Waiting cfg t p.db p.db where
  rows := fun _ _ => rfl
  others := by
    intro id row hrow hq hold
    have hfree : leaseFree t row = true := leaseFree_of_queued (hp.row hrow).wellFormed hq
    exact mem_orphansAt.mpr ⟨row, hrow, isOrphaned_iff.mpr ⟨hq, hold, hfree⟩⟩

theorem Waiting.step {cfg : Settings} {t : Time} {db : Database} {q : Platform} {a : Action}
    (h : Waiting cfg t db q.db)
    (hshort : ∀ now ∈ a.clock, t ≤ now ∧ now < t + timedelta cfg.queuedReconcileSeconds)
    (hun : ∀ id ∈ orphansAt cfg t db, Untouched q.db (q.step cfg a).db id) :
    Waiting cfg t db (q.step cfg a).db where
  rows := by
    intro id hid
    have hsame : (q.step cfg a).db.tasks.get id = q.db.tasks.get id :=
      congrArg View.row (hun id hid).1
    rw [hsame, h.rows id hid]
  others := by
    intro id row hrow hq hold
    obtain hbefore | hnow := step_touched cfg q a hrow
    · exact h.others id row hbefore hq hold
    · have hbounds := hshort _ hnow
      linarith

section

variable {cfg : Settings} {t now : Time} {db db' : Database} (h : Waiting cfg t db db')
  (hnow : t ≤ now) {locked : TaskId → Bool}
  (hfree : ∀ id ∈ orphansAt cfg t db, locked id = false)

include h hnow hfree

/-- The orphans are still what the query of a tick finds of them. -/
theorem Waiting.filter_orphans :
    (db'.tasks.select (fun r => isOrphaned cfg now r.2 && !locked r.1)).filter
        (fun r => decide (r.1 ∈ orphansAt cfg t db)) =
      db.tasks.select (fun r => isOrphaned cfg t r.2 && !false) := by
  rw [Table.select, List.filter_filter]
  refine Table.select_eq_of_mem_iff fun id row => ?_
  simp only [Bool.and_eq_true, decide_eq_true_eq, Bool.not_false, and_true]
  constructor
  · rintro ⟨hrow, hid, -⟩
    obtain ⟨row₀, hrow₀, horphan⟩ := mem_orphansAt.mp hid
    rw [h.rows id hid, hrow₀, Option.some.injEq] at hrow
    exact ⟨hrow ▸ hrow₀, hrow ▸ horphan⟩
  · rintro ⟨hrow, horphan⟩
    have hid := mem_orphansAt.mpr ⟨row, hrow, horphan⟩
    obtain ⟨hq, hold, hlease⟩ := isOrphaned_iff.mp horphan
    have hlater : leaseFree now row = true := by
      simp only [leaseFree, Bool.or_eq_true, Option.any_eq_true, decide_eq_true_eq] at hlease ⊢
      rcases hlease with hnone | ⟨e, he, hlt⟩
      · exact .inl hnone
      · exact .inr ⟨e, he, lt_of_lt_of_le hlt hnow⟩
    have hold' : row.updatedAt ≤ now - timedelta cfg.queuedReconcileSeconds := by
      linarith
    exact ⟨(h.rows id hid).trans hrow, hid, isOrphaned_iff.mpr ⟨hq, hold', hlater⟩,
      by simp [hfree id hid]⟩

/-- Every tick of the interval republishes the same orphans. -/
theorem Waiting.mem_orphanIds (limit : Nat) {id : TaskId} (hid : id ∈ orphansAt cfg t db) :
    id ∈ orphanIds cfg now limit locked db' ↔
      id ∈ orphanIds cfg t limit (fun _ => false) db := by
  let found := db'.tasks.select (fun r => isOrphaned cfg now r.2 && !locked r.1)
  let orphan : TaskId × Task → Bool := fun r => decide (r.1 ∈ orphansAt cfg t db)
  let first := (db.tasks.select (fun r => isOrphaned cfg t r.2 && !false)).insertionSort
    (fun a b => a.2.updatedAt ≤ b.2.updatedAt)
  let later := (found.filter (fun r => !orphan r)).insertionSort
    (fun a b => a.2.updatedAt ≤ b.2.updatedAt)
  have hage : ∀ a ∈ found, ∀ b ∈ found, orphan a = true → orphan b = false →
      a.2.updatedAt < b.2.updatedAt := by
    rintro ⟨i, row⟩ ha ⟨j, row'⟩ hb hi hj
    obtain ⟨hrow, -⟩ := (db'.tasks.mem_select _ i row).mp ha
    obtain ⟨hrow', hcond⟩ := (db'.tasks.mem_select _ j row').mp hb
    obtain ⟨row₀, hrow₀, horphan⟩ := mem_orphansAt.mp (of_decide_eq_true hi)
    rw [h.rows i (of_decide_eq_true hi), hrow₀, Option.some.injEq] at hrow
    subst hrow
    have hold := (isOrphaned_iff.mp horphan).2.1
    rw [Bool.and_eq_true] at hcond
    by_contra hle
    refine of_decide_eq_false hj (h.others j row' hrow' (isOrphaned_iff.mp hcond.1).1 ?_)
    exact (not_lt.mp hle).trans hold
  have hsorted : found.insertionSort (fun a b => a.2.updatedAt ≤ b.2.updatedAt) =
      first ++ later := by
    rw [Table.insertionSort_partition (fun r : TaskId × Task => r.2.updatedAt) orphan found hage,
      h.filter_orphans hnow hfree]
  have hlater : id ∉ later.map Prod.fst := by
    intro hm
    obtain ⟨r, hr, rfl⟩ := List.mem_map.mp hm
    have hnot := (List.mem_filter.mp ((List.mem_insertionSort _).mp hr)).2
    simp [orphan, hid] at hnot
  rw [orphanIds, orphanIds, selectLocked, selectLocked, hsorted, List.take_append, List.map_append,
    List.mem_append]
  constructor
  · rintro (hm | hm)
    · exact hm
    · exact absurd (((List.take_sublist _ _).map Prod.fst).subset hm) hlater
  · exact .inl

end

/-- An orphan is republished by every tick or by none. -/
theorem Interval.republished_eq {cfg : Settings} {t : Time} {limit : Nat} {p : Platform}
    {acts : List Action} (h : Interval cfg t limit p acts) (hp : p.Sound) {id : TaskId}
    (hid : id ∈ orphansAt cfg t p.db) :
    republished cfg id p acts =
      if id ∈ orphanIds cfg t limit (fun _ => false) p.db then (acts.filter Action.isTick).length
      else 0 := by
  have hrun : ∀ (acts : List Action) (q : Platform), Waiting cfg t p.db q.db →
      (∀ a ∈ acts, ∀ now ∈ a.clock, t ≤ now ∧ now < t + timedelta cfg.queuedReconcileSeconds) →
      (∀ a ∈ acts, a.TicksWith limit (orphansAt cfg t p.db)) →
      Along (Platform.step cfg)
        (fun q a => ∀ id ∈ orphansAt cfg t p.db, Untouched q.db (q.step cfg a).db id) q acts →
      republished cfg id q acts =
        if id ∈ orphanIds cfg t limit (fun _ => false) p.db then
          (acts.filter Action.isTick).length
        else 0 := by
    intro acts
    induction acts with
    | nil =>
      intro q _ _ _ _
      simp [republished, count]
    | cons a acts ih =>
      intro q hq hshort hticks hun
      have hrest := ih (q.step cfg a) (hq.step (hshort a List.mem_cons_self) hun.1)
        (fun b hb => hshort b (List.mem_cons_of_mem _ hb))
        (fun b hb => hticks b (List.mem_cons_of_mem _ hb)) hun.2
      have hnow : republishes cfg id q a = true ↔
          a.isTick = true ∧ id ∈ orphanIds cfg t limit (fun _ => false) p.db := by
        cases a with
        | requeueOrphaned now n locked =>
          obtain ⟨rfl, hfree⟩ := hticks _ List.mem_cons_self
          have hle := (hshort _ List.mem_cons_self now rfl).1
          simp only [republishes, Action.isTick, decide_eq_true_eq, true_and]
          exact hq.mem_orphanIds hle hfree n hid
        | _ => simp [republishes, Action.isTick]
      rw [republished, count, ← republished, hrest]
      by_cases hfirst : id ∈ orphanIds cfg t limit (fun _ => false) p.db
      · cases htick : a.isTick <;> simp [hnow, hfirst, htick, Nat.add_comm]
      · simp [hnow, hfirst]
  exact hrun acts p (.start hp) h.short h.ticks h.untouched

theorem orphanIds_subset (cfg : Settings) (t : Time) (limit : Nat) (db : Database) :
    ∀ id ∈ orphanIds cfg t limit (fun _ => false) db, id ∈ orphansAt cfg t db := by
  intro id hid
  obtain ⟨r, hr, rfl⟩ := List.mem_map.mp hid
  obtain ⟨hrow, hcond, -⟩ := mem_selectLocked hr
  exact mem_orphansAt.mpr ⟨r.2, hrow, hcond⟩

theorem orphanIds_length (cfg : Settings) (t : Time) (limit : Nat) (db : Database) :
    (orphanIds cfg t limit (fun _ => false) db).length =
      min limit (orphansAt cfg t db).length := by
  simp [orphanIds, orphansAt, selectLocked]

/-- One tick republishes as many different orphans as there are, up to the limit. -/
theorem filter_orphanIds_length (cfg : Settings) (t : Time) (limit : Nat) (db : Database) :
    ((orphansAt cfg t db).filter
      (fun id => decide (id ∈ orphanIds cfg t limit (fun _ => false) db))).length =
        min (orphansAt cfg t db).length limit := by
  rw [min_comm, ← orphanIds_length]
  refine List.Perm.length_eq ((List.perm_ext_iff_of_nodup ?_ ?_).mpr fun id => ?_)
  · exact (db.tasks.select_nodup _).filter _
  · exact selectLocked_nodup _ _ _ _ _
  · rw [List.mem_filter, decide_eq_true_eq]
    exact ⟨fun h => h.2, fun h => ⟨orphanIds_subset cfg t limit db id h, h⟩⟩

/-- In an interval each orphan is republished at most once, and as many orphans as `ticks * limit`
allows are, exactly if there is at most one tick or nothing to republish. -/
theorem orphans_republished_once_iff (cfg : Settings) (before acts : List Action) (t : Time)
    (limit : Nat) (h : Interval cfg t limit (Platform.after cfg before) acts) :
    let p := Platform.after cfg before
    let orphans := orphansAt cfg t p.db
    let ticks := (acts.filter Action.isTick).length
    ((∀ id ∈ orphans, republished cfg id p acts ≤ 1) ∧
      (orphans.filter (fun id => decide (0 < republished cfg id p acts))).length =
        min orphans.length (ticks * limit)) ↔
      ticks ≤ 1 ∨ orphans = [] ∨ limit = 0 := by
  intro p orphans ticks
  have hcount : ∀ id ∈ orphans, republished cfg id p acts =
      if id ∈ orphanIds cfg t limit (fun _ => false) p.db then ticks else 0 :=
    fun id hid => h.republished_eq (Platform.after_sound cfg before) hid
  have hfilter : orphans.filter (fun id => decide (0 < republished cfg id p acts)) =
      orphans.filter (fun id =>
        decide (id ∈ orphanIds cfg t limit (fun _ => false) p.db) && decide (0 < ticks)) := by
    apply List.filter_congr
    intro id hid
    rw [hcount id hid]
    by_cases hfirst : id ∈ orphanIds cfg t limit (fun _ => false) p.db <;> simp [hfirst]
  rw [hfilter]
  constructor
  · rintro ⟨honce, -⟩
    by_contra hmany
    rw [not_or, not_or] at hmany
    -- with two ticks and something to republish, the first orphan is republished twice
    have hlength := orphanIds_length cfg t limit p.db
    have hpos : 0 < orphans.length := List.length_pos_iff.mpr hmany.2.1
    have hfirst : 0 < (orphanIds cfg t limit (fun _ => false) p.db).length := by
      rw [hlength]
      exact lt_min (Nat.pos_of_ne_zero hmany.2.2) hpos
    obtain ⟨id, hid⟩ := List.exists_mem_of_length_pos hfirst
    have horphan := orphanIds_subset cfg t limit p.db id hid
    have htwice := honce id horphan
    rw [hcount id horphan, if_pos hid] at htwice
    exact hmany.1 htwice
  · intro hfew
    constructor
    · intro id hid
      rw [hcount id hid]
      obtain hone | hnone | hzero := hfew
      · split
        · exact hone
        · exact Nat.zero_le 1
      · rw [hnone] at hid
        cases hid
      · have hempty : orphanIds cfg t limit (fun _ => false) p.db = [] := by
          apply List.eq_nil_of_length_eq_zero
          rw [orphanIds_length, hzero, Nat.zero_min]
        simp [hempty]
    · by_cases hticks : ticks = 0
      · simp [hticks]
      · have hpos : decide (0 < ticks) = true := decide_eq_true (Nat.pos_of_ne_zero hticks)
        have hone := filter_orphanIds_length cfg t limit p.db
        simp only [hpos, Bool.and_true]
        refine hone.trans ?_
        obtain hle | hnone | hzero := hfew
        · have htick : ticks = 1 := by omega
          rw [htick, Nat.one_mul]
        · rw [show orphansAt cfg t p.db = [] from hnone, hnone]
          simp
        · simp [hzero, orphans]

/-- Two tasks that wait in the queue. -/
def waitingRun : List Action := [.createTask 0 plainSpec, .createTask 1 plainSpec]

/-- One tick of a coordinator whose limit is one task. -/
def tickRun : List Action := [.requeueOrphaned 70000000 1 (fun _ => false)]

theorem tickRun_interval :
    Interval .default 70000000 1 (Platform.after .default waitingRun) tickRun :=
  ⟨by decide +kernel, by decide +kernel, by decide +kernel⟩

theorem orphans_republished_once_iff_tickRun :
    let p := Platform.after .default waitingRun
    let orphans := orphansAt .default 70000000 p.db
    (∀ id ∈ orphans, republished .default id p tickRun ≤ 1) ∧
      (orphans.filter (fun id => decide (0 < republished .default id p tickRun))).length =
        min orphans.length ((tickRun.filter Action.isTick).length * 1) :=
  (orphans_republished_once_iff .default waitingRun tickRun 70000000 1 tickRun_interval).mpr
    (.inl (by decide))

/-- The next tick, two seconds later. -/
def starvedRun : List Action := tickRun ++ [.requeueOrphaned 72000000 1 (fun _ => false)]

theorem starvedRun_interval :
    Interval .default 70000000 1 (Platform.after .default waitingRun) starvedRun :=
  ⟨by decide +kernel, by decide +kernel, by decide +kernel⟩

/-- Both ticks republish the first task, and none the second. -/
theorem starvedRun_republishes_one_twice :
    ¬ ∀ (cfg : Settings) (before acts : List Action) (t : Time) (limit : Nat),
      Interval cfg t limit (Platform.after cfg before) acts →
      let p := Platform.after cfg before
      let orphans := orphansAt cfg t p.db
      (∀ id ∈ orphans, republished cfg id p acts ≤ 1) ∧
        (orphans.filter (fun id => decide (0 < republished cfg id p acts))).length =
          min orphans.length ((acts.filter Action.isTick).length * limit) := by
  intro hclaim
  have h := (hclaim .default waitingRun starvedRun 70000000 1 starvedRun_interval).1 1
  exact absurd h (by decide +kernel)

end TaskPlatform
