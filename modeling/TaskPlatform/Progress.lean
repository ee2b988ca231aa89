import TaskPlatform.Lib.Reach
import TaskPlatform.Orphans
import TaskPlatform.Outbox
import TaskPlatform.Results
import TaskPlatform.Rollbacks

/-!
# A released task can still succeed

Whatever has happened to a task that is queued, running or put off, the platform
can still bring it to success by its own steps: a tick of the coordinator puts it
into the queue, a relay publishes its message, and a worker takes it.
-/

namespace TaskPlatform

open Run

/-- The steps of the platform itself at the time `n`, with the limits of the source and without a
failure: ticks of the coordinator, relays, and workers that execute a task. -/
def Event.Service (n : Time) : Event → Prop
  | .act (.requeueDue now limit _) | .act (.requeueDlq now limit _) => now = n ∧ limit = 200
  | .act (.recoverStuck now limit _) => now = n ∧ limit = 50
  | .relayRead _ limit => limit = 200
  | .relayPublish _ o => o = .sent n
  | .start now _ => now = n
  | .finish now _ execution => now = n ∧ ∃ result, execution = .success result
  | .relayCommit _ | .deliver _ _ | .ack _ => True
  | _ => False

/-- The action of the platform that an event makes. -/
def Event.Makes : Event → Action → Prop
  | .act a, a' => a' = a
  | .start now w, a' => ∃ id, a' = .start now w id
  | .finish now w execution, a' => a' = execution.action now w
  | .crash w, a' => a' = .crash w
  | _, _ => False

namespace Bus

section

variable {cfg : Settings} {n : Time} {b : Bus} {r : RelayId} {w : WorkerId} {id : TaskId}

theorem step_handling (cfg : Settings) (b : Bus) (e : Event) :
    ∃ w, ∀ w', w' ≠ w → (b.step cfg e).handling w' = b.handling w' := by
  have hset : ∀ (b : Bus) w handling w', w' ≠ w →
      (b.setHandling w handling).handling w' = b.handling w' := by
    intro b w handling w' hw
    rw [setHandling_handling, if_neg hw]
  cases e with
  | act a => exact ⟨"", fun w' _ => by simp only [Bus.step]; split <;> rfl⟩
  | relayRead r limit =>
    exact ⟨"", fun w' _ => by
      simp only [Bus.step, Bus.relayRead]
      split
      · rfl
      · split <;> rfl⟩
  | relayPublish r o =>
    exact ⟨"", fun w' _ => by simp only [Bus.step, Bus.relayPublish]; split <;> rfl⟩
  | relayCommit r => exact ⟨"", fun w' _ => by simp only [Bus.step, Bus.relayCommit]; split <;> rfl⟩
  | relayCrash r => exact ⟨"", fun w' _ => rfl⟩
  | deliver w message =>
    exact ⟨w, fun w' hw => by
      simp only [Bus.step, Bus.deliver]
      split
      · exact hset b w _ w' hw
      · rfl⟩
  | start now w =>
    exact ⟨w, fun w' hw => by
      simp only [Bus.step, Bus.start]
      split
      · split
        · rfl
        · exact hset b w _ w' hw
        · exact hset b w _ w' hw
      · rfl⟩
  | finish now w execution =>
    exact ⟨w, fun w' hw => by
      simp only [Bus.step, Bus.finish]
      split
      · exact hset b w _ w' hw
      · rfl⟩
  | ack w =>
    exact ⟨w, fun w' hw => by
      simp only [Bus.step, Bus.ack]
      split
      · exact hset b w _ w' hw
      · exact hset b w _ w' hw
      · rfl⟩
  | crash w => exact ⟨w, fun w' hw => hset b w _ w' hw⟩

theorem step_relays (cfg : Settings) (b : Bus) (e : Event) :
    ∃ r, ∀ r', r' ≠ r → (b.step cfg e).relays r' = b.relays r' := by
  have hset : ∀ (b : Bus) r relay r', r' ≠ r → (b.setRelay r relay).relays r' = b.relays r' := by
    intro b r relay r' hr
    rw [setRelay_relays, if_neg hr]
  cases e with
  | act a => exact ⟨0, fun r' _ => by simp only [Bus.step]; split <;> rfl⟩
  | relayRead r limit =>
    exact ⟨r, fun r' hr => by
      simp only [Bus.step, Bus.relayRead]
      split
      · rfl
      · split
        · rfl
        · exact hset b r _ r' hr⟩
  | relayPublish r o =>
    exact ⟨r, fun r' hr => by
      simp only [Bus.step, Bus.relayPublish]
      split
      · exact hset b r _ r' hr
      · rfl⟩
  | relayCommit r =>
    exact ⟨r, fun r' hr => by
      simp only [Bus.step, Bus.relayCommit]
      split
      · exact hset b r _ r' hr
      · rfl⟩
  | relayCrash r => exact ⟨r, fun r' hr => hset b r none r' hr⟩
  | deliver w message => exact ⟨0, fun r' _ => by simp only [Bus.step, Bus.deliver]; split <;> rfl⟩
  | start now w =>
    exact ⟨0, fun r' _ => by
      simp only [Bus.step, Bus.start]
      split
      · split <;> rfl
      · rfl⟩
  | finish now w execution =>
    exact ⟨0, fun r' _ => by simp only [Bus.step, Bus.finish]; split <;> rfl⟩
  | ack w => exact ⟨0, fun r' _ => by simp only [Bus.step, Bus.ack]; split <;> rfl⟩
  | crash w => exact ⟨0, fun r' _ => rfl⟩

/-- A step that changes a function at one place keeps it empty almost everywhere. -/
theorem finite_step {κ ι : Type} {f g : κ → Option ι} (h : ∃ k, ∀ k', k' ≠ k → g k' = f k')
    (hf : {k | f k ≠ none}.Finite) : {k | g k ≠ none}.Finite := by
  obtain ⟨k, hk⟩ := h
  refine (hf.insert k).subset fun k' hk' => ?_
  by_cases he : k' = k
  · exact .inl he
  · refine .inr ?_
    show f k' ≠ none
    rw [← hk k' he]
    exact hk'

/-- What is known of every state that the bus reaches. -/
structure Lawful (b : Bus) : Prop where
  inv : b.Inv
  idle : b.Idle
  fencing : b.platform.Fencing
  reported : b.platform.Reported
  handling : {w | b.handling w ≠ none}.Finite
  relays : {r | b.relays r ≠ none}.Finite

/-- A step of the bus is one of the platform, or a relay's commit, which writes only outbox rows. -/
theorem step_platform (hinv : b.Inv) (cfg : Settings) (e : Event) :
    (b.step cfg e).platform = b.platform ∨
      (∃ a, e.Makes a ∧ (b.step cfg e).platform = b.platform.step cfg a) ∨
      ∃ t, (b.step cfg e).platform =
        { b.platform with db := { b.platform.db with outbox := t } } := by
  cases e with
  | act a =>
    simp only [Bus.step]
    split
    · exact .inl rfl
    · exact .inr (.inl ⟨a, rfl, rfl⟩)
  | relayRead r limit =>
    simp only [Bus.step, Bus.relayRead]
    split
    · exact .inl rfl
    · split <;> exact .inl rfl
  | relayPublish r o =>
    simp only [Bus.step, Bus.relayPublish]
    split <;> exact .inl rfl
  | relayCommit r =>
    simp only [Bus.step, Bus.relayCommit]
    split
    · rename_i done hr
      have hrelay := hinv.relay r _ hr
      cases hflush : flushRelay b.platform.db done with
      | error e => exact .inl rfl
      | ok db' =>
        obtain ⟨t, rfl, -⟩ := flushRelay_ok hinv.outbox
          (fun k loaded o hk => (hrelay.done k loaded o hk).pending)
          (fun k loaded now hk => ⟨hrelay.sent k loaded now hk, r, _, hr, loaded, now, hk⟩) hflush
        exact .inr (.inr ⟨t, rfl⟩)
    · exact .inl rfl
  | relayCrash r => exact .inl rfl
  | deliver w message =>
    simp only [Bus.step, Bus.deliver]
    split <;> exact .inl rfl
  | start now w =>
    simp only [Bus.step, Bus.start]
    split
    · rename_i message id hh
      split
      · exact .inl rfl
      · exact .inl rfl
      · exact .inr (.inl ⟨.start now w id, ⟨id, rfl⟩, rfl⟩)
    · exact .inl rfl
  | finish now w execution =>
    simp only [Bus.step, Bus.finish]
    split
    · exact .inr (.inl ⟨_, rfl, rfl⟩)
    · exact .inl rfl
  | ack w =>
    simp only [Bus.step, Bus.ack]
    split <;> exact .inl rfl
  | crash w => exact .inr (.inl ⟨.crash w, rfl, rfl⟩)

theorem Lawful.step {b : Bus} (h : b.Lawful) (cfg : Settings) (e : Event) :
    (b.step cfg e).Lawful := by
  have hboth : (b.step cfg e).platform.Fencing ∧ (b.step cfg e).platform.Reported := by
    obtain hsame | ⟨a, -, ha⟩ | ⟨t, ht⟩ := step_platform h.inv cfg e
    · rw [hsame]
      exact ⟨h.fencing, h.reported⟩
    · rw [ha]
      exact ⟨h.fencing.step cfg a, h.reported.step h.fencing cfg a⟩
    · rw [ht]
      have hsound := h.fencing.sound
      exact ⟨⟨⟨hsound.foreignKeys, hsound.views, hsound.held⟩, h.fencing.linked,
        h.fencing.distinct⟩, ⟨h.reported.blank, h.reported.fresh, h.reported.backed⟩⟩
  exact ⟨h.inv.step h.idle cfg e, h.idle.step cfg e, hboth.1, hboth.2,
    finite_step (step_handling cfg b e) h.handling, finite_step (step_relays cfg b e) h.relays⟩

theorem after_lawful (cfg : Settings) (events : List Event) : (Bus.after cfg events).Lawful :=
  run_invariant (P := Lawful) (fun _ e hb => hb.step cfg e)
    ⟨initial_inv, initial_idle, Platform.initial_fencing, Platform.initial_reported,
      by simp [Bus.initial], by simp [Bus.initial]⟩ events

/-- The worker and the relay have nothing to do. -/
structure Free (w : WorkerId) (r : RelayId) (b : Bus) : Prop where
  worker : b.handling w = none
  relay : b.relays r = none

/-- There is always a worker and a relay, if only a new one, that does nothing yet. -/
theorem Lawful.free (h : b.Lawful) : ∃ w r, b.Free w r := by
  obtain ⟨w, hw⟩ := h.handling.exists_notMem
  obtain ⟨r, hr⟩ := h.relays.exists_notMem
  exact ⟨w, r, not_not.mp hw, not_not.mp hr⟩

def Queued (id : TaskId) (b : Bus) : Prop :=
  ∃ row, b.platform.db.tasks.get id = some row ∧ row.status = .queued

def pending (b : Bus) : List (Nat × OutboxEvent) :=
  b.platform.db.outbox.select (fun e => e.2.status == .pending)

/-- A relay publishes all that it has read. -/
theorem publish_all {events : List (Nat × OutboxEvent)}
    {done : List (Nat × OutboxEvent × PublishOutcome)} (hr : b.relays r = some ⟨events, done⟩) :
    CanReach (Bus.step cfg) (Event.Service n) b fun t =>
      t.platform = b.platform ∧ t.handling = b.handling ∧
        t.relays r = some ⟨[], done ++ events.map (fun e => (e.1, e.2, .sent n))⟩ := by
  induction events generalizing b done with
  | nil => exact .here ⟨rfl, rfl, by simpa using hr⟩
  | cons e events ih =>
    have hstep : b.step cfg (.relayPublish r (.sent n)) =
        b.publishNext r (.sent n) e.1 e.2 events done := by
      simp only [Bus.step, Bus.relayPublish, hr]
      rfl
    have hnext : (b.publishNext r (.sent n) e.1 e.2 events done).relays r =
        some ⟨events, done ++ [(e.1, e.2, .sent n)]⟩ := by
      show (b.setRelay r _).relays r = _
      rw [setRelay_relays, if_pos rfl]
    refine .next (show Event.Service n (.relayPublish r (.sent n)) from rfl) ?_
    rw [hstep]
    refine (ih hnext).mono fun t ht => ⟨ht.1, ht.2.1, ?_⟩
    simpa using ht.2.2

/-- The flush of a relay whose events were all sent succeeds, and leaves no row of them pending. -/
theorem flushRelay_sent {db : Database} {events : List (Nat × OutboxEvent)}
    (h : ∀ e ∈ events, (db.outbox.get e.1).isSome ∧ e.2.status = .pending) :
    ∃ t, flushRelay db (events.map (fun e => (e.1, e.2, .sent n))) = .ok { db with outbox := t } ∧
      t.select (fun e => e.2.status == .pending) =
        (db.outbox.select (fun e => e.2.status == .pending)).filter
          (fun e => decide (e.1 ∉ events.map Prod.fst)) := by
  induction events generalizing db with
  | nil => exact ⟨db.outbox, rfl, by simp⟩
  | cons e events ih =>
    obtain ⟨hsome, hpending⟩ := h e List.mem_cons_self
    let f : OutboxEvent → OutboxEvent := OutboxEvent.merge e.2 (PublishOutcome.apply e.2 (.sent n))
    let db₁ : Database := { db with outbox := db.outbox.modify e.1 f }
    have hflush : flushOutbox db e.1 e.2 (PublishOutcome.apply e.2 (.sent n)) = .ok db₁ := by
      obtain ⟨row, hrow⟩ := Option.isSome_iff_exists.mp hsome
      simp only [flushOutbox, hrow]
      rfl
    have hrest : ∀ e' ∈ events, (db₁.outbox.get e'.1).isSome ∧ e'.2.status = .pending := by
      intro e' he'
      obtain ⟨hsome', hpending'⟩ := h e' (List.mem_cons_of_mem _ he')
      refine ⟨?_, hpending'⟩
      show ((db.outbox.modify e.1 f).get e'.1).isSome
      rw [Table.get_modify]
      split
      · simpa using hsome'
      · exact hsome'
    obtain ⟨t, hok, hselect⟩ := ih hrest
    refine ⟨t, ?_, ?_⟩
    · rw [List.map_cons, flushRelay, List.foldlM_cons, hflush]
      exact hok
    · have hmodify : db₁.outbox.select (fun e => e.2.status == .pending) =
          (db.outbox.select (fun e => e.2.status == .pending)).filter
            (fun r => decide (r.1 ≠ e.1)) := by
        refine Table.select_modify_of_false db.outbox e.1 f _ fun row => ?_
        have hsent : (f row).status = .sent := merge_sent hpending n row
        simp [hsent]
      rw [hselect, hmodify, List.filter_filter]
      refine List.filter_congr fun x _ => ?_
      rw [← Bool.decide_and, decide_eq_decide, List.map_cons, List.mem_cons, not_or]
      exact and_comm

/-- A relay reads, publishes and commits: less is pending, and the tasks are as they were. -/
theorem relay_round (hfree : b.Free w r) (hpending : b.pending ≠ []) :
    CanReach (Bus.step cfg) (Event.Service n) b fun t =>
      t.Free w r ∧ t.platform.db.tasks = b.platform.db.tasks ∧
        t.pending.length < b.pending.length := by
  let events := b.pending.take 200
  obtain ⟨e, rest, hevents⟩ : ∃ e rest, events = e :: rest :=
    List.exists_cons_of_ne_nil (by simpa [events] using hpending)
  have hread : b.step cfg (.relayRead r 200) = b.setRelay r (some ⟨events, []⟩) := by
    have htake : (b.platform.db.outbox.select (fun e => e.2.status == .pending)).take 200 =
        e :: rest := hevents
    simp only [Bus.step, Bus.relayRead, hfree.relay, htake, hevents]
  have hmem : ∀ e ∈ events, (b.platform.db.outbox.get e.1).isSome ∧ e.2.status = .pending := by
    intro e he
    obtain ⟨hget, hs⟩ := (Table.mem_select _ _ _ _).mp (List.mem_of_mem_take he)
    exact ⟨by rw [hget]; rfl, beq_iff_eq.mp hs⟩
  obtain ⟨t', hflush, hleft⟩ := flushRelay_sent (n := n) hmem
  have hrelay : (b.setRelay r (some ⟨events, []⟩)).relays r = some ⟨events, []⟩ := by
    rw [setRelay_relays, if_pos rfl]
  refine .next (show Event.Service n (.relayRead r 200) from rfl) ?_
  rw [hread]
  refine (publish_all hrelay).trans fun t ht => ?_
  obtain ⟨hplatform, hhandling, hdone⟩ := ht
  have hsame : t.platform = b.platform := hplatform
  have hcommit : t.step cfg (.relayCommit r) = { t.setRelay r none with
      platform := { b.platform with db := { b.platform.db with outbox := t' } } } := by
    simp only [Bus.step, Bus.relayCommit, hdone, List.nil_append, hsame, hflush, commit]
  refine .next (show Event.Service n (.relayCommit r) from trivial) (.here ?_)
  rw [hcommit]
  refine ⟨⟨?_, ?_⟩, rfl, ?_⟩
  · exact (congrFun hhandling w).trans hfree.worker
  · exact (setRelay_relays t r r none).trans (if_pos rfl)
  · show (t'.select (fun e => e.2.status == .pending)).length < _
    rw [hleft]
    have he : e ∈ events := by rw [hevents]; exact List.mem_cons_self
    have hgone : ¬ decide (e.1 ∉ events.map Prod.fst) = true := by
      simpa using ⟨e.2, he⟩
    exact List.length_filter_lt_length_iff_exists.mpr ⟨e, List.mem_of_mem_take he, hgone⟩

/-- Relays publish until the task has a message that nobody used. -/
theorem relay_live (h : b.Lawful) (hfree : b.Free w r) (hq : b.Queued id) :
    CanReach (Bus.step cfg) (Event.Service n) b fun t =>
      t.Lawful ∧ t.Free w r ∧ t.Queued id ∧ t.Live id := by
  refine CanReach.of_measure (P := fun b => b.Lawful ∧ b.Free w r ∧ b.Queued id)
    (fun b => b.pending.length) ?_ ⟨h, hfree, hq⟩
  rintro b ⟨h, hfree, row, hrow, hs⟩
  by_cases hpending : b.pending = []
  · refine .inl ⟨h, hfree, ⟨row, hrow, hs⟩, ?_⟩
    obtain ⟨k, e, he, hp, -⟩ | hlive := h.inv.outbox.supported id row hrow hs
    · have hmem : (k, e) ∈ b.pending := (Table.mem_select _ _ _ _).mpr ⟨he, beq_iff_eq.mpr hp⟩
      rw [hpending] at hmem
      cases hmem
    · exact hlive
  · refine .inr (((relay_round hfree hpending).keep (fun t e ht => ht.step cfg e) h).mono ?_)
    rintro t ⟨⟨hfree', htasks, hless⟩, h'⟩
    exact ⟨⟨h', hfree', row, by rw [htasks]; exact hrow, hs⟩, hless⟩

/-- The task succeeded with this result. -/
def SucceededWith (id : TaskId) (result : Json) (b : Bus) : Prop :=
  ∃ row, b.platform.db.tasks.get id = some row ∧ row.status = .success ∧ row.result = some result

/-- A worker that holds nothing starts a queued task and reports its success. -/
theorem execute (cfg : Settings) (n : Time) {p : Platform} (hf : p.Fencing) (hr : p.Reported)
    (hnone : p.holding w = none) {row : Task} (hrow : p.db.tasks.get id = some row)
    (hq : row.status = .queued) (result : Json) :
    (∃ started, startTask cfg n p.db w id = .ok (some started)) ∧
      ∃ row', ((p.step cfg (.start n w id)).step cfg (.recordSuccess n w result)).db.tasks.get id =
        some row' ∧ row'.status = .success ∧ row'.result = some result := by
  let p₁ := p.step cfg (.start n w id)
  have hfree : leaseFree n row = true := leaseFree_of_queued (hf.sound.row hrow).wellFormed hq
  obtain ⟨db₁, held, hok⟩ := startTask_queued cfg n w hrow hq hfree
  have hheld : p₁.holding w = some held := by
    simp [p₁, Platform.step, startStep, hnone, hok, Platform.setHolding]
  have hstarts : starts cfg id p (.start n w id) = true := by
    simp [starts, hnone, show (p.step cfg (.start n w id)).holding w = some held from hheld]
  obtain ⟨-, row₁, hrow₁, hrun⟩ := row_of_starts hstarts
  have hf₁ : p₁.Fencing := hf.step cfg _
  have hr₁ : p₁.Reported := hr.step hf cfg _
  obtain rfl : held.task.id = id := by
    obtain hold | ⟨now, i, row, seen, ha, -, -, -, -, rfl, -⟩ := step_holding hheld
    · rw [hnone] at hold
      cases hold
    · cases ha
      rfl
  have hv := hf₁.sound.held w held hheld
  obtain ⟨att, hatt, -⟩ := (hf₁.linked w held hheld).2.2.attempt row₁ hrow₁
  have hsome : (p₁.db.attempts.get held.attemptId).isSome := by
    rw [((p₁.db.attempts.mem_select _ _ _).mp hatt).1]
    rfl
  obtain ⟨db₂, hok₂⟩ : ∃ db₂, recordSuccess cfg n p₁.db held result = .ok db₂ :=
    recordSuccess_total result hv hsome hrow₁ hrun
  obtain ⟨row₂, hrow₂, hs, hresult, -⟩ :=
    recordSuccess_result hv (hr₁.fresh w held hheld) hrow₁ hrun hok₂
  refine ⟨⟨_, hok⟩, row₂, ?_, hs, hresult⟩
  show (p₁.step cfg (.recordSuccess n w result)).db.tasks.get held.task.id = some row₂
  simp only [Platform.step, finishStep_db, hheld, hok₂]
  exact hrow₂

theorem work (h : b.Lawful) (hfree : b.Free w r) (hq : b.Queued id) (hlive : b.Live id)
    (result : Json) : CanReach (Bus.step cfg) (Event.Service n) b (SucceededWith id result) := by
  obtain ⟨m, payload, hm, rfl, -⟩ := hlive
  obtain ⟨row, hrow, hs⟩ := hq
  have hnone : b.platform.holding w = none :=
    h.idle.holding fun handling hh => by rw [hfree.worker] at hh; cases hh
  obtain ⟨⟨started, hstart⟩, hdone⟩ := execute cfg n h.fencing h.reported hnone hrow hs result
  let b₁ := b.setHandling w (some ⟨m, payload.taskId, .received⟩)
  have hdeliver : b.step cfg (.deliver w m) = b₁ := by
    simp only [Bus.step, Bus.deliver, hfree.worker, hm]
    rfl
  have hreceived : b₁.handling w = some ⟨m, payload.taskId, .received⟩ :=
    (setHandling_handling b w w _).trans (if_pos rfl)
  let b₂ : Bus := { b₁.setHandling w (some ⟨m, payload.taskId, .working⟩) with
    platform := b.platform.step cfg (.start n w payload.taskId) }
  have hstarted : b₁.step cfg (.start n w) = b₂ := by
    simp only [Bus.step, Bus.start, hreceived]
    rw [show startTask cfg n b₁.platform.db w payload.taskId = .ok (some started) from hstart]
    rfl
  have hworking : b₂.handling w = some ⟨m, payload.taskId, .working⟩ :=
    (setHandling_handling b₁ w w _).trans (if_pos rfl)
  have hfinished : (b₂.step cfg (.finish n w (.success result))).platform =
      (b.platform.step cfg (.start n w payload.taskId)).step cfg (.recordSuccess n w result) := by
    simp only [Bus.step, Bus.finish, hworking]
    rfl
  refine .next (show Event.Service n (.deliver w m) from trivial) ?_
  rw [hdeliver]
  refine .next (show Event.Service n (.start n w) from rfl) ?_
  rw [hstarted]
  refine .next (show Event.Service n (.finish n w (.success result)) from ⟨rfl, result, rfl⟩) ?_
  refine .here ?_
  rw [SucceededWith, hfinished]
  exact hdone

/-- A queued task is published, taken by a worker and succeeds. -/
theorem queued_can_succeed (h : b.Lawful) (hfree : b.Free w r) (hq : b.Queued id) (result : Json) :
    CanReach (Bus.step cfg) (Event.Service n) b (SucceededWith id result) := by
  refine (relay_live h hfree hq).trans fun t ht => ?_
  obtain ⟨h', hfree', hq', hlive⟩ := ht
  exact work h' hfree' hq' hlive result

end

end Bus

/-- The limit of the function's query. -/
def Loop.limit : Loop → Nat
  | .due => 200
  | .dlq => 200
  | .stuck => 50

/-- A tick of the coordinator that finds no row locked. -/
def Loop.tick (n : Time) (loop : Loop) : Action :=
  match loop with
  | .due => .requeueDue n loop.limit (fun _ => false)
  | .dlq => .requeueDlq n loop.limit (fun _ => false)
  | .stuck => .recoverStuck n loop.limit (fun _ => false)

/-- The rows that the function's query would select without its limit. -/
def Loop.matching (cfg : Settings) (n : Time) (loop : Loop) (db : Database) : Set TaskId :=
  {i | ∃ row, db.tasks.get i = some row ∧ loop.cond cfg n row = true}

/-- The rows that the function's query selects. -/
def Loop.selected (cfg : Settings) (n : Time) (loop : Loop) (db : Database) :
    List (TaskId × Task) :=
  selectLocked db (loop.cond cfg n) loop.key loop.limit (fun _ => false)

section

variable {cfg : Settings} {n : Time} {loop : Loop} {p : Platform} {db : Database} {id : TaskId}

theorem Loop.limit_pos (loop : Loop) : 0 < loop.limit := by
  cases loop <;> decide

theorem Loop.tick_service (n : Time) (loop : Loop) : Event.Service n (.act (loop.tick n)) := by
  cases loop <;> exact ⟨rfl, rfl⟩

theorem Loop.tick_ticked (hdlq : loop = .dlq → cfg.dlqRetryEnabled = true) (h : p.Sound) :
    Ticked (loop.selected cfg n p.db) loop.cycles p.holding p.db (p.step cfg (loop.tick n)).db := by
  have hcommit : ∀ {body : Except TaskError Database}, (p.step cfg (loop.tick n)).db =
      commit p.db body → (∃ db', body = .ok db' ∧
        Ticked (loop.selected cfg n p.db) loop.cycles p.holding p.db db') →
      Ticked (loop.selected cfg n p.db) loop.cycles p.holding p.db
        (p.step cfg (loop.tick n)).db := by
    rintro _ hstep ⟨db', rfl, hticked⟩
    rw [hstep]
    exact hticked
  cases loop with
  | due => exact hcommit rfl (requeueDueTasks_ticked h)
  | dlq => exact hcommit rfl (requeueDlqTasks_ticked (hdlq rfl) h)
  | stuck => exact hcommit rfl (recoverStuckTasks_ticked h)

theorem Loop.selected_ne_nil (h : id ∈ loop.matching cfg n db) : loop.selected cfg n db ≠ [] := by
  obtain ⟨row, hrow, hcond⟩ := h
  have hmem : (id, row) ∈ db.tasks.select (fun r => loop.cond cfg n r.2 && !false) :=
    (Table.mem_select _ _ _ _).mpr ⟨hrow, by simpa using hcond⟩
  rw [← List.mem_insertionSort (fun a b => loop.key a.2 ≤ loop.key b.2)] at hmem
  rw [Loop.selected, selectLocked, Ne, List.take_eq_nil_iff, not_or]
  exact ⟨Nat.ne_of_gt loop.limit_pos, List.ne_nil_of_mem hmem⟩

theorem Loop.matching_finite (cfg : Settings) (n : Time) (loop : Loop) (db : Database) :
    (loop.matching cfg n db).Finite := by
  refine (Set.finite_Iio db.tasks.next).subset ?_
  rintro i ⟨row, hrow, -⟩
  exact Table.get_lt hrow

/-- A tick that finds rows leaves fewer of them. -/
theorem Loop.tick_matching (hdlq : loop = .dlq → cfg.dlqRetryEnabled = true) (h : p.Sound)
    (hid : id ∈ loop.matching cfg n p.db) :
    (loop.matching cfg n (p.step cfg (loop.tick n)).db).ncard <
      (loop.matching cfg n p.db).ncard := by
  have hticked := loop.tick_ticked (n := n) hdlq h
  have hsound' : (p.step cfg (loop.tick n)).Sound := h.step cfg _
  have hqueued : ∀ r ∈ loop.selected cfg n p.db,
      r.1 ∉ loop.matching cfg n (p.step cfg (loop.tick n)).db := by
    rintro r hr ⟨row, hrow, hcond⟩
    obtain ⟨row', hrow', hq, -⟩ := (hticked.requeued r hr).queued
    rw [show (p.step cfg (loop.tick n)).db.tasks.get r.1 = some row' from hrow'] at hrow
    cases hrow
    have hs := Loop.status_mem (hsound'.row hrow').wellFormed hcond
    rw [hq] at hs
    cases loop <;> exact absurd hs (by decide)
  refine Set.ncard_lt_ncard ⟨?_, ?_⟩ (loop.matching_finite cfg n p.db)
  · rintro i ⟨row, hrow, hcond⟩
    by_cases hi : i ∈ (loop.selected cfg n p.db).map Prod.fst
    · obtain ⟨r, hr, rfl⟩ := List.mem_map.mp hi
      exact absurd ⟨row, hrow, hcond⟩ (hqueued r hr)
    · have hsame : (p.step cfg (loop.tick n)).db.tasks.get i = p.db.tasks.get i :=
        congrArg Entry.row (hticked.others i hi)
      exact ⟨row, hsame.symm.trans hrow, hcond⟩
  · obtain ⟨r, rest, hsel⟩ := List.exists_cons_of_ne_nil (Loop.selected_ne_nil hid)
    have hr : r ∈ loop.selected cfg n p.db := by rw [hsel]; exact List.mem_cons_self
    obtain ⟨hrow, hcond, -⟩ := mem_selectLocked hr
    exact fun hsub => hqueued r hr (hsub ⟨r.2, hrow, hcond⟩)

/-- A row that a tick finds is put into the queue, or found again. -/
theorem Loop.tick_row (hdlq : loop = .dlq → cfg.dlqRetryEnabled = true) (h : p.Sound)
    (hid : id ∈ loop.matching cfg n p.db) :
    (∃ row, (p.step cfg (loop.tick n)).db.tasks.get id = some row ∧ row.status = .queued) ∨
      id ∈ loop.matching cfg n (p.step cfg (loop.tick n)).db := by
  have hticked := loop.tick_ticked (n := n) hdlq h
  obtain ⟨row, hrow, hcond⟩ := hid
  by_cases hi : id ∈ (loop.selected cfg n p.db).map Prod.fst
  · obtain ⟨r, hr, rfl⟩ := List.mem_map.mp hi
    obtain ⟨row', hrow', hq, -⟩ := (hticked.requeued r hr).queued
    exact .inl ⟨row', hrow', hq⟩
  · have hsame : (p.step cfg (loop.tick n)).db.tasks.get id = p.db.tasks.get id :=
      congrArg Entry.row (hticked.others id hi)
    exact .inr ⟨row, hsame.trans hrow, hcond⟩

end

namespace Bus

section

variable {cfg : Settings} {n : Time} {loop : Loop} {b : Bus} {r : RelayId} {w : WorkerId}
  {id : TaskId}

theorem step_tick (cfg : Settings) (n : Time) (loop : Loop) (b : Bus) :
    b.step cfg (.act (loop.tick n)) =
      { b with platform := b.platform.step cfg (loop.tick n) } := by
  cases loop <;> rfl

/-- Ticks of the coordinator put the task into the queue. -/
theorem tick_queued (hdlq : loop = .dlq → cfg.dlqRetryEnabled = true) (h : b.Lawful)
    (hfree : b.Free w r) (hid : id ∈ loop.matching cfg n b.platform.db) :
    CanReach (Bus.step cfg) (Event.Service n) b fun t => t.Lawful ∧ t.Free w r ∧ t.Queued id := by
  refine CanReach.of_measure
    (P := fun b => b.Lawful ∧ b.Free w r ∧
      (b.Queued id ∨ id ∈ loop.matching cfg n b.platform.db))
    (fun b => (loop.matching cfg n b.platform.db).ncard) ?_ ⟨h, hfree, .inr hid⟩
  rintro b ⟨h, hfree, hq | hid⟩
  · exact .inl ⟨h, hfree, hq⟩
  · have hsound := h.fencing.sound
    refine .inr (.next (loop.tick_service n) (.here ⟨⟨h.step cfg _, ?_, ?_⟩, ?_⟩))
    · rw [step_tick]
      exact ⟨hfree.worker, hfree.relay⟩
    · rw [step_tick]
      exact loop.tick_row hdlq hsound hid
    · rw [step_tick]
      exact loop.tick_matching hdlq hsound hid

end

end Bus

/-- The task is queued, running or put off, or a dead letter with a cycle left. -/
def Task.Resumable (cfg : Settings) (row : Task) : Prop :=
  row.status ∈ [.queued, .running, .scheduled, .retryScheduled] ∨
    row.status = .deadLetter ∧ cfg.dlqRetryEnabled = true ∧ row.dlqRetryAt ≠ none ∧
      row.dlqRequeueCount < cfg.dlqRetryMaxCycles

/-- From some time on a loop of the coordinator finds the row, unless it is queued already. -/
theorem Task.Resumable.loop {cfg : Settings} {row : Task} (h : row.Resumable cfg)
    (hwf : row.WellFormed) (hq : row.status ≠ .queued) :
    ∃ (loop : Loop) (t : Time), (loop = .dlq → cfg.dlqRetryEnabled = true) ∧
      ∀ n ≥ t, loop.cond cfg n row = true := by
  have hrecoverable := hwf.recoverable cfg
  obtain hs | ⟨hs, henabled, hretry, hcount⟩ := h
  · simp only [List.mem_cons, List.not_mem_nil, or_false] at hs
    rcases hs with hs | hs | hs | hs
    · exact absurd hs hq
    · obtain ⟨t, ht⟩ := hrecoverable.running hs
      exact ⟨.stuck, t, by simp, ht⟩
    · obtain ⟨t, ht⟩ := hrecoverable.due (by rw [hs]; decide)
      exact ⟨.due, t, by simp, ht⟩
    · obtain ⟨t, ht⟩ := hrecoverable.due (by rw [hs]; decide)
      exact ⟨.due, t, by simp, ht⟩
  · obtain ⟨t, ht⟩ := Option.ne_none_iff_exists'.mp hretry
    refine ⟨.dlq, t, fun _ => henabled, fun n hn => ?_⟩
    simp [Loop.cond, isDlqDue, hs, ht, hn, hcount]

/-- From every lawful state a resumable task can be brought to success. -/
theorem Bus.Lawful.can_succeed {cfg : Settings} {b : Bus} (h : b.Lawful) {id : TaskId} {row : Task}
    (hrow : b.platform.db.tasks.get id = some row) (hres : row.Resumable cfg) (result : Json)
    (c : Time) :
    ∃ n, c ≤ n ∧ CanReach (Bus.step cfg) (Event.Service n) b (Bus.SucceededWith id result) := by
  obtain ⟨w, r, hfree⟩ := h.free
  by_cases hq : row.status = .queued
  · exact ⟨c, le_refl c, Bus.queued_can_succeed h hfree ⟨row, hrow, hq⟩ result⟩
  · obtain ⟨loop, t, hdlq, hcond⟩ := hres.loop (h.fencing.sound.row hrow).wellFormed hq
    refine ⟨max c t, le_max_left c t, ?_⟩
    have hid : id ∈ loop.matching cfg (max c t) b.platform.db :=
      ⟨row, hrow, hcond _ (le_max_right c t)⟩
    refine (Bus.tick_queued hdlq h hfree hid).trans fun b hb => ?_
    obtain ⟨h', hfree', hq'⟩ := hb
    exact Bus.queued_can_succeed h' hfree' hq' result

/-- Whatever workers, relays, operators and coordinators have done so far, a task that is queued,
running or put off can still succeed, with any result and from any time on, by steps of the
platform itself alone. -/
theorem resumable_can_succeed (cfg : Settings) (events : List Event) (id : TaskId) {row : Task}
    (hrow : (Bus.after cfg events).platform.db.tasks.get id = some row) (h : row.Resumable cfg)
    (result : Json) (c : Time) :
    ∃ n, c ≤ n ∧ Run.CanReach (Bus.step cfg) (Event.Service n) (Bus.after cfg events)
      (Bus.SucceededWith id result) :=
  (Bus.after_lawful cfg events).can_succeed hrow h result c

/-- The relay crashes before it commits, and the worker in the middle of the task. -/
def crashedRun : List Event :=
  [.act (.createTask 0 plainSpec), .relayRead 0 200, .relayPublish 0 (.sent 1), .relayCrash 0,
    .deliver "w1" 1, .start 2 "w1", .crash "w1"]

theorem resumable_can_succeed_crashedRun :
    ∃ n, 3 ≤ n ∧ Run.CanReach (Bus.step .default) (Event.Service n)
      (Bus.after .default crashedRun) (Bus.SucceededWith 1 "{}") := by
  obtain ⟨row, hrow⟩ := Option.isSome_iff_exists.mp (by decide +kernel :
    ((Bus.after .default crashedRun).platform.db.tasks.get 1).isSome = true)
  have hs : ((Bus.after .default crashedRun).platform.db.tasks.get 1).map (·.status) =
      some .running := by decide +kernel
  rw [hrow, Option.map_some, Option.some.injEq] at hs
  exact resumable_can_succeed .default crashedRun 1 hrow (.inl (by rw [hs]; decide)) "{}" 3

end TaskPlatform
