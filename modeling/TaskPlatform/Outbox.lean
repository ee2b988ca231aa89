import TaskPlatform.Delivery
import TaskPlatform.Execution

/-!
# No queued task loses its message

A task that waits in the queue is supported: by a pending outbox row that no relay
has published without committing it, or by a message that no worker has used
yet. Publishing replaces a row by a message, and a worker uses a message up only
in a transaction after which the task is not queued: a lease is denied to tasks
that are not queued, because a queued task of a sound state has no lease.
-/

namespace TaskPlatform

open Run

/-- A row of the outbox is added as pending and deleted only after it was processed. -/
inductive OutboxStep : Table OutboxEvent → Table OutboxEvent → Prop where
  | same (t : Table OutboxEvent) : OutboxStep t t
  | insert (t : Table OutboxEvent) {e : OutboxEvent} : e.status = .pending →
      e.processedAt = none → OutboxStep t (t.insert e)
  | erase {t : Table OutboxEvent} (ids : List Nat) :
      (∀ k ∈ ids, ∃ e, t.get k = some e ∧ e.processedAt ≠ none) →
      OutboxStep t (t.erase (fun r => decide (r.1 ∈ ids)))

theorem Change.outbox {cfg : Settings} {db db' : Database} {l : Label}
    (h : Change cfg db l db') : OutboxStep db.outbox db'.outbox := by
  cases h with
  | enqueue => exact .insert _ rfl rfl
  | @recover now id row details hrow hs hexpired =>
    have hclose : (closeLastAttempt now db id).outbox = db.outbox := by
      unfold closeLastAttempt
      split <;> rfl
    rw [← hclose]
    exact .insert _ rfl rfl
  | release => exact .insert _ rfl rfl
  | republish => exact .insert _ rfl rfl
  | deleteOutbox ids hids => exact .erase ids hids
  | _ => exact .same _

/-- Pending rows were not processed. -/
def Unprocessed (t : Table OutboxEvent) : Prop :=
  ∀ k e, t.get k = some e → e.status = .pending → e.processedAt = none

/-- Every row was published, or is there and pending. -/
def Accounted (t : Table OutboxEvent) (published : List Nat) : Prop :=
  ∀ k, 1 ≤ k → k < t.next → k ∈ published ∨ ∃ e, t.get k = some e ∧ e.status = .pending

theorem OutboxStep.next_le {t t' : Table OutboxEvent} (h : OutboxStep t t') :
    t.next ≤ t'.next := by
  cases h with
  | same => exact le_refl _
  | insert => exact Nat.le_succ _
  | erase => exact le_refl _

/-- The old rows that are still there are what they were. -/
theorem OutboxStep.get_old {t t' : Table OutboxEvent} (h : OutboxStep t t') {k : Nat}
    {e : OutboxEvent} (hk : k < t.next) (he : t'.get k = some e) : t.get k = some e := by
  cases h with
  | same => exact he
  | insert => rwa [Table.get_insert, if_neg (Nat.ne_of_lt hk)] at he
  | erase ids hids =>
    rw [Table.get_erase, Option.filter_eq_some_iff] at he
    exact he.1

/-- A pending row stays. -/
theorem OutboxStep.get_pending {t t' : Table OutboxEvent} (h : OutboxStep t t')
    (hclean : Unprocessed t) {k : Nat} {e : OutboxEvent} (he : t.get k = some e)
    (hs : e.status = .pending) : t'.get k = some e := by
  cases h with
  | same => exact he
  | insert => exact Table.get_insert_of_some _ he
  | erase ids hids =>
    rw [Table.get_erase, he, Option.filter_eq_some_iff]
    refine ⟨rfl, ?_⟩
    simp only [Bool.not_eq_true', decide_eq_false_iff_not]
    intro hk
    obtain ⟨e', he', hp⟩ := hids k hk
    rw [he] at he'
    cases he'
    exact hp (hclean k e he hs)

theorem OutboxStep.unprocessed {t t' : Table OutboxEvent} (h : OutboxStep t t')
    (hclean : Unprocessed t) : Unprocessed t' := by
  intro k e he hs
  cases h with
  | same => exact hclean k e he hs
  | insert hpending hnone =>
    rw [Table.get_insert] at he
    split at he
    · cases he
      exact hnone
    · exact hclean k e he hs
  | erase ids hids =>
    rw [Table.get_erase, Option.filter_eq_some_iff] at he
    exact hclean k e he.1 hs

theorem OutboxStep.accounted {t t' : Table OutboxEvent} (h : OutboxStep t t')
    (hclean : Unprocessed t) {published : List Nat} (ha : Accounted t published) :
    Accounted t' published := by
  intro k hk hlt
  by_cases hold : k < t.next
  · obtain hp | ⟨e, he, hs⟩ := ha k hk hold
    · exact .inl hp
    · exact .inr ⟨e, h.get_pending hclean he hs, hs⟩
  · cases h with
    | same => exact absurd hlt hold
    | @insert e hpending hnone =>
      have hnext : k = t.next := by
        rw [Table.next_insert] at hlt
        omega
      exact .inr ⟨e, by rw [hnext, Table.get_insert_next], hpending⟩
    | erase ids hids => exact absurd hlt hold

theorem get_of_setTask {db : Database} {id i : TaskId} {row row' : Task}
    (h : (db.setTask id row).tasks.get i = some row') :
    (i = id ∧ row' = row) ∨ db.tasks.get i = some row' := by
  rw [get_setTask] at h
  split at h
  · rename_i hi
    obtain ⟨_, -, rfl⟩ := Option.map_eq_some_iff.mp h
    exact .inl ⟨hi, rfl⟩
  · exact .inr h

/-- A task that is queued after a change was queued before it, or the change wrote a row for it. -/
theorem Change.queued {cfg : Settings} {db db' : Database} {l : Label} (h : Change cfg db l db')
    {id : TaskId} {row' : Task} (hrow' : db'.tasks.get id = some row')
    (hq : row'.status = .queued) :
    (∃ row, db.tasks.get id = some row ∧ row.status = .queued) ∨
      ∃ e, db'.outbox = db.outbox.insert e ∧ e.status = .pending ∧ e.payload.taskId = id := by
  cases h with
  | skip => exact .inl ⟨row', hrow', hq⟩
  | insert now spec =>
    rw [show (insertTask cfg now db spec).tasks = db.tasks.insert (spec.row cfg now) from rfl,
      Table.get_insert] at hrow'
    split at hrow'
    · cases hrow'
      cases hq
    · exact .inl ⟨row', hrow', hq⟩
  | block => exact .inl ⟨row', hrow', hq⟩
  | schedule now hrow hs =>
    obtain ⟨-, rfl⟩ | hold := get_of_setTask hrow'
    · cases hq
    · exact .inl ⟨row', hold, hq⟩
  | enqueue now cause eventType details reattempt hrow hs =>
    obtain ⟨rfl, -⟩ | hold := get_of_setTask hrow'
    · exact .inr ⟨_, rfl, rfl, rfl⟩
    · exact .inl ⟨row', hold, hq⟩
  | cancel now details hrow hs =>
    obtain ⟨-, rfl⟩ | hold := get_of_setTask hrow'
    · cases hq
    · exact .inl ⟨row', hold, hq⟩
  | start now w seen hrow hs =>
    obtain ⟨-, rfl⟩ | hold := get_of_setTask hrow'
    · cases hq
    · exact .inl ⟨row', hold, hq⟩
  | @renew now w i row hrow howner hs =>
    obtain ⟨-, rfl⟩ | hold := get_of_setTask hrow'
    · have hrun : row.status = .queued := hq
      rw [hs] at hrun
      cases hrun
    · exact .inl ⟨row', hold, hq⟩
  | close => exact .inl ⟨row', hrow', hq⟩
  | @finish now w held row task new eventType details hv hrow hs hout =>
    obtain ⟨-, rfl⟩ | hold := get_of_setTask hrow'
    · rw [show ((Task.merge held.task.loaded (setStatusFields now task new) row).touch now).status
        = new from (hv.merge row now hout).1] at hq
      rw [hq] at hout
      cases hout
    · exact .inl ⟨row', hold, hq⟩
  | stamp now dlqRetryAt hrow =>
    obtain ⟨rfl, rfl⟩ | hold := get_of_setTask hrow'
    · exact .inl ⟨_, hrow, hq⟩
    · exact .inl ⟨row', hold, hq⟩
  | @recover now i row details hrow hs hexpired =>
    have hclose : (closeLastAttempt now db i).outbox = db.outbox := by
      unfold closeLastAttempt
      split <;> rfl
    obtain ⟨rfl, -⟩ | hold := get_of_setTask hrow'
    · rw [← hclose]
      exact .inr ⟨_, rfl, rfl, rfl⟩
    · refine .inl ⟨row', ?_, hq⟩
      rwa [recordEvent, closeLastAttempt_tasks] at hold
  | release now hrow hs =>
    obtain ⟨rfl, -⟩ | hold := get_of_setTask hrow'
    · exact .inl ⟨_, hrow, hs⟩
    · exact .inl ⟨row', hold, hq⟩
  | republish => exact .inl ⟨row', hrow', hq⟩
  | deleteTasks ids hids =>
    have hview := congrArg View.row (view_deleteTasks db ids id)
    simp only [view_row] at hview
    rw [hrow'] at hview
    split at hview
    · cases hview
    · exact .inl ⟨row', hview.symm, hq⟩
  | deleteOutbox => exact .inl ⟨row', hrow', hq⟩
  | side => exact .inl ⟨row', hrow', hq⟩

/-- Every queued task has a pending row that is not marked, or is live. -/
def Supported (db : Database) (marked : Nat → Prop) (live : TaskId → Prop) : Prop :=
  ∀ id row, db.tasks.get id = some row → row.status = .queued →
    (∃ k e, db.outbox.get k = some e ∧ e.status = .pending ∧ e.payload.taskId = id ∧ ¬ marked k) ∨
      live id

theorem Supported.mono {db : Database} {marked marked' : Nat → Prop} {live live' : TaskId → Prop}
    (h : Supported db marked live) (hm : ∀ k, marked' k → marked k)
    (hl : ∀ id, live id → live' id) : Supported db marked' live' := by
  intro id row hrow hq
  obtain ⟨k, e, he, hs, ht, hk⟩ | hlive := h id row hrow hq
  · exact .inl ⟨k, e, he, hs, ht, fun hk' => hk (hm k hk')⟩
  · exact .inr (hl id hlive)

theorem Change.supported {cfg : Settings} {db db' : Database} {l : Label}
    (h : Change cfg db l db') {marked : Nat → Prop} {live : TaskId → Prop}
    (hs : Supported db marked live) (hclean : Unprocessed db.outbox)
    (hmarked : ∀ k, marked k → k < db.outbox.next) : Supported db' marked live := by
  intro id row' hrow' hq
  obtain ⟨row, hrow, hqueued⟩ | ⟨e, hout, hpending, ht⟩ := h.queued hrow' hq
  · obtain ⟨k, e, he, hpending, ht, hk⟩ | hlive := hs id row hrow hqueued
    · exact .inl ⟨k, e, h.outbox.get_pending hclean he hpending, hpending, ht, hk⟩
    · exact .inr hlive
  · refine .inl ⟨db.outbox.next, e, by rw [hout, Table.get_insert_next], hpending, ht, ?_⟩
    intro hk
    exact absurd (hmarked _ hk) (Nat.lt_irrefl _)

/-- The outbox side of the invariant, for fixed relays, messages and workers. -/
structure OutboxInv (db : Database) (published : List Nat) (marked : Nat → Prop)
    (live : TaskId → Prop) : Prop where
  unprocessed : Unprocessed db.outbox
  accounted : Accounted db.outbox published
  supported : Supported db marked live
  marked : ∀ k, marked k → k < db.outbox.next

theorem Change.outboxInv {cfg : Settings} {db db' : Database} {l : Label}
    (h : Change cfg db l db') {published : List Nat} {marked : Nat → Prop} {live : TaskId → Prop}
    (hi : OutboxInv db published marked live) : OutboxInv db' published marked live where
  unprocessed := h.outbox.unprocessed hi.unprocessed
  accounted := h.outbox.accounted hi.unprocessed hi.accounted
  supported := h.supported hi.supported hi.unprocessed hi.marked
  marked := fun k hk => Nat.lt_of_lt_of_le (hi.marked k hk) h.outbox.next_le

/-- What the outbox invariant needs of the relays, the messages and the workers. -/
theorem OutboxInv.mono {db : Database} {published : List Nat} {marked marked' : Nat → Prop}
    {live live' : TaskId → Prop} (h : OutboxInv db published marked live)
    (hm : ∀ k, marked' k → marked k) (hl : ∀ id, live id → live' id) :
    OutboxInv db published marked' live' :=
  ⟨h.unprocessed, h.accounted, h.supported.mono hm hl, fun k hk => h.marked k (hm k hk)⟩

theorem outboxInv_trace {cfg : Settings} {db db' : Database} {ls : List Label}
    (htr : Trace (Change cfg) db ls db') {published : List Nat} {marked : Nat → Prop}
    {live : TaskId → Prop} (hi : OutboxInv db published marked live) :
    OutboxInv db' published marked live :=
  htr.invariant (P := fun db => OutboxInv db published marked live) (Q := fun _ => True)
    (fun _ _ _ hp _ hc => hc.outboxInv hp) (fun _ _ => trivial) hi

theorem outbox_next_trace {cfg : Settings} {db db' : Database} {ls : List Label}
    (htr : Trace (Change cfg) db ls db') : db.outbox.next ≤ db'.outbox.next ∧
      ∀ k e, k < db.outbox.next → db'.outbox.get k = some e → db.outbox.get k = some e := by
  induction htr with
  | nil db => exact ⟨le_refl _, fun _ _ _ he => he⟩
  | cons hc _ ih =>
    refine ⟨le_trans hc.outbox.next_le ih.1, fun k e hk he => ?_⟩
    exact hc.outbox.get_old hk (ih.2 k e (Nat.lt_of_lt_of_le hk hc.outbox.next_le) he)

namespace Bus

/-- A running relay published the row and has not committed. -/
def Marked (b : Bus) (k : Nat) : Prop :=
  ∃ r relay, b.relays r = some relay ∧ ∃ loaded now, (k, loaded, .sent now) ∈ relay.done

/-- A worker has committed its first transaction for the message, or was denied. -/
def Spent (b : Bus) (m : Nat) : Prop :=
  ∃ w h, b.handling w = some h ∧ h.message = m ∧ h.phase ≠ .received

/-- There is an unacknowledged message of the task that no worker has used. -/
def Live (b : Bus) (id : TaskId) : Prop :=
  ∃ m payload, b.messages.get m = some payload ∧ payload.taskId = id ∧ ¬ b.Spent m

/-- What is known of a row that a relay loaded. -/
structure Loaded (t : Table OutboxEvent) (k : Nat) (loaded : OutboxEvent) : Prop where
  old : k < t.next
  pending : loaded.status = .pending
  payload : ∀ e, t.get k = some e → e.payload = loaded.payload

structure RelayInv (t : Table OutboxEvent) (published : List Nat) (relay : Relay) : Prop where
  events : ∀ k loaded, (k, loaded) ∈ relay.events → Loaded t k loaded
  done : ∀ k loaded o, (k, loaded, o) ∈ relay.done → Loaded t k loaded
  sent : ∀ k loaded now, (k, loaded, .sent now) ∈ relay.done → k ∈ published

structure HandlingInv (messages : Table OutboxPayload) (h : Handling) : Prop where
  old : h.message < messages.next
  taskId : ∀ payload, messages.get h.message = some payload → payload.taskId = h.taskId

structure Inv (b : Bus) : Prop where
  sound : b.platform.Sound
  outbox : OutboxInv b.platform.db b.published b.Marked b.Live
  relay : ∀ r relay, b.relays r = some relay → RelayInv b.platform.db.outbox b.published relay
  handling : ∀ w h, b.handling w = some h → HandlingInv b.messages h

/-- A worker holds objects only while it works on a message. -/
def Idle (b : Bus) : Prop :=
  ∀ w held, b.platform.holding w = some held → ∃ h, b.handling w = some h ∧ h.phase = .working

theorem initial_inv : Bus.initial.Inv where
  sound := Platform.initial_sound
  outbox := {
    unprocessed := fun k e he => by cases he
    accounted := fun k hk hlt => by
      rw [show Bus.initial.platform.db.outbox.next = 1 from rfl] at hlt
      omega
    supported := fun id row hrow => by cases hrow
    marked := by rintro k ⟨r, relay, hr, -⟩; cases hr }
  relay := fun r relay hr => by cases hr
  handling := fun w h hh => by cases hh

theorem Loaded.next {t t' : Table OutboxEvent} {k : Nat} {loaded : OutboxEvent}
    (h : Loaded t k loaded) (hnext : t.next ≤ t'.next)
    (hold : ∀ k e, k < t.next → t'.get k = some e → t.get k = some e) : Loaded t' k loaded where
  old := Nat.lt_of_lt_of_le h.old hnext
  pending := h.pending
  payload := fun e he => h.payload e (hold k e h.old he)

theorem RelayInv.next {t t' : Table OutboxEvent} {published : List Nat} {relay : Relay}
    (h : RelayInv t published relay) (hnext : t.next ≤ t'.next)
    (hold : ∀ k e, k < t.next → t'.get k = some e → t.get k = some e) :
    RelayInv t' published relay where
  events := fun k loaded hk => (h.events k loaded hk).next hnext hold
  done := fun k loaded o hk => (h.done k loaded o hk).next hnext hold
  sent := h.sent

/-- A step of the platform under the relays and the broker. -/
theorem Inv.platform {b : Bus} (h : b.Inv) (cfg : Settings) (a : Action) :
    Inv { b with platform := b.platform.step cfg a } := by
  obtain ⟨ls, htr, -⟩ : ∃ ls, Trace (Change cfg) b.platform.db ls (b.platform.step cfg a).db ∧ _ :=
    step_trace h.sound.foreignKeys h.sound.held a
  obtain ⟨hnext, hold⟩ := outbox_next_trace htr
  exact ⟨h.sound.step cfg a, outboxInv_trace htr h.outbox,
    fun r relay hr => (h.relay r relay hr).next hnext hold, h.handling⟩

theorem setRelay_relays (b : Bus) (r r' : RelayId) (relay : Option Relay) :
    (b.setRelay r relay).relays r' = if r' = r then relay else b.relays r' := by
  simp [setRelay, Function.update_apply]

theorem setHandling_handling (b : Bus) (w w' : WorkerId) (h : Option Handling) :
    (b.setHandling w h).handling w' = if w' = w then h else b.handling w' := by
  simp [setHandling, Function.update_apply]

/-- A relay that published nothing, or is gone, marks nothing. -/
theorem marked_setRelay {b : Bus} {r : RelayId} {relay : Option Relay} {k : Nat}
    (hnone : ∀ relay', relay = some relay' → relay'.done = [])
    (h : (b.setRelay r relay).Marked k) : b.Marked k := by
  obtain ⟨r', relay', hr', loaded, now, hmem⟩ := h
  rw [setRelay_relays] at hr'
  split at hr'
  · rw [hnone relay' hr'] at hmem
    cases hmem
  · exact ⟨r', relay', hr', loaded, now, hmem⟩

theorem Inv.relayCrash {b : Bus} (h : b.Inv) (r : RelayId) : (b.setRelay r none).Inv where
  sound := h.sound
  outbox := h.outbox.mono (fun k hk => marked_setRelay (fun _ he => by cases he) hk)
    (fun _ hl => hl)
  relay := by
    intro r' relay hr'
    rw [setRelay_relays] at hr'
    split at hr'
    · cases hr'
    · exact h.relay r' relay hr'
  handling := h.handling

theorem Inv.relayRead {b : Bus} (h : b.Inv) (r : RelayId) (limit : Nat) :
    (b.relayRead r limit).Inv := by
  unfold Bus.relayRead
  split
  · exact h
  · split
    · exact h
    · have hmark : ∀ events k, (b.setRelay r (some ⟨events, []⟩)).Marked k → b.Marked k :=
        fun events k hk => marked_setRelay (fun relay he => by cases he; rfl) hk
      refine ⟨h.sound, h.outbox.mono (hmark _) (fun _ hl => hl), fun r' relay hr' => ?_,
        h.handling⟩
      rw [setRelay_relays] at hr'
      split at hr'
      · cases hr'
        refine ⟨fun k loaded hk => ?_, fun k loaded o hk => (by cases hk),
          fun k loaded now hk => (by cases hk)⟩
        have hselect := List.mem_of_mem_take hk
        rw [Table.mem_select, beq_iff_eq] at hselect
        refine ⟨Table.get_lt hselect.1, hselect.2, fun e he => ?_⟩
        cases hselect.1.symm.trans he
        rfl
      · exact h.relay r' relay hr'

theorem RelayInv.mono {t : Table OutboxEvent} {published published' : List Nat} {relay : Relay}
    (h : RelayInv t published relay) (hp : published ⊆ published') :
    RelayInv t published' relay :=
  ⟨h.events, h.done, fun k loaded now hk => hp (h.sent k loaded now hk)⟩

/-- The bus after the relay has published the next of its events. -/
def publishNext (b : Bus) (r : RelayId) (o : PublishOutcome) (id : Nat) (outbox : OutboxEvent)
    (events : List (Nat × OutboxEvent)) (done : List (Nat × OutboxEvent × PublishOutcome)) : Bus :=
  { b.setRelay r (some ⟨events, done ++ [(id, outbox, o)]⟩) with
    messages := if o.arrived then b.messages.insert outbox.payload else b.messages
    published := if o.arrived then id :: b.published else b.published }

section

variable {b : Bus} {r : RelayId} {o : PublishOutcome} {id : Nat} {outbox : OutboxEvent}
  {events : List (Nat × OutboxEvent)} {done : List (Nat × OutboxEvent × PublishOutcome)}

theorem published_publishNext :
    b.published ⊆ (b.publishNext r o id outbox events done).published := by
  intro k hk
  simp only [publishNext]
  split
  · exact List.mem_cons_of_mem _ hk
  · exact hk

theorem messages_publishNext {m : Nat} {payload : OutboxPayload}
    (hm : b.messages.get m = some payload) :
    (b.publishNext r o id outbox events done).messages.get m = some payload := by
  simp only [publishNext]
  split
  · exact Table.get_insert_of_some _ hm
  · exact hm

/-- Only an event whose message has arrived is marked anew. -/
theorem marked_publishNext (hr : b.relays r = some ⟨(id, outbox) :: events, done⟩) {k : Nat}
    (hk : (b.publishNext r o id outbox events done).Marked k) :
    b.Marked k ∨ (k = id ∧ o.arrived = true) := by
  obtain ⟨r', relay', hr', loaded, now, hmem⟩ := hk
  change (b.setRelay r _).relays r' = _ at hr'
  rw [setRelay_relays] at hr'
  split at hr'
  · cases hr'
    rcases List.mem_append.mp hmem with hmem | hmem
    · exact .inl ⟨r, _, hr, loaded, now, hmem⟩
    · rw [List.mem_singleton] at hmem
      cases hmem
      exact .inr ⟨rfl, rfl⟩
  · exact .inl ⟨r', relay', hr', loaded, now, hmem⟩

theorem live_publishNext {i : TaskId} (h : b.Live i) :
    (b.publishNext r o id outbox events done).Live i := by
  obtain ⟨m, payload, hm, ht, hspent⟩ := h
  exact ⟨m, payload, messages_publishNext hm, ht, hspent⟩

/-- Nobody handles a message that has just arrived. -/
theorem Inv.live_arrived (h : b.Inv) (ho : o.arrived = true) :
    (b.publishNext r o id outbox events done).Live outbox.payload.taskId := by
  refine ⟨b.messages.next, outbox.payload, ?_, rfl, ?_⟩
  · simp only [publishNext, ho, if_true, Table.get_insert_next]
  · rintro ⟨w, handling, hh, hmessage, -⟩
    exact absurd (hmessage ▸ (h.handling w handling hh).old) (Nat.lt_irrefl _)

/-- Publishing moves the support of a task from a row to a message. -/
theorem Inv.supported_publishNext (h : b.Inv)
    (hr : b.relays r = some ⟨(id, outbox) :: events, done⟩) :
    Supported b.platform.db (b.publishNext r o id outbox events done).Marked
      (b.publishNext r o id outbox events done).Live := by
  have hloaded := (h.relay r _ hr).events id outbox List.mem_cons_self
  intro i row hrow hq
  obtain ⟨k, e, he, hs, ht, hk⟩ | hl := h.outbox.supported i row hrow hq
  · by_cases hk' : (b.publishNext r o id outbox events done).Marked k
    · obtain hold | ⟨rfl, ho⟩ := marked_publishNext hr hk'
      · exact absurd hold hk
      · rw [← ht, hloaded.payload e he]
        exact .inr (h.live_arrived ho)
    · exact .inl ⟨k, e, he, hs, ht, hk'⟩
  · exact .inr (live_publishNext hl)

theorem RelayInv.publishNext (h : RelayInv b.platform.db.outbox b.published
    ⟨(id, outbox) :: events, done⟩) :
    RelayInv b.platform.db.outbox (b.publishNext r o id outbox events done).published
      ⟨events, done ++ [(id, outbox, o)]⟩ := by
  refine ⟨fun k loaded hk => h.events k loaded (List.mem_cons_of_mem _ hk),
    fun k loaded o' hk => ?_, fun k loaded now hk => ?_⟩
  · rcases List.mem_append.mp hk with hk | hk
    · exact h.done k loaded o' hk
    · rw [List.mem_singleton] at hk
      cases hk
      exact h.events id outbox List.mem_cons_self
  · rcases List.mem_append.mp hk with hk | hk
    · exact published_publishNext (h.sent k loaded now hk)
    · rw [List.mem_singleton] at hk
      cases hk
      simp [Bus.publishNext, PublishOutcome.arrived]

theorem HandlingInv.publishNext {handling : Handling} (h : HandlingInv b.messages handling) :
    HandlingInv (b.publishNext r o id outbox events done).messages handling := by
  simp only [Bus.publishNext]
  split
  · refine ⟨Nat.lt_succ_of_lt h.old, fun payload hp => h.taskId payload ?_⟩
    rwa [Table.get_insert, if_neg (Nat.ne_of_lt h.old)] at hp
  · exact h

theorem Inv.publishNext (h : b.Inv) (hr : b.relays r = some ⟨(id, outbox) :: events, done⟩) :
    (b.publishNext r o id outbox events done).Inv := by
  refine ⟨h.sound, ⟨h.outbox.unprocessed, fun k hk hlt => ?_, h.supported_publishNext hr,
    fun k hk => ?_⟩, fun r' relay' hr' => ?_, fun w handling hh => (h.handling w handling hh).publishNext⟩
  · obtain hp | hpending := h.outbox.accounted k hk hlt
    · exact .inl (published_publishNext hp)
    · exact .inr hpending
  · obtain hold | ⟨rfl, -⟩ := marked_publishNext hr hk
    · exact h.outbox.marked k hold
    · exact ((h.relay r _ hr).events k outbox List.mem_cons_self).old
  · change (b.setRelay r _).relays r' = _ at hr'
    rw [setRelay_relays] at hr'
    split at hr'
    · cases hr'
      exact (h.relay r _ hr).publishNext
    · exact (h.relay r' relay' hr').mono published_publishNext

end

theorem Inv.relayPublish {b : Bus} (h : b.Inv) (r : RelayId) (o : PublishOutcome) :
    (b.relayPublish r o).Inv := by
  unfold Bus.relayPublish
  split
  · rename_i id outbox events done hr
    exact h.publishNext hr
  · exact h

theorem merge_sent {loaded : OutboxEvent} (hpending : loaded.status = .pending) (now : Time)
    (row : OutboxEvent) :
    (OutboxEvent.merge loaded (PublishOutcome.apply loaded (.sent now)) row).status = .sent := by
  simp [OutboxEvent.merge, PublishOutcome.apply, mergeColumn, hpending]

theorem merge_failed (loaded : OutboxEvent) (arrived : Bool) (error : String) (row : OutboxEvent) :
    let merged := OutboxEvent.merge loaded (PublishOutcome.apply loaded (.failed arrived error)) row
    merged.status = row.status ∧ merged.processedAt = row.processedAt := by
  simp [OutboxEvent.merge, PublishOutcome.apply]

theorem merge_payload (loaded : OutboxEvent) (o : PublishOutcome) (row : OutboxEvent) :
    (OutboxEvent.merge loaded (o.apply loaded) row).payload = row.payload := by
  cases o <;> simp [OutboxEvent.merge, PublishOutcome.apply]

/-- A row that is flushed keeps its payload, and stays pending unless it was published. -/
theorem flush_outboxInv {db : Database} {published : List Nat} {marked : Nat → Prop}
    {live : TaskId → Prop} (hi : OutboxInv db published marked live) {k : Nat}
    {loaded : OutboxEvent} {o : PublishOutcome} (hpending : loaded.status = .pending)
    (hsent : ∀ now, o = .sent now → k ∈ published ∧ marked k) :
    OutboxInv { db with outbox := db.outbox.modify k (OutboxEvent.merge loaded (o.apply loaded)) }
      published marked live := by
  have hget : ∀ i e, (db.outbox.modify k (OutboxEvent.merge loaded (o.apply loaded))).get i =
      some e → ∃ row, db.outbox.get i = some row ∧
        (e = row ∨ (i = k ∧ e = OutboxEvent.merge loaded (o.apply loaded) row)) := by
    intro i e he
    rw [Table.get_modify] at he
    split at he
    · rename_i hik
      obtain ⟨row, hrow, rfl⟩ := Option.map_eq_some_iff.mp he
      exact ⟨row, hrow, .inr ⟨hik, rfl⟩⟩
    · exact ⟨e, he, .inl rfl⟩
  -- a pending row is still pending, or it was published
  have hkeep : ∀ i row, db.outbox.get i = some row → row.status = .pending →
      (i ∈ published ∧ marked i) ∨ ∃ e,
        (db.outbox.modify k (OutboxEvent.merge loaded (o.apply loaded))).get i = some e ∧
          e.status = .pending ∧ e.payload = row.payload := by
    intro i row hrow hs
    by_cases hik : i = k
    · cases o with
      | sent now =>
        rw [hik]
        exact .inl (hsent now rfl)
      | failed arrived error =>
        refine .inr ⟨_, by rw [hik, Table.get_modify_self, ← hik, hrow]; rfl, ?_, merge_payload _ _ _⟩
        rw [(merge_failed loaded arrived error row).1, hs]
    · exact .inr ⟨row, by rw [Table.get_modify_of_ne _ _ hik, hrow], hs, rfl⟩
  refine ⟨fun i e he hs => ?_, fun i hi' hlt => ?_, fun i row hrow hq => ?_, hi.marked⟩
  · obtain ⟨row, hrow, rfl | ⟨-, rfl⟩⟩ := hget i e he
    · exact hi.unprocessed i e hrow hs
    · cases o with
      | sent now =>
        rw [merge_sent hpending] at hs
        cases hs
      | failed arrived error =>
        obtain ⟨hstatus, hprocessed⟩ := merge_failed loaded arrived error row
        rw [hprocessed]
        exact hi.unprocessed i row hrow (hstatus.symm.trans hs)
  · obtain hp | ⟨row, hrow, hs⟩ := hi.accounted i hi' hlt
    · exact .inl hp
    · obtain hp | ⟨e, he, hs', -⟩ := hkeep i row hrow hs
      · exact .inl hp.1
      · exact .inr ⟨e, he, hs'⟩
  · obtain ⟨j, e, he, hs, ht, hj⟩ | hl := hi.supported i row hrow hq
    · obtain hp | ⟨e', he', hs', hpayload⟩ := hkeep j e he hs
      · exact absurd hp.2 hj
      · exact .inl ⟨j, e', he', hs', by rw [hpayload, ht], hj⟩
    · exact .inr hl

theorem flushOutbox_ok {db db' : Database} {k : Nat} {loaded cur : OutboxEvent}
    (h : flushOutbox db k loaded cur = .ok db') :
    db' = { db with outbox := db.outbox.modify k (OutboxEvent.merge loaded cur) } := by
  unfold flushOutbox at h
  split at h
  · cases h
  · cases h
    rfl

/-- What the flush of a whole relay leaves. -/
structure Flushed (db : Database) (t : Table OutboxEvent) : Prop where
  next : t.next = db.outbox.next
  payload : ∀ k e, t.get k = some e → ∃ row, db.outbox.get k = some row ∧ e.payload = row.payload

theorem flushRelay_ok {db db' : Database} {published : List Nat} {marked : Nat → Prop}
    {live : TaskId → Prop} (hi : OutboxInv db published marked live)
    {done : List (Nat × OutboxEvent × PublishOutcome)}
    (hpending : ∀ k loaded o, (k, loaded, o) ∈ done → loaded.status = .pending)
    (hsent : ∀ k loaded now, (k, loaded, .sent now) ∈ done → k ∈ published ∧ marked k)
    (h : flushRelay db done = .ok db') :
    ∃ t, db' = { db with outbox := t } ∧ Flushed db t ∧
      OutboxInv { db with outbox := t } published marked live := by
  refine foldlM_invariant (P := fun d => ∃ t, d = { db with outbox := t } ∧ Flushed db t ∧
    OutboxInv { db with outbox := t } published marked live) done ?_ ?_ h
  · rintro d ⟨k, loaded, o⟩ hmem d' ⟨t, rfl, hflushed, hinv⟩ hd'
    obtain rfl := flushOutbox_ok hd'
    refine ⟨_, rfl, ⟨hflushed.next, fun i e he => ?_⟩, ?_⟩
    · rw [Table.get_modify] at he
      split at he
      · obtain ⟨row, hrow, rfl⟩ := Option.map_eq_some_iff.mp he
        rw [merge_payload]
        exact hflushed.payload i row hrow
      · exact hflushed.payload i e he
    · refine flush_outboxInv hinv (hpending k loaded o hmem) fun now ho => ?_
      subst ho
      exact hsent k loaded now hmem
  · exact ⟨db.outbox, rfl, ⟨rfl, fun k e he => ⟨e, he, rfl⟩⟩, hi⟩

theorem Inv.relayCommit {b : Bus} (h : b.Inv) (r : RelayId) : (b.relayCommit r).Inv := by
  unfold Bus.relayCommit
  split
  · rename_i done hr
    have hrelay := h.relay r _ hr
    have hcrash := h.relayCrash r
    cases hflush : flushRelay b.platform.db done with
    | error e => exact hcrash
    | ok db' =>
      obtain ⟨t, rfl, hflushed, hinv⟩ := flushRelay_ok h.outbox
        (fun k loaded o hk => (hrelay.done k loaded o hk).pending)
        (fun k loaded now hk => ⟨hrelay.sent k loaded now hk, r, _, hr, loaded, now, hk⟩) hflush
      refine ⟨⟨h.sound.foreignKeys, h.sound.views, h.sound.held⟩,
        hinv.mono (fun k hk => marked_setRelay (fun _ he => by cases he) hk) (fun _ hl => hl),
        fun r' relay' hr' => ?_, h.handling⟩
      have hold := hcrash.relay r' relay' hr'
      have hloaded : ∀ k loaded, Loaded b.platform.db.outbox k loaded → Loaded t k loaded := by
        intro k loaded hl
        refine ⟨hflushed.next ▸ hl.old, hl.pending, fun e he => ?_⟩
        obtain ⟨row, hrow, hp⟩ := hflushed.payload k e he
        rw [hp, hl.payload row hrow]
      exact ⟨fun k loaded hk => hloaded k loaded (hold.events k loaded hk),
        fun k loaded o hk => hloaded k loaded (hold.done k loaded o hk), hold.sent⟩
  · exact h

theorem Inv.deliver {b : Bus} (h : b.Inv) (w : WorkerId) (message : Nat) :
    (b.deliver w message).Inv := by
  unfold Bus.deliver
  split
  · rename_i payload hnone hmessage
    have hspent : ∀ m, (b.setHandling w (some ⟨message, payload.taskId, .received⟩)).Spent m →
        b.Spent m := by
      rintro m ⟨w', handling, hh, hm, hphase⟩
      rw [setHandling_handling] at hh
      split at hh
      · cases hh
        exact absurd rfl hphase
      · exact ⟨w', handling, hh, hm, hphase⟩
    refine ⟨h.sound, h.outbox.mono (fun _ hk => hk) ?_, h.relay, fun w' handling hh => ?_⟩
    · rintro i ⟨m, payload', hm, ht, hns⟩
      exact ⟨m, payload', hm, ht, fun hs => hns (hspent m hs)⟩
    · rw [setHandling_handling] at hh
      split at hh
      · cases hh
        refine ⟨Table.get_lt hmessage, fun payload' hp => ?_⟩
        cases hmessage.symm.trans hp
        rfl
      · exact h.handling w' handling hh
  · exact h

/-- A lease is denied only to tasks that are not queued. -/
theorem not_queued_of_denied {cfg : Settings} {now : Time} {p : Platform} (hp : p.Sound)
    {w : WorkerId} {id : TaskId} (h : startTask cfg now p.db w id = .ok none) {row : Task}
    (hrow : p.db.tasks.get id = some row) : row.status ≠ .queued := by
  intro hq
  have hfree : row.leaseOwner = none := by simpa [hq] using (hp.row hrow).wellFormed.leaseOwner
  have hlease : tryAcquireLease now p.db id w cfg.taskLeaseSeconds =
      (p.db.setTask id (leased now w cfg.taskLeaseSeconds row), true) := by
    simp [tryAcquireLease, hrow, hq, leaseFree, hfree]
  rw [startTask, hlease] at h
  simp only [get_setTask_self _ hrow] at h
  obtain ⟨r, -, hr⟩ := bind_ok h
  cases hr

/-- A worker that received a message uses it up in a step after which its task is not queued. -/
theorem Inv.use {b : Bus} (h : b.Inv) {w : WorkerId} {handling : Handling}
    (hh : b.handling w = some handling) (phase : Phase)
    (hqueue : ∀ row, b.platform.db.tasks.get handling.taskId = some row → row.status ≠ .queued) :
    (b.setHandling w (some { handling with phase := phase })).Inv := by
  have hspent : ∀ m, m ≠ handling.message →
      (b.setHandling w (some { handling with phase := phase })).Spent m → b.Spent m := by
    rintro m hm ⟨w', handling', hh', hmessage, hphase⟩
    rw [setHandling_handling] at hh'
    split at hh'
    · cases hh'
      exact absurd hmessage.symm hm
    · exact ⟨w', handling', hh', hmessage, hphase⟩
  refine ⟨h.sound, ⟨h.outbox.unprocessed, h.outbox.accounted, ?_, h.outbox.marked⟩, h.relay,
    fun w' handling' hh' => ?_⟩
  · intro i row hrow hq
    obtain hpending | ⟨m, payload, hm, ht, hns⟩ := h.outbox.supported i row hrow hq
    · exact .inl hpending
    · refine .inr ⟨m, payload, hm, ht, fun hs => hns (hspent m ?_ hs)⟩
      rintro rfl
      have hid := (h.handling w handling hh).taskId payload hm
      rw [ht] at hid
      rw [hid] at hrow
      exact hqueue row hrow hq
  · rw [setHandling_handling] at hh'
    split at hh'
    · cases hh'
      exact ⟨(h.handling w handling hh).old, (h.handling w handling hh).taskId⟩
    · exact h.handling w' handling' hh'

/-- A start that the lease lets through takes its task out of the queue. -/
theorem not_queued_of_started {cfg : Settings} {now : Time} {p : Platform} {w : WorkerId}
    {id : TaskId} {r : Database × Held} (hnone : p.holding w = none)
    (h : startTask cfg now p.db w id = .ok (some r)) {row : Task}
    (hrow : (p.step cfg (.start now w id)).db.tasks.get id = some row) : row.status ≠ .queued := by
  have hstarts : starts cfg id p (.start now w id) = true := by
    simp [starts, Platform.step, startStep, hnone, h, Platform.setHolding]
  obtain ⟨-, row', hrow', hrun⟩ := row_of_starts hstarts
  rw [hrow] at hrow'
  cases hrow'
  rw [hrun]
  decide

theorem Inv.start {b : Bus} (h : b.Inv) (hidle : b.Idle) (cfg : Settings) (now : Time)
    (w : WorkerId) : (b.start cfg now w).Inv := by
  unfold Bus.start
  split
  · rename_i message id hh
    have hnone : b.platform.holding w = none := by
      cases hheld : b.platform.holding w with
      | none => rfl
      | some held =>
        obtain ⟨handling, hh', hphase⟩ := hidle w held hheld
        rw [hh] at hh'
        cases hh'
        cases hphase
    split
    · exact h
    · rename_i hdenied
      exact h.use hh .denied fun row hrow => not_queued_of_denied h.sound hdenied hrow
    · rename_i r hstarted
      have hplatform := h.platform cfg (.start now w id)
      exact hplatform.use (w := w) hh .working
        fun row hrow => not_queued_of_started hnone hstarted hrow
  · exact h

/-- What is done with a message after its first transaction uses it up no further. -/
theorem Inv.used {b : Bus} (h : b.Inv) {w : WorkerId} {handling : Handling}
    (hh : b.handling w = some handling) (hphase : handling.phase ≠ .received) (phase : Phase) :
    (b.setHandling w (some { handling with phase := phase })).Inv := by
  have hspent : ∀ m, (b.setHandling w (some { handling with phase := phase })).Spent m →
      b.Spent m := by
    rintro m ⟨w', handling', hh', hm, hphase'⟩
    rw [setHandling_handling] at hh'
    split at hh'
    · cases hh'
      exact ⟨w, handling, hh, hm, hphase⟩
    · exact ⟨w', handling', hh', hm, hphase'⟩
  refine ⟨h.sound, h.outbox.mono (fun _ hk => hk) ?_, h.relay, fun w' handling' hh' => ?_⟩
  · rintro i ⟨m, payload, hm, ht, hns⟩
    exact ⟨m, payload, hm, ht, fun hs => hns (hspent m hs)⟩
  · rw [setHandling_handling] at hh'
    split at hh'
    · cases hh'
      exact ⟨(h.handling w handling hh).old, (h.handling w handling hh).taskId⟩
    · exact h.handling w' handling' hh'

theorem Inv.finish {b : Bus} (h : b.Inv) (cfg : Settings) (now : Time) (w : WorkerId)
    (execution : Execution) : (b.finish cfg now w execution).Inv := by
  unfold Bus.finish
  split
  · rename_i message id hh
    exact (h.used hh (by simp) .recorded).platform cfg (execution.action now w)
  · exact h

/-- A worker that stops handling its message uses it no more. -/
theorem Inv.release {b : Bus} (h : b.Inv) (w : WorkerId) : (b.setHandling w none).Inv := by
  have hspent : ∀ m, (b.setHandling w none).Spent m → b.Spent m := by
    rintro m ⟨w', handling, hh, hm, hphase⟩
    rw [setHandling_handling] at hh
    split at hh
    · cases hh
    · exact ⟨w', handling, hh, hm, hphase⟩
  refine ⟨h.sound, h.outbox.mono (fun _ hk => hk) ?_, h.relay, fun w' handling hh => ?_⟩
  · rintro i ⟨m, payload, hm, ht, hns⟩
    exact ⟨m, payload, hm, ht, fun hs => hns (hspent m hs)⟩
  · rw [setHandling_handling] at hh
    split at hh
    · cases hh
    · exact h.handling w' handling hh

/-- An acknowledged message was used up. -/
theorem Inv.acknowledge {b : Bus} (h : b.Inv) {message : Nat} (hused : b.Spent message) :
    Inv { b with messages := b.messages.erase (fun r => r.1 == message) } := by
  refine ⟨h.sound, h.outbox.mono (fun _ hk => hk) ?_, h.relay, fun w handling hh => ?_⟩
  · rintro i ⟨m, payload, hm, ht, hns⟩
    refine ⟨m, payload, ?_, ht, hns⟩
    have hne : m ≠ message := by
      rintro rfl
      exact hns hused
    rw [Table.get_erase, hm]
    simp [hne]
  · refine ⟨(h.handling w handling hh).old, fun payload hp => ?_⟩
    rw [Table.get_erase, Option.filter_eq_some_iff] at hp
    exact (h.handling w handling hh).taskId payload hp.1

theorem Inv.ack {b : Bus} (h : b.Inv) (w : WorkerId) : (b.ack w).Inv := by
  unfold Bus.ack
  split
  · rename_i message id hh
    exact (h.acknowledge ⟨w, _, hh, rfl, by simp⟩).release w
  · rename_i message id hh
    exact (h.acknowledge ⟨w, _, hh, rfl, by simp⟩).release w
  · exact h

theorem Inv.step {b : Bus} (h : b.Inv) (hidle : b.Idle) (cfg : Settings) (e : Event) :
    (b.step cfg e).Inv := by
  cases e with
  | act a =>
    simp only [Bus.step]
    split
    · exact h
    · exact h.platform cfg a
  | relayRead r limit => exact h.relayRead r limit
  | relayPublish r o => exact h.relayPublish r o
  | relayCommit r => exact h.relayCommit r
  | relayCrash r => exact h.relayCrash r
  | deliver w message => exact h.deliver w message
  | start now w => exact h.start hidle cfg now w
  | finish now w execution => exact h.finish cfg now w execution
  | ack w => exact h.ack w
  | crash w => exact (h.release w).platform cfg (.crash w)

theorem initial_idle : Bus.initial.Idle := by
  intro w held hheld
  cases hheld

/-- Handling of another worker's message, or none where nothing is held. -/
theorem Idle.setHandling {b : Bus} (h : b.Idle) {w : WorkerId} (handling : Option Handling)
    (hnone : b.platform.holding w = none) : (b.setHandling w handling).Idle := by
  intro w' held hheld
  have hheld' : b.platform.holding w' = some held := hheld
  have hne : w' ≠ w := by
    rintro rfl
    rw [hnone] at hheld'
    cases hheld'
  obtain ⟨handling', hh, hphase⟩ := h w' held hheld'
  exact ⟨handling', by rw [setHandling_handling, if_neg hne, hh], hphase⟩

/-- A worker that is not working holds nothing. -/
theorem Idle.holding {b : Bus} (h : b.Idle) {w : WorkerId}
    (hnot : ∀ handling, b.handling w = some handling → handling.phase ≠ .working) :
    b.platform.holding w = none := by
  cases hheld : b.platform.holding w with
  | none => rfl
  | some held =>
    obtain ⟨handling, hh, hphase⟩ := h w held hheld
    exact absurd hphase (hnot handling hh)

theorem step_holding_none (cfg : Settings) (now : Time) (w : WorkerId) (execution : Execution)
    (p : Platform) (w' : WorkerId) : (p.step cfg (execution.action now w)).holding w' =
      if w' = w then none else p.holding w' := by
  cases execution <;> exact finishStep_holding _ _ _ _

theorem Idle.step {b : Bus} (h : b.Idle) (cfg : Settings) (e : Event) : (b.step cfg e).Idle := by
  cases e with
  | act a =>
    simp only [Bus.step]
    split
    · exact h
    · rename_i hworker
      intro w held hheld
      obtain hold | ⟨now, id, row, seen, rfl, -⟩ := step_holding hheld
      · exact h w held hold
      · exact absurd rfl hworker
  | relayRead r limit =>
    simp only [Bus.step, Bus.relayRead]
    split
    · exact h
    · split <;> exact h
  | relayPublish r o =>
    simp only [Bus.step, Bus.relayPublish]
    split <;> exact h
  | relayCommit r =>
    simp only [Bus.step, Bus.relayCommit]
    split <;> exact h
  | relayCrash r => exact h
  | deliver w message =>
    simp only [Bus.step, Bus.deliver]
    split
    · rename_i payload hnone hmessage
      exact h.setHandling _ (h.holding fun handling hh => by rw [hnone] at hh; cases hh)
    · exact h
  | start now w =>
    simp only [Bus.step, Bus.start]
    split
    · rename_i message id hh
      have hnone := h.holding (w := w) fun handling hh' => by rw [hh] at hh'; cases hh'; simp
      split
      · exact h
      · exact h.setHandling _ hnone
      · intro w' held hheld
        obtain hold | ⟨now', id', row, seen, ha, -⟩ := step_holding hheld
        · exact h.setHandling (some ⟨message, id, .working⟩) hnone w' held hold
        · cases ha
          exact ⟨⟨message, id, .working⟩, by simp [Bus.setHandling], rfl⟩
    · exact h
  | finish now w execution =>
    simp only [Bus.step, Bus.finish]
    split
    · intro w' held hheld
      have hheld' : (b.platform.step cfg (execution.action now w)).holding w' = some held := hheld
      rw [step_holding_none] at hheld'
      split at hheld'
      · cases hheld'
      · rename_i hne
        obtain ⟨handling, hh, hphase⟩ := h w' held hheld'
        exact ⟨handling, by simp [Bus.setHandling, hne, hh], hphase⟩
    · exact h
  | ack w =>
    simp only [Bus.step, Bus.ack]
    split
    · rename_i message id hh
      exact h.setHandling none (h.holding fun handling hh' => by rw [hh] at hh'; cases hh'; simp)
    · rename_i message id hh
      exact h.setHandling none (h.holding fun handling hh' => by rw [hh] at hh'; cases hh'; simp)
    · exact h
  | crash w =>
    intro w' held hheld
    have hheld' : (if w' = w then none else b.platform.holding w') = some held := hheld
    split at hheld'
    · cases hheld'
    · rename_i hne
      obtain ⟨handling, hh, hphase⟩ := h w' held hheld'
      exact ⟨handling, by simp [Bus.step, Bus.setHandling, hne, hh], hphase⟩

theorem after_inv (cfg : Settings) (events : List Event) : (Bus.after cfg events).Inv := by
  have hboth := run_invariant (P := fun b : Bus => b.Inv ∧ b.Idle)
    (fun b e hb => ⟨hb.1.step hb.2 cfg e, hb.2.step cfg e⟩) ⟨initial_inv, initial_idle⟩ events
  exact hboth.1

end Bus

/-- In every state that the platform reaches with its relays, its broker and its workers, every
queued task has a pending outbox row or an unacknowledged message, and every outbox row that is
sent or gone was published. -/
theorem queued_has_message (cfg : Settings) (events : List Event) :
    (∀ id row, (Bus.after cfg events).platform.db.tasks.get id = some row → row.status = .queued →
      (∃ k e, (Bus.after cfg events).platform.db.outbox.get k = some e ∧ e.status = .pending ∧
        e.payload.taskId = id) ∨
      ∃ m payload, (Bus.after cfg events).messages.get m = some payload ∧ payload.taskId = id) ∧
    ∀ k, 1 ≤ k → k < (Bus.after cfg events).platform.db.outbox.next →
      (∀ e, (Bus.after cfg events).platform.db.outbox.get k = some e → e.status = .sent) →
      k ∈ (Bus.after cfg events).published := by
  have h := (Bus.after_inv cfg events).outbox
  refine ⟨fun id row hrow hq => ?_, fun k hk hlt hsent => ?_⟩
  · obtain ⟨k, e, he, hs, ht, -⟩ | ⟨m, payload, hm, ht, -⟩ := h.supported id row hrow hq
    · exact .inl ⟨k, e, he, hs, ht⟩
    · exact .inr ⟨m, payload, hm, ht⟩
  · obtain hp | ⟨e, he, hs⟩ := h.accounted k hk hlt
    · exact hp
    · rw [hsent e he] at hs
      cases hs

end TaskPlatform
