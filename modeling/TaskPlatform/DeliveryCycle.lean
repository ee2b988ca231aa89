import TaskPlatform.Dispatch

/-!
# The life of a webhook delivery

A delivery is an item that is tried again: a turn of the dispatcher attempts it or closes it, and
nothing else touches it until it is deleted. So the invariant of such items gives the bound, the
count and the spacing of its POSTs. A delivery that is not pending any more is not taken by any
tick.
-/

namespace TaskPlatform

open Run

def Post.attempt (post : Post) : Retry.Attempt Time := ⟨post.now, post.ok⟩

/-- The policy of the dispatcher. -/
def WebhookSettings.policy (ws : WebhookSettings) : Retry.Policy Time where
  limit := ws.webhookMaxAttempts
  next now n := now + retryDelay ws n

def Dispatcher.log (s : Dispatcher) (id : Nat) : List (Retry.Attempt Time) :=
  (s.postsOf id).map Post.attempt

/-- A delivery as an item that is tried again. -/
def WebhookDelivery.item (delivery : WebhookDelivery) (log : List (Retry.Attempt Time)) :
    Retry.Item Time where
  isOpen := delivery.status == .pending
  failed := delivery.attempts
  notBefore := delivery.nextRetryAt
  log := log

theorem WebhookDelivery.item_abandoned (delivery : WebhookDelivery)
    (log : List (Retry.Attempt Time)) :
    delivery.abandoned.item log = (delivery.item log).close := rfl

/-- A POST is an attempt. -/
theorem WebhookDelivery.item_answered (ws : WebhookSettings) (now : Time) (sent : Sent)
    {delivery : WebhookDelivery} (hpending : delivery.status = .pending)
    (log : List (Retry.Attempt Time)) :
    (delivery.answered ws now sent).item (log ++ [⟨now, sent.ok⟩]) =
      (delivery.item log).attempt ws.policy now sent.ok := by
  unfold WebhookDelivery.answered Retry.Item.attempt
  by_cases hok : sent.ok = true
  · rw [if_pos hok, if_pos hok]
    rfl
  · rw [if_neg hok, if_neg hok]
    by_cases hlimit : ws.webhookMaxAttempts ≤ delivery.attempts + 1
    · rw [if_pos hlimit, if_pos (show ws.policy.limit ≤ (delivery.item log).failed + 1 from hlimit)]
      rfl
    · rw [if_neg hlimit,
        if_neg (show ¬ ws.policy.limit ≤ (delivery.item log).failed + 1 from hlimit)]
      simp [WebhookDelivery.item, hpending, WebhookSettings.policy]

theorem delivery_setDelivery (s : Dispatcher) (id : Nat) (delivery : WebhookDelivery) (i : Nat) :
    (s.setDelivery id delivery).delivery i =
      if i = id then (s.delivery i).map (fun _ => delivery) else s.delivery i :=
  Table.get_modify _ _ _ _

@[simp] theorem postsOf_setDelivery (s : Dispatcher) (id : Nat) (delivery : WebhookDelivery)
    (i : Nat) : (s.setDelivery id delivery).postsOf i = s.postsOf i := rfl

/-- A turn leaves the other deliveries alone. -/
theorem dispatchTurn_other (ws : WebhookSettings) (now : Time) (send : Nat → Sent)
    (s : Dispatcher) (r : Nat × WebhookDelivery) {id : Nat} (hid : id ≠ r.1) :
    (dispatchTurn ws now send s r).delivery id = s.delivery id ∧
      (dispatchTurn ws now send s r).postsOf id = s.postsOf id := by
  unfold dispatchTurn
  split
  · constructor
    · change (s.setDelivery r.1 _).delivery id = _
      rw [delivery_setDelivery, if_neg hid]
    · simp [Dispatcher.postsOf, hid.symm]
  · rw [delivery_setDelivery, if_neg hid]
    exact ⟨rfl, rfl⟩

/-- A turn closes its delivery or attempts it. -/
theorem dispatchTurn_self (ws : WebhookSettings) (now : Time) (send : Nat → Sent)
    {s : Dispatcher} {r : Nat × WebhookDelivery} (hr : s.delivery r.1 = some r.2)
    (hpending : r.2.status = .pending) :
    ∃ delivery, (dispatchTurn ws now send s r).delivery r.1 = some delivery ∧
      (delivery.item ((dispatchTurn ws now send s r).log r.1) = (r.2.item (s.log r.1)).close ∨
        delivery.item ((dispatchTurn ws now send s r).log r.1) =
          (r.2.item (s.log r.1)).attempt ws.policy now (send r.1).ok) := by
  unfold dispatchTurn
  split
  · refine ⟨r.2.answered ws now (send r.1), ?_, .inr ?_⟩
    · change (s.setDelivery r.1 _).delivery r.1 = _
      rw [delivery_setDelivery, if_pos rfl, hr]
      rfl
    · rw [← WebhookDelivery.item_answered ws now (send r.1) hpending]
      simp [Dispatcher.log, Dispatcher.postsOf, Post.attempt]
  · refine ⟨r.2.abandoned, ?_, .inl ?_⟩
    · rw [delivery_setDelivery, if_pos rfl, hr]
      rfl
    · rw [← WebhookDelivery.item_abandoned]
      rfl

@[simp] theorem dispatchTurn_next (ws : WebhookSettings) (now : Time) (send : Nat → Sent)
    (s : Dispatcher) (r : Nat × WebhookDelivery) :
    (dispatchTurn ws now send s r).platform.db.deliveries.next =
      s.platform.db.deliveries.next := by
  unfold dispatchTurn
  split <;> rfl

/-- Every delivery is a sound item, and the POSTs of a deleted one are kept in mind. -/
structure Dispatcher.Inv (ws : WebhookSettings) (s : Dispatcher) (c : Time) : Prop where
  unposted : ∀ id, s.platform.db.deliveries.next ≤ id → s.postsOf id = []
  items : ∀ id delivery, s.delivery id = some delivery →
    (delivery.item (s.log id)).Sound ws.policy c
  kept : ∀ id, Retry.Kept ws.policy (s.log id)

theorem Dispatcher.initial_inv (ws : WebhookSettings) (c : Time) :
    Dispatcher.initial.Inv ws c where
  unposted _ _ := rfl
  items id delivery h := by cases h
  kept id := by
    refine ⟨Nat.zero_le _, fun earlier a later he => ?_⟩
    exact absurd he.symm (List.append_ne_nil_of_right_ne_nil _ (List.cons_ne_nil _ _))

theorem Dispatcher.Inv.later {ws : WebhookSettings} {s : Dispatcher} {c now : Time}
    (h : s.Inv ws c) (hc : c ≤ now) : s.Inv ws now :=
  ⟨h.unposted, fun id delivery hget => (h.items id delivery hget).later hc, h.kept⟩

/-- A transaction of the platform only queues and deletes. -/
theorem Dispatcher.Inv.run {ws : WebhookSettings} {s : Dispatcher} {c : Time} (h : s.Inv ws c)
    (hmax : 1 ≤ ws.webhookMaxAttempts) (cfg : Settings) (a : Action) :
    (s.step cfg ws (.run a)).Inv ws c := by
  have hqueues := step_queues cfg s.platform a
  refine ⟨fun id hid => h.unposted id (hqueues.next.trans hid), fun id delivery hget => ?_, h.kept⟩
  obtain hold | ⟨hid, hpending, hattempts⟩ := hqueues.rows id delivery hget
  · exact h.items id delivery hold
  · have hlog : s.log id = [] := by rw [Dispatcher.log, h.unposted id hid, List.map_nil]
    have hitem : delivery.item ((s.step cfg ws (.run a)).log id) =
        ⟨true, 0, delivery.nextRetryAt, []⟩ := by
      change delivery.item (s.log id) = _
      rw [hlog, WebhookDelivery.item, hpending, hattempts]
      rfl
    rw [hitem]
    exact Retry.Item.Sound.fresh (P := ws.policy) hmax c delivery.nextRetryAt true

/-- One turn of a tick. -/
theorem Dispatcher.Inv.turn {ws : WebhookSettings} {s : Dispatcher} {now : Time}
    (h : s.Inv ws now) (send : Nat → Sent) {r : Nat × WebhookDelivery}
    (hr : s.delivery r.1 = some r.2) (hdue : isDeliverable now r.2 = true) :
    (dispatchTurn ws now send s r).Inv ws now := by
  simp only [isDeliverable, Bool.and_eq_true, beq_iff_eq, decide_eq_true_eq] at hdue
  obtain ⟨hpending, hnot⟩ := hdue
  have hsound := h.items r.1 r.2 hr
  obtain ⟨delivery, hget, hitem⟩ := dispatchTurn_self ws now send hr hpending
  have hafter : (delivery.item ((dispatchTurn ws now send s r).log r.1)).Sound ws.policy now := by
    obtain hitem | hitem := hitem
    · rw [hitem]
      exact hsound.close
    · rw [hitem]
      exact hsound.attempt (beq_iff_eq.mpr hpending) le_rfl hnot _
  refine ⟨fun id hid => ?_, fun id delivery' hget' => ?_, fun id => ?_⟩
  · rw [dispatchTurn_next] at hid
    have hne : id ≠ r.1 := by
      have hlt := Table.get_lt hr
      omega
    rw [(dispatchTurn_other ws now send s r hne).2]
    exact h.unposted id hid
  · by_cases hid : id = r.1
    · subst hid
      rw [hget] at hget'
      cases hget'
      exact hafter
    · obtain ⟨hsame, hposts⟩ := dispatchTurn_other ws now send s r hid
      rw [hsame] at hget'
      rw [Dispatcher.log, hposts]
      exact h.items id delivery' hget'
  · by_cases hid : id = r.1
    · subst hid
      exact hafter.kept
    · rw [Dispatcher.log, (dispatchTurn_other ws now send s r hid).2]
      exact h.kept id

/-- What the turns of a tick have still to do. -/
def Remaining (now : Time) (rows : List (Nat × WebhookDelivery)) (s : Dispatcher) : Prop :=
  (rows.map Prod.fst).Nodup ∧
    ∀ r ∈ rows, s.delivery r.1 = some r.2 ∧ isDeliverable now r.2 = true

theorem Remaining.turn {ws : WebhookSettings} {now : Time} {s : Dispatcher}
    {r : Nat × WebhookDelivery} {rows : List (Nat × WebhookDelivery)}
    (h : Remaining now (r :: rows) s) (send : Nat → Sent) :
    Remaining now rows (dispatchTurn ws now send s r) := by
  obtain ⟨hnodup, hrows⟩ := h
  rw [List.map_cons, List.nodup_cons] at hnodup
  refine ⟨hnodup.2, fun q hq => ?_⟩
  have hne : q.1 ≠ r.1 := fun he => hnodup.1 (he ▸ List.mem_map_of_mem hq)
  rw [(dispatchTurn_other ws now send s r hne).1]
  exact hrows q (List.mem_cons_of_mem _ hq)

theorem dueDeliveries_remaining (now : Time) (limit : Nat) (locked : Nat → Bool)
    (s : Dispatcher) : Remaining now (dueDeliveries now limit locked s.platform.db) s := by
  constructor
  · rw [dueDeliveries, List.map_take]
    exact (Table.select_nodup _ _).sublist (List.take_sublist _ _)
  · rintro ⟨id, delivery⟩ hr
    obtain ⟨hget, hcond⟩ := (Table.mem_select _ _ _ _).mp (List.mem_of_mem_take hr)
    rw [Bool.and_eq_true] at hcond
    exact ⟨hget, hcond.1⟩

theorem Dispatcher.Inv.turns {ws : WebhookSettings} {now : Time} (send : Nat → Sent)
    {rows : List (Nat × WebhookDelivery)} {s : Dispatcher} (h : s.Inv ws now)
    (hrows : Remaining now rows s) : (rows.foldl (dispatchTurn ws now send) s).Inv ws now := by
  induction rows generalizing s with
  | nil => exact h
  | cons r rows ih =>
    obtain ⟨hr, hdue⟩ := hrows.2 r List.mem_cons_self
    exact ih (h.turn send hr hdue) (hrows.turn send)

theorem Dispatcher.Inv.step {ws : WebhookSettings} (hmax : 1 ≤ ws.webhookMaxAttempts)
    (cfg : Settings) {s : Dispatcher} {c : Time} (h : s.Inv ws c) (a : DispatcherAction)
    (hclock : ∀ now ∈ a.tick, c ≤ now) : (s.step cfg ws a).Inv ws (a.tick.getD c) := by
  cases a with
  | run a => exact h.run hmax cfg a
  | dispatchDue now limit locked send =>
    exact (h.later (hclock now rfl)).turns send (dueDeliveries_remaining now limit locked s)

/-- The delivery has this status, if it is not deleted, and these POSTs. -/
structure Dispatcher.Settled (id : Nat) (status : DeliveryStatus) (posts : List Post)
    (s : Dispatcher) : Prop where
  known : id < s.platform.db.deliveries.next
  status : ∀ delivery, s.delivery id = some delivery → delivery.status = status
  posts : s.postsOf id = posts

theorem foldl_dispatchTurn_other (ws : WebhookSettings) (now : Time) (send : Nat → Sent)
    {rows : List (Nat × WebhookDelivery)} {id : Nat} (hid : id ∉ rows.map Prod.fst)
    (s : Dispatcher) :
    (rows.foldl (dispatchTurn ws now send) s).delivery id = s.delivery id ∧
      (rows.foldl (dispatchTurn ws now send) s).postsOf id = s.postsOf id ∧
      (rows.foldl (dispatchTurn ws now send) s).platform.db.deliveries.next =
        s.platform.db.deliveries.next := by
  induction rows generalizing s with
  | nil => exact ⟨rfl, rfl, rfl⟩
  | cons r rows ih =>
    rw [List.map_cons, List.mem_cons, not_or] at hid
    obtain ⟨hget, hposts⟩ := dispatchTurn_other ws now send s r hid.1
    obtain ⟨hget', hposts', hnext'⟩ := ih hid.2 (dispatchTurn ws now send s r)
    rw [List.foldl_cons, hget', hposts', hnext', hget, hposts, dispatchTurn_next]
    exact ⟨rfl, rfl, rfl⟩

/-- No step touches a delivery that is not pending, except to delete it. -/
theorem Dispatcher.Settled.step {id : Nat} {status : DeliveryStatus} {posts : List Post}
    {s : Dispatcher} (h : s.Settled id status posts) (hstatus : status ≠ .pending)
    (cfg : Settings) (ws : WebhookSettings) (a : DispatcherAction) :
    (s.step cfg ws a).Settled id status posts := by
  cases a with
  | run a =>
    have hqueues := step_queues cfg s.platform a
    refine ⟨h.known.trans_le hqueues.next, fun delivery hget => ?_, h.posts⟩
    obtain hold | ⟨hid, -⟩ := hqueues.rows id delivery hget
    · exact h.status delivery hold
    · exact absurd h.known (Nat.not_lt.mpr hid)
  | dispatchDue now limit locked send =>
    have hid : id ∉ (dueDeliveries now limit locked s.platform.db).map Prod.fst := by
      intro hid
      obtain ⟨r, hr, rfl⟩ := List.mem_map.mp hid
      obtain ⟨hget, hdue⟩ := (dueDeliveries_remaining now limit locked s).2 r hr
      simp only [isDeliverable, Bool.and_eq_true, beq_iff_eq] at hdue
      exact hstatus ((h.status r.2 hget).symm.trans hdue.1)
    obtain ⟨hget, hposts, hnext⟩ := foldl_dispatchTurn_other ws now send hid s
    refine ⟨?_, fun delivery hdelivery => ?_, hposts.trans h.posts⟩
    · exact h.known.trans_le hnext.ge
    · exact h.status delivery (hget.symm.trans hdelivery)

/-- What the POSTs of a delivery and its row say at any time. -/
structure Dispatcher.Lived (ws : WebhookSettings) (s : Dispatcher) (id : Nat) : Prop where
  bounded : (s.postsOf id).length ≤ ws.webhookMaxAttempts
  spaced : ∀ earlier post later, s.postsOf id = earlier ++ post :: later → ∀ next ∈ later,
    post.ok = false ∧
      post.now + retryDelay ws (earlier.countP (fun p => !p.ok) + 1) ≤ next.now
  counted : ∀ delivery, s.delivery id = some delivery →
    delivery.attempts = (s.postsOf id).countP (fun p => !p.ok)
  below : ∀ delivery, s.delivery id = some delivery → delivery.status = .pending →
    delivery.attempts < ws.webhookMaxAttempts

theorem failures_map_attempt (posts : List Post) :
    Retry.failures (posts.map Post.attempt) = posts.countP (fun p => !p.ok) :=
  List.countP_map

theorem Dispatcher.Inv.lived {ws : WebhookSettings} {s : Dispatcher} {c : Time} (h : s.Inv ws c)
    (id : Nat) : s.Lived ws id where
  bounded := by
    have hbounded := (h.kept id).bounded
    rw [Dispatcher.log, List.length_map] at hbounded
    exact hbounded
  spaced := by
    intro earlier post later he next hnext
    have hlog : s.log id =
        earlier.map Post.attempt ++ post.attempt :: later.map Post.attempt := by
      rw [Dispatcher.log, he, List.map_append, List.map_cons]
    have hspaced := (h.kept id).spaced _ _ _ hlog next.attempt (List.mem_map_of_mem hnext)
    rw [failures_map_attempt] at hspaced
    exact hspaced
  counted := by
    intro delivery hget
    have hcounted := (h.items id delivery hget).counted
    rw [WebhookDelivery.item, Dispatcher.log, failures_map_attempt] at hcounted
    exact hcounted
  below := by
    intro delivery hget hpending
    exact ((h.items id delivery hget).waiting (beq_iff_eq.mpr hpending)).below

/-- In every run with ticks in the order of time a delivery has at most the allowed number of POSTs,
each after a failure and its backoff; its counter is the number of the failed ones; and once it is
not pending any more it keeps its status and its POSTs. -/
theorem delivery_lifecycle (cfg : Settings) (ws : WebhookSettings)
    (hmax : 1 ≤ ws.webhookMaxAttempts) (acts : List DispatcherAction)
    (hclock : (acts.filterMap DispatcherAction.tick).Pairwise (· ≤ ·)) (id : Nat) :
    (Dispatcher.after cfg ws acts).Lived ws id ∧
      ∀ xs ys, acts = xs ++ ys → ∀ delivery,
        (Dispatcher.after cfg ws xs).delivery id = some delivery → delivery.status ≠ .pending →
          (∀ delivery', (Dispatcher.after cfg ws acts).delivery id = some delivery' →
            delivery'.status = delivery.status) ∧
          (Dispatcher.after cfg ws acts).postsOf id = (Dispatcher.after cfg ws xs).postsOf id := by
  constructor
  · obtain ⟨c, hforward⟩ := forward_of_pairwise hclock
    obtain ⟨now, hinv⟩ := run_of_forward (P := Dispatcher.Inv ws)
      (fun s c a hs ha => hs.step hmax cfg a ha) (Dispatcher.initial_inv ws c) hforward
    exact hinv.lived id
  · rintro xs ys rfl delivery hget hstatus
    have hsettled : (Dispatcher.after cfg ws xs).Settled id delivery.status
        ((Dispatcher.after cfg ws xs).postsOf id) := by
      refine ⟨Table.get_lt hget, fun delivery' hget' => ?_, rfl⟩
      rw [hget] at hget'
      cases hget'
      rfl
    have hlater := run_invariant (P := Dispatcher.Settled id delivery.status _)
      (fun s a hs => hs.step hstatus cfg ws a) hsettled ys
    rw [Dispatcher.after, Dispatcher.after, run_append]
    exact ⟨hlater.status, hlater.posts⟩

/-- A delivery whose first POST fails and whose second one succeeds. -/
def retriedDelivery : List DispatcherAction :=
  [.run (.putWebhook none ⟨["*"], true⟩), .run (.createTask 0 plainSpec),
    .dispatchDue 10 100 (fun _ => false) (fun _ => ⟨false, "HTTP 500"⟩),
    .dispatchDue 20 100 (fun _ => false) (fun _ => ⟨true, ""⟩),
    .dispatchDue 60000010 100 (fun _ => false) (fun _ => ⟨true, ""⟩)]

theorem delivery_lifecycle_retried :
    (Dispatcher.after .default .default retriedDelivery).Lived .default 1 :=
  (delivery_lifecycle .default .default (by decide) retriedDelivery (by decide) 1).1

end TaskPlatform
