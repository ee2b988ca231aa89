import TaskPlatform.Lib.Slots
import TaskPlatform.RequestSteps

/-!
# Idempotent creation

However the statements of creation requests are mixed, a key belongs to at most one
task, and what a request has lost leaves no row. The unique index keeps the keys of
the committed rows and of all open transactions apart; every id is drawn by one
request, and only a request that answers 201 commits rows, all of ids that it has
finished.
-/

namespace TaskPlatform.Requests

open Run Slots

/-- The id is drawn already. -/
def Service.Drawn (s : Service) : Subject → Prop
  | .task id => id < s.nextTask
  | .batch id => id < s.nextBatch

/-- The tasks that a 2xx answer names. -/
def Answer.ids : Answer → Option (List TaskId)
  | .replayed id => some [id]
  | .created ids _ => some ids
  | _ => none

/-- The answer names one task, and this has the key of the spec. -/
def Answer.Names (answer : Answer) (spec : TaskSpec) (rows : Rows) : Prop :=
  ∀ ids, answer.ids = some ids →
    ∃ t ∈ rows.tasks, ids = [t.1] ∧ t.2.idempotencyKey = spec.idempotencyKey

/-- What a statement of the request `i` can do: nothing that others see, draw an id, insert a free
key, or commit. -/
inductive Effect (s : Service) (i : Nat) (c : Session) : Session → Service → Prop where
  | keep {c' : Session} (n : Nat) : c'.drawn = c.drawn → c'.rows.keys.Sublist c.rows.keys →
      (∀ ids conflicts, c'.stage ≠ .answered (.created ids conflicts)) →
      (∀ answer, c'.stage = .answered answer → ∀ spec, c.request = .single spec →
        answer.Names spec s.committed) →
      Effect s i c c' { s with nextDelivery := n }
  | draw {c' : Session} {s' : Service} (x : Subject) : s'.committed = s.committed →
      s'.sessions = s.sessions → ¬ s.Drawn x → s'.Drawn x → (∀ y, s.Drawn y → s'.Drawn y) →
      c'.drawn = c.drawn ++ [x] → c'.rows.keys = c.rows.keys → c'.stage.isAnswered = false →
      Effect s i c c' s'
  | insert {c' : Session} (key : Option String) : c'.drawn = c.drawn →
      c'.rows.keys = c.rows.keys ++ key.toList →
      (∀ k ∈ key, k ∉ s.committed.keys ∧ k ∉ c.rows.keys ∧
        ∀ (j : Nat) (d : Session), s.sessions[j]? = some d → j ≠ i → k ∉ d.rows.keys) →
      c'.stage.isAnswered = false → Effect s i c c' s
  | commit : c.current = {} → c.remaining = [] →
      Effect s i c (c.close (.created c.created (c.conflicts.map Prod.snd)))
        { s with committed := s.committed ++ c.done }

theorem heldByOther_eq_false {s : Service} {i : Nat} {key : String}
    (h : s.heldByOther i key = false) {j : Nat} {d : Session} (hd : s.sessions[j]? = some d)
    (hne : j ≠ i) : key ∉ d.rows.keys := by
  rw [Service.heldByOther, List.any_eq_false] at h
  have hj := h (d, j) (List.mem_zipIdx_iff_getElem?.mpr hd)
  intro hmem
  apply hj
  simp only [Bool.and_eq_true, bne_iff_ne, decide_eq_true_eq]
  exact ⟨hne, hmem⟩

/-- A roll-back is seen by nobody. -/
theorem Effect.close (s : Service) (i : Nat) (c : Session) {answer : Answer}
    (h : answer.ids = none) : Effect s i c (c.close answer) s := by
  refine .keep s.nextDelivery rfl (List.nil_sublist _) ?_ ?_
  · intro ids conflicts he
    cases he
    cases h
  · intro answer' he spec _ ids hids
    cases he
    rw [h] at hids
    cases hids

theorem Effect.raise (s : Service) (i : Nat) (c : Session) (e : Raised) :
    Effect s i c (c.raise e) s := by
  unfold Session.raise
  split <;> exact .close s i c rfl

/-- A change of the session that leaves its rows as they are. -/
theorem Effect.same {s : Service} {i : Nat} {c c' : Session} (hdrawn : c'.drawn = c.drawn)
    (hkeys : c'.rows.keys = c.rows.keys) (hopen : c'.stage.isAnswered = false) :
    Effect s i c c' s := by
  have hnot : ∀ answer, c'.stage ≠ .answered answer := by
    intro answer he
    rw [he] at hopen
    cases hopen
  exact .keep s.nextDelivery hdrawn (hkeys ▸ List.Sublist.refl _) (fun _ _ => hnot _)
    (fun answer he => absurd he (hnot answer))

/-- The request `i` goes on as `c'`, and what else it does is an effect. -/
def Goes (s : Service) (i : Nat) (c : Session) (s' : Service) : Prop :=
  ∃ c' s₀, s' = Service.put s₀ i c' ∧ c'.Ok ∧ c'.request = c.request ∧ Effect s i c c' s₀

section

variable {cfg : Config} {s : Service} {i : Nat} {c : Session} (hok : c.Ok)

theorem raise_request (c : Session) (e : Raised) : (c.raise e).request = c.request := by
  obtain ⟨answer, heq, -⟩ := c.raise_eq_close e
  rw [heq]
  rfl

theorem violate_request (c : Session) (id : TaskId) (spec : TaskSpec) :
    (c.violate id spec).request = c.request := by
  unfold Session.violate
  split
  · rfl
  · exact raise_request c _

theorem getByIdempotencyKey_names {spec : TaskSpec} {rows : Rows} {id : TaskId}
    (h : spec.idempotencyKey.bind rows.getByIdempotencyKey = some id) :
    ∃ t ∈ rows.tasks, [id] = [t.1] ∧ t.2.idempotencyKey = spec.idempotencyKey := by
  obtain ⟨key, hkey, hfound⟩ := Option.bind_eq_some_iff.mp h
  obtain ⟨t, ht, rfl⟩ := Option.map_eq_some_iff.mp hfound
  have hmatch := List.find?_some ht
  rw [beq_iff_eq] at hmatch
  exact ⟨t, List.mem_of_find?_eq_some ht, rfl, hmatch.trans hkey.symm⟩

include hok

theorem raise_goes (e : Raised) : Goes s i c (s.put i (c.raise e)) := by
  refine ⟨_, s, rfl, ?_, raise_request c e, .raise s i c e⟩
  obtain ⟨answer, heq, -⟩ := c.raise_eq_close e
  rw [heq]
  exact hok.close answer

theorem begin_goes (hstage : c.stage = .begun) : Goes s i c (s.begin cfg i c) := by
  have hcurrent : c.current = {} := hok.current (by rw [hstage]; intro _ _ _ _ h; cases h)
  have hopen : c.stage.isAnswered = false := by rw [hstage]; rfl
  have hdone : c.done = {} := hok.unwritten (by rw [hstage]; rfl)
  have hturn : Goes s i c (s.put i { c with stage := .turn }) :=
    ⟨_, s, rfl, hok.idle hopen hcurrent rfl rfl (by rw [Session.remaining, hstage]; rfl), rfl,
      .same rfl rfl rfl⟩
  unfold Service.begin
  split
  · rename_i spec hrequest
    split
    · rename_i id hfound
      refine ⟨_, s, rfl, hok.replay hcurrent hdone id, rfl, .keep s.nextDelivery rfl
        (List.Sublist.refl _) (by intro _ _ h; cases h) ?_⟩
      intro answer he spec' hrequest' ids hids
      cases he
      cases hids
      cases hrequest.symm.trans hrequest'
      exact getByIdempotencyKey_names hfound
    · exact hturn
  · exact hturn
  · rename_i name createdBy specs hrequest
    split
    · exact raise_goes hok _
    · refine ⟨_, _, rfl, hok.batch hopen hcurrent hrequest _ _ _, rfl, .draw (.batch s.nextBatch)
        rfl rfl (lt_irrefl _) (Nat.lt_succ_self _) ?_ rfl ?_ rfl⟩
      · intro y hy
        cases y with
        | task id => exact hy
        | batch id => exact Nat.lt_succ_of_lt hy
      · simp [Session.rows, Rows.keys]

theorem check_goes {id : TaskId} {spec : TaskSpec} (hstage : c.stage = .check id spec)
    (now : Time) : s.check cfg i c now id spec = s ∨ Goes s i c (s.check cfg i c now id spec) := by
  have hworking : c.stage.current = some (id, spec) := by rw [hstage]; rfl
  have hcurrent : c.current = {} := hok.current (by rw [hstage]; intro _ _ _ _ h; cases h)
  unfold Service.check
  split
  · refine .inr ⟨_, s, rfl, hok.violate hworking, violate_request c id spec, ?_⟩
    unfold Session.violate
    split
    · refine .same rfl ?_ rfl
      rw [Session.rows, Session.rows, hcurrent]
    · exact .raise s i c _
  · rename_i hfree
    split
    · exact .inl rfl
    · rename_i hunheld
      split
      · exact .inr (raise_goes hok _)
      · refine .inr ⟨_, s, rfl, hok.write hworking (creation_writing _ now id spec), rfl,
          .insert spec.idempotencyKey rfl ?_ ?_ rfl⟩
        · rw [Session.rows, Session.rows, hcurrent, Rows.keys_append, Rows.keys_append,
            (creation_writing cfg.settings now id spec).holds.keys]
          simp
        · intro k hk
          rw [Option.mem_def.mp hk] at hfree hunheld
          simp only [Option.any_some, decide_eq_true_eq, Rows.keys_append, List.mem_append,
            not_or] at hfree
          simp only [Option.any_some, Bool.not_eq_true] at hunheld
          refine ⟨hfree.1, ?_, fun j d hd hne => heldByOther_eq_false hunheld hd hne⟩
          rw [Session.rows, hcurrent]
          simpa using hfree.2

/-- What a request does when nothing waits for a flush. -/
theorem proceed_goes {id : TaskId} {spec : TaskSpec} {next : Next}
    (hstage : c.stage = .write id spec [] next) (now : Time) (seen : Rows)
    (subs : List (Nat × WebhookSubscription)) :
    Goes s i c (s.put i (c.proceed now seen subs id spec next)) := by
  refine ⟨_, s, rfl, hok.proceed hstage now seen subs, ?_, ?_⟩
  · cases next with
    | parents parentIds =>
      simp only [Session.proceed]
      split
      · exact raise_request c _
      · split
        · exact raise_request c _
        · rfl
    | climb parentIds visited queue =>
      cases queue with
      | nil => rfl
      | cons current queue =>
        simp only [Session.proceed]
        split
        · exact raise_request c _
        · split
          · rfl
          · split
            · exact raise_request c _
            · rfl
    | notify eventType task rest => rfl
    | done => rfl
  · cases next with
    | parents parentIds =>
      simp only [Session.proceed]
      split
      · exact .raise s i c _
      · split
        · exact .raise s i c _
        · exact .same rfl rfl rfl
    | climb parentIds visited queue =>
      cases queue with
      | nil => exact .same rfl rfl rfl
      | cons current queue =>
        simp only [Session.proceed]
        split
        · exact .raise s i c _
        · split
          · exact .same rfl rfl rfl
          · split
            · exact .raise s i c _
            · exact .same rfl rfl rfl
    | notify eventType task rest => exact .same rfl rfl rfl
    | done =>
      refine .same rfl ?_ rfl
      simp [Session.proceed, Session.rows]

/-- A statement of an open request either waits or has an effect. -/
theorem advance_goes (hfresh : ∀ x ∈ c.drawn, s.Drawn x) (now : Time)
    (subs : List (Nat × WebhookSubscription)) :
    s.advance cfg i c now subs = s ∨ Goes s i c (s.advance cfg i c now subs) := by
  unfold Service.advance
  split
  · rename_i hstage
    exact .inr (begin_goes hok hstage)
  · rename_i hstage
    have hcurrent : c.current = {} := hok.current (by rw [hstage]; intro _ _ _ _ h; cases h)
    have hopen : c.stage.isAnswered = false := by rw [hstage]; rfl
    split
    · rename_i spec todo htodo
      refine .inr ⟨_, s, rfl, hok.idle hopen hcurrent rfl rfl ?_, rfl, .same rfl rfl rfl⟩
      rw [Session.remaining, hstage, htodo]
      rfl
    · rename_i htodo
      refine .inr ⟨_, _, rfl, hok.close _, rfl, .commit hcurrent ?_⟩
      rw [Session.remaining, hstage, htodo]
      rfl
  · rename_i spec hstage
    refine .inr ⟨_, _, rfl, hok.draw hstage ?_, rfl, .draw (.task s.nextTask) rfl rfl
      (lt_irrefl _) (Nat.lt_succ_self _) ?_ rfl rfl rfl⟩
    · intro hmem
      exact absurd (hfresh _ hmem) (lt_irrefl _)
    · intro y hy
      cases y with
      | task id => exact Nat.lt_succ_of_lt hy
      | batch id => exact hy
  · rename_i id spec hstage
    exact check_goes hok hstage now
  · rename_i id spec statement queue next hstage
    have hworking : c.stage.current = some (id, spec) := by rw [hstage]; rfl
    have hw := hok.writing id spec _ next hstage
    refine .inr ⟨_, _, rfl, hok.write hworking (hw.write s.nextDelivery), rfl,
      .keep _ rfl ?_ (by intro _ _ h; cases h) (by intro _ h; cases h)⟩
    rw [Session.rows, Session.rows, Rows.keys_append, Rows.keys_append, hw.holds.keys,
      (hw.write s.nextDelivery).holds.keys]
  · rename_i id spec next hstage
    exact .inr (proceed_goes hok hstage now _ subs)
  · exact .inl rfl

theorem fail_goes (hopen : c.stage.isAnswered = false) : Goes s i c (s.put i c.fail) := by
  unfold Session.fail
  split
  · rename_i answer hstage
    rw [hstage] at hopen
    cases hopen
  · exact ⟨_, s, rfl, hok.close _, rfl, .close s i c rfl⟩
  · exact raise_goes hok _

end

section

variable {s s' : Service} {i : Nat} {c c' : Session} (h : Effect s i c c' s')

include h

theorem Effect.sessions : s'.sessions = s.sessions := by
  cases h with
  | draw x hcommitted hsessions => exact hsessions
  | _ => rfl

theorem Effect.mono : ∀ x, s.Drawn x → s'.Drawn x := by
  cases h with
  | draw x hcommitted hsessions hnew hx hmono => exact hmono
  | _ =>
    intro x hx
    cases x <;> exact hx

/-- An id of the request is an old one, or is drawn now. -/
theorem Effect.drawn {x : Subject} (hx : x ∈ c'.drawn) :
    x ∈ c.drawn ∨ ¬ s.Drawn x ∧ s'.Drawn x := by
  cases h with
  | keep n hdrawn => exact .inl (hdrawn ▸ hx)
  | draw y hcommitted hsessions hnew hy hmono hdrawn =>
    rw [hdrawn] at hx
    rcases List.mem_append.mp hx with hx | hx
    · exact .inl hx
    · rw [List.mem_singleton.mp hx]
      exact .inr ⟨hnew, hy⟩
  | insert key hdrawn => exact .inl (hdrawn ▸ hx)
  | commit => exact .inl hx

/-- Committed rows stay. -/
theorem Effect.tasks : ∃ rows, s'.committed.tasks = s.committed.tasks ++ rows := by
  cases h with
  | keep n => exact ⟨[], (List.append_nil _).symm⟩
  | draw x hcommitted => exact ⟨[], by rw [hcommitted, List.append_nil]⟩
  | insert key => exact ⟨[], (List.append_nil _).symm⟩
  | commit => exact ⟨c.done.tasks, rfl⟩

end

theorem Answer.Names.mono {answer : Answer} {spec : TaskSpec} {r r' : Rows}
    (h : answer.Names spec r) (hsub : r.tasks ⊆ r'.tasks) : answer.Names spec r' := by
  intro ids hids
  obtain ⟨t, ht, hnames⟩ := h ids hids
  exact ⟨t, hsub ht, hnames⟩

/-- A committed creation from one spec names its task. -/
theorem Session.Single.names {c : Session} {spec : TaskSpec} (h : c.Single spec)
    (htasks : c.done.tasks.map Prod.fst = c.created) (hremaining : c.remaining = [])
    (conflicts : List TaskSpec) : (Answer.created c.created conflicts).Names spec c.done := by
  intro ids hids
  cases hids
  have hone := h.one
  rw [hremaining, ← htasks, List.length_map] at hone
  obtain ⟨t, ht⟩ := List.length_eq_one_iff.mp hone
  have hmem : t ∈ c.done.tasks := by rw [ht]; exact List.mem_cons_self
  refine ⟨t, hmem, ?_, h.rows t hmem⟩
  rw [← htasks, ht]
  rfl

structure Service.Inv (s : Service) : Prop where
  sessions : ∀ (i : Nat) (c : Session), s.sessions[i]? = some c → c.Ok
  fresh : ∀ (i : Nat) (c : Session), s.sessions[i]? = some c → ∀ x ∈ c.drawn, s.Drawn x
  apart : ∀ (i j : Nat) (c d : Session), s.sessions[i]? = some c → s.sessions[j]? = some d →
    ∀ x ∈ c.drawn, x ∈ d.drawn → i = j
  committed : ∀ x ∈ s.committed.subjects, ∃ (i : Nat) (c : Session) (ids : List TaskId)
    (conflicts : List TaskSpec), s.sessions[i]? = some c ∧
      c.stage = .answered (.created ids conflicts) ∧ c.Won x
  once : ∀ t ∈ s.committed.tasks, s.committed.creations t.1 = 1
  keys : ∀ (i : Nat) (c : Session), s.sessions[i]? = some c →
    (s.committed.keys ++ c.rows.keys).Nodup
  committedKeys : s.committed.keys.Nodup
  otherKeys : ∀ (i j : Nat) (c d : Session), s.sessions[i]? = some c → s.sessions[j]? = some d →
    i ≠ j → c.rows.keys.Disjoint d.rows.keys
  answers : ∀ (i : Nat) (c : Session), s.sessions[i]? = some c →
    ∀ answer, c.stage = .answered answer → ∀ spec, c.request = .single spec →
      answer.Names spec s.committed

theorem Service.initial_inv : Service.initial.Inv where
  sessions := by intro i c h; cases h
  fresh := by intro i c h; cases h
  apart := by intro i j c d h; cases h
  committed := by intro x hx; cases hx
  once := by intro t ht; cases ht
  keys := by intro i c h; cases h
  committedKeys := List.nodup_nil
  otherKeys := by intro i j c d h; cases h
  answers := by intro i c h; cases h

/-- A new request has neither ids nor rows. -/
theorem Service.Inv.arrive {s : Service} (h : s.Inv) (request : Request) :
    Service.Inv { s with sessions := s.sessions ++ [request.start] } where
  sessions i c hc := by
    obtain ⟨-, rfl⟩ | ⟨-, hc⟩ := getElem?_append_cases hc
    · exact request.start_ok
    · exact h.sessions i c hc
  fresh i c hc := by
    obtain ⟨-, rfl⟩ | ⟨-, hc⟩ := getElem?_append_cases hc
    · exact fun x hx => absurd hx List.not_mem_nil
    · exact h.fresh i c hc
  apart i j c d hc hd x hx hx' := by
    obtain ⟨-, rfl⟩ | ⟨-, hc⟩ := getElem?_append_cases hc
    · cases hx
    · obtain ⟨-, rfl⟩ | ⟨-, hd⟩ := getElem?_append_cases hd
      · cases hx'
      · exact h.apart i j c d hc hd x hx hx'
  committed x hx := by
    obtain ⟨i, c, ids, conflicts, hc, hwon⟩ := h.committed x hx
    exact ⟨i, c, ids, conflicts, getElem?_append_of_some hc, hwon⟩
  once := h.once
  keys i c hc := by
    obtain ⟨-, rfl⟩ | ⟨-, hc⟩ := getElem?_append_cases hc
    · rw [show request.start.rows.keys = [] from rfl, List.append_nil]
      exact h.committedKeys
    · exact h.keys i c hc
  committedKeys := h.committedKeys
  otherKeys i j c d hc hd hne := by
    obtain ⟨-, rfl⟩ | ⟨-, hc⟩ := getElem?_append_cases hc
    · exact List.disjoint_nil_left _
    · obtain ⟨-, rfl⟩ | ⟨-, hd⟩ := getElem?_append_cases hd
      · exact List.disjoint_nil_right _
      · exact h.otherKeys i j c d hc hd hne
  answers i c hc := by
    obtain ⟨-, rfl⟩ | ⟨-, hc⟩ := getElem?_append_cases hc
    · intro answer ha
      cases ha
    · exact h.answers i c hc

/-- No committed row is of an id of an open request. -/
theorem Service.Inv.uncommitted {s : Service} (h : s.Inv) {i : Nat} {c : Session}
    (hc : s.sessions[i]? = some c) (hopen : c.stage.isAnswered = false) {x : Subject}
    (hx : x ∈ s.committed.subjects) : x ∉ c.drawn := by
  intro hdrawn
  obtain ⟨j, d, ids, conflicts, hd, hanswered, hwon, -⟩ := h.committed x hx
  have hji := h.apart i j c d hc hd x hdrawn hwon
  subst hji
  cases hc.symm.trans hd
  rw [hanswered] at hopen
  cases hopen

section

variable {s s' : Service} {i : Nat} {c c' : Session} (h : s.Inv) (hc : s.sessions[i]? = some c)
  (hopen : c.stage.isAnswered = false) (heffect : Effect s i c c' s')

include h hc heffect

theorem Service.Inv.apart_put {j : Nat} {d : Session} (hd : s.sessions[j]? = some d) (hne : j ≠ i)
    {x : Subject} (hx : x ∈ c'.drawn) : x ∉ d.drawn := by
  intro hx'
  rcases heffect.drawn hx with hold | ⟨hnew, -⟩
  · exact hne (h.apart i j c d hc hd x hold hx').symm
  · exact hnew (h.fresh j d hd x hx')

theorem Service.Inv.keys_put : (s'.committed.keys ++ c'.rows.keys).Nodup := by
  have hkeys := h.keys i c hc
  cases heffect with
  | keep n hdrawn hsub => exact hkeys.sublist (List.Sublist.append_left hsub _)
  | draw x hcommitted hsessions hnew hx hmono hdrawn hsame => rwa [hcommitted, hsame]
  | insert key hdrawn hinserted hfree =>
    rw [hinserted, ← List.append_assoc]
    refine List.Nodup.append hkeys (by cases key <;> simp) ?_
    intro k hk hkey
    obtain ⟨hcommitted, hown, -⟩ := hfree k (Option.mem_toList.mp hkey)
    rcases List.mem_append.mp hk with hk | hk
    · exact hcommitted hk
    · exact hown hk
  | commit hcurrent =>
    rw [Session.rows, hcurrent, Rows.keys_append, Rows.keys_empty, List.append_nil] at hkeys
    rw [Rows.keys_append]
    exact (List.append_nil _).symm ▸ hkeys

theorem Service.Inv.keys_other {j : Nat} {d : Session} (hd : s.sessions[j]? = some d)
    (hne : j ≠ i) : (s'.committed.keys ++ d.rows.keys).Nodup := by
  have hkeys := h.keys j d hd
  cases heffect with
  | keep n => exact hkeys
  | draw x hcommitted => rwa [hcommitted]
  | insert key => exact hkeys
  | commit hcurrent =>
    have hown := h.keys i c hc
    have hother := h.otherKeys i j c d hc hd (Ne.symm hne)
    rw [Session.rows, hcurrent, Rows.keys_append, Rows.keys_empty, List.append_nil] at hown hother
    rw [Rows.keys_append]
    refine List.Nodup.append hown hkeys.of_append_right ?_
    intro k hk hk'
    rcases List.mem_append.mp hk with hk | hk
    · exact List.disjoint_of_nodup_append hkeys hk hk'
    · exact hother hk hk'

theorem Service.Inv.otherKeys_put {j : Nat} {d : Session} (hd : s.sessions[j]? = some d)
    (hne : j ≠ i) : c'.rows.keys.Disjoint d.rows.keys := by
  have hother := h.otherKeys i j c d hc hd (Ne.symm hne)
  cases heffect with
  | keep n hdrawn hsub => exact fun k hk => hother (hsub.subset hk)
  | draw x hcommitted hsessions hnew hx hmono hdrawn hsame => rwa [hsame]
  | insert key hdrawn hinserted hfree =>
    rw [hinserted]
    intro k hk hk'
    rcases List.mem_append.mp hk with hk | hk
    · exact hother hk hk'
    · exact (hfree k (Option.mem_toList.mp hk)).2.2 j d hd hne hk'
  | commit => exact List.disjoint_nil_left _

include hopen

theorem Service.Inv.once_put : ∀ t ∈ s'.committed.tasks, s'.committed.creations t.1 = 1 := by
  cases heffect with
  | keep n => exact h.once
  | draw x hcommitted =>
    rw [hcommitted]
    exact h.once
  | insert key => exact h.once
  | commit hcurrent hremaining =>
    have hok := h.sessions i c hc
    intro t ht
    rw [Rows.creations_append]
    rcases List.mem_append.mp ht with ht | ht
    · have hzero : c.done.creations t.1 = 0 := by
        apply Rows.creations_eq_zero
        intro hmem
        exact h.uncommitted hc hopen (Rows.mem_subjects_of_task ht)
          (hok.done _ hmem).1
      rw [h.once t ht, hzero]
    · have hzero : s.committed.creations t.1 = 0 := by
        apply Rows.creations_eq_zero
        intro hmem
        exact h.uncommitted hc hopen hmem
          (hok.done _ (Rows.mem_subjects_of_task ht)).1
      rw [hzero, hok.once t ht]

theorem Service.Inv.committed_put : ∀ x ∈ s'.committed.subjects, ∃ (j : Nat) (d : Session)
    (ids : List TaskId) (conflicts : List TaskSpec), (s.sessions.set i c')[j]? = some d ∧
      d.stage = .answered (.created ids conflicts) ∧ d.Won x := by
  have hold : ∀ x ∈ s.committed.subjects, ∃ (j : Nat) (d : Session) (ids : List TaskId)
      (conflicts : List TaskSpec), (s.sessions.set i c')[j]? = some d ∧
        d.stage = .answered (.created ids conflicts) ∧ d.Won x := by
    intro x hx
    obtain ⟨j, d, ids, conflicts, hd, hanswered, hwon⟩ := h.committed x hx
    refine ⟨j, d, ids, conflicts, ?_, hanswered, hwon⟩
    rw [List.getElem?_set_ne]
    · exact hd
    · rintro rfl
      cases hc.symm.trans hd
      rw [hanswered] at hopen
      cases hopen
  cases heffect with
  | keep n => exact hold
  | draw x hcommitted =>
    rw [hcommitted]
    exact hold
  | insert key => exact hold
  | commit =>
    intro x hx
    rcases (Rows.mem_subjects_append _ _ x).mp hx with hx | hx
    · exact hold x hx
    · exact ⟨i, _, _, _, getElem?_set_self hc, rfl, (h.sessions i c hc).done x hx⟩

theorem Service.Inv.answers_put : ∀ answer, c'.stage = .answered answer → ∀ spec,
    c.request = .single spec → answer.Names spec s'.committed := by
  intro answer ha spec hrequest
  have hnot : c'.stage.isAnswered = false → answer.Names spec s'.committed := by
    intro hfalse
    rw [ha] at hfalse
    cases hfalse
  cases heffect with
  | keep n hdrawn hsub hcreated hnames => exact hnames answer ha spec hrequest
  | draw x hcommitted hsessions hnew hx hmono hdrawn hsame hfalse => exact hnot hfalse
  | insert key hdrawn hinserted hfree hfalse => exact hnot hfalse
  | commit hcurrent hremaining =>
    cases ha
    have hok := h.sessions i c hc
    exact ((hok.single hopen spec hrequest).names (hok.tasks hopen) hremaining _).mono
      (List.subset_append_right _ _)

end

/-- An effect of an open request keeps the invariant. -/
theorem Service.Inv.goes {s s' : Service} {i : Nat} {c : Session} (h : s.Inv)
    (hc : s.sessions[i]? = some c) (hopen : c.stage.isAnswered = false) (hgoes : Goes s i c s') :
    s'.Inv := by
  obtain ⟨c', s₀, rfl, hok, hrequest, heffect⟩ := hgoes
  have hput : (s₀.put i c').sessions = s.sessions.set i c' :=
    congrArg (List.set · i c') heffect.sessions
  have honce : ∀ t ∈ s₀.committed.tasks, s₀.committed.creations t.1 = 1 :=
    h.once_put hc hopen heffect
  have hcommitted := h.committed_put hc hopen heffect
  have hkeys : (s₀.committed.keys ++ c'.rows.keys).Nodup := h.keys_put hc heffect
  rw [← hput] at hcommitted
  refine ⟨?_, ?_, ?_, hcommitted, honce, ?_, hkeys.of_append_left, ?_, ?_⟩
  · intro j d hd
    rw [hput] at hd
    obtain ⟨-, rfl⟩ | ⟨-, hd'⟩ := getElem?_set_cases hd
    · exact hok
    · exact h.sessions j d hd'
  · intro j d hd x hx
    rw [hput] at hd
    obtain ⟨-, rfl⟩ | ⟨-, hd'⟩ := getElem?_set_cases hd
    · rcases heffect.drawn hx with hold | ⟨-, hnew⟩
      · exact heffect.mono x (h.fresh i c hc x hold)
      · exact hnew
    · exact heffect.mono x (h.fresh j d hd' x hx)
  · intro j k d e hd he x hx hx'
    rw [hput] at hd he
    obtain ⟨rfl, rfl⟩ | ⟨hji, hd'⟩ := getElem?_set_cases hd
    · obtain ⟨rfl, -⟩ | ⟨hki, he'⟩ := getElem?_set_cases he
      · rfl
      · exact absurd hx' (h.apart_put hc heffect he' hki hx)
    · obtain ⟨rfl, rfl⟩ | ⟨-, he'⟩ := getElem?_set_cases he
      · exact absurd hx (h.apart_put hc heffect hd' hji hx')
      · exact h.apart j k d e hd' he' x hx hx'
  · intro j d hd
    rw [hput] at hd
    obtain ⟨-, rfl⟩ | ⟨hji, hd'⟩ := getElem?_set_cases hd
    · exact hkeys
    · exact h.keys_other hc heffect hd' hji
  · intro j k d e hd he hne
    rw [hput] at hd he
    obtain ⟨rfl, rfl⟩ | ⟨hji, hd'⟩ := getElem?_set_cases hd
    · obtain ⟨rfl, -⟩ | ⟨hki, he'⟩ := getElem?_set_cases he
      · exact absurd rfl hne
      · exact h.otherKeys_put hc heffect he' hki
    · obtain ⟨rfl, rfl⟩ | ⟨-, he'⟩ := getElem?_set_cases he
      · exact (h.otherKeys_put hc heffect hd' hji).symm
      · exact h.otherKeys j k d e hd' he' hne
  · intro j d hd answer ha spec hspec
    rw [hput] at hd
    obtain ⟨-, rfl⟩ | ⟨-, hd'⟩ := getElem?_set_cases hd
    · exact h.answers_put hc hopen heffect answer ha spec (hrequest ▸ hspec)
    · obtain ⟨rows, htasks⟩ := heffect.tasks
      exact (h.answers j d hd' answer ha spec hspec).mono
        (htasks ▸ List.subset_append_left _ _)

/-- A step leaves the service as it is, adds a request, or is a statement of an open request. -/
theorem Service.Inv.step_cases {s : Service} (h : s.Inv) (cfg : Config) (a : Action) :
    s.step cfg a = s ∨
      (∃ request : Request, s.step cfg a = { s with sessions := s.sessions ++ [request.start] }) ∨
      ∃ (i : Nat) (c : Session), s.sessions[i]? = some c ∧ c.stage.isAnswered = false ∧
        Goes s i c (s.step cfg a) := by
  cases a with
  | arrive request => exact .inr (.inl ⟨request, rfl⟩)
  | advance i now subs =>
    simp only [Service.step]
    split
    · exact .inl rfl
    · rename_i c hc
      cases hanswered : c.stage.isAnswered with
      | true =>
        obtain ⟨answer, hstage⟩ := Stage.eq_answered hanswered
        exact .inl (by simp only [Service.advance, hstage])
      | false =>
        rcases advance_goes (h.sessions i c hc) (h.fresh i c hc) now subs with hstays | hgoes
        · exact .inl hstays
        · exact .inr (.inr ⟨i, c, hc, hanswered, hgoes⟩)
  | fail i =>
    simp only [Service.step]
    split
    · exact .inl rfl
    · rename_i c hc
      cases hanswered : c.stage.isAnswered with
      | true =>
        obtain ⟨answer, hstage⟩ := Stage.eq_answered hanswered
        refine .inl ?_
        simp only [Service.put, Session.fail, hstage]
        obtain ⟨hlt, rfl⟩ := List.getElem?_eq_some_iff.mp hc
        rw [List.set_getElem_self]
      | false =>
        exact .inr (.inr ⟨i, c, hc, hanswered, fail_goes (h.sessions i c hc) hanswered⟩)

theorem Service.Inv.step {s : Service} (h : s.Inv) (cfg : Config) (a : Action) :
    (s.step cfg a).Inv := by
  obtain hsame | ⟨request, harrive⟩ | ⟨i, c, hc, hopen, hgoes⟩ := h.step_cases cfg a
  · rw [hsame]
    exact h
  · rw [harrive]
    exact h.arrive request
  · exact h.goes hc hopen hgoes

theorem Service.after_inv (cfg : Config) (acts : List Action) : (Service.after cfg acts).Inv :=
  run_invariant (fun _ a h => h.step cfg a) Service.initial_inv acts

/-- Committed tasks stay. -/
theorem Service.Inv.step_tasks {s : Service} (h : s.Inv) (cfg : Config) (a : Action) :
    s.committed.tasks <+: (s.step cfg a).committed.tasks := by
  obtain hsame | ⟨request, harrive⟩ | ⟨i, c, hc, hopen, c', s₀, hput, -, -, heffect⟩ :=
    h.step_cases cfg a
  · rw [hsame]
  · rw [harrive]
  · obtain ⟨rows, htasks⟩ := heffect.tasks
    rw [hput]
    exact ⟨rows, htasks.symm⟩

theorem Service.Inv.run_tasks {s : Service} (h : s.Inv) (cfg : Config) (acts : List Action) :
    s.committed.tasks <+: (run (Service.step cfg) s acts).committed.tasks := by
  induction acts generalizing s with
  | nil => exact List.prefix_refl _
  | cons a acts ih => exact (h.step_tasks cfg a).trans (ih (h.step cfg a))

/-- The committed tasks with a key. -/
def Rows.tasksWith (r : Rows) (key : String) : List (TaskId × Task) :=
  r.tasks.filter (fun t => t.2.idempotencyKey == some key)

/-- The ids of the creations that the request has lost: all of them after a 409 or a 400, else those
of its conflict entries. -/
def Session.lost (c : Session) : List Subject :=
  match c.stage with
  | .answered (.conflict _) => c.drawn
  | .answered (.badRequest _) => c.drawn
  | _ => c.conflicts.map (fun r => .task r.1)

theorem tasksWith_length {r : Rows} (h : r.keys.Nodup) (key : String) :
    (r.tasksWith key).length ≤ 1 := by
  have hcount : (r.tasksWith key).length = r.keys.count key := by
    rw [Rows.keys, List.count_filterMap, Rows.tasksWith, ← List.countP_eq_length_filter]
  rw [hcount]
  exact List.nodup_iff_count_le_one.mp h key

/-- A lost creation is of a request of its own, and not among those that it commits. -/
theorem Session.Ok.lost {c : Session} (h : c.Ok) {x : Subject} (hx : x ∈ c.lost) :
    x ∈ c.drawn ∧ ∀ ids conflicts, c.stage = .answered (.created ids conflicts) → ¬ c.Won x := by
  have hconflicts : x ∈ c.conflicts.map (fun r => Subject.task r.1) →
      x ∈ c.drawn ∧ ¬ c.Won x := by
    intro hmem
    obtain ⟨r, hr, rfl⟩ := List.mem_map.mp hmem
    exact ⟨(h.conflicts r hr).1, fun hwon => (h.conflicts r hr).2 (hwon.2 _ rfl)⟩
  unfold Session.lost at hx
  split at hx
  · rename_i message hstage
    refine ⟨hx, fun ids conflicts hcreated => ?_⟩
    cases hstage.symm.trans hcreated
  · rename_i e hstage
    refine ⟨hx, fun ids conflicts hcreated => ?_⟩
    cases hstage.symm.trans hcreated
  · exact ⟨(hconflicts hx).1, fun _ _ _ => (hconflicts hx).2⟩

/-- A lost creation has no committed row. -/
theorem Service.Inv.lost {s : Service} (h : s.Inv) {c : Session} (hc : c ∈ s.sessions)
    {x : Subject} (hx : x ∈ c.lost) : x ∉ s.committed.subjects := by
  obtain ⟨i, hi⟩ := List.mem_iff_getElem?.mp hc
  obtain ⟨hdrawn, hlost⟩ := (h.sessions i c hi).lost hx
  intro hmem
  obtain ⟨j, d, ids, conflicts, hd, hanswered, hwon⟩ := h.committed x hmem
  have hij := h.apart i j c d hi hd x hdrawn hwon.1
  subst hij
  cases hi.symm.trans hd
  exact hlost ids conflicts hanswered hwon

/-- In every run of creation requests at most one task with a key is ever committed, with one
`task.created` event; every 2xx answer of `POST /tasks` for the key names this task; and no committed
row is of a creation that its request has lost, nor of a batch that was refused. -/
theorem creation_idempotent (cfg : Config) (key : String) (acts : List Action) :
    let s := Service.after cfg acts
    (s.committed.tasksWith key).length ≤ 1 ∧
      (∀ more, s.committed.tasksWith key <+:
        (Service.after cfg (acts ++ more)).committed.tasksWith key) ∧
      (∀ t ∈ s.committed.tasksWith key, s.committed.creations t.1 = 1) ∧
      (∀ c ∈ s.sessions, ∀ spec answer ids, c.request = .single spec →
        spec.idempotencyKey = some key → c.stage = .answered answer → answer.ids = some ids →
        ∃ t ∈ s.committed.tasksWith key, ids = [t.1]) ∧
      ∀ c ∈ s.sessions, ∀ x ∈ c.lost, x ∉ s.committed.subjects := by
  intro s
  have h : s.Inv := Service.after_inv cfg acts
  refine ⟨tasksWith_length h.committedKeys key, fun more => ?_, fun t ht => ?_, ?_, ?_⟩
  · have htasks := h.run_tasks cfg more
    rw [Service.after, run_append]
    exact htasks.filter _
  · exact h.once t (List.mem_of_mem_filter ht)
  · intro c hc spec answer ids hrequest hkey hstage hids
    obtain ⟨i, hi⟩ := List.mem_iff_getElem?.mp hc
    obtain ⟨t, ht, hnames, hown⟩ := h.answers i c hi answer hstage spec hrequest ids hids
    refine ⟨t, List.mem_filter.mpr ⟨ht, ?_⟩, hnames⟩
    rw [hown, hkey, beq_self_eq_true]
  · exact fun c hc x hx => h.lost hc hx

/-- Two requests for one key; both look for it before either has inserted its task. -/
def raceRun : List Action :=
  let request := Request.single { taskType := "t1", payload := "{}", idempotencyKey := some "k" }
  [Action.arrive request, .arrive request, .advance 1 0 [], .advance 0 0 []] ++
    List.replicate 3 (Action.advance 0 1 []) ++ List.replicate 4 (Action.advance 1 1 []) ++
    List.replicate 8 (Action.advance 0 2 []) ++ [Action.advance 1 3 []]

example : (Service.after ⟨.default, 1000⟩ raceRun).sessions.map (·.stage) =
    [.answered (.created [1] []), .answered (.conflict keyConflictMessage)] := by
  decide +kernel

end TaskPlatform.Requests
