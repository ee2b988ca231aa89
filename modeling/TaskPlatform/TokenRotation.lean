import TaskPlatform.AuthSteps

/-!
# Rotation of refresh tokens

`refresh` reads the stored token without a lock and revokes it later through its
primary key, whatever has become of the row. A token is exchanged once, and not
after a logout, as long as each of these updates finds the row not revoked.
-/

namespace TaskPlatform.Auth

open Run Slots

def Session.Presents (c : Session) (jti : Jti) : Prop :=
  ∃ payload, c.request = .refresh payload ∧ payload.jti = jti

/-- The request has exchanged the token for a new pair. -/
def State.Exchanged (s : State) (jti : Jti) (i : Nat) : Prop :=
  ∃ c, s.sessions[i]? = some c ∧ c.Presents jti ∧ c.stage = .answered true

/-- The request has exchanged the token or will do so with its commit. -/
def State.Spends (s : State) (jti : Jti) (i : Nat) : Prop :=
  ∃ c, s.sessions[i]? = some c ∧ c.Presents jti ∧ (c.stage = .answered true ∨ c.writes ≠ [])

/-- The step is the commit of a logout with this token. -/
def State.LogsOut (s : State) (a : Action) (jti : Jti) : Prop :=
  ∃ c payload, s.sessions[a.request]? = some c ∧ c.request = .logout payload ∧
    payload.jti = jti ∧ c.stage = .flushing []

/-- The `UPDATE` by which `refresh` revokes its token finds the row not revoked. -/
def RevokesOnce (s : State) (a : Action) : Prop :=
  match s.sessions[a.request]? with
  | some ⟨.refresh _, .flushing (.revoke jti _ :: _), _⟩ =>
    s.locked a.request (.token jti) = false →
      ∃ t ∈ s.db.refreshTokens, t.jti = jti ∧ t.revokedAt = none
  | _ => True

instance (s : State) (a : Action) : Decidable (RevokesOnce s a) := by
  unfold RevokesOnce
  generalize s.sessions[a.request]? = c
  rcases c with _ | ⟨request, stage, _⟩
  · infer_instance
  · rcases request <;>
      rcases stage with _ | _ | _ | (_ | ⟨_ | _ | _ | _ | _, _⟩) | _ | _ | _ <;> infer_instance

/-- The token is stored and revoked. -/
def Spent (db : Accounts) (jti : Jti) : Prop :=
  (∃ t ∈ db.refreshTokens, t.jti = jti) ∧
    ∀ t ∈ db.refreshTokens, t.jti = jti → t.revokedAt ≠ none

/-- A refresh or a logout that has written something has revoked its token. -/
theorem Session.Shaped.revokes_first {env : Env} {i : Nat} {c : Session} (h : c.Shaped env i)
    {payload : Payload} (hrequest : c.request = .refresh payload ∨ c.request = .logout payload)
    (hwrites : c.writes ≠ []) : ∃ now, .revoke payload.jti now ∈ c.writes := by
  have hnone : c.request.revokes = none := by
    rcases hrequest with hr | hr <;> rw [hr] <;> rfl
  rw [Session.Shaped] at h
  split at h
  · exact absurd h hwrites
  · exact absurd h hwrites
  · exact absurd h hwrites
  · exact absurd h hwrites
  · rename_i queue _
    cases hc : c.writes with
    | nil => exact absurd hc hwrites
    | cons w ws =>
      rw [hc] at h
      rcases hrequest with hr | hr
      · rw [hr] at h
        obtain ⟨user, now, -, he⟩ := h
        rw [List.cons_append, List.cons.injEq] at he
        exact ⟨now, by rw [he.1]; exact List.mem_cons_self⟩
      · rw [hr] at h
        obtain ⟨now, he⟩ := h
        rw [List.cons_append, List.cons.injEq] at he
        exact ⟨now, by rw [he.1]; exact List.mem_cons_self⟩
  · rw [hnone] at h
    cases h.1
  · rw [hnone] at h
    cases h.1

/-- At the commit of a refresh or a logout its token is among its writes. -/
theorem Session.Shaped.revokes_last {env : Env} {i : Nat} {c : Session} (h : c.Shaped env i)
    {payload : Payload} (hrequest : c.request = .refresh payload ∨ c.request = .logout payload)
    (hstage : c.stage = .flushing []) : ∃ now, .revoke payload.jti now ∈ c.writes := by
  rw [Session.Shaped, hstage] at h
  rcases hrequest with hr | hr
  · rw [hr] at h
    obtain ⟨user, now, -, he⟩ := h
    rw [List.append_nil] at he
    exact ⟨now, by rw [he]; exact List.mem_cons_self⟩
  · rw [hr] at h
    obtain ⟨now, he⟩ := h
    rw [List.append_nil] at he
    exact ⟨now, by rw [he]; exact List.mem_cons_self⟩

/-- While two requests are in flight, only one of them has revoked a token. -/
theorem State.WellFormed.revoke_exclusive {env : Env} {s : State} (h : s.WellFormed env)
    {i k : Nat} {c d : Session} (hc : s.sessions[i]? = some c) (hd : s.sessions[k]? = some d)
    {jti : Jti} {now now' : Time} (hw : .revoke jti now ∈ c.writes)
    (hv : .revoke jti now' ∈ d.writes) : i = k := by
  by_contra hne
  exact h.exclusive i k c d hc hd hne _ hw _ hv (.token jti) rfl rfl

/-- A commit leaves a stored token spent if it was or if the request has revoked it: its row is
there, so nobody inserts it again. -/
theorem spent_commit {env : Env} {s : State} (h : s.WellFormed env) {i : Nat} {c : Session}
    (hc : s.sessions[i]? = some c) (hopen : c.stage ≠ .answered true) {jti : Jti}
    (hstored : ∃ t ∈ s.db.refreshTokens, t.jti = jti)
    (hrevoked : (∀ t ∈ s.db.refreshTokens, t.jti = jti → t.revokedAt ≠ none) ∨
      ∃ now, .revoke jti now ∈ c.writes) : Spent (s.commit i c).db jti := by
  obtain ⟨t₀, ht₀, hjti₀⟩ := hstored
  constructor
  · obtain ⟨t', ht', hjti'⟩ := commit_keeps c.writes s.db ht₀
    exact ⟨t', ht', hjti'.trans hjti₀⟩
  · intro t' ht' hjti' hnone
    obtain ⟨t, ht, hjti, -, hback⟩ | ⟨t, ht, hjti, -⟩ := mem_commit ht'
    · obtain ⟨hbefore, hunwritten⟩ := hback hnone
      rcases hrevoked with hall | ⟨now, hrevoke⟩
      · exact hall t ht (hjti.trans hjti') hbefore
      · exact hunwritten now (by rw [hjti']; exact hrevoke)
    · have hown := (h.shaped i c hc).insert ht
      rw [hjti, hjti'] at hown
      obtain ⟨d, hd, hanswered⟩ := h.issued t₀ ht₀ i (hjti₀.trans hown)
      rw [hc] at hd
      cases hd
      exact hopen hanswered

theorem Spent.commit {env : Env} {s : State} {jti : Jti} (hspent : Spent s.db jti)
    (h : s.WellFormed env) {i : Nat} {c : Session} (hc : s.sessions[i]? = some c)
    (hopen : c.stage ≠ .answered true) : Spent (s.commit i c).db jti :=
  spent_commit h hc hopen hspent.1 (Or.inl hspent.2)

/-- Every token is spent by one request at most, and the tokens that were exchanged are revoked.
The tokens that requests go on with are stored. -/
structure State.Rotated (env : Env) (s : State) : Prop where
  wellFormed : s.WellFormed env
  stored : ∀ (i : Nat) (c : Session) (payload : Payload), s.sessions[i]? = some c →
    c.request = .refresh payload ∨ c.request = .logout payload → c.stage ≠ .begun →
      c.stage ≠ .answered false → ∃ t ∈ s.db.refreshTokens, t.jti = payload.jti
  once : ∀ jti i k, s.Spends jti i → s.Spends jti k → i = k
  spent : ∀ jti i, s.Exchanged jti i → Spent s.db jti

theorem State.Exchanged.spends {s : State} {jti : Jti} {i : Nat} (h : s.Exchanged jti i) :
    s.Spends jti i := by
  obtain ⟨c, hc, hjti, hstage⟩ := h
  exact ⟨c, hc, hjti, Or.inl hstage⟩

/-- Only a refresh of the token that was not a spender becomes one by a statement. -/
theorem State.Spends.of_put {s : State} {jti : Jti} {i k : Nat} {c c' : Session}
    (hrequest : c'.request = c.request) (hspends : (s.put i c').Spends jti k) :
    s.Spends jti k ∨ k = i ∧ c.Presents jti ∧ (c'.stage = .answered true ∨ c'.writes ≠ []) := by
  obtain ⟨d, hd, hjti, hwrites⟩ := hspends
  obtain ⟨rfl, rfl⟩ | ⟨-, hd⟩ := getElem?_set_cases hd
  · refine Or.inr ⟨rfl, ?_, hwrites⟩
    rw [Session.Presents, ← hrequest]
    exact hjti
  · exact Or.inl ⟨d, hd, hjti, hwrites⟩

theorem State.Exchanged.of_put {s : State} {jti : Jti} {i k : Nat} {c' : Session}
    (hstage : c'.stage ≠ .answered true) (h : (s.put i c').Exchanged jti k) :
    s.Exchanged jti k := by
  obtain ⟨d, hd, hjti, hanswered⟩ := h
  obtain ⟨rfl, rfl⟩ | ⟨-, hd⟩ := getElem?_set_cases hd
  · exact absurd hanswered hstage
  · exact ⟨d, hd, hjti, hanswered⟩

/-- With its first statement after the reads a refresh becomes the only spender of its token. -/
theorem State.Rotated.sole {env : Env} {s : State} (h : s.Rotated env) {a : Action} {jti : Jti}
    (hfree : s.locked a.request (.token jti) = false)
    (hunrevoked : ∃ t ∈ s.db.refreshTokens, t.jti = jti ∧ t.revokedAt = none) {k : Nat}
    (hspends : s.Spends jti k) : k = a.request := by
  by_contra hne
  obtain ⟨d, hd, ⟨payload, hrequest, rfl⟩, hanswered | hwrites⟩ := hspends
  · obtain ⟨t, ht, htjti, hnone⟩ := hunrevoked
    exact (h.spent _ k ⟨d, hd, ⟨payload, hrequest, rfl⟩, hanswered⟩).2 t ht htjti hnone
  · obtain ⟨now, hrevoke⟩ := (h.wellFormed.shaped k d hd).revokes_first (Or.inl hrequest) hwrites
    exact State.not_locked hfree hd hne _ hrevoke rfl

/-- The first write of a refresh is the `UPDATE` of its token. -/
theorem Session.Shaped.first_write {env : Env} {i : Nat} {c : Session} (h : c.Shaped env i)
    {payload : Payload} (hrequest : c.request = .refresh payload) {w : Write} {queue : List Write}
    (hstage : c.stage = .flushing (w :: queue)) (hwrites : c.writes = []) :
    ∃ now, w = .revoke payload.jti now := by
  rw [Session.Shaped, hstage, hwrites, hrequest] at h
  obtain ⟨user, now, -, he⟩ := h
  rw [List.nil_append, List.cons.injEq] at he
  exact ⟨now, he.1⟩

theorem Session.Presents.revokes {c : Session} {jti : Jti} (h : c.Presents jti) :
    c.request.revokes = none := by
  obtain ⟨payload, hrequest, -⟩ := h
  rw [hrequest]
  rfl

/-- Who spends a token after a step did so before, or the step is its unlocked `UPDATE`. -/
theorem spends_step {env : Env} {s : State} (h : s.WellFormed env) {a : Action}
    (hcond : RevokesOnce s a) {jti : Jti} {k : Nat} (hspends : (s.step env a).Spends jti k) :
    s.Spends jti k ∨ k = a.request ∧ ∃ c, s.sessions[a.request]? = some c ∧ c.Presents jti ∧
      s.locked a.request (.token jti) = false ∧
        ∃ t ∈ s.db.refreshTokens, t.jti = jti ∧ t.revokedAt = none := by
  obtain hsame | ⟨c, hc, hmoves⟩ := step_cases env s a
  · rw [hsame] at hspends
    exact Or.inl hspends
  have hshaped := h.shaped a.request c hc
  generalize s.step env a = s' at hmoves hspends
  cases hmoves with
  | reads hstage =>
    obtain hold | ⟨rfl, hjti, hnew⟩ := hspends.of_put rfl
    · exact Or.inl hold
    · have hwrites : c.writes = [] := by
        rw [Session.Shaped] at hshaped
        rcases hstage with hs | hs | hs <;> rw [hs] at hshaped <;> exact hshaped
      rcases hnew with hanswered | hwritten
      · obtain ⟨queue, hq, -⟩ | hq | hq | hq :=
          readStage_cases env s.db a.request a.now c.request hstage
        all_goals
          rw [hq] at hanswered
          cases hanswered
      · exact absurd hwrites hwritten
  | flush w queue hstage hfree =>
    obtain hold | ⟨rfl, hjti, -⟩ := hspends.of_put rfl
    · exact Or.inl hold
    · by_cases hwrites : c.writes = []
      · obtain ⟨payload, hrequest, rfl⟩ := hjti
        obtain ⟨now, rfl⟩ := hshaped.first_write hrequest hstage hwrites
        have hlocked := hfree _ rfl
        obtain ⟨request, stage, writes⟩ := c
        cases hrequest
        cases hstage
        rw [RevokesOnce, hc] at hcond
        exact Or.inr ⟨rfl, _, hc, ⟨payload, rfl, rfl⟩, hlocked, hcond hlocked⟩
      · exact Or.inl ⟨c, hc, hjti, Or.inr hwrites⟩
  | begins user hstage hrevokes =>
    obtain hold | ⟨rfl, hjti, -⟩ := hspends.of_put rfl
    · exact Or.inl hold
    · rw [hjti.revokes] at hrevokes
      cases hrevokes
  | revokes snapshot at' hstage hfree =>
    obtain hold | ⟨rfl, hjti, -⟩ := hspends.of_put rfl
    · exact Or.inl hold
    · rw [Session.Shaped, hstage, hjti.revokes] at hshaped
      cases hshaped.1
  | commits hstage =>
    have hput : (s.put a.request { c with stage := .answered true, writes := [] }).Spends jti k :=
      hspends
    obtain hold | ⟨rfl, hjti, -⟩ := hput.of_put rfl
    · exact Or.inl hold
    · rcases hstage with hstage | ⟨hstage, -⟩
      · rw [Session.Shaped, hstage, hjti.revokes] at hshaped
        cases hshaped.1
      · obtain ⟨payload, hrequest, rfl⟩ := hjti
        obtain ⟨now, hrevoke⟩ := hshaped.revokes_last (Or.inl hrequest) hstage
        exact Or.inl ⟨c, hc, ⟨payload, hrequest, rfl⟩, Or.inr (List.ne_nil_of_mem hrevoke)⟩

/-- An exchange after a step was one before, or the step is its commit. -/
theorem exchanged_step {env : Env} {s : State} (h : s.WellFormed env) {a : Action} {jti : Jti}
    {k : Nat} (hexchanged : (s.step env a).Exchanged jti k) :
    s.Exchanged jti k ∨ ∃ c, s.sessions[a.request]? = some c ∧ c.Presents jti ∧
      c.stage = .flushing [] ∧ s.step env a = s.commit a.request c := by
  obtain hsame | ⟨c, hc, hmoves⟩ := step_cases env s a
  · rw [hsame] at hexchanged
    exact Or.inl hexchanged
  have hshaped := h.shaped a.request c hc
  generalize s.step env a = s' at hmoves hexchanged
  cases hmoves with
  | reads hstage =>
    refine Or.inl (hexchanged.of_put fun hanswered => ?_)
    obtain ⟨queue, hq, -⟩ | hq | hq | hq :=
      readStage_cases env s.db a.request a.now c.request hstage
    all_goals
      rw [hq] at hanswered
      cases hanswered
  | flush w queue hstage hfree => exact Or.inl (hexchanged.of_put (by simp))
  | begins user hstage hrevokes => exact Or.inl (hexchanged.of_put (by simp))
  | revokes snapshot at' hstage hfree => exact Or.inl (hexchanged.of_put (by simp))
  | commits hstage =>
    obtain ⟨d, hd, hjti, hanswered⟩ := hexchanged
    obtain ⟨rfl, rfl⟩ | ⟨-, hd⟩ := getElem?_set_cases hd
    · have hjti' : c.Presents jti := hjti
      rcases hstage with hstage | ⟨hstage, -⟩
      · rw [Session.Shaped, hstage, hjti'.revokes] at hshaped
        cases hshaped.1
      · exact Or.inr ⟨c, hc, hjti', hstage, rfl⟩
    · exact Or.inl ⟨d, hd, hjti, hanswered⟩

/-- No step makes a spent token valid again. -/
theorem Spent.step {env : Env} {s : State} (h : s.WellFormed env) (a : Action) {jti : Jti}
    (hspent : Spent s.db jti) : Spent (s.step env a).db jti := by
  obtain hsame | ⟨c, hc, hmoves⟩ := step_cases env s a
  · rw [hsame]
    exact hspent
  generalize s.step env a = s' at hmoves
  cases hmoves with
  | reads hstage => exact hspent
  | flush w queue hstage hfree => exact hspent
  | begins user hstage hrevokes => exact hspent
  | revokes snapshot at' hstage hfree => exact hspent
  | commits hstage =>
    apply hspent.commit h hc
    rcases hstage with hstage | ⟨hstage, -⟩ <;> rw [hstage] <;> simp

/-- A refresh or a logout that goes on after its first read has found its token. -/
theorem stored_of_reads {env : Env} {db : Accounts} {i : Nat} {now : Time} {request : Request}
    {payload : Payload} (hrequest : request = .refresh payload ∨ request = .logout payload)
    (hopen : readStage env db i now request .begun ≠ .answered false) :
    ∃ t ∈ db.refreshTokens, t.jti = payload.jti := by
  have hvalid : (refreshIsValid db payload.jti now).isSome := by
    by_contra hnone
    apply hopen
    rcases hrequest with rfl | rfl
    · rw [readStage, if_neg hnone]
    · rw [readStage, if_neg hnone]
  obtain ⟨t, ht⟩ := Option.isSome_iff_exists.mp hvalid
  obtain ⟨hmem, hjti, -⟩ := refreshIsValid_some ht
  exact ⟨t, hmem, hjti⟩

theorem stored_step {env : Env} {s : State} (h : s.Rotated env) (a : Action) {k : Nat}
    {d : Session} {payload : Payload} (hd : (s.step env a).sessions[k]? = some d)
    (hrequest : d.request = .refresh payload ∨ d.request = .logout payload)
    (hbegun : d.stage ≠ .begun) (hrefused : d.stage ≠ .answered false) :
    ∃ t ∈ (s.step env a).db.refreshTokens, t.jti = payload.jti := by
  obtain hsame | ⟨c, hc, hmoves⟩ := step_cases env s a
  · rw [hsame] at hd ⊢
    exact h.stored k d payload hd hrequest hbegun hrefused
  generalize s.step env a = s' at hmoves hd
  cases hmoves with
  | reads hstage =>
    obtain ⟨rfl, rfl⟩ | ⟨-, hd⟩ := getElem?_set_cases hd
    · rcases hstage with hs | hs | hs
      · rw [hs] at hrefused
        exact stored_of_reads hrequest hrefused
      · exact h.stored _ c payload hc hrequest (by rw [hs]; simp) (by rw [hs]; simp)
      · exact h.stored _ c payload hc hrequest (by rw [hs]; simp) (by rw [hs]; simp)
    · exact h.stored k d payload hd hrequest hbegun hrefused
  | flush w queue hstage hfree =>
    obtain ⟨rfl, rfl⟩ | ⟨-, hd⟩ := getElem?_set_cases hd
    · exact h.stored _ c payload hc hrequest (by rw [hstage]; simp) (by rw [hstage]; simp)
    · exact h.stored k d payload hd hrequest hbegun hrefused
  | begins user hstage hrevokes =>
    obtain ⟨rfl, rfl⟩ | ⟨-, hd⟩ := getElem?_set_cases hd
    · exact h.stored _ c payload hc hrequest (by rw [hstage]; simp) (by rw [hstage]; simp)
    · exact h.stored k d payload hd hrequest hbegun hrefused
  | revokes snapshot at' hstage hfree =>
    obtain ⟨rfl, rfl⟩ | ⟨-, hd⟩ := getElem?_set_cases hd
    · exact h.stored _ c payload hc hrequest (by rw [hstage]; simp) (by rw [hstage]; simp)
    · exact h.stored k d payload hd hrequest hbegun hrefused
  | commits hstage =>
    have hbefore : ∃ t ∈ s.db.refreshTokens, t.jti = payload.jti := by
      obtain ⟨rfl, rfl⟩ | ⟨-, hd⟩ := getElem?_set_cases hd
      · rcases hstage with hs | ⟨hs, -⟩
        · exact h.stored _ c payload hc hrequest (by rw [hs]; simp) (by rw [hs]; simp)
        · exact h.stored _ c payload hc hrequest (by rw [hs]; simp) (by rw [hs]; simp)
      · exact h.stored k d payload hd hrequest hbegun hrefused
    obtain ⟨t, ht, hjti⟩ := hbefore
    obtain ⟨t', ht', hjti'⟩ := commit_keeps c.writes s.db ht
    exact ⟨t', ht', hjti'.trans hjti⟩

/-- A step that meets the condition keeps the invariant. -/
theorem State.Rotated.step {env : Env} {s : State} (h : s.Rotated env) {a : Action}
    (hcond : RevokesOnce s a) : (s.step env a).Rotated env where
  wellFormed := h.wellFormed.step a
  stored := fun k d payload hd hrequest hbegun hrefused =>
    stored_step h a hd hrequest hbegun hrefused
  once := by
    intro jti i k hi hk
    obtain hi | ⟨rfl, c, hc, hjti, hfree, hunrevoked⟩ := spends_step h.wellFormed hcond hi
    · obtain hk | ⟨rfl, c, hc, hjti, hfree, hunrevoked⟩ := spends_step h.wellFormed hcond hk
      · exact h.once jti i k hi hk
      · exact h.sole hfree hunrevoked hi
    · obtain hk | ⟨rfl, -⟩ := spends_step h.wellFormed hcond hk
      · exact (h.sole hfree hunrevoked hk).symm
      · rfl
  spent := by
    intro jti k hk
    obtain hold | ⟨c, hc, ⟨payload, hrequest, rfl⟩, hstage, hcommit⟩ :=
      exchanged_step h.wellFormed hk
    · exact (h.spent jti k hold).step h.wellFormed a
    · have hstored := h.stored a.request c payload hc (Or.inl hrequest) (by rw [hstage]; simp)
        (by rw [hstage]; simp)
      have hrevoke := (h.wellFormed.shaped _ c hc).revokes_last (Or.inl hrequest) hstage
      rw [hcommit]
      exact spent_commit h.wellFormed hc (by rw [hstage]; simp) hstored (Or.inr hrevoke)

theorem rotated_start (env : Env) {db : Accounts} (h : db.Unissued) (requests : List Request) :
    (State.start db requests).Rotated env := by
  have hbegun : ∀ (i : Nat) (c : Session), (State.start db requests).sessions[i]? = some c →
      c.stage = .begun ∧ c.writes = [] := by
    intro i c hc
    rw [State.start, List.getElem?_map] at hc
    obtain ⟨request, -, rfl⟩ := Option.map_eq_some_iff.mp hc
    exact ⟨rfl, rfl⟩
  have hspends : ∀ jti i, ¬ (State.start db requests).Spends jti i := by
    rintro jti i ⟨c, hc, -, hanswered | hwrites⟩
    · rw [(hbegun i c hc).1] at hanswered
      cases hanswered
    · exact hwrites (hbegun i c hc).2
  refine ⟨wellFormed_start env h requests, fun i c payload hc _ hs => ?_, fun jti i k hi => ?_,
    fun jti i hi => ?_⟩
  · exact absurd (hbegun i c hc).1 hs
  · exact absurd hi (hspends jti i)
  · exact absurd hi.spends (hspends jti i)

/-- The token is revoked, and no request is on its way to exchange it. -/
structure State.Settled (env : Env) (s : State) (jti : Jti) : Prop where
  wellFormed : s.WellFormed env
  spent : Spent s.db jti
  exchanged : ∀ k, s.Spends jti k → s.Exchanged jti k

theorem State.Exchanged.step {env : Env} {s : State} {a : Action} {jti : Jti} {k : Nat}
    (h : s.Exchanged jti k) : (s.step env a).Exchanged jti k := by
  obtain ⟨d, hd, hjti, hanswered⟩ := h
  obtain hsame | ⟨c, hc, hmoves⟩ := step_cases env s a
  · rw [hsame]
    exact ⟨d, hd, hjti, hanswered⟩
  have hne : c.stage ≠ .answered true → a.request ≠ k := by
    rintro hopen rfl
    rw [hc] at hd
    cases hd
    exact hopen hanswered
  generalize s.step env a = s' at hmoves
  cases hmoves with
  | reads hstage =>
    have hk := hne (by rcases hstage with hs | hs | hs <;> rw [hs] <;> simp)
    exact ⟨d, (List.getElem?_set_ne hk).trans hd, hjti, hanswered⟩
  | flush w queue hstage hfree =>
    have hk := hne (by rw [hstage]; simp)
    exact ⟨d, (List.getElem?_set_ne hk).trans hd, hjti, hanswered⟩
  | begins user hstage hrevokes =>
    have hk := hne (by rw [hstage]; simp)
    exact ⟨d, (List.getElem?_set_ne hk).trans hd, hjti, hanswered⟩
  | revokes snapshot at' hstage hfree =>
    have hk := hne (by rw [hstage]; simp)
    exact ⟨d, (List.getElem?_set_ne hk).trans hd, hjti, hanswered⟩
  | commits hstage =>
    have hk := hne (by rcases hstage with hs | ⟨hs, -⟩ <;> rw [hs] <;> simp)
    exact ⟨d, (List.getElem?_set_ne hk).trans hd, hjti, hanswered⟩

/-- In a settled state nobody begins to spend the token. -/
theorem State.Settled.spends {env : Env} {s : State} {jti : Jti} (h : s.Settled env jti)
    {a : Action} (hcond : RevokesOnce s a) {k : Nat} (hk : (s.step env a).Spends jti k) :
    s.Exchanged jti k := by
  obtain hold | ⟨-, c, -, -, -, t, ht, hjti, hnone⟩ := spends_step h.wellFormed hcond hk
  · exact h.exchanged k hold
  · exact absurd hnone (h.spent.2 t ht hjti)

theorem State.Settled.run {env : Env} {acts : List Action} {s : State} {jti : Jti}
    (h : s.Settled env jti) (hcond : Along (State.step env) RevokesOnce s acts) {k : Nat}
    (hk : (Run.run (State.step env) s acts).Exchanged jti k) : s.Exchanged jti k := by
  induction acts generalizing s with
  | nil => exact hk
  | cons a acts ih =>
    have hnext : (s.step env a).Settled env jti :=
      ⟨h.wellFormed.step a, h.spent.step h.wellFormed a,
        fun k hk => (h.spends hcond.1 hk).step⟩
    exact h.spends hcond.1 (ih hnext hcond.2 hk).spends

/-- A logout holds the row of its token, so with its commit the token is settled. -/
theorem settled_of_logsOut {env : Env} {s : State} (h : s.Rotated env) {a : Action} {jti : Jti}
    (hlogout : s.LogsOut a jti) :
    (s.step env a).Settled env jti ∧ ∀ k, (s.step env a).Exchanged jti k → s.Exchanged jti k := by
  obtain ⟨c, payload, hc, hrequest, rfl, hstage⟩ := hlogout
  have hcommit : s.step env a = s.commit a.request c := by
    rw [State.step, hc]
    simp only [hstage, hrequest, Request.revokes]
  have hstored := h.stored a.request c payload hc (Or.inr hrequest) (by rw [hstage]; simp)
    (by rw [hstage]; simp)
  obtain ⟨now, hrevoke⟩ := (h.wellFormed.shaped _ c hc).revokes_last (Or.inr hrequest) hstage
  have hold : ∀ k d, (s.step env a).sessions[k]? = some d → d.Presents payload.jti →
      k ≠ a.request ∧ s.sessions[k]? = some d := by
    intro k d hd hjti
    rw [hcommit] at hd
    obtain ⟨rfl, rfl⟩ | ⟨hne, hd⟩ := getElem?_set_cases hd
    · obtain ⟨payload', hrequest', -⟩ := hjti
      rw [show _ = Request.refresh payload' from hrequest'] at hrequest
      cases hrequest
    · exact ⟨hne, hd⟩
  refine ⟨⟨h.wellFormed.step a, ?_, ?_⟩, ?_⟩
  · rw [hcommit]
    exact spent_commit h.wellFormed hc (by rw [hstage]; simp) hstored (Or.inr ⟨now, hrevoke⟩)
  · rintro k ⟨d, hd, hjti, hanswered | hwrites⟩
    · exact ⟨d, hd, hjti, hanswered⟩
    · obtain ⟨hne, hd⟩ := hold k d hd hjti
      obtain ⟨payload', hrequest', he⟩ := hjti
      obtain ⟨now', hrevoke'⟩ := (h.wellFormed.shaped k d hd).revokes_first (Or.inl hrequest')
        hwrites
      rw [he] at hrevoke'
      exact absurd (h.wellFormed.revoke_exclusive hd hc hrevoke' hrevoke) hne
  · rintro k ⟨d, hd, hjti, hanswered⟩
    exact ⟨d, (hold k d hd hjti).2, hjti, hanswered⟩

/-- When every refresh revokes its token while it is not revoked yet, a token is exchanged at most
once and not after a logout. -/
theorem rotation_single_use (env : Env) {db : Accounts} (hdb : db.Unissued)
    (requests : List Request) (acts : List Action)
    (h : Along (State.step env) RevokesOnce (.start db requests) acts) (jti : Jti) :
    (∀ i k, (run (State.step env) (.start db requests) acts).Exchanged jti i →
      (run (State.step env) (.start db requests) acts).Exchanged jti k → i = k) ∧
    ∀ pre a post, acts = pre ++ a :: post →
      (run (State.step env) (.start db requests) pre).LogsOut a jti →
        ∀ k, (run (State.step env) (.start db requests) acts).Exchanged jti k →
          (run (State.step env) (.start db requests) pre).Exchanged jti k := by
  have hrotated : ∀ {acts : List Action}, Along (State.step env) RevokesOnce (.start db requests)
      acts → (run (State.step env) (.start db requests) acts).Rotated env := by
    intro acts hacts
    exact along_invariant (P := State.Rotated env) (fun s a hs hc => hs.step hc)
      (rotated_start env hdb requests) hacts
  constructor
  · intro i k hi hk
    exact (hrotated h).once jti i k hi.spends hk.spends
  · rintro pre a post rfl hlogout k hk
    rw [along_append] at h
    obtain ⟨hsettled, hback⟩ := settled_of_logsOut (hrotated h.1) hlogout
    rw [run_append, run_cons] at hk
    exact hback k (hsettled.run h.2.2 hk)

/-- Passwords are stored as they are, tokens last a week. -/
def plainEnv : Env := ⟨fun password hash => password == hash, 604800⟩

def oneUser : Accounts where
  users := [⟨1, "admin", "admin", true, none⟩]
  refreshTokens := [⟨1, .earlier 0, 1000, none⟩]

/-- The statements of the requests with these numbers, all at time 0. -/
def turns (requests : List Nat) : List Action := requests.map (fun i => ⟨i, 0⟩)

theorem oneUser_unissued : oneUser.Unissued := by
  intro t ht i
  rw [oneUser, List.mem_singleton] at ht
  rw [ht]
  simp

theorem rotation_single_use_sequential :
    let s := run (State.step plainEnv)
      (.start oneUser [.refresh ⟨1, .earlier 0⟩, .refresh ⟨1, .earlier 0⟩])
      (turns [0, 0, 0, 0, 0, 1])
    s.Exchanged (.earlier 0) 0 ∧ ∀ k, s.Exchanged (.earlier 0) k → k = 0 := by
  intro s
  have honce := (rotation_single_use plainEnv oneUser_unissued
    [.refresh ⟨1, .earlier 0⟩, .refresh ⟨1, .earlier 0⟩] (turns [0, 0, 0, 0, 0, 1])
    (by decide +kernel) (.earlier 0)).1
  have hfirst : s.Exchanged (.earlier 0) 0 :=
    ⟨⟨.refresh ⟨1, .earlier 0⟩, .answered true, []⟩, by decide +kernel, ⟨_, rfl, rfl⟩, rfl⟩
  exact ⟨hfirst, fun k hk => honce k 0 hk hfirst⟩

/-- Two requests that read the token before one of them revokes it both exchange it, and so does a
request that read it before a logout. -/
theorem double_exchange :
    oneUser.Unissued ∧
      (let s := run (State.step plainEnv)
        (.start oneUser [.refresh ⟨1, .earlier 0⟩, .refresh ⟨1, .earlier 0⟩])
        (turns [0, 1, 0, 1, 0, 0, 0, 1, 1, 1])
      s.Exchanged (.earlier 0) 0 ∧ s.Exchanged (.earlier 0) 1) ∧
      (let requests := [.refresh ⟨1, .earlier 0⟩, .logout ⟨1, .earlier 0⟩]
      let before := run (State.step plainEnv) (.start oneUser requests) (turns [0, 0, 1, 1])
      let after := run (State.step plainEnv) (.start oneUser requests)
        (turns [0, 0, 1, 1] ++ ⟨1, 0⟩ :: turns [0, 0, 0])
      before.LogsOut ⟨1, 0⟩ (.earlier 0) ∧ ¬ before.Exchanged (.earlier 0) 0 ∧
        after.Exchanged (.earlier 0) 0) := by
  refine ⟨oneUser_unissued, ⟨?_, ?_⟩, ?_, ?_, ?_⟩
  · exact ⟨⟨.refresh ⟨1, .earlier 0⟩, .answered true, []⟩, by decide +kernel, ⟨_, rfl, rfl⟩, rfl⟩
  · exact ⟨⟨.refresh ⟨1, .earlier 0⟩, .answered true, []⟩, by decide +kernel, ⟨_, rfl, rfl⟩, rfl⟩
  · exact ⟨⟨.logout ⟨1, .earlier 0⟩, .flushing [], [.revoke (.earlier 0) 0]⟩, _,
      by decide +kernel, rfl, rfl, rfl⟩
  · rintro ⟨c, hc, -, hanswered⟩
    have hstage : ((run (State.step plainEnv) (.start oneUser [.refresh ⟨1, .earlier 0⟩,
        .logout ⟨1, .earlier 0⟩]) (turns [0, 0, 1, 1])).sessions[0]?).map (·.stage) =
        some (.flushing [.revoke (.earlier 0) 0, .insert ⟨1, .issued 0, 604800, none⟩]) := by
      decide +kernel
    rw [hc, Option.map_some, hanswered] at hstage
    cases hstage
  · exact ⟨⟨.refresh ⟨1, .earlier 0⟩, .answered true, []⟩, by decide +kernel, ⟨_, rfl, rfl⟩, rfl⟩

end TaskPlatform.Auth
