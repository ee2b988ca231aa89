import TaskPlatform.Authority

/-!
# Credentials that stay refused

A bearer token that is revoked or has expired is refused to every request that
arrives from then on, and so are the tokens of a user who was switched off, until
an administrator switches the user on again.
-/

namespace TaskPlatform.Access

open Run

/-- The token is an API token that is revoked or expired, or an access token that has expired. -/
def Dead (env : Env) (db : Accounts) (now : Time) (token : String) : Prop :=
  if isApiToken env token then
    ∃ k t, db.tokens.get k = some t ∧ t.tokenHash = env.hash token ∧
      (t.revokedAt ≠ none ∨ ∃ e, t.expiresAt = some e ∧ e ≤ now)
  else ∃ payload, env.decode token = some payload ∧ payload.exp ≤ now

/-- The user for whom the token is. -/
def Owner (env : Env) (db : Accounts) (token : String) (user : UserId) : Prop :=
  if isApiToken env token then
    ∃ k t, db.tokens.get k = some t ∧ t.tokenHash = env.hash token ∧ t.userId = user
  else ∃ payload, env.decode token = some payload ∧ payload.sub = user

def Inactive (db : Accounts) (user : UserId) : Prop :=
  ∃ row, db.users.get user = some row ∧ row.isActive = false

/-- The next statement commits a `set_active` that switches the user on. -/
def Session.activates (c : Session) (user : UserId) : Bool :=
  match c.stage, c.request.operation with
  | .target _ _ _, .setActive id isActive => id == user && isActive
  | _, _ => false

def State.activates (s : State) (user : UserId) : Action → Bool
  | .arrive _ => false
  | .advance i _ => s.sessions[i]?.any (fun c => c.activates user)

/-- The request presents the token, and needs to. -/
def Session.Presents (c : Session) (token : String) : Prop :=
  c.request.credentials = some token ∧ c.request.operation.guarded = true

section

variable {env : Env} {now : Time} {db db' : Accounts} {c : Session} {token : String}
  {user : UserId} {stage : Stage}

theorem advance_begun (hs : c.stage = .begun) (h : c.request.operation.guarded = true) :
    c.advance env now db = (db, getCurrentUser env db now c.request.credentials) := by
  obtain ⟨⟨credentials, operation⟩, stage⟩ := c
  cases hs
  cases operation <;> first | rfl | cases h

theorem advance_refused {code : Nat} (hs : c.stage = .refused code) :
    c.advance env now db = (db, .refused code) := by
  obtain ⟨⟨credentials, operation⟩, stage⟩ := c
  cases hs
  cases operation <;> rfl

theorem Dead.later (h : Dead env db now token) (hext : Extends db db') {now' : Time}
    (hnow : now ≤ now') : Dead env db' now' token := by
  unfold Dead at h ⊢
  split
  · rename_i hapi
    rw [if_pos hapi] at h
    obtain ⟨k, t, ht, hhash, hdead⟩ := h
    obtain ⟨t', ht', -, hhash', hexpires, hrevoked⟩ := hext.tokens k t ht
    refine ⟨k, t', ht', hhash'.trans hhash, hdead.imp hrevoked fun he => ?_⟩
    obtain ⟨e, he, hle⟩ := he
    exact ⟨e, hexpires.trans he, le_trans hle hnow⟩
  · rename_i hapi
    rw [if_neg hapi] at h
    obtain ⟨payload, hdecode, hexp⟩ := h
    exact ⟨payload, hdecode, le_trans hexp hnow⟩

/-- No row but the one of a token answers to its hash. -/
theorem authenticate_of_row (htokens : TokensSound env db) {k : TokenId} {t : ApiToken}
    (ht : db.tokens.get k = some t) (hhash : t.tokenHash = env.hash token) {id : TokenId}
    {loaded : ApiToken} (h : authenticate env db now token = some (id, loaded)) :
    id = k ∧ loaded = t := by
  obtain ⟨hget, hhash', -⟩ := authenticate_some h
  obtain rfl := htokens.hashes id k loaded t hget ht (hhash'.trans hhash.symm)
  exact ⟨rfl, Option.some.inj (hget.symm.trans ht)⟩

theorem getCurrentUser_dead (htokens : TokensSound env db) (h : Dead env db now token) :
    getCurrentUser env db now (some token) = .refused 401 := by
  unfold Dead at h
  simp only [getCurrentUser]
  split at h
  · rename_i hapi
    rw [if_pos hapi]
    obtain ⟨k, t, ht, hhash, hdead⟩ := h
    split
    · rfl
    · rename_i id loaded hfound
      exfalso
      obtain ⟨-, rfl⟩ := authenticate_of_row htokens ht hhash hfound
      obtain ⟨-, -, hrevoked, hexpires⟩ := authenticate_some hfound
      obtain hdead | ⟨e, he, hle⟩ := hdead
      · exact hdead hrevoked
      · exact absurd (hexpires e he) (not_lt_of_ge hle)
  · rename_i hapi
    rw [if_neg hapi]
    obtain ⟨payload, hdecode, hexp⟩ := h
    have hnone : decodeToken env now token = none := by
      simpa [decodeToken, hdecode] using hexp
    rw [hnone]

theorem Owner.later (h : Owner env db token user) (hext : Extends db db') :
    Owner env db' token user := by
  unfold Owner at h ⊢
  split
  · rename_i hapi
    rw [if_pos hapi] at h
    obtain ⟨k, t, ht, hhash, huser⟩ := h
    obtain ⟨t', ht', huser', hhash', -⟩ := hext.tokens k t ht
    exact ⟨k, t', ht', hhash'.trans hhash, huser'.trans huser⟩
  · rename_i hapi
    rw [if_neg hapi] at h
    exact h

theorem Inactive.activeUser (h : Inactive db user) : activeUser db user = none := by
  obtain ⟨row, hrow, hactive⟩ := h
  simp [Access.activeUser, hrow, hactive]

/-- Only `set_active` switches a user on. -/
theorem Inactive.step (h : Inactive db user) (heffect : Effect env now db c db' stage)
    (hnot : c.activates user = false) : Inactive db' user := by
  obtain ⟨row, hrow, hactive⟩ := h
  cases heffect with
  | createToken hs hok =>
    unfold createToken at hok
    split at hok <;> cases hok
    exact ⟨row, hrow, hactive⟩
  | @setActive actor caller id loaded isActive hs hop =>
    simp only [Access.setActive, record, Inactive]
    split
    · exact ⟨row, hrow, hactive⟩
    · rw [Table.get_modify, hrow]
      split
      · rename_i hid
        subst hid
        exact ⟨_, rfl, by simpa [Session.activates, hs, hop] using hnot⟩
      · exact ⟨row, rfl, hactive⟩
  | setRole hs hop =>
    simp only [Access.setRole, record, Inactive]
    split
    · exact ⟨row, hrow, hactive⟩
    · rw [Table.get_modify, hrow]
      split
      · exact ⟨_, rfl, hactive⟩
      · exact ⟨row, rfl, hactive⟩
  | register hok =>
    unfold register at hok
    split at hok <;> cases hok
    exact ⟨row, Table.get_insert_of_some _ hrow, hactive⟩
  | bootstrap hok =>
    unfold bootstrapAdmin at hok
    split at hok <;> cases hok
    exact ⟨row, Table.get_insert_of_some _ hrow, hactive⟩
  | _ => exact ⟨row, hrow, hactive⟩

theorem advance_found {id : TokenId} {loaded : ApiToken} (hs : c.stage = .found id loaded)
    (h : activeUser db loaded.userId = none) : c.advance env now db = (db, .refused 401) := by
  obtain ⟨⟨credentials, operation⟩, stage⟩ := c
  cases hs
  cases operation <;> simp only [Session.advance, h]

/-- The token leads no further than to its row. -/
theorem getCurrentUser_inactive (htokens : TokensSound env db) (howner : Owner env db token user)
    (h : Inactive db user) :
    getCurrentUser env db now (some token) = .refused 401 ∨
      ∃ id loaded, getCurrentUser env db now (some token) = .found id loaded ∧
        loaded.userId = user := by
  unfold Owner at howner
  simp only [getCurrentUser]
  split at howner
  · rename_i hapi
    rw [if_pos hapi]
    obtain ⟨k, t, ht, hhash, rfl⟩ := howner
    split
    · exact .inl rfl
    · rename_i id loaded hfound
      obtain ⟨-, rfl⟩ := authenticate_of_row htokens ht hhash hfound
      exact .inr ⟨id, loaded, rfl, rfl⟩
  · rename_i hapi
    rw [if_neg hapi]
    obtain ⟨payload, hdecode, rfl⟩ := howner
    refine .inl ?_
    split
    · rfl
    · rename_i payload' hdecoded
      cases hdecode.symm.trans (decodeToken_some hdecoded).1
      split
      · rfl
      · rw [h.activeUser]

end

/-- The requests from the `n`-th on that present the token are in one of these stages. -/
def State.Holds (token : String) (n : Nat) (stages : Stage → Prop) (s : State) : Prop :=
  ∀ i c, n ≤ i → s.sessions[i]? = some c → c.Presents token → stages c.stage

theorem State.Holds.step {env : Env} {token : String} {n : Nat} {stages : Stage → Prop} {s : State}
    {a : Action} (h : s.Holds token n stages) (hbegun : stages .begun)
    (hadvance : ∀ now (c : Session), a.clock = some now → c.Presents token → stages c.stage →
      stages (c.advance env now s.db).2) :
    (s.step env a).Holds token n stages := by
  intro k c' hk hc' hpresents
  obtain ⟨-, hsessions⟩ | ⟨i, now, c, stage, rfl, hc, -, -, rfl, hsessions⟩ :=
    State.step_cases env s a
  · obtain hold | ⟨-, hs⟩ := hsessions k c' hc'
    · exact h k c' hk hold hpresents
    · rw [hs]
      exact hbegun
  · rw [hsessions] at hc'
    obtain ⟨rfl, rfl⟩ | ⟨-, hold⟩ := Slots.getElem?_set_cases hc'
    · exact hadvance now c rfl hpresents (h k c hk hc hpresents)
    · exact h k c' hk hold hpresents

theorem State.step_extends (env : Env) (s : State) (a : Action) :
    Extends s.db (s.step env a).db := by
  obtain ⟨hdb, -⟩ | ⟨i, now, c, stage, -, -, heffect, -⟩ := State.step_cases env s a
  · rw [hdb]
    exact .refl s.db
  · exact heffect.extends

theorem State.Holds.start (token : String) (stages : Stage → Prop) (s : State) :
    s.Holds token s.sessions.length stages := by
  intro i c hi hc
  exact absurd (List.getElem?_eq_some_iff.mp hc).1 (not_lt_of_ge hi)

/-- The token is dead, and no request from the `n`-th on got anywhere with it. -/
structure State.Denies (env : Env) (token : String) (n : Nat) (s : State) (now : Time) : Prop where
  sound : s.Sound env
  dead : Dead env s.db now token
  holds : s.Holds token n (fun stage => stage = .begun ∨ stage = .refused 401)

theorem State.Denies.step {env : Env} {token : String} {n : Nat} {s : State} {now : Time}
    (h : s.Denies env token n now) {a : Action} (hnow : ∀ t ∈ a.clock, now ≤ t) :
    (s.step env a).Denies env token n (a.clock.getD now) := by
  have hlater : now ≤ a.clock.getD now := by
    cases hclock : a.clock with
    | none => exact le_refl now
    | some t => exact hnow t hclock
  refine ⟨h.sound.step a, h.dead.later (s.step_extends env a) hlater,
    h.holds.step (.inl rfl) fun t c ht hpresents hs => .inr ?_⟩
  obtain hs | hs := hs
  · rw [advance_begun hs hpresents.2, hpresents.1]
    exact getCurrentUser_dead h.sound.tokens (h.dead.later (.refl s.db) (hnow t ht))
  · rw [advance_refused hs]

/-- A request that arrives with a token that is revoked or has expired gets no further than to the
answer 401, whatever runs before it and at the same time. -/
theorem dead_token_refused (env : Env) (before later : List Action) {now : Time} {token : String}
    (hdead : Dead env (State.after env before).db now token)
    (hclock : Forward Action.clock now later) {i : Nat} {c : Session}
    (hi : (State.after env before).sessions.length ≤ i)
    (hc : (State.after env (before ++ later)).sessions[i]? = some c) (hpresents : c.Presents token) :
    c.stage = .begun ∨ c.stage = .refused 401 := by
  obtain ⟨t, h⟩ : ∃ t, State.Denies env token (State.after env before).sessions.length
      (run (State.step env) (State.after env before) later) t :=
    run_of_forward (fun s now a h hnow => h.step hnow)
      ⟨State.after_sound env before, hdead, State.Holds.start _ _ _⟩ hclock
  rw [State.after, run_append] at hc
  exact h.holds i c hi hc hpresents

/-- A request with the revoked token. -/
def lateRequest : List Action :=
  [.arrive ⟨some "tp_1", .createToken "next" "tp_2"⟩, .advance 5 7, .advance 5 8]

theorem dead_token_refused_lateRequest : ∃ c,
    (State.after twoUsers (revokedRun ++ lateRequest)).sessions[5]? = some c ∧
      (c.stage = .begun ∨ c.stage = .refused 401) := by
  obtain ⟨t, ht⟩ := Option.isSome_iff_exists.mp
    (by decide +kernel : ((State.after twoUsers revokedRun).db.tokens.get 1).isSome = true)
  have hfacts : ((State.after twoUsers revokedRun).db.tokens.get 1).all (fun t =>
      decide (t.tokenHash = twoUsers.hash "tp_1") && t.revokedAt.isSome) = true := by
    decide +kernel
  rw [ht, Option.all_some, Bool.and_eq_true, decide_eq_true_eq] at hfacts
  have hdead : Dead twoUsers (State.after twoUsers revokedRun).db 6 "tp_1" := by
    rw [Dead, if_pos (by decide +kernel)]
    exact ⟨1, t, ht, hfacts.1, .inl (by simpa [Option.isSome_iff_ne_none] using hfacts.2)⟩
  have hlast : (State.after twoUsers (revokedRun ++ lateRequest)).sessions[5]? =
      some ⟨⟨some "tp_1", .createToken "next" "tp_2"⟩, .refused 401⟩ := by decide +kernel
  exact ⟨_, hlast, dead_token_refused twoUsers revokedRun lateRequest hdead
    (by unfold Forward; decide) (by decide +kernel) hlast ⟨rfl, rfl⟩⟩

/-- The user is switched off, and the token did not help the requests from the `n`-th on. -/
structure State.Bars (env : Env) (token : String) (user : UserId) (n : Nat) (s : State) :
    Prop where
  sound : s.Sound env
  owner : Owner env s.db token user
  inactive : Inactive s.db user
  holds : s.Holds token n (fun stage => stage = .begun ∨
    (∃ id loaded, stage = .found id loaded ∧ loaded.userId = user) ∨ stage = .refused 401)

theorem State.Bars.step {env : Env} {token : String} {user : UserId} {n : Nat} {s : State}
    (h : s.Bars env token user n) {a : Action} (hoff : s.activates user a = false) :
    (s.step env a).Bars env token user n := by
  refine ⟨h.sound.step a, h.owner.later (s.step_extends env a), ?_,
    h.holds.step (.inl rfl) fun t c ht hpresents hs => .inr ?_⟩
  · obtain ⟨hdb, -⟩ | ⟨i, now, c, stage, rfl, hc, heffect, -⟩ := State.step_cases env s a
    · rw [hdb]
      exact h.inactive
    · exact h.inactive.step heffect (by simpa [State.activates, hc] using hoff)
  · obtain hs | ⟨id, loaded, hs, huser⟩ | hs := hs
    · rw [advance_begun hs hpresents.2, hpresents.1]
      exact (getCurrentUser_inactive h.sound.tokens h.owner h.inactive).symm
    · rw [advance_found hs (huser ▸ h.inactive.activeUser)]
      exact .inr rfl
    · rw [advance_refused hs]
      exact .inr rfl

/-- A request that arrives with a token of a user who was switched off is not authorised, unless a
`set_active` switches the user on again. -/
theorem inactive_user_refused (env : Env) (before later : List Action) {token : String}
    {user : UserId} (howner : Owner env (State.after env before).db token user)
    (hinactive : Inactive (State.after env before).db user)
    (hoff : Along (State.step env) (fun s a => s.activates user a = false)
      (State.after env before) later)
    {i : Nat} {c : Session} (hi : (State.after env before).sessions.length ≤ i)
    (hc : (State.after env (before ++ later)).sessions[i]? = some c) (hpresents : c.Presents token) :
    c.stage = .begun ∨ (∃ id loaded, c.stage = .found id loaded ∧ loaded.userId = user) ∨
      c.stage = .refused 401 := by
  have h : State.Bars env token user (State.after env before).sessions.length
      (run (State.step env) (State.after env before) later) :=
    along_invariant (fun s a h hnot => h.step hnot)
      ⟨State.after_sound env before, howner, hinactive, State.Holds.start _ _ _⟩ hoff
  rw [State.after, run_append] at hc
  exact h.holds i c hi hc hpresents

/-- The administrator switches the owner of the token off. -/
def switchedOffRun : List Action :=
  tokenRun ++ [.arrive ⟨some "first", .setActive 2 false⟩, .advance 3 3, .advance 3 4, .advance 3 5]

/-- A request with the token of the user. -/
def orphanRequest : List Action :=
  [.arrive ⟨some "tp_1", .revokeToken 1⟩, .advance 4 6, .advance 4 7, .advance 4 8]

theorem inactive_user_refused_orphanRequest : ∃ c,
    (State.after twoUsers (switchedOffRun ++ orphanRequest)).sessions[4]? = some c ∧
      (c.stage = .begun ∨ (∃ id loaded, c.stage = .found id loaded ∧ loaded.userId = 2) ∨
        c.stage = .refused 401) := by
  obtain ⟨t, ht⟩ := Option.isSome_iff_exists.mp
    (by decide +kernel : ((State.after twoUsers switchedOffRun).db.tokens.get 1).isSome = true)
  have hfacts : ((State.after twoUsers switchedOffRun).db.tokens.get 1).all (fun t =>
      decide (t.tokenHash = twoUsers.hash "tp_1") && decide (t.userId = 2)) = true := by
    decide +kernel
  rw [ht, Option.all_some, Bool.and_eq_true, decide_eq_true_eq, decide_eq_true_eq] at hfacts
  have howner : Owner twoUsers (State.after twoUsers switchedOffRun).db "tp_1" 2 := by
    rw [Owner, if_pos (by decide +kernel)]
    exact ⟨1, t, ht, hfacts⟩
  have hinactive : Inactive (State.after twoUsers switchedOffRun).db 2 :=
    ⟨⟨"viewer", "viewer", false⟩, by decide +kernel, rfl⟩
  have hoff : Along (State.step twoUsers) (fun s a => s.activates 2 a = false)
      (State.after twoUsers switchedOffRun) orphanRequest := by decide +kernel
  have hlast : (State.after twoUsers (switchedOffRun ++ orphanRequest)).sessions[4]? =
      some ⟨⟨some "tp_1", .revokeToken 1⟩, .refused 401⟩ := by decide +kernel
  exact ⟨_, hlast, inactive_user_refused twoUsers switchedOffRun orphanRequest howner hinactive
    hoff (by decide +kernel) hlast ⟨rfl, rfl⟩⟩

end TaskPlatform.Access
