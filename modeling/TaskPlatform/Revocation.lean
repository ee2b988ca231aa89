import TaskPlatform.TokenRotation

/-!
# Revocation of all tokens of a user

`revoke_all_refresh_tokens` is one `UPDATE` over the rows it finds when it begins.
When no login or refresh of the user overlaps it, a password change or a
deactivation leaves no token valid that was obtained before, or through one that
was obtained before.
-/

namespace TaskPlatform.Auth

open Run Slots

/-- The request has authenticated its user and is going to issue a token. -/
def Session.Issuing (c : Session) (user : Nat) : Prop :=
  match c.stage with
  | .flushing queue => ∃ w ∈ c.writes ++ queue,
      match w with
      | .insert t => t.userId = user
      | _ => False
  | _ => False

/-- The `UPDATE` over the tokens of the user has begun and is not committed. -/
def Session.Revoking (c : Session) (user : Nat) : Prop :=
  c.request.revokes = some user ∧
    match c.stage with
    | .revoking _ _ | .revoked => True
    | _ => False

instance (c : Session) (user : Nat) : Decidable (c.Issuing user) := by
  unfold Session.Issuing
  split
  · have : DecidablePred fun w : Write =>
        match w with
        | .insert t => t.userId = user
        | _ => False := by
      intro w
      cases w <;> infer_instance
    infer_instance
  · infer_instance

instance (c : Session) (user : Nat) : Decidable (c.Revoking user) := by
  unfold Session.Revoking
  have : Decidable (match c.stage with
    | .revoking _ _ | .revoked => True
    | _ => False) := by
    split <;> infer_instance
  infer_instance

/-- No login or refresh of a user authenticates while the tokens of the user are being revoked, or
by a token that was revoked since it was read, and none is under way when the revocation begins. -/
def Undisturbed (env : Env) (s : State) (a : Action) : Prop :=
  match s.sessions[a.request]? with
  | none => True
  | some c =>
    match c.stage with
    | .begun =>
      match c.request with
      | .login username password =>
        match getUserByUsername s.db username with
        | none => True
        | some user => env.verifyPassword password user.passwordHash = true →
            ∀ d ∈ s.sessions, ¬ d.Revoking user.id
      | _ => True
    | .found =>
      match c.request with
      | .refresh payload =>
        (getUserById s.db payload.sub).any (·.isActive) = true →
          (∀ d ∈ s.sessions, ¬ d.Revoking payload.sub) ∧
            ∃ t ∈ s.db.refreshTokens, t.jti = payload.jti ∧ t.revokedAt = none
      | _ => True
    | .flushing [] =>
      match c.request.revokes with
      | none => True
      | some user => ∀ d ∈ s.sessions, ¬ d.Issuing user
    | _ => True

instance (env : Env) (s : State) (a : Action) : Decidable (Undisturbed env s a) := by
  unfold Undisturbed
  split
  · infer_instance
  · split
    · split
      · split <;> infer_instance
      · infer_instance
    · split <;> infer_instance
    · split <;> infer_instance
    · infer_instance

/-- The tokens that are stored for the user or are about to be, and those obtained through them. -/
inductive State.Older (s : State) (user : Nat) : Jti → Prop
  | stored (t : RefreshToken) (h : t ∈ s.db.refreshTokens) (huser : t.userId = user) :
    s.Older user t.jti
  | issuing (k : Nat) (c : Session) (hc : s.sessions[k]? = some c) (h : c.Issuing user) :
    s.Older user (.issued k)
  | exchanged (k : Nat) (c : Session) (payload : Payload) (hc : s.sessions[k]? = some c)
    (hrequest : c.request = .refresh payload) (hsub : payload.sub = user)
    (h : s.Older user payload.jti) : s.Older user (.issued k)

/-- The step is the read that authenticates a login or a refresh of the user. -/
def State.Authenticates (env : Env) (s : State) (a : Action) (id : Nat) : Prop :=
  ∃ c, s.sessions[a.request]? = some c ∧
    ((∃ username password user, c.request = .login username password ∧ c.stage = .begun ∧
      getUserByUsername s.db username = some user ∧
        env.verifyPassword password user.passwordHash = true ∧ user.id = id) ∨
    ∃ payload, c.request = .refresh payload ∧ c.stage = .found ∧
      (getUserById s.db payload.sub).any (·.isActive) = true ∧ payload.sub = id)

theorem Undisturbed.not_revoking {env : Env} {s : State} {a : Action} (h : Undisturbed env s a)
    {id : Nat} (ha : s.Authenticates env a id) : ∀ d ∈ s.sessions, ¬ d.Revoking id := by
  obtain ⟨c, hc, ⟨username, password, user, hrequest, hstage, huser, hverify, rfl⟩ |
    ⟨payload, hrequest, hstage, hactive, rfl⟩⟩ := ha
  · rw [Undisturbed, hc] at h
    simp only [hstage, hrequest, huser] at h
    exact h hverify
  · rw [Undisturbed, hc] at h
    simp only [hstage, hrequest] at h
    exact (h hactive).1

/-- A login gets its writes from the read that verifies the password. -/
theorem readStage_login {env : Env} {db : Accounts} {i : Nat} {now : Time}
    {username password : String} {stage : Stage} {queue : List Write}
    (hstage : stage = .begun ∨ stage = .checked ∨ stage = .found)
    (h : readStage env db i now (.login username password) stage = .flushing queue) :
    stage = .begun ∧ ∃ user, getUserByUsername db username = some user ∧
      env.verifyPassword password user.passwordHash = true ∧
      queue = [.lastLogin user.id now, .insert (newToken env i user now)] := by
  rcases hstage with rfl | rfl | rfl
  · rw [readStage] at h
    split at h
    · cases h
    · rename_i user huser
      split at h
      · rename_i hverify
        cases h
        exact ⟨rfl, user, huser, hverify, rfl⟩
      · cases h
  · cases h
  · cases h

/-- A refresh gets its writes from the read that finds the user active. -/
theorem readStage_refresh {env : Env} {db : Accounts} {i : Nat} {now : Time} {payload : Payload}
    {stage : Stage} {queue : List Write}
    (hstage : stage = .begun ∨ stage = .checked ∨ stage = .found)
    (h : readStage env db i now (.refresh payload) stage = .flushing queue) :
    stage = .found ∧ ∃ user, getUserById db payload.sub = some user ∧ user.isActive = true ∧
      queue = [.revoke payload.jti now, .insert (newToken env i user now)] := by
  rcases hstage with rfl | rfl | rfl
  · rw [readStage] at h
    split at h <;> cases h
  · cases h
  · rw [readStage] at h
    split at h
    · cases h
    · rename_i user huser
      split at h
      · rename_i hactive
        cases h
        exact ⟨rfl, user, huser, hactive, rfl⟩
      · cases h

/-- A read that leaves a request issuing authenticates its user. -/
theorem authenticates_of_issuing {env : Env} {s : State} {a : Action} {c : Session}
    (hc : s.sessions[a.request]? = some c) (hwrites : c.writes = [])
    (hstage : c.stage = .begun ∨ c.stage = .checked ∨ c.stage = .found) {id : Nat}
    (h : Session.Issuing
      { c with stage := readStage env s.db a.request a.now c.request c.stage } id) :
    s.Authenticates env a id := by
  obtain ⟨queue, hq, hprogram⟩ | hq | hq | hq :=
    readStage_cases env s.db a.request a.now c.request hstage
  · rw [Session.Issuing, hq] at h
    obtain ⟨w, hw, hinsert⟩ := h
    rw [hwrites, List.nil_append] at hw
    refine ⟨c, hc, ?_⟩
    cases hrequest : c.request with
    | login username password =>
      rw [hrequest] at hq
      obtain ⟨hbegun, user, huser, hverify, rfl⟩ := readStage_login hstage hq
      refine Or.inl ⟨username, password, user, rfl, hbegun, huser, hverify, ?_⟩
      simp only [List.mem_cons, List.not_mem_nil, or_false] at hw
      rcases hw with rfl | rfl
      · cases hinsert
      · exact hinsert
    | refresh payload =>
      rw [hrequest] at hq
      obtain ⟨hfound, user, huser, hactive, rfl⟩ := readStage_refresh hstage hq
      refine Or.inr ⟨payload, rfl, hfound, by rw [huser]; exact hactive, ?_⟩
      simp only [List.mem_cons, List.not_mem_nil, or_false] at hw
      rcases hw with rfl | rfl
      · cases hinsert
      · exact (getUserById_id huser).symm.trans hinsert
    | logout payload =>
      rw [hrequest] at hprogram
      obtain ⟨now, rfl⟩ := hprogram
      rw [List.mem_singleton] at hw
      subst hw
      cases hinsert
    | changePassword user current new newHash =>
      rw [hrequest, Program] at hprogram
      subst hprogram
      rw [List.mem_singleton] at hw
      subst hw
      cases hinsert
    | setActive user isActive =>
      rw [hrequest] at hprogram
      rcases hprogram with rfl | rfl
      · cases hw
      · rw [List.mem_singleton] at hw
        subst hw
        cases hinsert
  · rw [Session.Issuing, hq] at h
    cases h
  · rw [Session.Issuing, hq] at h
    cases h
  · rw [Session.Issuing, hq] at h
    cases h

/-- A request that has inserted a token is issuing one for its user. -/
theorem Session.Shaped.issuing {env : Env} {i : Nat} {c : Session} (h : c.Shaped env i)
    {t : RefreshToken} (ht : .insert t ∈ c.writes) : c.Issuing t.userId := by
  have hno : ∀ ws, c.request.revokes.isSome → Program env i c.request ws → .insert t ∉ ws := by
    intro ws hrevokes hprogram hmem
    cases hrequest : c.request with
    | changePassword user current new newHash =>
      rw [hrequest, Program] at hprogram
      simp [hprogram] at hmem
    | setActive user isActive =>
      rw [hrequest] at hprogram
      rcases hprogram with rfl | rfl <;> simp at hmem
    | _ =>
      rw [hrequest] at hrevokes
      cases hrevokes
  rw [Session.Shaped] at h
  cases hstage : c.stage with
  | flushing queue =>
    rw [Session.Issuing, hstage]
    exact ⟨.insert t, List.mem_append_left _ ht, rfl⟩
  | revoking snapshot at' =>
    simp only [hstage] at h
    exact absurd ht (hno c.writes h.1 h.2)
  | revoked =>
    simp only [hstage] at h
    obtain ⟨hrevokes, ws, snapshot, at', hprogram, hwrites⟩ := h
    rw [hwrites, List.mem_append] at ht
    rcases ht with ht | ht
    · exact absurd ht (hno ws hrevokes hprogram)
    · obtain ⟨jti, -, he⟩ := List.mem_map.mp ht
      cases he
  | _ =>
    simp only [hstage] at h
    rw [h] at ht
    cases ht

theorem Session.Shaped.unwritten {env : Env} {i : Nat} {c : Session} (h : c.Shaped env i)
    (hstage : c.stage = .begun ∨ c.stage = .checked ∨ c.stage = .found) : c.writes = [] := by
  rw [Session.Shaped] at h
  rcases hstage with hs | hs | hs <;> rw [hs] at h <;> exact h

/-- Who is issuing after a step was so before, or the step authenticates it. -/
theorem issuing_step {env : Env} {s : State} (h : s.WellFormed env) {a : Action} {d : Session}
    (hd : d ∈ (s.step env a).sessions) {id : Nat} (hissuing : d.Issuing id) :
    (∃ e ∈ s.sessions, e.Issuing id) ∨ s.Authenticates env a id := by
  obtain hsame | ⟨c, hc, hmoves⟩ := step_cases env s a
  · rw [hsame] at hd
    exact Or.inl ⟨d, hd, hissuing⟩
  have hmem := List.mem_of_getElem? hc
  generalize s.step env a = s' at hmoves hd
  cases hmoves with
  | reads hstage =>
    rcases List.mem_or_eq_of_mem_set hd with hold | rfl
    · exact Or.inl ⟨d, hold, hissuing⟩
    · exact Or.inr (authenticates_of_issuing hc ((h.shaped _ c hc).unwritten hstage) hstage
        hissuing)
  | flush w queue hstage hfree =>
    rcases List.mem_or_eq_of_mem_set hd with hold | rfl
    · exact Or.inl ⟨d, hold, hissuing⟩
    · obtain ⟨v, hv, hinsert⟩ := hissuing
      refine Or.inl ⟨c, hmem, ?_⟩
      rw [Session.Issuing, hstage]
      exact ⟨v, by simpa using hv, hinsert⟩
  | begins user hstage hrevokes =>
    rcases List.mem_or_eq_of_mem_set hd with hold | rfl
    · exact Or.inl ⟨d, hold, hissuing⟩
    · cases hissuing
  | revokes snapshot at' hstage hfree =>
    rcases List.mem_or_eq_of_mem_set hd with hold | rfl
    · exact Or.inl ⟨d, hold, hissuing⟩
    · cases hissuing
  | commits hstage =>
    rcases List.mem_or_eq_of_mem_set hd with hold | rfl
    · exact Or.inl ⟨d, hold, hissuing⟩
    · cases hissuing

/-- The rows that the request has yet to revoke or to commit as revoked. -/
def Session.Covers (c : Session) (jti : Jti) : Prop :=
  match c.stage with
  | .revoking snapshot _ => jti ∈ snapshot
  | .revoked => ∃ at', .revoke jti at' ∈ c.writes
  | _ => False

/-- From its first statement on a revocation covers all valid tokens of its user, and nobody is
issuing another one. -/
structure State.Covered (s : State) : Prop where
  quiet : ∀ c ∈ s.sessions, ∀ user, c.Revoking user → ∀ d ∈ s.sessions, ¬ d.Issuing user
  tokens : ∀ c ∈ s.sessions, ∀ user, c.Revoking user → ∀ t ∈ s.db.refreshTokens,
    t.userId = user → t.revokedAt = none → c.Covers t.jti

theorem not_revoking_of_reads {env : Env} {db : Accounts} {i : Nat} {now : Time} {c : Session}
    (hstage : c.stage = .begun ∨ c.stage = .checked ∨ c.stage = .found) (user : Nat) :
    ¬ Session.Revoking { c with stage := readStage env db i now c.request c.stage } user := by
  rintro ⟨-, h⟩
  obtain ⟨queue, hq, -⟩ | hq | hq | hq := readStage_cases env db i now c.request hstage
  all_goals
    rw [hq] at h
    cases h

/-- Who is revoking after a step was so before, or the step begins it. -/
theorem revoking_step {env : Env} {s : State} {a : Action} {d : Session}
    (hd : d ∈ (s.step env a).sessions) {user : Nat} (hrevoking : d.Revoking user) :
    (∃ e ∈ s.sessions, e.Revoking user) ∨
      ∃ c, s.sessions[a.request]? = some c ∧ c.stage = .flushing [] ∧
        c.request.revokes = some user := by
  obtain hsame | ⟨c, hc, hmoves⟩ := step_cases env s a
  · rw [hsame] at hd
    exact Or.inl ⟨d, hd, hrevoking⟩
  have hmem := List.mem_of_getElem? hc
  generalize s.step env a = s' at hmoves hd
  cases hmoves with
  | reads hstage =>
    rcases List.mem_or_eq_of_mem_set hd with hold | rfl
    · exact Or.inl ⟨d, hold, hrevoking⟩
    · exact absurd hrevoking (not_revoking_of_reads hstage user)
  | flush w queue hstage hfree =>
    rcases List.mem_or_eq_of_mem_set hd with hold | rfl
    · exact Or.inl ⟨d, hold, hrevoking⟩
    · cases hrevoking.2
  | begins user' hstage hrevokes =>
    rcases List.mem_or_eq_of_mem_set hd with hold | rfl
    · exact Or.inl ⟨d, hold, hrevoking⟩
    · exact Or.inr ⟨c, hc, hstage, hrevoking.1⟩
  | revokes snapshot at' hstage hfree =>
    rcases List.mem_or_eq_of_mem_set hd with hold | rfl
    · exact Or.inl ⟨d, hold, hrevoking⟩
    · refine Or.inl ⟨c, hmem, hrevoking.1, ?_⟩
      rw [hstage]
      trivial
  | commits hstage =>
    rcases List.mem_or_eq_of_mem_set hd with hold | rfl
    · exact Or.inl ⟨d, hold, hrevoking⟩
    · cases hrevoking.2

theorem Undisturbed.not_issuing {env : Env} {s : State} {a : Action} (h : Undisturbed env s a)
    {c : Session} (hc : s.sessions[a.request]? = some c) (hstage : c.stage = .flushing [])
    {user : Nat} (hrevokes : c.request.revokes = some user) :
    ∀ d ∈ s.sessions, ¬ d.Issuing user := by
  rw [Undisturbed, hc] at h
  simp only [hstage, hrevokes] at h
  exact h

/-- A revoking request is issuing nothing itself, so neither it nor anybody else authenticates. -/
theorem State.Covered.quiet_step {env : Env} {s : State} (h : s.Covered)
    (hwf : s.WellFormed env) {a : Action} (hcond : Undisturbed env s a) {c d : Session}
    (hc : c ∈ (s.step env a).sessions) {user : Nat} (hrevoking : c.Revoking user)
    (hd : d ∈ (s.step env a).sessions) : ¬ d.Issuing user := by
  intro hissuing
  have hquiet : ∀ e ∈ s.sessions, ¬ e.Issuing user := by
    obtain ⟨e, he, her⟩ | ⟨e, he, hstage, hrevokes⟩ := revoking_step hc hrevoking
    · exact h.quiet e he user her
    · exact hcond.not_issuing he hstage hrevokes
  obtain ⟨e, he, hei⟩ | hauth := issuing_step hwf hd hissuing
  · exact hquiet e he hei
  · obtain ⟨e, he, her⟩ | ⟨e, he, hstage, -⟩ := revoking_step hc hrevoking
    · exact hcond.not_revoking hauth e he her
    · -- the step that begins a revocation does not read
      obtain ⟨e', he', ⟨_, _, _, _, hs, _⟩ | ⟨_, _, hs, _⟩⟩ := hauth
      · rw [he] at he'
        cases he'
        rw [hstage] at hs
        cases hs
      · rw [he] at he'
        cases he'
        rw [hstage] at hs
        cases hs

theorem State.Covered.step {env : Env} {s : State} (h : s.Covered) (hwf : s.WellFormed env)
    {a : Action} (hcond : Undisturbed env s a) : (s.step env a).Covered where
  quiet := fun c hc user hrevoking d hd => h.quiet_step hwf hcond hc hrevoking hd
  tokens := by
    intro c' hc' user hrevoking t ht huser hopen
    obtain hsame | ⟨c, hc, hmoves⟩ := step_cases env s a
    · rw [hsame] at hc' ht
      exact h.tokens c' hc' user hrevoking t ht huser hopen
    have hmem := List.mem_of_getElem? hc
    generalize s.step env a = s' at hmoves hc' ht
    cases hmoves with
    | reads hstage =>
      rcases List.mem_or_eq_of_mem_set hc' with hold | rfl
      · exact h.tokens c' hold user hrevoking t ht huser hopen
      · exact absurd hrevoking (not_revoking_of_reads hstage user)
    | flush w queue hstage hfree =>
      rcases List.mem_or_eq_of_mem_set hc' with hold | rfl
      · exact h.tokens c' hold user hrevoking t ht huser hopen
      · cases hrevoking.2
    | begins user' hstage hrevokes =>
      rcases List.mem_or_eq_of_mem_set hc' with hold | rfl
      · exact h.tokens c' hold user hrevoking t ht huser hopen
      · have hu := hrevoking.1
        rw [hrevokes] at hu
        cases hu
        apply List.mem_map_of_mem
        rw [List.mem_filter]
        exact ⟨ht, by simp [huser, hopen]⟩
    | revokes snapshot at' hstage hfree =>
      rcases List.mem_or_eq_of_mem_set hc' with hold | rfl
      · exact h.tokens c' hold user hrevoking t ht huser hopen
      · have hcovers : c.Covers t.jti := by
          apply h.tokens c hmem user ⟨hrevoking.1, _⟩ t ht huser hopen
          rw [hstage]
          trivial
        rw [Session.Covers, hstage] at hcovers
        refine ⟨at', List.mem_append_right _ (List.mem_map_of_mem ?_)⟩
        rw [stillActive, List.mem_filter]
        refine ⟨hcovers, List.any_eq_true.mpr ⟨t, ht, ?_⟩⟩
        simp [hopen]
    | commits hstage =>
      rcases List.mem_or_eq_of_mem_set hc' with hold | rfl
      · obtain ⟨t₀, ht₀, hjti, huser₀, hback⟩ | ⟨t₀, hinsert, hjti, huser₀⟩ := mem_commit ht
        · rw [← hjti]
          exact h.tokens c' hold user hrevoking t₀ ht₀ (huser₀.trans huser) (hback hopen).1
        · have hissuing := (hwf.shaped _ c hc).issuing hinsert
          rw [huser₀, huser] at hissuing
          exact absurd hissuing (h.quiet c' hold user hrevoking c hmem)
      · cases hrevoking.2

def Accounts.UniqueJtis (db : Accounts) : Prop := (db.refreshTokens.map (·.jti)).Nodup

/-- Rows of one `jti` are of one user; a refresh gives its token to the user of its payload. -/
structure State.Owned (s : State) : Prop where
  owner : ∀ t ∈ s.db.refreshTokens, ∀ t' ∈ s.db.refreshTokens, t.jti = t'.jti →
    t.userId = t'.userId
  refreshed : ∀ t ∈ s.db.refreshTokens, ∀ (k : Nat) (c : Session) (payload : Payload),
    t.jti = .issued k → s.sessions[k]? = some c → c.request = .refresh payload →
      t.userId = payload.sub

/-- A request inserts one token, and a refresh inserts it for the user of its payload. -/
theorem Program.inserts {env : Env} {i : Nat} {request : Request} {ws : List Write}
    (h : Program env i request ws) {t t' : RefreshToken} (ht : .insert t ∈ ws)
    (ht' : .insert t' ∈ ws) :
    t.userId = t'.userId ∧ ∀ payload, request = .refresh payload → t.userId = payload.sub := by
  cases request with
  | login username password =>
    obtain ⟨user, now, rfl⟩ := h
    simp only [List.mem_cons, reduceCtorEq, Write.insert.injEq, false_or, List.not_mem_nil,
      or_false] at ht ht'
    subst ht ht'
    exact ⟨rfl, by simp⟩
  | refresh payload =>
    obtain ⟨user, now, hsub, rfl⟩ := h
    simp only [List.mem_cons, reduceCtorEq, Write.insert.injEq, false_or, List.not_mem_nil,
      or_false] at ht ht'
    subst ht ht'
    refine ⟨rfl, fun payload' he => ?_⟩
    cases he
    exact hsub
  | logout payload =>
    obtain ⟨now, rfl⟩ := h
    simp at ht
  | changePassword user current new newHash =>
    rw [Program] at h
    simp [h] at ht
  | setActive user isActive =>
    rcases h with rfl | rfl <;> simp at ht

/-- What a request that is issuing has written is part of its program. -/
theorem Session.Shaped.program {env : Env} {i : Nat} {c : Session} (h : c.Shaped env i) {user : Nat}
    (hissuing : c.Issuing user) : ∃ ws, Program env i c.request ws ∧ c.writes ⊆ ws := by
  cases hstage : c.stage with
  | flushing queue =>
    rw [Session.Shaped, hstage] at h
    exact ⟨c.writes ++ queue, h, List.subset_append_left _ _⟩
  | _ =>
    rw [Session.Issuing, hstage] at hissuing
    cases hissuing

theorem State.Owned.commit {env : Env} {s : State} (h : s.Owned) (hwf : s.WellFormed env) {i : Nat}
    {c : Session} (hc : s.sessions[i]? = some c) (hopen : c.stage ≠ .answered true) :
    (s.commit i c).Owned := by
  have hnew : ∀ t ∈ s.db.refreshTokens, t.jti ≠ .issued i := by
    intro t ht hjti
    obtain ⟨d, hd, hanswered⟩ := hwf.issued t ht i hjti
    rw [hc] at hd
    cases hd
    exact hopen hanswered
  have hinserts : ∀ t t', .insert t ∈ c.writes → .insert t' ∈ c.writes →
      t.userId = t'.userId ∧ ∀ payload, c.request = .refresh payload → t.userId = payload.sub := by
    intro t t' ht ht'
    have hshaped := hwf.shaped i c hc
    obtain ⟨ws, hprogram, hsub⟩ := hshaped.program (hshaped.issuing ht)
    exact hprogram.inserts (hsub ht) (hsub ht')
  constructor
  · intro t₁ ht₁ t₂ ht₂ hjti
    obtain ⟨u₁, hu₁, hj₁, ho₁, -⟩ | ⟨u₁, hu₁, hj₁, ho₁⟩ := mem_commit ht₁
    · obtain ⟨u₂, hu₂, hj₂, ho₂, -⟩ | ⟨u₂, hu₂, hj₂, ho₂⟩ := mem_commit ht₂
      · have hold := h.owner u₁ hu₁ u₂ hu₂ (hj₁.trans (hjti.trans hj₂.symm))
        rw [← ho₁, ← ho₂, hold]
      · have hown := (hwf.shaped i c hc).insert hu₂
        exact absurd (hj₁.trans (hjti.trans (hj₂.symm.trans hown))) (hnew u₁ hu₁)
    · have hown := (hwf.shaped i c hc).insert hu₁
      obtain ⟨u₂, hu₂, hj₂, ho₂, -⟩ | ⟨u₂, hu₂, hj₂, ho₂⟩ := mem_commit ht₂
      · exact absurd (hj₂.trans (hjti.symm.trans (hj₁.symm.trans hown))) (hnew u₂ hu₂)
      · have hone := (hinserts u₁ u₂ hu₁ hu₂).1
        rw [← ho₁, ← ho₂, hone]
  · intro t' ht' k d payload hjti hd hrequest
    have hbefore : ∃ e, s.sessions[k]? = some e ∧ e.request = d.request := by
      obtain ⟨rfl, rfl⟩ | ⟨-, hd⟩ := getElem?_set_cases hd
      · exact ⟨c, hc, rfl⟩
      · exact ⟨d, hd, rfl⟩
    obtain ⟨e, he, hsame⟩ := hbefore
    obtain ⟨t, ht, hj, ho, -⟩ | ⟨t, ht, hj, ho⟩ := mem_commit ht'
    · rw [← ho]
      exact h.refreshed t ht k e payload (hj.trans hjti) he (hsame.trans hrequest)
    · have hown := (hwf.shaped i c hc).insert ht
      rw [hj, hjti] at hown
      cases hown
      rw [hc] at he
      cases he
      rw [← ho]
      exact (hinserts t t ht ht).2 payload (hsame.trans hrequest)

theorem State.Owned.step {env : Env} {s : State} (h : s.Owned) (hwf : s.WellFormed env)
    (a : Action) : (s.step env a).Owned := by
  have hput : ∀ c c', s.sessions[a.request]? = some c → c'.request = c.request →
      (s.put a.request c').Owned := by
    intro c c' hc hrequest
    refine ⟨h.owner, fun t ht k d payload hjti hd hr => ?_⟩
    obtain ⟨rfl, rfl⟩ | ⟨-, hd⟩ := getElem?_set_cases hd
    · exact h.refreshed t ht _ c payload hjti hc (hrequest.symm.trans hr)
    · exact h.refreshed t ht k d payload hjti hd hr
  obtain hsame | ⟨c, hc, hmoves⟩ := step_cases env s a
  · rw [hsame]
    exact h
  generalize s.step env a = s' at hmoves
  cases hmoves with
  | reads hstage => exact hput c _ hc rfl
  | flush w queue hstage hfree => exact hput c _ hc rfl
  | begins user hstage hrevokes => exact hput c _ hc rfl
  | revokes snapshot at' hstage hfree => exact hput c _ hc rfl
  | commits hstage =>
    apply h.commit hwf hc
    rcases hstage with hs | ⟨hs, -⟩ <;> rw [hs] <;> simp

/-- The tokens of `D` are revoked, and no request is on its way to issue one of them; one that
presents one of them has not got past its reads. -/
structure State.Dead (s : State) (D : Jti → Prop) : Prop where
  revoked : ∀ t ∈ s.db.refreshTokens, D t.jti → t.revokedAt ≠ none
  silent : ∀ (k : Nat) (c : Session), s.sessions[k]? = some c → D (.issued k) →
    (∃ b, c.stage = .answered b) ∨
      (c.stage = .begun ∨ c.stage = .checked ∨ c.stage = .found) ∧
        ∃ payload, c.request = .refresh payload ∧ D payload.jti

/-- With its commit a revocation has revoked all older tokens. -/
theorem dead_of_commit {env : Env} {s : State} (hwf : s.WellFormed env) (hcovered : s.Covered)
    (howned : s.Owned) {i : Nat} {c : Session} (hc : s.sessions[i]? = some c) {user : Nat}
    (hrevokes : c.request.revokes = some user) (hstage : c.stage = .revoked) :
    (s.commit i c).Dead (s.Older user) := by
  have hmem := List.mem_of_getElem? hc
  have hrevoking : c.Revoking user := by
    refine ⟨hrevokes, ?_⟩
    rw [hstage]
    trivial
  have hquiet := hcovered.quiet c hmem user hrevoking
  constructor
  · intro t' ht' holder hopen
    obtain ⟨t, ht, hjti, -, hback⟩ | ⟨t, ht, -⟩ := mem_commit ht'
    · obtain ⟨hbefore, hunwritten⟩ := hback hopen
      have huser : t.userId = user := by
        rw [← hjti] at holder
        generalize hj : t.jti = jti at holder
        cases holder with
        | stored t₀ ht₀ huser => exact (howned.owner t ht t₀ ht₀ hj).trans huser
        | issuing k d hd hissuing => exact absurd hissuing (hquiet d (List.mem_of_getElem? hd))
        | exchanged k d payload hd hrequest hsub _ =>
          exact (howned.refreshed t ht k d payload hj hd hrequest).trans hsub
      have hcovers := hcovered.tokens c hmem user hrevoking t ht huser hbefore
      rw [Session.Covers, hstage] at hcovers
      obtain ⟨at', hrevoke⟩ := hcovers
      exact hunwritten at' (by rw [← hjti]; exact hrevoke)
    · have hissuing := (hwf.shaped i c hc).issuing ht
      rw [Session.Issuing, hstage] at hissuing
      exact hissuing
  · intro k d hd holder
    obtain ⟨rfl, rfl⟩ | ⟨-, hd⟩ := getElem?_set_cases hd
    · exact Or.inl ⟨true, rfl⟩
    · generalize hj : Jti.issued k = jti at holder
      cases holder with
      | stored t ht huser =>
        obtain ⟨e, he, hanswered⟩ := hwf.issued t ht k hj.symm
        rw [hd] at he
        cases he
        exact Or.inl ⟨true, hanswered⟩
      | issuing l e he hissuing => exact absurd hissuing (hquiet e (List.mem_of_getElem? he))
      | exchanged l e payload he hrequest hsub hpayload =>
        cases hj
        rw [hd] at he
        cases he
        have hshaped := hwf.shaped k d hd
        rw [Session.Shaped] at hshaped
        cases hs : d.stage with
        | begun => exact Or.inr ⟨Or.inl rfl, payload, hrequest, hpayload⟩
        | checked => exact Or.inr ⟨Or.inr (Or.inl rfl), payload, hrequest, hpayload⟩
        | found => exact Or.inr ⟨Or.inr (Or.inr rfl), payload, hrequest, hpayload⟩
        | answered b => exact Or.inl ⟨b, rfl⟩
        | flushing queue =>
          -- such a request would be issuing a token of the user
          simp only [hs, hrequest] at hshaped
          obtain ⟨row, now, hrow, hwrites⟩ := hshaped
          refine absurd ?_ (hquiet d (List.mem_of_getElem? hd))
          rw [Session.Issuing, hs]
          simp only
          rw [hwrites]
          exact ⟨_, List.mem_cons_of_mem _ List.mem_cons_self, hrow.trans hsub⟩
        | revoking snapshot at' =>
          simp only [hs, hrequest] at hshaped
          cases hshaped.1
        | revoked =>
          simp only [hs, hrequest] at hshaped
          cases hshaped.1

/-- A dead token is presented in vain. -/
theorem State.Dead.reads {env : Env} {s : State} {D : Jti → Prop} (h : s.Dead D) {a : Action}
    (hcond : Undisturbed env s a) {c : Session} (hc : s.sessions[a.request]? = some c)
    (hstage : c.stage = .begun ∨ c.stage = .checked ∨ c.stage = .found) {payload : Payload}
    (hrequest : c.request = .refresh payload) (hD : D payload.jti) :
    let stage := readStage env s.db a.request a.now c.request c.stage
    (∃ b, stage = .answered b) ∨ stage = .begun ∨ stage = .checked ∨ stage = .found := by
  intro stage
  rcases hstage with hs | hs | hs
  · have he : stage = if (refreshIsValid s.db payload.jti a.now).isSome then .found
        else .answered false := by
      rw [show stage = readStage env s.db a.request a.now c.request c.stage from rfl, hs, hrequest,
        readStage]
    rw [he]
    split
    · exact Or.inr (Or.inr (Or.inr rfl))
    · exact Or.inl ⟨false, rfl⟩
  · have he : stage = .checked := by
      rw [show stage = readStage env s.db a.request a.now c.request c.stage from rfl, hs, hrequest,
        readStage]
      all_goals simp
    exact Or.inr (Or.inr (Or.inl he))
  · have he : stage = readStage env s.db a.request a.now (.refresh payload) .found := by
      rw [show stage = readStage env s.db a.request a.now c.request c.stage from rfl, hs, hrequest]
    rw [he, readStage]
    cases huser : getUserById s.db payload.sub with
    | none => exact Or.inl ⟨false, rfl⟩
    | some user =>
      by_cases hactive : user.isActive = true
      · rw [Undisturbed, hc] at hcond
        simp only [hs, hrequest, huser, Option.any_some] at hcond
        obtain ⟨-, t, ht, hjti, hopen⟩ := hcond hactive
        exact absurd hopen (h.revoked t ht (by rw [hjti]; exact hD))
      · simp [hactive]

theorem State.Dead.step {env : Env} {s : State} {D : Jti → Prop} (h : s.Dead D)
    (hwf : s.WellFormed env) {a : Action} (hcond : Undisturbed env s a) :
    (s.step env a).Dead D := by
  obtain hsame | ⟨c, hc, hmoves⟩ := step_cases env s a
  · rw [hsame]
    exact h
  -- a request that goes on to write issues no dead token
  have hwrites : (∀ b, c.stage ≠ .answered b) → c.stage ≠ .begun → c.stage ≠ .checked →
      c.stage ≠ .found → ¬ D (.issued a.request) := by
    intro hanswered hbegun hchecked hfound hD
    obtain ⟨b, hb⟩ | ⟨hs | hs | hs, -⟩ := h.silent a.request c hc hD
    · exact hanswered b hb
    · exact hbegun hs
    · exact hchecked hs
    · exact hfound hs
  have hput : ∀ c', ¬ D (.issued a.request) → (s.put a.request c').Dead D := by
    intro c' hnot
    refine ⟨h.revoked, fun k d hd hD => ?_⟩
    obtain ⟨rfl, -⟩ | ⟨-, hd⟩ := getElem?_set_cases hd
    · exact absurd hD hnot
    · exact h.silent k d hd hD
  generalize s.step env a = s' at hmoves
  cases hmoves with
  | reads hstage =>
    refine ⟨h.revoked, fun k d hd hD => ?_⟩
    obtain ⟨rfl, rfl⟩ | ⟨-, hd⟩ := getElem?_set_cases hd
    · obtain ⟨b, hb⟩ | ⟨-, payload, hrequest, hpayload⟩ := h.silent _ c hc hD
      · rcases hstage with hs | hs | hs
        all_goals
          rw [hs] at hb
          cases hb
      · obtain hanswered | hreading := h.reads hcond hc hstage hrequest hpayload
        · exact Or.inl hanswered
        · exact Or.inr ⟨hreading, payload, hrequest, hpayload⟩
    · exact h.silent k d hd hD
  | flush w queue hstage hfree =>
    exact hput _ (hwrites (by simp [hstage]) (by simp [hstage]) (by simp [hstage])
      (by simp [hstage]))
  | begins user hstage hrevokes =>
    exact hput _ (hwrites (by simp [hstage]) (by simp [hstage]) (by simp [hstage])
      (by simp [hstage]))
  | revokes snapshot at' hstage hfree =>
    exact hput _ (hwrites (by simp [hstage]) (by simp [hstage]) (by simp [hstage])
      (by simp [hstage]))
  | commits hstage =>
    have hnot : ¬ D (.issued a.request) := by
      rcases hstage with hs | ⟨hs, -⟩
      · exact hwrites (by simp [hs]) (by simp [hs]) (by simp [hs]) (by simp [hs])
      · exact hwrites (by simp [hs]) (by simp [hs]) (by simp [hs]) (by simp [hs])
    refine ⟨fun t' ht' hD hopen => ?_, (hput _ hnot).silent⟩
    obtain ⟨t, ht, hjti, -, hback⟩ | ⟨t, ht, hjti, -⟩ := mem_commit ht'
    · rw [← hjti] at hD
      exact h.revoked t ht hD (hback hopen).1
    · rw [← hjti, (hwf.shaped _ c hc).insert ht] at hD
      exact hnot hD

/-- What holds along the runs whose revocations are not disturbed. -/
structure State.Guarded (env : Env) (s : State) : Prop where
  wellFormed : s.WellFormed env
  covered : s.Covered
  owned : s.Owned

theorem State.Guarded.step {env : Env} {s : State} (h : s.Guarded env) {a : Action}
    (hcond : Undisturbed env s a) : (s.step env a).Guarded env :=
  ⟨h.wellFormed.step a, h.covered.step h.wellFormed hcond, h.owned.step h.wellFormed a⟩

theorem guarded_start (env : Env) {db : Accounts} (hdb : db.Unissued) (hunique : db.UniqueJtis)
    (requests : List Request) : (State.start db requests).Guarded env := by
  have hbegun : ∀ c ∈ (State.start db requests).sessions, c.stage = .begun := by
    intro c hc
    obtain ⟨request, -, rfl⟩ := List.mem_map.mp hc
    rfl
  have hrevoking : ∀ c ∈ (State.start db requests).sessions, ∀ user, ¬ c.Revoking user := by
    rintro c hc user ⟨-, h⟩
    rw [hbegun c hc] at h
    exact h
  refine ⟨wellFormed_start env hdb requests, ⟨?_, ?_⟩, ?_, ?_⟩
  · intro c hc user h
    exact absurd h (hrevoking c hc user)
  · intro c hc user h
    exact absurd h (hrevoking c hc user)
  · intro t ht t' ht' hjti
    rw [List.inj_on_of_nodup_map hunique ht ht' hjti]
  · intro t ht k c payload hjti
    exact absurd hjti (hdb t ht k)

/-- When no login or refresh of the user overlaps it, a password change or a deactivation leaves no
older token valid, whatever follows. -/
theorem revocation_kills_older (env : Env) {db : Accounts} (hdb : db.Unissued)
    (hunique : db.UniqueJtis) (requests : List Request) (acts : List Action)
    (h : Along (State.step env) (Undisturbed env) (.start db requests) acts)
    {pre post : List Action} {a : Action} (hacts : acts = pre ++ a :: post) {c : Session}
    (hc : (run (State.step env) (.start db requests) pre).sessions[a.request]? = some c)
    {user : Nat} (hrevokes : c.request.revokes = some user) (hstage : c.stage = .revoked)
    {jti : Jti} (holder : (run (State.step env) (.start db requests) pre).Older user jti)
    (now : Time) :
    refreshIsValid (run (State.step env) (.start db requests) acts).db jti now = none := by
  subst hacts
  rw [along_append] at h
  have hguarded : (run (State.step env) (.start db requests) pre).Guarded env :=
    along_invariant (P := State.Guarded env) (fun s a hs hcond => hs.step hcond)
      (guarded_start env hdb hunique requests) h.1
  rw [run_append, run_cons]
  generalize run (State.step env) (.start db requests) pre = s at h hc holder hguarded
  have hcommit : s.step env a = s.commit a.request c := by
    rw [State.step, hc]
    simp only [hstage]
  have hdead : (s.step env a).Dead (s.Older user) := by
    rw [hcommit]
    exact dead_of_commit hguarded.wellFormed hguarded.covered hguarded.owned hc hrevokes hstage
  have hlast : (run (State.step env) (s.step env a) post).WellFormed env ∧
      (run (State.step env) (s.step env a) post).Dead (s.Older user) :=
    along_invariant (P := fun t => t.WellFormed env ∧ t.Dead (s.Older user))
      (fun t b ht hcond => ⟨ht.1.step b, ht.2.step ht.1 hcond⟩)
      ⟨hguarded.wellFormed.step a, hdead⟩ h.2.2
  cases hvalid : refreshIsValid (run (State.step env) (s.step env a) post).db jti now with
  | none => rfl
  | some t =>
    obtain ⟨ht, hjti, hopen⟩ := refreshIsValid_some hvalid
    exact absurd hopen (hlast.2.revoked t ht (by rw [hjti]; exact holder))

theorem oneUser_uniqueJtis : oneUser.UniqueJtis := by
  rw [Accounts.UniqueJtis]
  decide

/-- A login, then a password change, then an attempt to refresh the token of the login. -/
theorem revocation_kills_older_sequential :
    refreshIsValid (run (State.step plainEnv) (.start oneUser [.login "admin" "admin",
      .changePassword 1 "admin" "other" "other", .refresh ⟨1, .issued 0⟩])
      (turns [0, 0, 0, 0, 1, 1, 1, 1, 1, 1, 2])).db (.issued 0) 0 = none :=
  revocation_kills_older plainEnv oneUser_unissued oneUser_uniqueJtis _
    (turns [0, 0, 0, 0, 1, 1, 1, 1, 1, 1, 2]) (by decide +kernel)
    (rfl : _ = turns [0, 0, 0, 0, 1, 1, 1, 1, 1] ++ ⟨1, 0⟩ :: turns [2])
    (c := ⟨.changePassword 1 "admin" "other" "other", .revoked,
      [.password 1 "other", .revoke (.earlier 0) 0, .revoke (.issued 0) 0]⟩)
    (by decide +kernel) (rfl : _ = some 1) rfl
    (.stored ⟨1, .issued 0, 604800, none⟩ (by decide +kernel) rfl) 0

/-- A login that has verified the old password before the change and commits after it leaves a
valid token; both requests are answered. -/
theorem login_survives_change :
    let requests := [.login "admin" "admin", .changePassword 1 "admin" "other" "other"]
    let before := run (State.step plainEnv) (.start oneUser requests) (turns [0, 1, 1, 1, 1, 1])
    let after := run (State.step plainEnv) (.start oneUser requests)
      (turns [0, 1, 1, 1, 1, 1] ++ ⟨1, 0⟩ :: turns [0, 0, 0])
    oneUser.Unissued ∧ oneUser.UniqueJtis ∧
      (∃ c, before.sessions[1]? = some c ∧ c.request.revokes = some 1 ∧ c.stage = .revoked) ∧
      before.Older 1 (.issued 0) ∧ (∀ c ∈ after.sessions, c.stage = .answered true) ∧
      refreshIsValid after.db (.issued 0) 0 ≠ none := by
  refine ⟨oneUser_unissued, oneUser_uniqueJtis, ?_, ?_, ?_, ?_⟩
  · exact ⟨⟨.changePassword 1 "admin" "other" "other", .revoked,
      [.password 1 "other", .revoke (.earlier 0) 0]⟩, by decide +kernel, rfl, rfl⟩
  · exact .issuing 0 ⟨.login "admin" "admin", .flushing [.lastLogin 1 0,
      .insert ⟨1, .issued 0, 604800, none⟩], []⟩ (by decide +kernel) (by decide)
  · decide +kernel
  · decide +kernel

end TaskPlatform.Auth
