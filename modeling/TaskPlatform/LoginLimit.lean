import TaskPlatform.Lib.Run
import TaskPlatform.Lib.Slots
import TaskPlatform.Lib.Window

/-!
# The limit on failed logins

`login_failure_limiter`, `record_login_failure` and `clear_login_failures` of
`services/auth.py`, in the order in which `/auth/login` uses them. A request is
checked against the recorded failures, verifies the password, and only then
records its own failure; other requests run in between. One process is modelled,
with the times of its monotonic clock.
-/

namespace TaskPlatform

open Run Slots Window

structure AuthSettings where
  authRateLimitMinutes : ℚ
  authRateLimitMax : Nat
  deriving DecidableEq, Repr

/-- The defaults of `core/config.py`. -/
def AuthSettings.default : AuthSettings where
  authRateLimitMinutes := 1
  authRateLimitMax := 10

def AuthSettings.window (cfg : AuthSettings) : ℚ := cfg.authRateLimitMinutes * 60

/-- `_login_failures` -/
abbrev LoginFailures := String → List ℚ

/-- `login_failure_limiter`; `false` is the answer 429. -/
def loginFailureLimiter (cfg : AuthSettings) (failures : LoginFailures) (client : String)
    (now : ℚ) : Bool :=
  let timestamps := (failures client).filter (fun t => decide (now - cfg.window < t))
  !decide (timestamps.length ≥ cfg.authRateLimitMax)

/-- `record_login_failure` -/
def recordLoginFailure (cfg : AuthSettings) (client : String) (now : ℚ)
    (failures : LoginFailures) : LoginFailures :=
  let timestamps := (failures client).filter (fun t => decide (now - cfg.window < t))
  Function.update failures client (timestamps ++ [now])

/-- `clear_login_failures` -/
def clearLoginFailures (client : String) (failures : LoginFailures) : LoginFailures :=
  Function.update failures client []

inductive LoginPhase where
  | checked | failed | answered
  deriving DecidableEq, Repr

structure LoginRequest where
  client : String
  phase : LoginPhase
  deriving DecidableEq, Repr

/-- How `user is None or not verify_password(...)` comes out. -/
inductive LoginOutcome where
  | unknownUser | wrongPassword | success
  deriving DecidableEq, Repr

inductive LoginAction where
  | check (client : String) (now : ℚ)
  | verify (request : Nat) (now : ℚ) (outcome : LoginOutcome)
  | record (request : Nat) (now : ℚ)
  deriving DecidableEq, Repr

def LoginAction.now : LoginAction → ℚ
  | .check _ now | .verify _ now _ | .record _ now => now

/-- The recorded failures, the requests that passed their check, and the verifications of passwords
that were carried out. -/
structure LoginState where
  failures : LoginFailures
  requests : List LoginRequest
  verified : List (String × ℚ)

def LoginState.initial : LoginState := ⟨fun _ => [], [], []⟩

/-- The steps of the `login` route; for an unknown user no password is verified. -/
def LoginState.step (cfg : AuthSettings) (s : LoginState) : LoginAction → LoginState
  | .check client now =>
    if loginFailureLimiter cfg s.failures client now then
      { s with requests := s.requests ++ [⟨client, .checked⟩] }
    else s
  | .verify i now outcome =>
    match s.requests[i]? with
    | some ⟨client, .checked⟩ =>
      match outcome with
      | .unknownUser => { s with requests := s.requests.set i ⟨client, .failed⟩ }
      | .wrongPassword =>
        { s with
          requests := s.requests.set i ⟨client, .failed⟩
          verified := s.verified ++ [(client, now)] }
      | .success =>
        { failures := clearLoginFailures client s.failures
          requests := s.requests.set i ⟨client, .answered⟩
          verified := s.verified ++ [(client, now)] }
    | _ => s
  | .record i now =>
    match s.requests[i]? with
    | some ⟨client, .failed⟩ =>
      { s with
        failures := recordLoginFailure cfg client now s.failures
        requests := s.requests.set i ⟨client, .answered⟩ }
    | _ => s

/-- The requests of a client that have passed the check and not recorded their failure. -/
def LoginState.inFlight (s : LoginState) (client : String) : Nat :=
  s.requests.countP (fun r => decide (r.client = client ∧ r.phase ≠ .answered))

/-- Those of them whose attempt has failed already. -/
def LoginState.failing (s : LoginState) (client : String) : Nat :=
  s.requests.countP (fun r => decide (r.client = client ∧ r.phase = .failed))

/-- When passwords were verified for a client. -/
def LoginState.verifiedFor (s : LoginState) (client : String) : List ℚ :=
  (s.verified.filter (fun v => v.1 == client)).map Prod.snd

/-- A check that is passed leaves room for the requests that passed theirs before. -/
def LoginAction.HasRoom (cfg : AuthSettings) (s : LoginState) : LoginAction → Prop
  | .check client now => loginFailureLimiter cfg s.failures client now = true →
      (recent cfg.window now (s.failures client)).length + s.inFlight client < cfg.authRateLimitMax
  | _ => True

instance (cfg : AuthSettings) (s : LoginState) (a : LoginAction) : Decidable (a.HasRoom cfg s) := by
  rcases a <;> unfold LoginAction.HasRoom <;> infer_instance

/-- No login succeeds. -/
def LoginAction.Fails : LoginAction → Prop
  | .verify _ _ outcome => outcome ≠ .success
  | _ => True

instance (a : LoginAction) : Decidable a.Fails := by
  rcases a <;> unfold LoginAction.Fails <;> infer_instance

/-- At `now` and later: the verifications are covered by recorded and by failing requests, and
recorded failures and requests in flight stay within the limit. -/
structure LoginState.Bounded (cfg : AuthSettings) (s : LoginState) (client : String) (now : ℚ) :
    Prop where
  covered : ∀ t, now ≤ t → (recent cfg.window t (s.verifiedFor client)).length ≤
    (recent cfg.window t (s.failures client)).length + s.failing client
  limited : ∀ t, now ≤ t → (recent cfg.window t (s.failures client)).length + s.inFlight client ≤
    cfg.authRateLimitMax
  paced : Paced cfg.window cfg.authRateLimitMax (s.verifiedFor client)
  past : ∀ t ∈ s.verifiedFor client, t ≤ now

theorem failing_le_inFlight (s : LoginState) (client : String) :
    s.failing client ≤ s.inFlight client := by
  apply List.countP_mono_left
  intro r _ h
  rw [decide_eq_true_eq] at h ⊢
  exact ⟨h.1, by rw [h.2]; decide⟩

/-- What replacing a request does to the counts of its own client and of the others. -/
theorem counts_set {s : LoginState} {i : Nat} {r : LoginRequest} (r' : LoginRequest)
    (h : s.requests[i]? = some r) (failures : LoginFailures) (verified : List (String × ℚ))
    (client : String) :
    let s' : LoginState := ⟨failures, s.requests.set i r', verified⟩
    s'.inFlight client + (if r.client = client ∧ r.phase ≠ .answered then 1 else 0) =
        s.inFlight client + (if r'.client = client ∧ r'.phase ≠ .answered then 1 else 0) ∧
      s'.failing client + (if r.client = client ∧ r.phase = .failed then 1 else 0) =
        s.failing client + (if r'.client = client ∧ r'.phase = .failed then 1 else 0) := by
  have hflight := countP_replace (b := r')
    (p := fun r => decide (r.client = client ∧ r.phase ≠ .answered)) h
  have hfailing := countP_replace (b := r')
    (p := fun r => decide (r.client = client ∧ r.phase = .failed)) h
  simp only [decide_eq_true_eq] at hflight hfailing
  exact ⟨hflight, hfailing⟩

theorem LoginState.Bounded.later {cfg : AuthSettings} {s : LoginState} {client : String}
    {now now' : ℚ} (h : s.Bounded cfg client now) (hle : now ≤ now') :
    s.Bounded cfg client now' where
  covered := fun t ht => h.covered t (hle.trans ht)
  limited := fun t ht => h.limited t (hle.trans ht)
  paced := h.paced
  past := fun t ht => (h.past t ht).trans hle

/-- A request that passes the check. -/
theorem LoginState.Bounded.check {cfg : AuthSettings} {s : LoginState} {client : String} {now : ℚ}
    (h : s.Bounded cfg client now) (client' : String)
    (hroom : client' = client → (recent cfg.window now (s.failures client)).length +
      s.inFlight client < cfg.authRateLimitMax) :
    LoginState.Bounded cfg { s with requests := s.requests ++ [⟨client', .checked⟩] } client now := by
  have hfailing : LoginState.failing { s with requests := s.requests ++ [⟨client', .checked⟩] }
      client = s.failing client := by
    simp [LoginState.failing]
  have hflight : LoginState.inFlight { s with requests := s.requests ++ [⟨client', .checked⟩] }
      client = s.inFlight client + if client' = client then 1 else 0 := by
    simp [LoginState.inFlight, List.countP_append, List.countP_cons]
  refine ⟨fun t ht => ?_, fun t ht => ?_, h.paced, h.past⟩
  · rw [hfailing]
    exact h.covered t ht
  · rw [hflight]
    by_cases hclient : client' = client
    · have hnow := hroom hclient
      have hlater := length_recent_le ht (w := cfg.window) (s.failures client)
      rw [if_pos hclient]
      exact le_trans (Nat.add_le_add_right hlater _) hnow
    · rw [if_neg hclient]
      exact h.limited t ht

theorem verifiedFor_append (s : LoginState) (client client' : String) (now : ℚ)
    (failures : LoginFailures) (requests : List LoginRequest) :
    LoginState.verifiedFor ⟨failures, requests, s.verified ++ [(client', now)]⟩ client =
      s.verifiedFor client ++ if client' = client then [now] else [] := by
  by_cases h : client' = client <;> simp [LoginState.verifiedFor, h]

/-- An attempt that fails, with or without a verification. -/
theorem LoginState.Bounded.verify {cfg : AuthSettings} {s : LoginState} {client client' : String}
    {now : ℚ} {i : Nat} (h : s.Bounded cfg client now)
    (hrequest : s.requests[i]? = some ⟨client', .checked⟩) {verified : List (String × ℚ)}
    (hverified : verified = s.verified ∨ verified = s.verified ++ [(client', now)]) :
    LoginState.Bounded cfg ⟨s.failures, s.requests.set i ⟨client', .failed⟩, verified⟩ client
      now := by
  obtain ⟨hflight, hfailing⟩ := counts_set ⟨client', .failed⟩ hrequest s.failures verified client
  simp only [ne_eq, reduceCtorEq, not_false_eq_true, and_true, and_false, if_false,
    Nat.add_zero] at hflight hfailing
  replace hflight := Nat.add_right_cancel hflight
  have hnew : LoginState.verifiedFor ⟨s.failures, s.requests.set i ⟨client', .failed⟩, verified⟩
      client = s.verifiedFor client ∨ client' = client ∧ LoginState.verifiedFor ⟨s.failures,
      s.requests.set i ⟨client', .failed⟩, verified⟩ client = s.verifiedFor client ++ [now] := by
    obtain rfl | rfl := hverified
    · exact Or.inl rfl
    · rw [verifiedFor_append]
      by_cases hclient : client' = client
      · rw [if_pos hclient]
        exact Or.inr ⟨hclient, rfl⟩
      · rw [if_neg hclient, List.append_nil]
        exact Or.inl rfl
  have hlimited : ∀ t, now ≤ t → (recent cfg.window t (s.failures client)).length +
      LoginState.inFlight ⟨s.failures, s.requests.set i ⟨client', .failed⟩, verified⟩ client ≤
      cfg.authRateLimitMax := by
    intro t ht
    rw [hflight]
    exact h.limited t ht
  obtain hsame | ⟨hclient, hone⟩ := hnew
  · refine ⟨fun t ht => ?_, hlimited, hsame ▸ h.paced, hsame ▸ h.past⟩
    rw [hsame, hfailing]
    exact (h.covered t ht).trans (Nat.add_le_add_left (Nat.le_add_right _ _) _)
  · rw [if_pos hclient] at hfailing
    have hcovered : ∀ t, now ≤ t → (recent cfg.window t (s.verifiedFor client ++ [now])).length ≤
        (recent cfg.window t (s.failures client)).length + (s.failing client + 1) := by
      intro t ht
      have hbefore := h.covered t ht
      have hself : (recent cfg.window t [now]).length ≤ 1 := List.length_filter_le _ _
      rw [recent_append, List.length_append]
      omega
    -- the failing requests are among those in flight, so the limit holds for the verifications
    have hpaced : (recent cfg.window now (s.verifiedFor client ++ [now])).length ≤
        cfg.authRateLimitMax := by
      have hnow := hcovered now le_rfl
      have hin := failing_le_inFlight ⟨s.failures, s.requests.set i ⟨client', .failed⟩, verified⟩
        client
      have hlimit := hlimited now le_rfl
      omega
    refine ⟨fun t ht => ?_, hlimited, ?_, ?_⟩
    · rw [hone, hfailing]
      exact hcovered t ht
    · rw [hone]
      exact paced_append_singleton h.paced hpaced
    · rw [hone]
      intro t ht
      rcases List.mem_append.mp ht with ht | ht
      · exact h.past t ht
      · exact (List.mem_singleton.mp ht).le

/-- A failure that is recorded: it may leave the window only together with every verification. -/
theorem LoginState.Bounded.record {cfg : AuthSettings} {s : LoginState} {client client' : String}
    {now : ℚ} {i : Nat} (h : s.Bounded cfg client now)
    (hrequest : s.requests[i]? = some ⟨client', .failed⟩) :
    LoginState.Bounded cfg ⟨recordLoginFailure cfg client' now s.failures,
      s.requests.set i ⟨client', .answered⟩, s.verified⟩ client now := by
  obtain ⟨hflight, hfailing⟩ := counts_set ⟨client', .answered⟩ hrequest
    (recordLoginFailure cfg client' now s.failures) s.verified client
  simp only [ne_eq, reduceCtorEq, not_false_eq_true, not_true_eq_false, and_true, and_false,
    if_false, Nat.add_zero] at hflight hfailing
  by_cases hclient : client' = client
  · subst hclient
    rw [if_pos rfl] at hflight hfailing
    have hfailures : recordLoginFailure cfg client' now s.failures client' =
        recent cfg.window now (s.failures client') ++ [now] := Function.update_self ..
    have hrecent : ∀ t, now ≤ t → recent cfg.window t (recordLoginFailure cfg client' now s.failures
        client') = recent cfg.window t (s.failures client') ++ recent cfg.window t [now] := by
      intro t ht
      rw [hfailures, recent_append, recent_recent ht]
    refine ⟨fun t ht => ?_, fun t ht => ?_, h.paced, h.past⟩
    · rw [hrecent t ht, List.length_append]
      have hbefore := h.covered t ht
      by_cases hgone : now ≤ t - cfg.window
      · have hnone : recent cfg.window t (s.verifiedFor client') = [] :=
          recent_eq_nil fun u hu => (h.past u hu).trans hgone
        change (recent cfg.window t (s.verifiedFor client')).length ≤ _
        rw [hnone]
        exact Nat.zero_le _
      · have hone : recent cfg.window t [now] = [now] := by
          simp [recent, recentBy, not_le.mp hgone]
        change (recent cfg.window t (s.verifiedFor client')).length ≤ _
        rw [hone, List.length_singleton]
        omega
    · rw [hrecent t ht, List.length_append]
      have hbefore := h.limited t ht
      have hself : (recent cfg.window t [now]).length ≤ 1 := List.length_filter_le _ _
      omega
  · have hfailures : recordLoginFailure cfg client' now s.failures client = s.failures client :=
      Function.update_of_ne (Ne.symm hclient) ..
    rw [if_neg hclient, Nat.add_zero] at hflight hfailing
    refine ⟨fun t ht => ?_, fun t ht => ?_, h.paced, h.past⟩
    · rw [hfailing]
      change _ ≤ (recent cfg.window t (recordLoginFailure cfg client' now s.failures client)).length
        + _
      rw [hfailures]
      exact h.covered t ht
    · rw [hflight]
      change (recent cfg.window t (recordLoginFailure cfg client' now s.failures client)).length
        + _ ≤ _
      rw [hfailures]
      exact h.limited t ht

/-- One step keeps the bounds. -/
theorem LoginState.Bounded.step {cfg : AuthSettings} {s : LoginState} {client : String} {now : ℚ}
    (h : s.Bounded cfg client now) {a : LoginAction} (hle : now ≤ a.now) (hfails : a.Fails)
    (hroom : a.HasRoom cfg s) : (s.step cfg a).Bounded cfg client a.now := by
  have hlater := h.later hle
  cases a with
  | check client' now' =>
    rw [LoginState.step]
    split
    · rename_i hpass
      apply hlater.check client'
      rintro rfl
      exact hroom hpass
    · exact hlater
  | verify i now' outcome =>
    rw [LoginState.step]
    split
    · rename_i client' hrequest
      cases outcome with
      | unknownUser => exact hlater.verify hrequest (Or.inl rfl)
      | wrongPassword => exact hlater.verify hrequest (Or.inr rfl)
      | success => exact absurd rfl hfails
    · exact hlater
  | record i now' =>
    rw [LoginState.step]
    split
    · rename_i client' hrequest
      exact hlater.record hrequest
    · exact hlater

/-- A run in time order keeps the bounds. -/
theorem LoginState.Bounded.run {cfg : AuthSettings} {client : String} {acts : List LoginAction}
    {s : LoginState} {now : ℚ} (h : s.Bounded cfg client now) (hnow : ∀ a ∈ acts, now ≤ a.now)
    (htime : (acts.map LoginAction.now).Pairwise (· ≤ ·)) (hfails : ∀ a ∈ acts, a.Fails)
    (hroom : Along (LoginState.step cfg) (LoginAction.HasRoom cfg) s acts) :
    ∃ later, (Run.run (LoginState.step cfg) s acts).Bounded cfg client later := by
  induction acts generalizing s now with
  | nil => exact ⟨now, h⟩
  | cons a acts ih =>
    rw [List.map_cons, List.pairwise_cons] at htime
    refine ih (h.step (hnow a List.mem_cons_self) (hfails a List.mem_cons_self) hroom.1) ?_
      htime.2 (fun b hb => hfails b (List.mem_cons_of_mem a hb)) hroom.2
    intro b hb
    exact htime.1 b.now (List.mem_map_of_mem hb)

theorem LoginState.bounded_initial (cfg : AuthSettings) (client : String) (now : ℚ) :
    LoginState.initial.Bounded cfg client now where
  covered := fun _ _ => Nat.zero_le _
  limited := fun _ _ => Nat.zero_le _
  paced := paced_nil cfg.window cfg.authRateLimitMax
  past := fun _ ht => absurd ht List.not_mem_nil

/-- When every check that is passed finds room for the requests that passed before it, the failed
logins of a client stay within the limit. -/
theorem login_limit_with_room (cfg : AuthSettings) (acts : List LoginAction)
    (htime : (acts.map LoginAction.now).Pairwise (· ≤ ·)) (hfails : ∀ a ∈ acts, a.Fails)
    (hroom : Along (LoginState.step cfg) (LoginAction.HasRoom cfg) .initial acts)
    (client : String) (b : ℚ) :
    let times := (Run.run (LoginState.step cfg) .initial acts).verifiedFor client
    (times.filter (fun t => decide (b < t ∧ t ≤ b + cfg.window))).length ≤ cfg.authRateLimitMax ∧
      (times.filter (fun t => decide (b ≤ t ∧ t < b + cfg.window))).length ≤
        cfg.authRateLimitMax := by
  intro times
  cases acts with
  | nil => exact ⟨Nat.zero_le _, Nat.zero_le _⟩
  | cons a acts =>
    have hnow : ∀ c ∈ a :: acts, a.now ≤ c.now := by
      intro c hc
      rcases List.mem_cons.mp hc with rfl | hc
      · exact le_rfl
      · exact (List.pairwise_cons.mp htime).1 c.now (List.mem_map_of_mem hc)
    obtain ⟨later, hbounded⟩ := (LoginState.bounded_initial cfg client a.now).run hnow htime hfails
      hroom
    exact hbounded.paced.interval b

/-- Two attempts after each other, then one that is refused. -/
def pacedLogins : List LoginAction :=
  [.check "c" 0, .verify 0 1 .wrongPassword, .record 0 1,
    .check "c" 2, .verify 1 3 .unknownUser, .record 1 3, .check "c" 4]

theorem login_limit_with_room_pacedLogins :
    let times := (Run.run (LoginState.step .default) .initial pacedLogins).verifiedFor "c"
    (times.filter (fun t => decide (0 < t ∧ t ≤ 0 + AuthSettings.default.window))).length ≤ 10 ∧
      (times.filter (fun t => decide (0 ≤ t ∧ t < 0 + AuthSettings.default.window))).length ≤ 10 :=
  login_limit_with_room .default pacedLogins (by decide +kernel) (by decide +kernel)
    (by decide +kernel) "c" 0

/-- Requests that are all checked before the first of them verifies its password. -/
def burstLogins (n : Nat) : List LoginAction :=
  List.replicate n (.check "c" 0) ++
    (List.range n).flatMap (fun i => [.verify i 0 .wrongPassword, .record i 0])

/-- Eleven passwords are verified at once where ten are allowed within a minute. -/
theorem burst_exceeds_limit :
    ((burstLogins 11).map LoginAction.now).Pairwise (· ≤ ·) ∧
      (∀ a ∈ burstLogins 11, a.Fails) ∧
      ¬ (((Run.run (LoginState.step .default) .initial (burstLogins 11)).verifiedFor "c").filter
        (fun t => decide (0 ≤ t ∧ t < 0 + AuthSettings.default.window))).length ≤
          AuthSettings.default.authRateLimitMax := by
  decide +kernel

end TaskPlatform
