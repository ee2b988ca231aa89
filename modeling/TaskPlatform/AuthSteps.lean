import TaskPlatform.Auth
import TaskPlatform.Lib.Slots

/-!
# Steps of interleaved requests

What one statement of a request can do, what a request writes, and what a commit
makes of the refresh tokens. No two requests hold a row at the same time.
-/

namespace TaskPlatform.Auth

open Run Slots

/-- A row after a write is the row before it, not revoked by it, or the inserted one. -/
theorem mem_write {db : Accounts} {w : Write} {t' : RefreshToken}
    (h : t' ∈ (db.write w).refreshTokens) :
    (∃ t ∈ db.refreshTokens, t.jti = t'.jti ∧ t.userId = t'.userId ∧
      (t'.revokedAt = none → t.revokedAt = none ∧ ∀ now, w ≠ .revoke t'.jti now)) ∨
      w = .insert t' := by
  cases w with
  | lastLogin user now => exact Or.inl ⟨t', h, rfl, rfl, fun hr => ⟨hr, by simp⟩⟩
  | password user hash => exact Or.inl ⟨t', h, rfl, rfl, fun hr => ⟨hr, by simp⟩⟩
  | active user isActive => exact Or.inl ⟨t', h, rfl, rfl, fun hr => ⟨hr, by simp⟩⟩
  | revoke jti now =>
    obtain ⟨t, ht, he⟩ := List.mem_map.mp h
    refine Or.inl ⟨t, ht, ?_⟩
    split at he
    · subst he
      exact ⟨rfl, rfl, fun hr => absurd hr (by simp)⟩
    · rename_i hne
      subst he
      exact ⟨rfl, rfl, fun hr => ⟨hr, by simp [Ne.symm hne]⟩⟩
  | insert token =>
    rcases List.mem_append.mp h with h | h
    · exact Or.inl ⟨t', h, rfl, rfl, fun hr => ⟨hr, by simp⟩⟩
    · rw [List.mem_singleton] at h
      exact Or.inr (by rw [h])

theorem write_keeps (db : Accounts) (w : Write) {t : RefreshToken} (h : t ∈ db.refreshTokens) :
    ∃ t' ∈ (db.write w).refreshTokens, t'.jti = t.jti := by
  cases w with
  | revoke jti now =>
    refine ⟨_, List.mem_map_of_mem h, ?_⟩
    split <;> rfl
  | insert token => exact ⟨t, List.mem_append_left _ h, rfl⟩
  | _ => exact ⟨t, h, rfl⟩

/-- A row after a commit, likewise. -/
theorem mem_commit {ws : List Write} {db : Accounts} {t' : RefreshToken}
    (h : t' ∈ (ws.foldl Accounts.write db).refreshTokens) :
    (∃ t ∈ db.refreshTokens, t.jti = t'.jti ∧ t.userId = t'.userId ∧
      (t'.revokedAt = none → t.revokedAt = none ∧ ∀ now, .revoke t'.jti now ∉ ws)) ∨
      ∃ t, .insert t ∈ ws ∧ t.jti = t'.jti ∧ t.userId = t'.userId := by
  induction ws generalizing db with
  | nil => exact Or.inl ⟨t', h, rfl, rfl, fun hr => ⟨hr, fun _ => List.not_mem_nil⟩⟩
  | cons w ws ih =>
    obtain ⟨t₁, ht₁, hjti, huser, hopen⟩ | ⟨t, ht, hjti, huser⟩ := ih h
    · obtain ⟨t, ht, hjti', huser', hopen'⟩ | rfl := mem_write ht₁
      · refine Or.inl ⟨t, ht, hjti'.trans hjti, huser'.trans huser, fun hr => ?_⟩
        obtain ⟨hr₁, hws⟩ := hopen hr
        obtain ⟨hr₀, hw⟩ := hopen' hr₁
        refine ⟨hr₀, fun now hmem => ?_⟩
        rcases List.mem_cons.mp hmem with he | hmem
        · exact hw now (by rw [hjti, he])
        · exact hws now hmem
      · exact Or.inr ⟨t₁, List.mem_cons_self, hjti, huser⟩
    · exact Or.inr ⟨t, List.mem_cons_of_mem w ht, hjti, huser⟩

theorem commit_keeps (ws : List Write) (db : Accounts) {t : RefreshToken}
    (h : t ∈ db.refreshTokens) :
    ∃ t' ∈ (ws.foldl Accounts.write db).refreshTokens, t'.jti = t.jti := by
  induction ws generalizing db t with
  | nil => exact ⟨t, h, rfl⟩
  | cons w ws ih =>
    obtain ⟨t₁, ht₁, h₁⟩ := write_keeps db w h
    obtain ⟨t₂, ht₂, h₂⟩ := ih (db.write w) ht₁
    exact ⟨t₂, ht₂, h₂.trans h₁⟩

theorem storedRefresh_some {db : Accounts} {jti : Jti} {t : RefreshToken}
    (h : storedRefresh db jti = some t) : t ∈ db.refreshTokens ∧ t.jti = jti :=
  ⟨List.mem_of_find?_eq_some h, by simpa using List.find?_some h⟩

theorem refreshIsValid_some {db : Accounts} {jti : Jti} {now : Time} {t : RefreshToken}
    (h : refreshIsValid db jti now = some t) :
    t ∈ db.refreshTokens ∧ t.jti = jti ∧ t.revokedAt = none := by
  rw [refreshIsValid] at h
  split at h
  · cases h
  · rename_i stored hstored
    split at h
    · cases h
    · rename_i hopen
      split at h
      · cases h
      · cases h
        obtain ⟨hmem, hjti⟩ := storedRefresh_some hstored
        exact ⟨hmem, hjti, by simpa using hopen⟩

theorem State.not_locked {s : State} {i : Nat} {row : Row} (h : s.locked i row = false) {k : Nat}
    {c : Session} (hk : s.sessions[k]? = some c) (hne : k ≠ i) :
    ∀ w ∈ c.writes, w.row ≠ some row := by
  intro w hw hrow
  rw [State.locked, List.any_eq_false] at h
  have hlt : k < s.sessions.length := (List.getElem?_eq_some_iff.mp hk).1
  have hk' := h k (List.mem_range.mpr hlt)
  rw [hk] at hk'
  apply hk'
  rw [Bool.and_eq_true]
  refine ⟨by simpa using hne, ?_⟩
  exact List.any_eq_true.mpr ⟨w, hw, decide_eq_true hrow⟩

/-- The steps of a request that does not wait. -/
inductive Moves (env : Env) (s : State) (a : Action) (c : Session) : State → Prop
  | reads (h : c.stage = .begun ∨ c.stage = .checked ∨ c.stage = .found) :
    Moves env s a c (s.put a.request
      { c with stage := readStage env s.db a.request a.now c.request c.stage })
  | flush (w : Write) (queue : List Write) (h : c.stage = .flushing (w :: queue))
    (hfree : ∀ row, w.row = some row → s.locked a.request row = false) :
    Moves env s a c (s.put a.request { c with stage := .flushing queue, writes := c.writes ++ [w] })
  | begins (user : Nat) (h : c.stage = .flushing []) (hrevokes : c.request.revokes = some user) :
    Moves env s a c (s.put a.request
      { c with stage := .revoking (activeTokens s.db user) a.now })
  | revokes (snapshot : List Jti) (at' : Time) (h : c.stage = .revoking snapshot at')
    (hfree : ∀ jti ∈ snapshot, s.locked a.request (.token jti) = false) :
    Moves env s a c (s.put a.request
      { c with
        stage := .revoked
        writes := c.writes ++ (stillActive s.db snapshot).map (fun jti => .revoke jti at') })
  | commits (h : c.stage = .revoked ∨ c.stage = .flushing [] ∧ c.request.revokes = none) :
    Moves env s a c (s.commit a.request c)

theorem step_cases (env : Env) (s : State) (a : Action) :
    s.step env a = s ∨
      ∃ c, s.sessions[a.request]? = some c ∧ Moves env s a c (s.step env a) := by
  rw [State.step]
  split
  · exact Or.inl rfl
  · rename_i c hc
    split
    · rename_i hstage
      exact Or.inr ⟨c, hc, .reads (Or.inl hstage)⟩
    · rename_i hstage
      exact Or.inr ⟨c, hc, .reads (Or.inr (Or.inl hstage))⟩
    · rename_i hstage
      exact Or.inr ⟨c, hc, .reads (Or.inr (Or.inr hstage))⟩
    · rename_i w queue hstage
      split
      · exact Or.inl rfl
      · rename_i hfree
        refine Or.inr ⟨c, hc, .flush w queue hstage fun row hrow => ?_⟩
        rw [hrow, Option.any_some, Bool.not_eq_true] at hfree
        exact hfree
    · rename_i hstage
      split
      · rename_i user hrevokes
        exact Or.inr ⟨c, hc, .begins user hstage hrevokes⟩
      · rename_i hrevokes
        exact Or.inr ⟨c, hc, .commits (Or.inr ⟨hstage, hrevokes⟩)⟩
    · rename_i snapshot at' hstage
      split
      · exact Or.inl rfl
      · rename_i hfree
        refine Or.inr ⟨c, hc, .revokes snapshot at' hstage fun jti hjti => ?_⟩
        rw [Bool.not_eq_true, List.any_eq_false] at hfree
        simpa using hfree jti hjti
    · rename_i hstage
      exact Or.inr ⟨c, hc, .commits (Or.inl hstage)⟩
    · exact Or.inl rfl

/-- What a request writes before it revokes the tokens of a user. -/
def Program (env : Env) (i : Nat) : Request → List Write → Prop
  | .login _ _, ws => ∃ user now, ws = [.lastLogin user.id now, .insert (newToken env i user now)]
  | .refresh payload, ws => ∃ user now, user.id = payload.sub ∧
      ws = [.revoke payload.jti now, .insert (newToken env i user now)]
  | .logout payload, ws => ∃ now, ws = [.revoke payload.jti now]
  | .changePassword user _ _ newHash, ws => ws = [.password user newHash]
  | .setActive user isActive, ws => ws = [] ∨ ws = [.active user isActive]

/-- The writes and the queue of a request fit its stage. -/
def Session.Shaped (env : Env) (i : Nat) (c : Session) : Prop :=
  match c.stage with
  | .begun | .checked | .found | .answered _ => c.writes = []
  | .flushing queue => Program env i c.request (c.writes ++ queue)
  | .revoking _ _ => c.request.revokes.isSome ∧ Program env i c.request c.writes
  | .revoked => c.request.revokes.isSome ∧ ∃ (ws : List Write) (snapshot : List Jti) (at' : Time),
      Program env i c.request ws ∧ c.writes = ws ++ snapshot.map (fun jti => .revoke jti at')

theorem getUserById_id {db : Accounts} {id : Nat} {user : User} (h : getUserById db id = some user) :
    user.id = id := by
  have := List.find?_some h
  simpa using this

theorem readStage_cases (env : Env) (db : Accounts) (i : Nat) (now : Time) (request : Request)
    {stage : Stage} (h : stage = .begun ∨ stage = .checked ∨ stage = .found) :
    (∃ queue, readStage env db i now request stage = .flushing queue ∧
      Program env i request queue) ∨
      readStage env db i now request stage = .checked ∨
      readStage env db i now request stage = .found ∨
      readStage env db i now request stage = .answered false := by
  cases request with
  | login username password =>
    rcases h with rfl | rfl | rfl
    · simp only [readStage]
      split
      · simp
      · rename_i user _
        split
        · exact Or.inl ⟨_, rfl, user, now, rfl⟩
        · simp
    · simp [readStage]
    · simp [readStage]
  | refresh payload =>
    rcases h with rfl | rfl | rfl
    · simp only [readStage]
      split <;> simp
    · simp [readStage]
    · simp only [readStage]
      split
      · simp
      · rename_i user huser
        split
        · exact Or.inl ⟨_, rfl, user, now, getUserById_id huser, rfl⟩
        · simp
  | logout payload =>
    rcases h with rfl | rfl | rfl
    · simp only [readStage]
      split
      · exact Or.inl ⟨_, rfl, now, rfl⟩
      · simp
    · simp [readStage]
    · simp [readStage]
  | changePassword user current new newHash =>
    rcases h with rfl | rfl | rfl
    · simp only [readStage]
      split <;> simp
    · simp only [readStage]
      split
      · simp
      · rename_i row hrow
        split
        · simp
        · split
          · simp
          · split
            · simp
            · exact Or.inl ⟨_, rfl, by rw [Program, getUserById_id hrow]⟩
    · simp [readStage]
  | setActive user isActive =>
    rcases h with rfl | rfl | rfl
    · simp only [readStage]
      split
      · simp
      · rename_i row hrow
        split
        · exact Or.inl ⟨[], rfl, Or.inl rfl⟩
        · exact Or.inl ⟨_, rfl, Or.inr (by rw [getUserById_id hrow])⟩
    · simp [readStage]
    · simp [readStage]

/-- A program inserts no token but the new one of its request. -/
theorem Program.insert {env : Env} {i : Nat} {request : Request} {ws : List Write}
    (h : Program env i request ws) {t : RefreshToken} (ht : .insert t ∈ ws) :
    t.jti = .issued i := by
  cases request with
  | login username password =>
    obtain ⟨user, now, rfl⟩ := h
    simp only [List.mem_cons, reduceCtorEq, Write.insert.injEq, false_or, List.not_mem_nil,
      or_false] at ht
    rw [ht, newToken]
  | refresh payload =>
    obtain ⟨user, now, -, rfl⟩ := h
    simp only [List.mem_cons, reduceCtorEq, Write.insert.injEq, false_or, List.not_mem_nil,
      or_false] at ht
    rw [ht, newToken]
  | logout payload =>
    obtain ⟨now, rfl⟩ := h
    simp at ht
  | changePassword user current new newHash =>
    rw [Program] at h
    simp [h] at ht
  | setActive user isActive =>
    rcases h with rfl | rfl <;> simp at ht

/-- Nor does its request, whatever it has written. -/
theorem Session.Shaped.insert {env : Env} {i : Nat} {c : Session} (h : c.Shaped env i)
    {t : RefreshToken} (ht : .insert t ∈ c.writes) : t.jti = .issued i := by
  rw [Session.Shaped] at h
  split at h
  · simp [h] at ht
  · simp [h] at ht
  · simp [h] at ht
  · simp [h] at ht
  · exact h.insert (List.mem_append_left _ ht)
  · exact h.2.insert ht
  · obtain ⟨-, ws, snapshot, at', hprogram, hwrites⟩ := h
    rw [hwrites, List.mem_append] at ht
    rcases ht with ht | ht
    · exact hprogram.insert ht
    · obtain ⟨jti, -, he⟩ := List.mem_map.mp ht
      cases he

/-- No two requests hold a row, and a new token is there only after its request was answered. -/
structure State.WellFormed (env : Env) (s : State) : Prop where
  shaped : ∀ (i : Nat) (c : Session), s.sessions[i]? = some c → c.Shaped env i
  exclusive : ∀ (i k : Nat) (c d : Session), s.sessions[i]? = some c → s.sessions[k]? = some d → i ≠ k →
    ∀ w ∈ c.writes, ∀ v ∈ d.writes, ∀ row : Row, w.row = some row → v.row ≠ some row
  issued : ∀ t ∈ s.db.refreshTokens, ∀ i : Nat, t.jti = .issued i →
    ∃ c : Session, s.sessions[i]? = some c ∧ c.stage = .answered true

/-- No `jti` of the stored tokens is one that a request of the run will use. -/
def Accounts.Unissued (db : Accounts) : Prop := ∀ t ∈ db.refreshTokens, ∀ i, t.jti ≠ .issued i

theorem wellFormed_start (env : Env) {db : Accounts} (h : db.Unissued) (requests : List Request) :
    (State.start db requests).WellFormed env := by
  have hwrites : ∀ (i : Nat) (c : Session), (State.start db requests).sessions[i]? = some c →
      c.stage = .begun ∧ c.writes = [] := by
    intro i c hc
    rw [State.start, List.getElem?_map] at hc
    obtain ⟨request, -, rfl⟩ := Option.map_eq_some_iff.mp hc
    exact ⟨rfl, rfl⟩
  refine ⟨fun i c hc => ?_, fun i k c d hc hd _ w hw => ?_, fun t ht i hi => absurd hi (h t ht i)⟩
  · rw [Session.Shaped, (hwrites i c hc).1]
    exact (hwrites i c hc).2
  · rw [(hwrites i c hc).2] at hw
    cases hw

/-- A statement before the commit. -/
theorem State.WellFormed.put {env : Env} {s : State} (h : s.WellFormed env) {i : Nat} {c c' : Session}
    (hc : s.sessions[i]? = some c) (hopen : c.stage ≠ .answered true) (hshaped : c'.Shaped env i)
    (hwrites : ∀ w ∈ c'.writes, w ∈ c.writes ∨
      ∀ row, w.row = some row → s.locked i row = false) : (s.put i c').WellFormed env where
  shaped := by
    intro k d hd
    obtain ⟨rfl, rfl⟩ | ⟨-, hd⟩ := getElem?_set_cases hd
    · exact hshaped
    · exact h.shaped k d hd
  exclusive := by
    have hnew : ∀ (k : Nat) (d : Session), s.sessions[k]? = some d → k ≠ i → ∀ w ∈ c'.writes,
        ∀ v ∈ d.writes, ∀ row : Row, w.row = some row → v.row ≠ some row := by
      intro k d hd hne w hw v hv row hrow
      rcases hwrites w hw with hold | hfree
      · exact h.exclusive i k c d hc hd (Ne.symm hne) w hold v hv row hrow
      · exact State.not_locked (hfree row hrow) hd hne v hv
    intro k l d e hd he hne w hw v hv row hrow
    obtain ⟨rfl, rfl⟩ | ⟨hki, hd'⟩ := getElem?_set_cases hd
    · obtain ⟨rfl, -⟩ | ⟨hli, he'⟩ := getElem?_set_cases he
      · exact absurd rfl hne
      · exact hnew l e he' hli w hw v hv row hrow
    · obtain ⟨rfl, rfl⟩ | ⟨-, he'⟩ := getElem?_set_cases he
      · intro hv'
        exact hnew k d hd' hki v hv w hw row hv' hrow
      · exact h.exclusive k l d e hd' he' hne w hw v hv row hrow
  issued := by
    intro t ht k hk
    obtain ⟨d, hd, hanswered⟩ := h.issued t ht k hk
    refine ⟨d, ?_, hanswered⟩
    have hne : i ≠ k := by
      rintro rfl
      rw [hc] at hd
      cases hd
      exact hopen hanswered
    exact (List.getElem?_set_ne hne).trans hd

theorem State.WellFormed.commit {env : Env} {s : State} (h : s.WellFormed env) {i : Nat}
    {c : Session} (hc : s.sessions[i]? = some c) : (s.commit i c).WellFormed env where
  shaped := by
    intro k d hd
    obtain ⟨rfl, rfl⟩ | ⟨-, hd⟩ := getElem?_set_cases hd
    · exact (rfl : ([] : List Write) = [])
    · exact h.shaped k d hd
  exclusive := by
    intro k l d e hd he hne w hw v hv row hrow
    obtain ⟨rfl, rfl⟩ | ⟨-, hd⟩ := getElem?_set_cases hd
    · cases hw
    · obtain ⟨rfl, rfl⟩ | ⟨-, he⟩ := getElem?_set_cases he
      · cases hv
      · exact h.exclusive k l d e hd he hne w hw v hv row hrow
  issued := by
    have hlt : i < s.sessions.length := (List.getElem?_eq_some_iff.mp hc).1
    have hself : (s.commit i c).sessions[i]? =
        some { c with stage := .answered true, writes := [] } := List.getElem?_set_self hlt
    intro t' ht' k hk
    by_cases hki : i = k
    · subst hki
      exact ⟨_, hself, rfl⟩
    · obtain ⟨t, ht, hjti, -⟩ | ⟨t, ht, hjti, -⟩ := mem_commit ht'
      · obtain ⟨d, hd, hanswered⟩ := h.issued t ht k (hjti.trans hk)
        exact ⟨d, (List.getElem?_set_ne hki).trans hd, hanswered⟩
      · have hown := (h.shaped i c hc).insert ht
        rw [hjti, hk] at hown
        cases hown
        exact absurd rfl hki

/-- Every step keeps the invariant. -/
theorem State.WellFormed.step {env : Env} {s : State} (h : s.WellFormed env) (a : Action) :
    (s.step env a).WellFormed env := by
  obtain hsame | ⟨c, hc, hmoves⟩ := step_cases env s a
  · rw [hsame]
    exact h
  have hshaped := h.shaped a.request c hc
  generalize s.step env a = s' at hmoves
  cases hmoves with
  | reads hstage =>
    have hwrites : c.writes = [] := by
      rw [Session.Shaped] at hshaped
      rcases hstage with hs | hs | hs <;> rw [hs] at hshaped <;> exact hshaped
    apply h.put hc
    · rcases hstage with hs | hs | hs <;> rw [hs] <;> simp
    · obtain ⟨queue, hq, hprogram⟩ | hq | hq | hq :=
        readStage_cases env s.db a.request a.now c.request hstage
      · rw [Session.Shaped, hq, hwrites]
        exact hprogram
      · rw [Session.Shaped, hq]
        exact hwrites
      · rw [Session.Shaped, hq]
        exact hwrites
      · rw [Session.Shaped, hq]
        exact hwrites
    · intro w hw
      exact Or.inl hw
  | flush w queue hstage hfree =>
    rw [Session.Shaped, hstage] at hshaped
    apply h.put hc
    · rw [hstage]
      simp
    · change Program env a.request c.request (c.writes ++ [w] ++ queue)
      rw [List.append_assoc]
      exact hshaped
    · intro v hv
      rcases List.mem_append.mp hv with hv | hv
      · exact Or.inl hv
      · rw [List.mem_singleton.mp hv]
        exact Or.inr hfree
  | begins user hstage hrevokes =>
    rw [Session.Shaped, hstage] at hshaped
    apply h.put hc
    · rw [hstage]
      simp
    · have hprogram : Program env a.request c.request (c.writes ++ []) := hshaped
      rw [List.append_nil] at hprogram
      exact ⟨by rw [hrevokes]; rfl, hprogram⟩
    · intro w hw
      exact Or.inl hw
  | revokes snapshot at' hstage hfree =>
    rw [Session.Shaped, hstage] at hshaped
    apply h.put hc
    · rw [hstage]
      simp
    · exact ⟨hshaped.1, c.writes, _, at', hshaped.2, rfl⟩
    · intro v hv
      rcases List.mem_append.mp hv with hv | hv
      · exact Or.inl hv
      · obtain ⟨jti, hjti, rfl⟩ := List.mem_map.mp hv
        refine Or.inr fun row hrow => ?_
        cases hrow
        exact hfree jti (List.mem_filter.mp hjti).1
  | commits hstage => exact h.commit hc

end TaskPlatform.Auth
