import TaskPlatform.Lib.Tally
import TaskPlatform.Limiters

/-!
# What all replicas admit together

Redis answers the calls of a kind as one local limiter would answer those that
reached it, and each process answers the others of its calls as a local limiter
of its own. Both are paced, so a window holds at most one quota for Redis and
one for every replica that lost a reply.
-/

namespace TaskPlatform

open Window

/-- The kind of the callers that use a key. -/
def keyKind (key : String) : LimitKind :=
  match key.toList.head? with
  | some 'w' => .ws
  | some 'c' => .taskCreate
  | _ => .api

theorem keyKind_key (env : LimiterEnv) (c : Client) : keyKind (c.key env) = c.kind := by
  cases c with
  | api authorization host =>
    simp only [Client.key, clientKey]
    split <;> simp [keyKind, Client.kind]
  | ws userId => simp [Client.key, keyKind, Client.kind]
  | taskCreate host => simp [Client.key, keyKind, Client.kind]

/-- The script ran for the call. -/
def LimiterCall.ran (c : LimiterCall) : Bool :=
  match c.outcome, c.visit.reply with
  | .skipped, _ => false
  | .raised, .lost ran => ran
  | _, _ => true

def LimiterCall.isKind (kind : LimitKind) (c : LimiterCall) : Bool := c.visit.client.kind == kind

def LimiterCall.call (c : LimiterCall) : Call := ⟨c.key, c.visit.time⟩

/-- The calls of a kind for which the script ran. -/
def scriptCalls (kind : LimitKind) (calls : List LimiterCall) : List Call :=
  (calls.filter (fun c => c.ran && c.isKind kind)).map LimiterCall.call

/-- A local limiter that gets the same calls as Redis. -/
def LimiterEnv.mirror (env : LimiterEnv) (kind : LimitKind) (calls : List LimiterCall) :
    LocalRateLimiter :=
  (LocalRateLimiter.new (env.limits kind).1 (env.limits kind).2).after (scriptCalls kind calls)

theorem scriptCalls_append (kind : LimitKind) (xs ys : List LimiterCall) :
    scriptCalls kind (xs ++ ys) = scriptCalls kind xs ++ scriptCalls kind ys := by
  simp [scriptCalls]

theorem scriptCalls_singleton (kind : LimitKind) (c : LimiterCall) :
    scriptCalls kind [c] = if c.ran && c.isKind kind then [c.call] else [] := by
  cases h : c.ran && c.isKind kind <;> simp [scriptCalls, h]

section

variable {env : LimiterEnv} {kind : LimitKind} {calls : List LimiterCall}

@[simp] theorem mirror_cutoff :
    (env.mirror kind calls).cutoff = fun now => now - (env.limits kind).2 :=
  LocalRateLimiter.after_cutoff _ _

@[simp] theorem mirror_maxRequests :
    (env.mirror kind calls).maxRequests = (env.limits kind).1 :=
  LocalRateLimiter.after_maxRequests _ _

theorem mirror_append_of_ran {c : LimiterCall} (h : c.ran = true) (hkind : c.isKind kind = true) :
    env.mirror kind (calls ++ [c]) = ((env.mirror kind calls).allow c.call).1 := by
  rw [LimiterEnv.mirror, scriptCalls_append, scriptCalls_singleton, h, hkind, Bool.and_self,
    if_pos rfl, LocalRateLimiter.after_append]
  rfl

theorem scriptCalls_append_of_not {c : LimiterCall} (h : (c.ran && c.isKind kind) = false) :
    scriptCalls kind (calls ++ [c]) = scriptCalls kind calls := by
  rw [scriptCalls_append, scriptCalls_singleton, h, if_neg Bool.false_ne_true, List.append_nil]

end

/-- Redis against the local limiter that gets the same calls; `now` is the last time. -/
structure Mirrors (env : LimiterEnv) (kind : LimitKind) (now : ℚ) (used : List String)
    (db : Redis) (calls : List LimiterCall) : Prop where
  agrees : ∀ key, keyKind key = kind → Agrees (env.limits kind).2 (scriptCalls kind calls) used
    (db (redisKey key)) ((env.mirror kind calls).hits key)
  ordered : ((scriptCalls kind calls).map Call.now).Pairwise (· ≤ ·)
  past : LocalRateLimiter.Until (scriptCalls kind calls) now
  answers : ∀ xs c ys, calls = xs ++ c :: ys → c.isKind kind = true → ∀ answer,
    c.outcome = .returned answer → answer = ((env.mirror kind xs).allow c.call).2

/-- The decisions are no part of it. -/
def LimiterCall.asked (c : LimiterCall) : LimiterCall := { c with decision := none }

@[simp] theorem asked_outcome (c : LimiterCall) : c.asked.outcome = c.outcome := rfl
@[simp] theorem asked_ran (c : LimiterCall) : c.asked.ran = c.ran := rfl
@[simp] theorem asked_isKind (kind : LimitKind) (c : LimiterCall) :
    c.asked.isKind kind = c.isKind kind := rfl
@[simp] theorem asked_call (c : LimiterCall) : c.asked.call = c.call := rfl

theorem scriptCalls_asked (kind : LimitKind) (calls : List LimiterCall) :
    scriptCalls kind (calls.map LimiterCall.asked) = scriptCalls kind calls := by
  simp only [scriptCalls, List.filter_map, List.map_map]
  rfl

theorem mirror_asked (env : LimiterEnv) (kind : LimitKind) (calls : List LimiterCall) :
    env.mirror kind (calls.map LimiterCall.asked) = env.mirror kind calls := by
  simp only [LimiterEnv.mirror, scriptCalls_asked]

section

variable {env : LimiterEnv} {kind : LimitKind} {now : ℚ} {used : List String} {db : Redis}
  {calls : List LimiterCall}

theorem Mirrors.initial (env : LimiterEnv) (kind : LimitKind) (now : ℚ) :
    Mirrors env kind now [] (fun _ => none) [] where
  agrees := by
    intro key _
    refine ⟨fun now _ => rfl, ?_, ?_, ?_⟩
    · intro now _ t ht
      cases ht
    · intro e he
      cases he
    · intro e he
      cases he
  ordered := List.Pairwise.nil
  past := by
    intro c hc
    cases hc
  answers := by
    intro xs c ys he
    simp at he

theorem until_le {past : List Call} {now now' : ℚ} (h : LocalRateLimiter.Until past now)
    (hle : now ≤ now') : LocalRateLimiter.Until past now' := fun c hc => (h c hc).trans hle

theorem Agrees.more_used {w : ℚ} {past : List Call} {used : List String}
    {entry : Option SortedSet} {hits : List ℚ} (h : Agrees w past used entry hits)
    (member : String) : Agrees w past (member :: used) entry hits :=
  ⟨h.recent, h.past, h.deadline, fun e he m hm => List.mem_cons_of_mem _ (h.used e he m hm)⟩

/-- The answers so far, and that of one more call. -/
theorem Mirrors.answers_append (h : Mirrors env kind now used db calls) {c : LimiterCall}
    (hc : c.isKind kind = true → ∀ answer, c.outcome = .returned answer →
      answer = ((env.mirror kind calls).allow c.call).2) :
    ∀ xs d ys, calls ++ [c] = xs ++ d :: ys → d.isKind kind = true → ∀ answer,
      d.outcome = .returned answer → answer = ((env.mirror kind xs).allow d.call).2 := by
  intro xs d ys he
  rcases List.eq_nil_or_concat ys with rfl | ⟨zs, z, rfl⟩
  · obtain ⟨rfl, hd⟩ := List.append_inj' he rfl
    cases hd
    exact hc
  · rw [List.concat_eq_append, ← List.cons_append, ← List.append_assoc] at he
    obtain ⟨rfl, -⟩ := List.append_inj' he rfl
    exact h.answers xs d zs rfl

/-- A call that leaves what Redis holds for the kind. -/
theorem Mirrors.append_other (h : Mirrors env kind now used db calls) {c : LimiterCall}
    {db' : Redis} (hnow : now ≤ c.visit.time) (hc : (c.ran && c.isKind kind) = false)
    (hanswer : ∀ answer, c.outcome ≠ .returned answer ∨ c.isKind kind = false)
    (hdb : ∀ key, keyKind key = kind → db' (redisKey key) = db (redisKey key)) :
    Mirrors env kind c.visit.time (c.visit.member :: used) db' (calls ++ [c]) where
  agrees := by
    intro key hkey
    rw [LimiterEnv.mirror, scriptCalls_append_of_not hc, hdb key hkey]
    exact (h.agrees key hkey).more_used _
  ordered := by
    rw [scriptCalls_append_of_not hc]
    exact h.ordered
  past := by
    rw [scriptCalls_append_of_not hc]
    exact until_le h.past hnow
  answers := by
    refine h.answers_append fun hkind answer hreturned => ?_
    rcases hanswer answer with hnot | hnot
    · exact absurd hreturned hnot
    · rw [hkind] at hnot
      cases hnot

/-- A call of the kind for which the script ran. -/
theorem Mirrors.append_ran (h : Mirrors env kind now used db calls) {c : LimiterCall}
    {db' : Redis} (hnow : now ≤ c.visit.time) (hran : c.ran = true) (hkind : c.isKind kind = true)
    (hanswer : ∀ answer, c.outcome = .returned answer →
      answer = ((env.mirror kind calls).allow c.call).2)
    (hother : ∀ key, key ≠ redisKey c.key → db' key = db key)
    (hself : Agrees (env.limits kind).2 (scriptCalls kind calls ++ [c.call])
      (c.visit.member :: used) (db' (redisKey c.key))
      (((env.mirror kind calls).allow c.call).1.hits c.key)) :
    Mirrors env kind c.visit.time (c.visit.member :: used) db' (calls ++ [c]) := by
  have hcalls : scriptCalls kind (calls ++ [c]) = scriptCalls kind calls ++ [c.call] := by
    rw [scriptCalls_append, scriptCalls_singleton, hran, hkind, Bool.and_self, if_pos rfl]
  refine ⟨?_, ?_, ?_, h.answers_append fun _ => hanswer⟩
  · intro key hkey
    rw [hcalls, mirror_append_of_ran hran hkind]
    by_cases hself' : key = c.key
    · rw [hself']
      exact hself
    · rw [hother _ fun he => hself' (redisKey_injective he),
        LocalRateLimiter.allow_hits_of_ne _ hself']
      exact (h.agrees key hkey).weaken c.call _
  · rw [hcalls, List.map_append, List.map_singleton, List.pairwise_append]
    refine ⟨h.ordered, List.pairwise_singleton _ _, ?_⟩
    intro t ht u hu
    obtain ⟨d, hd, rfl⟩ := List.mem_map.mp ht
    rw [List.mem_singleton.mp hu]
    exact (h.past d hd).trans hnow
  · intro d hd
    rw [hcalls] at hd
    rcases List.mem_append.mp hd with hd | hd
    · exact (h.past d hd).trans hnow
    · rw [List.mem_singleton.mp hd]
      exact le_rfl

end

/-- The limiter has the settings under which it is kept. -/
structure RateLimiter.Fits (l : RateLimiter) (limit : Nat × ℚ) : Prop where
  maxRequests : l.redis.maxRequests = limit.1
  windowSeconds : l.redis.windowSeconds = limit.2

/-- Either nothing reached Redis, or the script ran to its end. -/
inductive Asked (env : LimiterEnv) (limit : Nat × ℚ) (db : Redis) (key : String) (v : Visit) :
    Redis → RedisOutcome → Prop where
  | skipped : Asked env limit db key v db .skipped
  | unreached : v.reply = .lost false → Asked env limit db key v db .raised
  | lost {db' : Redis} {answer : Bool} : v.reply = .lost true →
      redisAllow env.expired limit.1 limit.2 db ⟨key, v.time⟩ v.member = some (db', answer) →
      Asked env limit db key v db' .raised
  | returned {db' : Redis} {answer : Bool} : v.reply = .answered →
      redisAllow env.expired limit.1 limit.2 db ⟨key, v.time⟩ v.member = some (db', answer) →
      Asked env limit db key v db' (.returned answer)

theorem Asked.not_answered {env : LimiterEnv} {limit : Nat × ℚ} {db db' : Redis} {key : String}
    {v : Visit} (h : Asked env limit db key v db' .raised) : v.reply ≠ .answered := by
  cases h with
  | unreached hreply => simp [hreply]
  | lost hreply _ => simp [hreply]

theorem RateLimiter.ask_asked {env : LimiterEnv} {limit : Nat × ℚ} {l : RateLimiter}
    (h : l.Fits limit) {db : Redis} {key : String} {v : Visit}
    (hscript : (redisAllow env.expired limit.1 limit.2 db ⟨key, v.time⟩ v.member).isSome) :
    Asked env limit db key v (l.ask env db key v).1 (l.ask env db key v).2 := by
  obtain ⟨⟨db', answer⟩, hallow⟩ := Option.isSome_iff_exists.mp hscript
  have heval : redisEval env.expired l.redis.maxRequests l.redis.windowSeconds db ⟨key, v.time⟩
      v.member = (db', some answer) := by
    rw [h.maxRequests, h.windowSeconds, redisEval, hallow]
  unfold RateLimiter.ask RedisRateLimiter.ask
  rw [heval]
  split
  · split
    · exact .skipped
    · cases hreply : v.reply with
      | answered => exact .returned hreply hallow
      | lost ran =>
        cases ran with
        | false => exact .unreached hreply
        | true => exact .lost hreply hallow
  · exact .skipped

/-- What Redis has to be: it drops no key before its deadline, and the windows are whole
milliseconds. -/
structure LimiterEnv.Ok (env : LimiterEnv) : Prop where
  expired : ∀ d now, env.expired d now = true → d ≤ now
  windows : ∀ kind, ((env.limits kind).2 * 1000).den = 1

/-- The mirror of the caller's kind says what the script does. -/
theorem Mirrors.script {env : LimiterEnv} (henv : env.Ok) {now : ℚ} {used : List String}
    {db : Redis} {calls : List LimiterCall} {v : Visit}
    (h : Mirrors env v.client.kind now used db calls) (hnow : now ≤ v.time)
    (hmember : v.member ∉ used) :
    ∃ db', redisAllow env.expired (env.limits v.client.kind).1 (env.limits v.client.kind).2 db
        ⟨v.client.key env, v.time⟩ v.member =
          some (db', ((env.mirror v.client.kind calls).allow ⟨v.client.key env, v.time⟩).2) ∧
      (∀ key, key ≠ redisKey (v.client.key env) → db' key = db key) ∧
      Agrees (env.limits v.client.kind).2
        (scriptCalls v.client.kind calls ++ [⟨v.client.key env, v.time⟩]) (v.member :: used)
        (db' (redisKey (v.client.key env)))
        (((env.mirror v.client.kind calls).allow ⟨v.client.key env, v.time⟩).1.hits
          (v.client.key env)) := by
  have hstep := (h.agrees _ (keyKind_key env v.client)).step (c := ⟨v.client.key env, v.time⟩)
    (henv.windows _) henv.expired (until_le h.past hnow) hmember mirror_cutoff
  rw [mirror_maxRequests] at hstep
  exact hstep

/-- One more call of any kind. -/
theorem Mirrors.asked {env : LimiterEnv} (henv : env.Ok) {now : ℚ} {used : List String}
    {db db' : Redis} {calls : List LimiterCall} {v : Visit} {outcome : RedisOutcome}
    (h : ∀ kind, Mirrors env kind now used db calls) (hnow : now ≤ v.time)
    (hmember : v.member ∉ used)
    (hasked : Asked env (env.limits v.client.kind) db (v.client.key env) v db' outcome)
    (kind : LimitKind) :
    Mirrors env kind v.time (v.member :: used) db'
      (calls ++ [⟨v, v.client.key env, outcome, none⟩]) := by
  obtain ⟨db₁, hallow, hother, hself⟩ := (h v.client.kind).script henv hnow hmember
  have hown : (⟨v, v.client.key env, outcome, none⟩ : LimiterCall).isKind v.client.kind = true := by
    simp [LimiterCall.isKind]
  -- a script that ran for another kind wrote a key of that kind
  have hforeign : kind ≠ v.client.kind → Mirrors env kind v.time (v.member :: used) db₁
      (calls ++ [⟨v, v.client.key env, outcome, none⟩]) := by
    intro hkind
    have hfalse : (⟨v, v.client.key env, outcome, none⟩ : LimiterCall).isKind kind = false := by
      simpa [LimiterCall.isKind] using Ne.symm hkind
    refine (h kind).append_other (c := ⟨v, v.client.key env, outcome, none⟩) hnow
      (by rw [hfalse, Bool.and_false]) (fun _ => .inr hfalse) fun key hkey => hother _ fun he => ?_
    apply hkind
    rw [← hkey, redisKey_injective he, keyKind_key]
  cases hasked with
  | skipped =>
    exact (h kind).append_other (c := ⟨v, v.client.key env, .skipped, none⟩) hnow rfl
      (fun _ => .inl (by simp)) fun _ _ => rfl
  | unreached hreply =>
    refine (h kind).append_other (c := ⟨v, v.client.key env, .raised, none⟩) hnow ?_
      (fun _ => .inl (by simp)) fun _ _ => rfl
    simp [LimiterCall.ran, hreply]
  | lost hreply hscript =>
    rw [hallow] at hscript
    cases hscript
    by_cases hkind : kind = v.client.kind
    · subst hkind
      refine (h v.client.kind).append_ran (c := ⟨v, v.client.key env, .raised, none⟩) hnow ?_ hown
        (fun _ he => ?_) hother hself
      · simp [LimiterCall.ran, hreply]
      · cases he
    · exact hforeign hkind
  | returned hreply hscript =>
    rw [hallow] at hscript
    cases hscript
    by_cases hkind : kind = v.client.kind
    · subst hkind
      refine (h v.client.kind).append_ran (c := ⟨v, v.client.key env, .returned _, none⟩) hnow rfl
        hown (fun _ he => ?_) hother hself
      cases he
      rfl
    · exact hforeign hkind

/-- When a process let a call through without an answer of Redis. -/
def LimiterCall.ownTime (env : LimiterEnv) (i : ReplicaId) (limit : Nat × ℚ) (key : String)
    (c : LimiterCall) : Option ℚ :=
  match c.outcome, c.decision with
  | .returned _, _ => none
  | _, some ⟨time, true⟩ =>
    if c.visit.replica = i ∧ env.limits c.visit.client.kind = limit ∧ c.key = key then some time
    else none
  | _, _ => none

/-- The local limiter of a process, its calls so far, and the decisions that it took. -/
structure Decides (env : LimiterEnv) (i : ReplicaId) (limit : Nat × ℚ) (now : ℚ)
    (l : RateLimiter) (calls : List LimiterCall) (past : List Call) : Prop where
  limiter : l.localLimiter = (LocalRateLimiter.new limit.1 limit.2).after past
  ordered : (past.map Call.now).Pairwise (· ≤ ·)
  earlier : LocalRateLimiter.Until past (now - env.boot i)
  times : ∀ key, (calls.filterMap (LimiterCall.ownTime env i limit key)).Perm
    ((admitted key ((LocalRateLimiter.new limit.1 limit.2).history past)).map (· + env.boot i))

section

variable {env : LimiterEnv} {i : ReplicaId} {limit : Nat × ℚ} {key : String} {c : LimiterCall}

theorem ownTime_undecided (h : c.decision = none) : c.ownTime env i limit key = none := by
  simp only [LimiterCall.ownTime, h]
  cases c.outcome <;> rfl

theorem ownTime_returned {answer : Bool} (h : c.outcome = .returned answer) :
    c.ownTime env i limit key = none := by
  simp only [LimiterCall.ownTime, h]

/-- A call of another replica or under other settings. -/
theorem ownTime_foreign
    (h : c.visit.replica = i → env.limits c.visit.client.kind = limit → False) :
    c.ownTime env i limit key = none := by
  have hnot : ¬ (c.visit.replica = i ∧ env.limits c.visit.client.kind = limit ∧ c.key = key) :=
    fun hall => h hall.1 hall.2.1
  unfold LimiterCall.ownTime
  split
  · rfl
  · rw [if_neg hnot]
  · rfl

variable (env i limit key) in
theorem ownTime_eq {time : ℚ} {allowed : Bool} (hown : ∀ answer, c.outcome ≠ .returned answer)
    (h : c.decision = some ⟨time, allowed⟩) : c.ownTime env i limit key =
      if allowed = true ∧ c.visit.replica = i ∧ env.limits c.visit.client.kind = limit ∧
        c.key = key then some time else none := by
  cases hout : c.outcome with
  | returned answer => exact absurd hout (hown answer)
  | skipped => cases allowed <;> simp [LimiterCall.ownTime, hout, h]
  | raised => cases allowed <;> simp [LimiterCall.ownTime, hout, h]

variable {now now' : ℚ} {l : RateLimiter} {calls : List LimiterCall} {past : List Call}

theorem Decides.later (h : Decides env i limit now l calls past) (hnow : now ≤ now') :
    Decides env i limit now' l calls past :=
  ⟨h.limiter, h.ordered, until_le h.earlier (sub_le_sub_right hnow _), h.times⟩

/-- The decision of a call that is none of this limiter's own. -/
theorem Decides.set_other (h : Decides env i limit now l calls past) {call : Nat}
    {c' : LimiterCall} (hc : calls[call]? = some c) (hundecided : c.decision = none)
    (hnone : ∀ key, c'.ownTime env i limit key = none) :
    Decides env i limit now l (calls.set call c') past where
  limiter := h.limiter
  ordered := h.ordered
  earlier := h.earlier
  times := by
    intro key
    rw [Tally.filterMap_set_of_eq _ hc ((hnone key).trans (ownTime_undecided hundecided).symm)]
    exact h.times key

/-- The limiter decides one more call. -/
theorem Decides.set_own (h : Decides env i limit now l calls past) (hnow : now ≤ now')
    {call : Nat} (hc : calls[call]? = some c) (hundecided : c.decision = none)
    (hreplica : c.visit.replica = i) (hlimit : env.limits c.visit.client.kind = limit)
    (hown : ∀ answer, c.outcome ≠ .returned answer) (redis : RedisRateLimiter) :
    Decides env i limit now'
      ⟨(l.localLimiter.allow ⟨c.key, now' - env.boot i⟩).1, redis⟩
      (calls.set call { c with
        decision := some ⟨now', (l.localLimiter.allow ⟨c.key, now' - env.boot i⟩).2⟩ })
      (past ++ [⟨c.key, now' - env.boot i⟩]) where
  limiter := by
    simp only [h.limiter, LocalRateLimiter.after_append]
    rfl
  ordered := by
    rw [List.map_append, List.map_singleton, List.pairwise_append]
    refine ⟨h.ordered, List.pairwise_singleton _ _, ?_⟩
    intro t ht u hu
    obtain ⟨d, hd, rfl⟩ := List.mem_map.mp ht
    rw [List.mem_singleton.mp hu]
    exact (h.later hnow).earlier d hd
  earlier := by
    intro d hd
    rcases List.mem_append.mp hd with hd | hd
    · exact (h.later hnow).earlier d hd
    · rw [List.mem_singleton.mp hd]
  times := by
    intro key
    have htime := ownTime_eq env i limit key
      (c := { c with
        decision := some ⟨now', (l.localLimiter.allow ⟨c.key, now' - env.boot i⟩).2⟩ }) hown rfl
    have hadmitted : admitted key ((LocalRateLimiter.new limit.1 limit.2).history
        (past ++ [⟨c.key, now' - env.boot i⟩])) =
        admitted key ((LocalRateLimiter.new limit.1 limit.2).history past) ++
          if (l.localLimiter.allow ⟨c.key, now' - env.boot i⟩).2 && c.key == key then
            [now' - env.boot i] else [] := by
      rw [LocalRateLimiter.history_append, h.limiter]
      exact LocalRateLimiter.admitted_append_self _ _ _ _
    rw [hadmitted, List.map_append]
    cases hallowed : (l.localLimiter.allow ⟨c.key, now' - env.boot i⟩).2 && c.key == key with
    | true =>
      rw [Bool.and_eq_true, beq_iff_eq] at hallowed
      rw [if_pos ⟨hallowed.1, hreplica, hlimit, hallowed.2⟩] at htime
      have hperm := Tally.filterMap_set_perm _ hc (ownTime_undecided hundecided) htime
      simpa using hperm.trans ((h.times key).append_right _)
    | false =>
      rw [if_neg ?_] at htime
      · rw [Tally.filterMap_set_of_eq _ hc (htime.trans (ownTime_undecided hundecided).symm)]
        simpa using h.times key
      · rintro ⟨hyes, -, -, hkey⟩
        rw [hyes, hkey, beq_self_eq_true] at hallowed
        cases hallowed

end

@[simp] theorem limiter_setLimiter (s : Replicas) (i : ReplicaId) (limit : Nat × ℚ)
    (l : RateLimiter) (j : ReplicaId) (m : Nat × ℚ) : (s.setLimiter i limit l).limiter j m =
      if j = i ∧ m = limit then l else s.limiter j m := by
  unfold Replicas.limiter Replicas.setLimiter
  by_cases hj : j = i
  · subst hj
    by_cases hm : m = limit <;> simp [hm]
  · simp [hj]

/-- A call of the replica to Redis has raised. -/
def RaisedAt (i : ReplicaId) (calls : List LimiterCall) : Prop :=
  ∃ c ∈ calls, c.visit.replica = i ∧ c.outcome = .raised

theorem raisedAt_asked {i : ReplicaId} {calls : List LimiterCall} :
    RaisedAt i (calls.map LimiterCall.asked) ↔ RaisedAt i calls := by
  constructor
  · rintro ⟨c, hc, hi, hraised⟩
    obtain ⟨d, hd, rfl⟩ := List.mem_map.mp hc
    exact ⟨d, hd, hi, hraised⟩
  · rintro ⟨c, hc, hi, hraised⟩
    exact ⟨c.asked, List.mem_map_of_mem hc, hi, hraised⟩

theorem RaisedAt.append {i : ReplicaId} {calls : List LimiterCall} (h : RaisedAt i calls)
    (c : LimiterCall) : RaisedAt i (calls ++ [c]) := by
  obtain ⟨d, hd, hraised⟩ := h
  exact ⟨d, List.mem_append_left _ hd, hraised⟩

/-- A decision changes nothing of what was asked. -/
theorem asked_set {calls : List LimiterCall} {call : Nat} {c : LimiterCall}
    (h : calls[call]? = some c) (d : Option Decision) :
    (calls.set call { c with decision := d }).map LimiterCall.asked =
      calls.map LimiterCall.asked := by
  induction calls generalizing call with
  | nil => rfl
  | cons x calls ih =>
    cases call with
    | zero =>
      cases h
      rfl
    | succ call =>
      simp only [List.set_cons_succ, List.map_cons]
      rw [ih (by simpa using h)]

/-- `now` is the time of the last event, `used` are the members of all calls. -/
structure Replicas.Sound (env : LimiterEnv) (now : ℚ) (used : List String) (s : Replicas) :
    Prop where
  fits : ∀ i limit, (s.limiter i limit).Fits limit
  mirrors : ∀ kind, Mirrors env kind now used s.redis (s.calls.map LimiterCall.asked)
  decides : ∀ i limit, ∃ past, Decides env i limit now (s.limiter i limit) s.calls past
  keys : ∀ c ∈ s.calls, c.key = c.visit.client.key env
  lost : ∀ c ∈ s.calls, c.outcome = .raised → c.visit.reply ≠ .answered
  failed : ∀ i limit, (s.limiter i limit).redis.lastFailure ≠ none → RaisedAt i s.calls
  skipped : env.redisEnabled = true → ∀ c ∈ s.calls, c.outcome = .skipped →
    RaisedAt c.visit.replica s.calls
  told : ∀ c ∈ s.calls, ∀ answer, c.outcome = .returned answer → ∀ d, c.decision = some d →
    d = ⟨c.visit.time, answer⟩

theorem Replicas.initial_sound (env : LimiterEnv) (now : ℚ) :
    Replicas.initial.Sound env now [] where
  fits := fun _ _ => ⟨rfl, rfl⟩
  mirrors := fun kind => .initial env kind now
  decides := fun _ _ => ⟨[], rfl, List.Pairwise.nil, fun _ hc => (List.not_mem_nil hc).elim,
    fun _ => List.Perm.refl _⟩
  keys := fun _ hc => (List.not_mem_nil hc).elim
  lost := fun _ hc => (List.not_mem_nil hc).elim
  failed := fun _ _ h => absurd rfl h
  skipped := fun _ _ hc => (List.not_mem_nil hc).elim
  told := fun _ hc => (List.not_mem_nil hc).elim

section

variable {env : LimiterEnv} {now : ℚ} {used : List String} {s : Replicas}

theorem RateLimiter.Fits.settle {l : RateLimiter} {limit : Nat × ℚ} (h : l.Fits limit)
    (key : String) (monotonic : ℚ) (outcome : RedisOutcome) :
    (l.settle key monotonic outcome).1.Fits limit := by
  cases outcome <;> exact ⟨h.maxRequests, h.windowSeconds⟩

/-- A limiter that does not ask has failed before, or is not to ask at all. -/
theorem RateLimiter.ask_skipped {l : RateLimiter} {db : Redis} {key : String} {v : Visit}
    (henabled : env.redisEnabled = true) (h : (l.ask env db key v).2 = .skipped) :
    l.redis.lastFailure ≠ none := by
  intro hnone
  have hopen : l.redis.available (v.time - env.boot v.replica) = true := by
    rw [RedisRateLimiter.available, hnone]
    rfl
  unfold RateLimiter.ask RedisRateLimiter.ask at h
  rw [if_pos henabled, hopen] at h
  simp only [Bool.not_true, Bool.false_eq_true, if_false] at h
  split at h
  · cases h
  · cases h
  · cases hran : (redisEval env.expired l.redis.maxRequests l.redis.windowSeconds db
      ⟨key, v.time⟩ v.member).2 <;> rw [hran] at h <;> cases h

theorem Replicas.Sound.ask (henv : env.Ok) (h : s.Sound env now used) {v : Visit}
    (hnow : now ≤ v.time) (hmember : v.member ∉ used) :
    (s.ask env v).Sound env v.time (v.member :: used) := by
  let limit := env.limits v.client.kind
  let l := s.limiter v.replica limit
  have hasked : Asked env limit s.redis (v.client.key env) v
      (l.ask env s.redis (v.client.key env) v).1 (l.ask env s.redis (v.client.key env) v).2 := by
    obtain ⟨db', hallow, -, -⟩ := (h.mirrors v.client.kind).script henv hnow hmember
    exact RateLimiter.ask_asked (h.fits _ _) (by rw [hallow]; rfl)
  have hlimiter : ∀ i m, (s.ask env v).limiter i m = s.limiter i m := by
    intro i m
    change (s.setLimiter v.replica limit l).limiter i m = s.limiter i m
    rw [limiter_setLimiter]
    split
    · rename_i hself
      rw [hself.1, hself.2]
    · rfl
  have hcalls : (s.ask env v).calls = s.calls ++
      [⟨v, v.client.key env, (l.ask env s.redis (v.client.key env) v).2, none⟩] := rfl
  refine ⟨?_, ?_, ?_, ?_, ?_, ?_, ?_, ?_⟩
  · intro i m
    rw [hlimiter]
    exact h.fits i m
  · intro kind
    rw [hcalls, List.map_append]
    exact Mirrors.asked henv h.mirrors hnow hmember hasked kind
  · intro i m
    obtain ⟨past, hpast⟩ := h.decides i m
    refine ⟨past, ?_⟩
    rw [hlimiter, hcalls]
    refine ⟨hpast.limiter, hpast.ordered, (hpast.later hnow).earlier, fun key => ?_⟩
    rw [List.filterMap_append, List.filterMap_cons, ownTime_undecided rfl, List.filterMap_nil,
      List.append_nil]
    exact hpast.times key
  · intro c hc
    rw [hcalls] at hc
    rcases List.mem_append.mp hc with hc | hc
    · exact h.keys c hc
    · rw [List.mem_singleton.mp hc]
  · intro c hc hraised
    rw [hcalls] at hc
    rcases List.mem_append.mp hc with hc | hc
    · exact h.lost c hc hraised
    · rw [List.mem_singleton.mp hc] at hraised ⊢
      simp only at hraised
      rw [hraised] at hasked
      exact hasked.not_answered
  · intro i m hfailed
    rw [hlimiter] at hfailed
    rw [hcalls]
    exact (h.failed i m hfailed).append _
  · intro henabled c hc hskipped
    rw [hcalls] at hc ⊢
    rcases List.mem_append.mp hc with hc | hc
    · exact (h.skipped henabled c hc hskipped).append _
    · rw [List.mem_singleton.mp hc] at hskipped ⊢
      exact (h.failed _ _ (RateLimiter.ask_skipped henabled hskipped)).append _
  · intro c hc answer hreturned d hd
    rw [hcalls] at hc
    rcases List.mem_append.mp hc with hc | hc
    · exact h.told c hc answer hreturned d hd
    · rw [List.mem_singleton.mp hc] at hd
      cases hd

theorem Mirrors.later {kind : LimitKind} {now' : ℚ} {db : Redis} {calls : List LimiterCall}
    (h : Mirrors env kind now used db calls) (hnow : now ≤ now') :
    Mirrors env kind now' used db calls :=
  ⟨h.agrees, h.ordered, until_le h.past hnow, h.answers⟩

theorem Replicas.Sound.later {now' : ℚ} (h : s.Sound env now used) (hnow : now ≤ now') :
    s.Sound env now' used where
  fits := h.fits
  mirrors := fun kind => (h.mirrors kind).later hnow
  decides := by
    intro i limit
    obtain ⟨past, hpast⟩ := h.decides i limit
    exact ⟨past, hpast.later hnow⟩
  keys := h.keys
  lost := h.lost
  failed := h.failed
  skipped := h.skipped
  told := h.told

/-- When the limiter that decides counts the call. -/
def LimiterCall.countedAt (c : LimiterCall) (now : ℚ) : ℚ :=
  match c.outcome with
  | .returned _ => c.visit.time
  | _ => now

/-- What a decision writes. -/
theorem Replicas.settle_eq {call : Nat} {c : LimiterCall} (hc : s.calls[call]? = some c)
    (hundecided : c.decision = none) (now' : ℚ) :
    let limit := env.limits c.visit.client.kind
    let r := (s.limiter c.visit.replica limit).settle c.key (now' - env.boot c.visit.replica)
      c.outcome
    s.settle env call now' =
      { s.setLimiter c.visit.replica limit r.1 with
        calls := s.calls.set call { c with decision := some ⟨c.countedAt now', r.2⟩ } } := by
  unfold Replicas.settle
  rw [hc]
  simp only [hundecided, Option.isSome_none, Bool.false_eq_true, if_false]
  rfl

theorem Replicas.settle_asked (s : Replicas) (env : LimiterEnv) (call : Nat) (now' : ℚ) :
    (s.settle env call now').calls.map LimiterCall.asked = s.calls.map LimiterCall.asked := by
  unfold Replicas.settle
  split
  · rfl
  · rename_i c hc
    split
    · rfl
    · exact asked_set hc _

theorem Decides.settle_self {l : RateLimiter} {calls : List LimiterCall} {past : List Call}
    {now' : ℚ} (hnow : now ≤ now') {call : Nat} {c : LimiterCall} (hc : calls[call]? = some c)
    (hundecided : c.decision = none)
    (h : Decides env c.visit.replica (env.limits c.visit.client.kind) now l calls past) :
    ∃ past, Decides env c.visit.replica (env.limits c.visit.client.kind) now'
      (l.settle c.key (now' - env.boot c.visit.replica) c.outcome).1
      (calls.set call { c with decision := some ⟨c.countedAt now',
        (l.settle c.key (now' - env.boot c.visit.replica) c.outcome).2⟩ }) past := by
  obtain ⟨visit, key, outcome, decision⟩ := c
  cases outcome with
  | returned answer =>
    exact ⟨past, (h.later hnow).set_other hc hundecided fun _ => ownTime_returned rfl⟩
  | skipped => exact ⟨_, h.set_own hnow hc hundecided rfl rfl (by simp) l.redis⟩
  | raised =>
    exact ⟨_, h.set_own hnow hc hundecided rfl rfl (by simp)
      { l.redis with lastFailure := some (now' - env.boot visit.replica) }⟩

theorem Decides.settle {i : ReplicaId} {limit : Nat × ℚ} {now' : ℚ} (hnow : now ≤ now')
    {call : Nat} {c : LimiterCall} (hc : s.calls[call]? = some c) (hundecided : c.decision = none)
    {past : List Call} (h : Decides env i limit now (s.limiter i limit) s.calls past) :
    ∃ past, Decides env i limit now' ((s.settle env call now').limiter i limit)
      (s.settle env call now').calls past := by
  rw [Replicas.settle_eq hc hundecided now']
  change ∃ past, Decides env i limit now' ((s.setLimiter c.visit.replica _ _).limiter i limit) _ past
  rw [limiter_setLimiter]
  by_cases hself : i = c.visit.replica ∧ limit = env.limits c.visit.client.kind
  · rw [if_pos hself]
    obtain ⟨rfl, rfl⟩ := hself
    exact h.settle_self hnow hc hundecided
  · rw [if_neg hself]
    exact ⟨past, (h.later hnow).set_other hc hundecided fun key =>
      ownTime_foreign fun hi hlimit => hself ⟨hi.symm, hlimit.symm⟩⟩

theorem Replicas.Sound.settle (h : s.Sound env now used) {now' : ℚ} (hnow : now ≤ now')
    (call : Nat) : (s.settle env call now').Sound env now' used := by
  cases hc : s.calls[call]? with
  | none =>
    have hsame : s.settle env call now' = s := by
      unfold Replicas.settle
      rw [hc]
    rw [hsame]
    exact h.later hnow
  | some c =>
    cases hdecision : c.decision with
    | some d =>
      have hsame : s.settle env call now' = s := by
        unfold Replicas.settle
        rw [hc]
        simp only [hdecision, Option.isSome_some, if_true]
      rw [hsame]
      exact h.later hnow
    | none =>
      have hmem : c ∈ s.calls := List.mem_of_getElem? hc
      have heq : s.settle env call now' = _ := Replicas.settle_eq hc hdecision now'
      have hasked := s.settle_asked env call now'
      have hraised : ∀ i, RaisedAt i s.calls → RaisedAt i (s.settle env call now').calls := by
        intro i hraised
        rw [← raisedAt_asked, hasked, raisedAt_asked]
        exact hraised
      -- apart from the decision every call is one that was there
      have hfrom : ∀ d ∈ (s.settle env call now').calls, ∃ e ∈ s.calls,
          d.visit = e.visit ∧ d.key = e.key ∧ d.outcome = e.outcome := by
        intro d hd
        have hd' := List.mem_map_of_mem (f := LimiterCall.asked) hd
        rw [hasked] at hd'
        obtain ⟨e, he, hsame⟩ := List.mem_map.mp hd'
        simp only [LimiterCall.asked, LimiterCall.mk.injEq] at hsame
        exact ⟨e, he, hsame.1.symm, hsame.2.1.symm, hsame.2.2.1.symm⟩
      have hlimiter : ∀ i limit, (s.settle env call now').limiter i limit =
          if i = c.visit.replica ∧ limit = env.limits c.visit.client.kind then
            ((s.limiter c.visit.replica (env.limits c.visit.client.kind)).settle c.key
              (now' - env.boot c.visit.replica) c.outcome).1
          else s.limiter i limit := by
        intro i limit
        rw [heq]
        exact limiter_setLimiter _ _ _ _ _ _
      refine ⟨?_, ?_, ?_, ?_, ?_, ?_, ?_, ?_⟩
      · intro i limit
        rw [hlimiter]
        split
        · rename_i hself
          rw [hself.2]
          exact (h.fits _ _).settle _ _ _
        · exact h.fits i limit
      · intro kind
        rw [hasked, heq]
        exact (h.mirrors kind).later hnow
      · intro i limit
        obtain ⟨past, hpast⟩ := h.decides i limit
        exact hpast.settle hnow hc hdecision
      · intro d hd
        obtain ⟨e, he, hvisit, hkey, -⟩ := hfrom d hd
        rw [hkey, hvisit]
        exact h.keys e he
      · intro d hd hout
        obtain ⟨e, he, hvisit, -, houtcome⟩ := hfrom d hd
        rw [hvisit]
        exact h.lost e he (houtcome.symm.trans hout)
      · intro i limit hfailed
        apply hraised
        rw [hlimiter] at hfailed
        split at hfailed
        · rename_i hself
          cases hout : c.outcome with
          | raised => exact ⟨c, hmem, hself.1.symm, hout⟩
          | skipped =>
            rw [hout] at hfailed
            rw [hself.1]
            exact h.failed _ _ hfailed
          | returned answer =>
            rw [hout] at hfailed
            rw [hself.1]
            exact h.failed _ _ hfailed
        · exact h.failed i limit hfailed
      · intro henabled d hd hout
        obtain ⟨e, he, hvisit, -, houtcome⟩ := hfrom d hd
        rw [hvisit]
        exact hraised _ (h.skipped henabled e he (houtcome.symm.trans hout))
      · intro d hd answer hout e he
        rw [heq] at hd
        rcases List.mem_or_eq_of_mem_set hd with hd | rfl
        · exact h.told d hd answer hout e he
        · cases he
          simp only at hout
          simp only [LimiterCall.countedAt, hout, RateLimiter.settle]

/-- The calls of a run. -/
def visits (events : List LimiterEvent) : List Visit :=
  events.filterMap fun e =>
    match e with
    | .ask v => some v
    | .settle _ _ => none

theorem Replicas.Sound.run (henv : env.Ok) (h : s.Sound env now used) {events : List LimiterEvent}
    (hclock : Run.Forward LimiterEvent.clock now events)
    (hmembers : ((visits events).map Visit.member).Nodup)
    (hnew : ∀ v ∈ visits events, v.member ∉ used) :
    (∃ now used, (Run.run (Replicas.step env) s events).Sound env now used) ∧
      (Run.run (Replicas.step env) s events).calls.map LimiterCall.visit =
        s.calls.map LimiterCall.visit ++ visits events := by
  induction events generalizing s now used with
  | nil => exact ⟨⟨now, used, h⟩, by simp [visits]⟩
  | cons e events ih =>
    obtain ⟨hnow, hrest⟩ := (Run.forward_cons _ _ _ _).mp hclock
    cases e with
    | ask v =>
      change (v.member :: (visits events).map Visit.member).Nodup at hmembers
      rw [List.nodup_cons] at hmembers
      have hask := h.ask henv (hnow v.time rfl) (hnew v List.mem_cons_self)
      obtain ⟨hsound, hvisits⟩ := ih hask hrest hmembers.2 fun u hu hmem => by
        rcases List.mem_cons.mp hmem with hmem | hmem
        · exact hmembers.1 (hmem ▸ List.mem_map_of_mem hu)
        · exact hnew u (List.mem_cons_of_mem _ hu) hmem
      refine ⟨hsound, hvisits.trans ?_⟩
      simp [Replicas.ask, visits]
    | settle call now' =>
      obtain ⟨hsound, hvisits⟩ := ih (h.settle (hnow now' rfl) call) hrest hmembers hnew
      refine ⟨hsound, hvisits.trans ?_⟩
      have hsame := congrArg (List.map LimiterCall.visit) (s.settle_asked env call now')
      rw [List.map_map, List.map_map] at hsame
      exact congrArg (· ++ visits events) hsame

end

theorem admitted_append (key : String) (xs ys : List (Call × Bool)) :
    admitted key (xs ++ ys) = admitted key xs ++ admitted key ys := by
  simp [admitted]

/-- What Redis let through is among what its mirror lets through. -/
theorem told_sublist {env : LimiterEnv} {kind : LimitKind} {calls : List LimiterCall}
    (h : ∀ xs c ys, calls = xs ++ c :: ys → c.isKind kind = true → ∀ answer,
      c.outcome = .returned answer → answer = ((env.mirror kind xs).allow c.call).2)
    (key : String) :
    ((calls.filter (fun c => c.isKind kind && c.key == key && c.outcome == .returned true)).map
      (·.visit.time)).Sublist
      (admitted key ((LocalRateLimiter.new (env.limits kind).1 (env.limits kind).2).history
        (scriptCalls kind calls))) := by
  induction calls using List.reverseRecOn with
  | nil => exact List.nil_sublist _
  | append_singleton calls c ih =>
    have hrest := ih fun xs d ys he => h xs d (ys ++ [c]) (by rw [he]; simp)
    rw [List.filter_append, List.map_append, scriptCalls_append, LocalRateLimiter.history_append,
      admitted_append]
    refine hrest.append ?_
    rw [List.filter_cons]
    split
    · rename_i hc
      simp only [Bool.and_eq_true, beq_iff_eq] at hc
      obtain ⟨⟨hkind, hkey⟩, hout⟩ := hc
      have hran : c.ran = true := by
        unfold LimiterCall.ran
        rw [hout]
      have hanswer := h calls c [] rfl hkind true hout
      rw [scriptCalls_singleton, hran, hkind, Bool.and_self, if_pos rfl]
      change [c.visit.time].Sublist
        (admitted key [(c.call, ((env.mirror kind calls).allow c.call).2)])
      rw [← hanswer]
      simp [admitted, LimiterCall.call, hkey]
    · exact List.nil_sublist _

/-- The call was let through, and counted in a window that begins after `a`. -/
def LimiterCall.admittedIn (kind : LimitKind) (key : String) (a w : ℚ) (c : LimiterCall) : Bool :=
  c.isKind kind && c.key == key &&
    c.decision.any (fun d => d.allowed && decide (a < d.time ∧ d.time ≤ a + w))

/-- The replicas to which a reply of Redis was lost. -/
def lostReplicas (events : List LimiterEvent) : Finset ReplicaId :=
  (((visits events).filter (fun v => v.reply ≠ .answered)).map Visit.replica).toFinset

section

variable {env : LimiterEnv} {now : ℚ} {used : List String} {s : Replicas} {kind : LimitKind}

/-- Redis lets one quota through. -/
theorem Replicas.Sound.shared_le (h : s.Sound env now used) (kind : LimitKind) (key : String)
    (a : ℚ) : s.calls.countP (fun c => c.admittedIn kind key a (env.limits kind).2 &&
      c.outcome == .returned true) ≤ (env.limits kind).1 := by
  have hmirror := h.mirrors kind
  have hsub := told_sublist hmirror.answers key
  have hpaced := LocalRateLimiter.paced_admitted (env.limits kind).1 (env.limits kind).2 _
    hmirror.ordered key
  refine le_trans ?_ (hpaced.interval a).1
  refine le_trans ?_ (hsub.filter _).length_le
  rw [← List.countP_eq_length_filter, List.countP_map, List.countP_filter, List.countP_map]
  apply List.countP_mono_left
  intro c hc hcounted
  simp only [Bool.and_eq_true, beq_iff_eq, LimiterCall.admittedIn, Option.any_eq_true] at hcounted
  obtain ⟨⟨⟨hkind, hkey⟩, d, hd, -, hwindow⟩, hout⟩ := hcounted
  have htold := h.told c hc true hout d hd
  rw [htold] at hwindow
  simp only [Function.comp_apply, Bool.and_eq_true, beq_iff_eq, asked_isKind, asked_outcome]
  exact ⟨hwindow, ⟨hkind, hkey⟩, hout⟩

/-- A process lets one quota through of its own. -/
theorem Replicas.Sound.own_le (h : s.Sound env now used) (kind : LimitKind) (key : String)
    (a : ℚ) (i : ReplicaId) : s.calls.countP (fun c =>
      (c.admittedIn kind key a (env.limits kind).2 && !(c.outcome == .returned true)) &&
        decide (c.visit.replica = i)) ≤ (env.limits kind).1 := by
  obtain ⟨past, hpast⟩ := h.decides i (env.limits kind)
  have hpaced := LocalRateLimiter.paced_admitted (env.limits kind).1 (env.limits kind).2 _
    hpast.ordered key
  refine le_trans ?_ (hpaced.interval (a - env.boot i)).1
  -- the window on the clock of the process
  have hshift : ((admitted key ((LocalRateLimiter.new (env.limits kind).1
      (env.limits kind).2).history past)).filter
        (fun t => decide (a - env.boot i < t ∧ t ≤ a - env.boot i + (env.limits kind).2))).length =
      (s.calls.filterMap (LimiterCall.ownTime env i (env.limits kind) key)).countP
        (fun t => decide (a < t ∧ t ≤ a + (env.limits kind).2)) := by
    rw [(hpast.times key).countP_eq, List.countP_map, ← List.countP_eq_length_filter]
    apply List.countP_congr
    intro t _
    simp only [Function.comp_apply, decide_eq_true_eq]
    constructor <;> intro ht <;> constructor <;> linarith [ht.1, ht.2]
  rw [hshift, List.countP_filterMap]
  apply List.countP_mono_left
  intro c hc hcounted
  simp only [Bool.and_eq_true, Bool.not_eq_true', beq_iff_eq, beq_eq_false_iff_ne,
    LimiterCall.admittedIn, Option.any_eq_true, decide_eq_true_eq] at hcounted
  obtain ⟨⟨⟨⟨hkind, hkey⟩, d, hd, hallowed, hwindow⟩, hout⟩, hi⟩ := hcounted
  -- a refusal of Redis lets nothing through
  have hown : ∀ answer, c.outcome ≠ .returned answer := by
    intro answer hreturned
    have htold := h.told c hc answer hreturned d hd
    rw [htold] at hallowed
    rw [show answer = true from hallowed] at hreturned
    exact hout hreturned
  have htime := ownTime_eq env i (env.limits kind) key hown hd
  have hkind' : c.visit.client.kind = kind := by simpa [LimiterCall.isKind] using hkind
  rw [if_pos ⟨hallowed, hi, by rw [hkind'], hkey⟩] at htime
  rw [htime]
  simpa using hwindow

end

/-- One quota of one request, for everyone. -/
def tinyEnv : LimiterEnv where
  redisEnabled := true
  limits := fun _ => (1, 10)
  accessSubject := fun _ => none
  expired := fun d now => decide (d < now)
  boot := fun i => i

theorem tinyEnv_ok : tinyEnv.Ok where
  expired := fun d now h => le_of_lt (of_decide_eq_true h)
  windows := fun _ => (by decide +kernel : ((10 : ℚ) * 1000).den = 1)

/-- Two replicas, of which the second one loses its reply. -/
def overlappingEvents : List LimiterEvent :=
  [.ask ⟨0, .ws 7, 0, "m1", .answered⟩, .ask ⟨1, .ws 7, 1, "m2", .lost true⟩, .settle 1 2,
    .settle 0 3, .ask ⟨1, .ws 7, 4, "m3", .answered⟩, .settle 2 4]

/-- One local limiter for all callers of a kind, after some visits. -/
def LimiterEnv.single (env : LimiterEnv) (kind : LimitKind) (visits : List Visit) :
    LocalRateLimiter :=
  (LocalRateLimiter.new (env.limits kind).1 (env.limits kind).2).after
    ((visits.filter (fun v => v.client.kind == kind)).map (fun v => ⟨v.client.key env, v.time⟩))

/-- Redis was asked for every call before, so its mirror is that limiter. -/
theorem mirror_eq_single {env : LimiterEnv} {calls : List LimiterCall}
    (hran : ∀ c ∈ calls, c.ran = true) (hkeys : ∀ c ∈ calls, c.key = c.visit.client.key env)
    (kind : LimitKind) :
    env.mirror kind calls = env.single kind (calls.map LimiterCall.visit) := by
  have hscript : scriptCalls kind calls =
      ((calls.map LimiterCall.visit).filter (fun v => v.client.kind == kind)).map
        (fun v => ⟨v.client.key env, v.time⟩) := by
    rw [List.filter_map, List.map_map, scriptCalls]
    rw [List.filter_congr (q := (fun v => v.client.kind == kind) ∘ LimiterCall.visit)]
    · apply List.map_congr_left
      intro c hc
      simp [LimiterCall.call, hkeys c (List.mem_of_mem_filter hc)]
    · intro c hc
      simp [hran c hc, LimiterCall.isKind]
  rw [LimiterEnv.mirror, hscript, LimiterEnv.single]

end TaskPlatform
