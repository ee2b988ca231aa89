import TaskPlatform.RateLimit

/-!
# The rate limiter in Redis

The script of `RedisRateLimiter` in `core/rate_limit.py`, over the commands of
Redis that it uses. Redis drops a whole key by its deadline where the local
limiter prunes a list. The deadline follows the last admission by a full window,
so at that point nothing of the key is recent any more.
-/

namespace TaskPlatform

open Window

/-- A sorted set of Redis, with the deadline after which it is dropped. -/
structure SortedSet where
  members : List (String × ℚ)
  expireAt : Option ℚ
  deriving DecidableEq, Repr

abbrev Redis := String → Option SortedSet

/-- `ZREMRANGEBYSCORE key -inf upto`; a set without members is no key. -/
def zremrangebyscore (upto : ℚ) (entry : Option SortedSet) : Option SortedSet :=
  match entry with
  | none => none
  | some e =>
    let members := e.members.filter (fun m => decide (upto < m.2))
    if members.isEmpty then none else some { e with members := members }

def zcard (entry : Option SortedSet) : Nat :=
  match entry with
  | none => 0
  | some e => e.members.length

/-- `ZADD key score member` -/
def zadd (score : ℚ) (member : String) (entry : Option SortedSet) : SortedSet :=
  match entry with
  | none => ⟨[(member, score)], none⟩
  | some e => { e with members := e.members.filter (fun m => m.1 ≠ member) ++ [(member, score)] }

/-- `PEXPIRE key ms`: an error unless `ms` is an integer; a deadline that is not ahead deletes the
key. -/
def pexpire (now ms : ℚ) (entry : SortedSet) : Option (Option SortedSet) :=
  if ms.den ≠ 1 then none
  else if ms ≤ 0 then some none
  else some (some { entry with expireAt := some (now + ms / 1000) })

/-- What the script finds under a key: `expired` is the server's test of a deadline. -/
def Redis.live (expired : ℚ → ℚ → Bool) (now : ℚ) (db : Redis) (key : String) :
    Option SortedSet :=
  (db key).filter (fun e => !e.expireAt.any (fun deadline => expired deadline now))

/-- `SLIDING_WINDOW_SCRIPT`; `none` when a command raises. -/
def slidingWindowScript (expired : ℚ → ℚ → Bool) (db : Redis) (key : String) (now window : ℚ)
    (max : Nat) (member : String) : Option (Redis × Nat) :=
  let entry := zremrangebyscore (now - window) (db.live expired now key)
  if zcard entry ≥ max then some (Function.update db key entry, 0)
  else
    (pexpire now (window * 1000) (zadd now member entry)).map
      (fun entry => (Function.update db key entry, 1))

/-- `_redis_key` -/
def redisKey (key : String) : String := "rl:" ++ key

/-- `RedisRateLimiter.allow`; `none` sends the caller to the local limiter. -/
def redisAllow (expired : ℚ → ℚ → Bool) (maxRequests : Nat) (windowSeconds : ℚ) (db : Redis)
    (c : Call) (member : String) : Option (Redis × Bool) :=
  (slidingWindowScript expired db (redisKey c.key) c.now windowSeconds maxRequests member).map
    (fun r => (r.1, r.2 != 0))

/-- The calls, each with the member that it adds, and their answers; `none` if a call raises. -/
def redisHistory (expired : ℚ → ℚ → Bool) (maxRequests : Nat) (windowSeconds : ℚ) :
    Redis → List (Call × String) → Option (List (Call × Bool))
  | _, [] => some []
  | db, (c, member) :: calls => do
    let (db, answer) ← redisAllow expired maxRequests windowSeconds db c member
    let rest ← redisHistory expired maxRequests windowSeconds db calls
    return (c, answer) :: rest

/-- The times that a key holds. -/
def scores (entry : Option SortedSet) : List ℚ :=
  match entry with
  | none => []
  | some e => e.members.map Prod.snd

theorem zcard_eq (entry : Option SortedSet) : zcard entry = (scores entry).length := by
  cases entry <;> simp [zcard, scores]

/-- The members and the deadline of a pruned set are its own. -/
theorem zremrangebyscore_some {upto : ℚ} {entry : Option SortedSet} {e : SortedSet}
    (h : zremrangebyscore upto entry = some e) :
    ∃ e₀, entry = some e₀ ∧ e.members ⊆ e₀.members ∧ e.expireAt = e₀.expireAt := by
  cases entry with
  | none => cases h
  | some e₀ =>
    simp only [zremrangebyscore] at h
    split at h
    · cases h
    · cases h
      exact ⟨e₀, rfl, List.filter_sublist.subset, rfl⟩

theorem scores_zremrangebyscore (w now : ℚ) (entry : Option SortedSet) :
    scores (zremrangebyscore (now - w) entry) = recent w now (scores entry) := by
  cases entry with
  | none => rfl
  | some e =>
    have hmap : recent w now (scores (some e)) =
        (e.members.filter (fun m => decide (now - w < m.2))).map Prod.snd := by
      rw [recent, recentBy, scores, List.filter_map]
      rfl
    simp only [zremrangebyscore]
    split
    · rename_i hempty
      rw [hmap, List.isEmpty_iff.mp hempty]
      rfl
    · rw [hmap]
      rfl

theorem scores_zadd {member : String} (score : ℚ) {entry : Option SortedSet}
    (h : ∀ e ∈ entry, ∀ m ∈ e.members, m.1 ≠ member) :
    (zadd score member entry).members.map Prod.snd = scores entry ++ [score] := by
  cases entry with
  | none => rfl
  | some e =>
    have hall : e.members.filter (fun m => m.1 ≠ member) = e.members := by
      rw [List.filter_eq_self]
      intro m hm
      simpa using h e rfl m hm
    simp only [zadd, scores]
    rw [hall, List.map_append]
    rfl

theorem mem_zadd {score : ℚ} {member : String} {entry : Option SortedSet} {m : String × ℚ}
    (h : m ∈ (zadd score member entry).members) :
    m.1 = member ∨ ∃ e ∈ entry, m ∈ e.members := by
  cases entry with
  | none => exact .inl (congrArg Prod.fst (List.mem_singleton.mp h))
  | some e =>
    rcases List.mem_append.mp h with h | h
    · exact .inr ⟨e, rfl, List.mem_of_mem_filter h⟩
    · exact .inl (congrArg Prod.fst (List.mem_singleton.mp h))

theorem redisKey_injective {key key' : String} (h : redisKey key = redisKey key') : key = key' := by
  have hlist : key.toList = key'.toList := by simpa [redisKey] using congrArg String.toList h
  exact String.toList_inj.mp hlist

/-- What Redis holds under a key, against the hits of the local limiter after the calls `past`. -/
structure Agrees (w : ℚ) (past : List Call) (used : List String) (entry : Option SortedSet)
    (hits : List ℚ) : Prop where
  recent : ∀ now, LocalRateLimiter.Until past now → recent w now (scores entry) = recent w now hits
  past : ∀ now, LocalRateLimiter.Until past now → ∀ t ∈ hits, t ≤ now
  deadline : ∀ e ∈ entry, ∀ d ∈ e.expireAt, ∀ m ∈ e.members, m.2 + w ≤ d
  used : ∀ e ∈ entry, ∀ m ∈ e.members, m.1 ∈ used

section

variable {expired : ℚ → ℚ → Bool} {w : ℚ} {past : List Call} {used : List String}
  {c : Call} {hits : List ℚ}

theorem Agrees.weaken {entry : Option SortedSet} (h : Agrees w past used entry hits) (c : Call)
    (member : String) : Agrees w (past ++ [c]) (member :: used) entry hits where
  recent := fun now hnow => h.recent now fun d hd => hnow d (List.mem_append_left _ hd)
  past := fun now hnow => h.past now fun d hd => hnow d (List.mem_append_left _ hd)
  deadline := h.deadline
  used := fun e he m hm => List.mem_cons_of_mem _ (h.used e he m hm)

/-- A dropped key held nothing recent. -/
theorem Agrees.live {db : Redis} {key : String} (h : Agrees w past used (db key) hits)
    (hexpired : ∀ d now, expired d now = true → d ≤ now) {now : ℚ}
    (hnow : LocalRateLimiter.Until past now) :
    scores (zremrangebyscore (now - w) (db.live expired now key)) = Window.recent w now hits := by
  rw [scores_zremrangebyscore, ← h.recent now hnow]
  cases hentry : db key with
  | none => simp only [Redis.live, hentry, Option.filter]
  | some e =>
    cases hdrop : e.expireAt.any (fun deadline => expired deadline now) with
    | false => simp only [Redis.live, hentry, Option.filter, hdrop, Bool.not_false, if_true]
    | true =>
      have hnil : Window.recent w now (scores (some e)) = [] := by
        cases hdeadline : e.expireAt with
        | none =>
          rw [hdeadline] at hdrop
          cases hdrop
        | some d =>
          rw [hdeadline, Option.any_some] at hdrop
          apply recent_eq_nil
          intro t ht
          obtain ⟨m, hm, rfl⟩ := List.mem_map.mp ht
          have hlast := h.deadline e hentry d hdeadline m hm
          have hpassed := hexpired d now hdrop
          linarith
      rw [hnil]
      simp only [Redis.live, hentry, Option.filter, hdrop, Bool.not_true, Bool.false_eq_true,
        if_false]
      rfl

/-- A set that is left after the pruning was there before. -/
theorem pruned_some {db : Redis} {key : String} {now upto : ℚ} {e : SortedSet}
    (h : zremrangebyscore upto (db.live expired now key) = some e) :
    ∃ e₀, db key = some e₀ ∧ e.members ⊆ e₀.members ∧ e.expireAt = e₀.expireAt := by
  obtain ⟨e₀, hlive, hsub, hdeadline⟩ := zremrangebyscore_some h
  exact ⟨e₀, (Option.filter_eq_some_iff.mp hlive).1, hsub, hdeadline⟩

section

variable {l : LocalRateLimiter} {db : Redis} {member : String}

theorem until_append {now : ℚ} (h : LocalRateLimiter.Until (past ++ [c]) now) :
    c.now ≤ now ∧ LocalRateLimiter.Until past now :=
  ⟨h c (List.mem_append_right _ List.mem_cons_self),
    fun d hd => h d (List.mem_append_left _ hd)⟩

/-- The local hits after the call, in terms of the pruned set. -/
theorem Agrees.allow_hits (h : Agrees w past used (db (redisKey c.key)) (l.hits c.key))
    (hexpired : ∀ d now, expired d now = true → d ≤ now)
    (hnow : LocalRateLimiter.Until past c.now) (hcutoff : l.cutoff = fun now => now - w) :
    (l.allow c).1.hits c.key =
      scores (zremrangebyscore (c.now - w) (db.live expired c.now (redisKey c.key))) ++
        if (l.allow c).2 then [c.now] else [] := by
  rw [h.live hexpired hnow, LocalRateLimiter.allow_hits_self, hcutoff]
  rfl

theorem Agrees.hits_past {entry : Option SortedSet} (h : Agrees w past used entry (l.hits c.key))
    {now : ℚ} (hall : LocalRateLimiter.Until (past ++ [c]) now) :
    ∀ t ∈ (l.allow c).1.hits c.key, t ≤ now := by
  obtain ⟨hc, hbefore⟩ := until_append hall
  intro t ht
  rw [LocalRateLimiter.allow_hits_self] at ht
  rcases List.mem_append.mp ht with ht | ht
  · exact h.past now hbefore t (List.mem_of_mem_filter ht)
  · split at ht
    · rw [List.mem_singleton.mp ht]
      exact hc
    · cases ht

theorem Agrees.pruned_used (h : Agrees w past used (db (redisKey c.key)) (l.hits c.key)) :
    ∀ e ∈ zremrangebyscore (c.now - w) (db.live expired c.now (redisKey c.key)),
      ∀ m ∈ e.members, m.1 ∈ used := by
  intro e he m hm
  obtain ⟨e₀, he₀, hsub, -⟩ := pruned_some he
  exact h.used e₀ he₀ m (hsub hm)

/-- A refused call leaves the pruned set. -/
theorem Agrees.refused (h : Agrees w past used (db (redisKey c.key)) (l.hits c.key))
    (hexpired : ∀ d now, expired d now = true → d ≤ now)
    (hnow : LocalRateLimiter.Until past c.now) (hcutoff : l.cutoff = fun now => now - w)
    (hallow : (l.allow c).2 = false) :
    Agrees w (past ++ [c]) (member :: used)
      (zremrangebyscore (c.now - w) (db.live expired c.now (redisKey c.key)))
      ((l.allow c).1.hits c.key) where
  recent := by
    intro now _
    rw [h.allow_hits hexpired hnow hcutoff, hallow, if_neg Bool.false_ne_true, List.append_nil]
  past := fun now hall => h.hits_past hall
  deadline := by
    intro e he d hd m hm
    obtain ⟨e₀, he₀, hsub, hdeadline⟩ := pruned_some he
    rw [hdeadline] at hd
    exact h.deadline e₀ he₀ d hd m (hsub hm)
  used := fun e he m hm => List.mem_cons_of_mem _ (h.pruned_used e he m hm)

/-- A window that is not positive: the deadline deletes the key at once, and no hit counts. -/
theorem Agrees.deleted {entry : Option SortedSet} (h : Agrees w past used entry (l.hits c.key))
    (hneg : w * 1000 ≤ 0) :
    Agrees w (past ++ [c]) (member :: used) none ((l.allow c).1.hits c.key) where
  recent := by
    intro now hall
    refine (recent_eq_nil fun t ht => ?_).symm
    have ht := h.hits_past hall t ht
    linarith
  past := fun now hall => h.hits_past hall
  deadline := by simp
  used := by simp

/-- An allowed call adds its member and moves the deadline. -/
theorem Agrees.admitted (h : Agrees w past used (db (redisKey c.key)) (l.hits c.key))
    (hexpired : ∀ d now, expired d now = true → d ≤ now)
    (hnow : LocalRateLimiter.Until past c.now) (hmember : member ∉ used)
    (hcutoff : l.cutoff = fun now => now - w) (hallow : (l.allow c).2 = true) :
    Agrees w (past ++ [c]) (member :: used)
      (some { zadd c.now member
        (zremrangebyscore (c.now - w) (db.live expired c.now (redisKey c.key))) with
          expireAt := some (c.now + w) })
      ((l.allow c).1.hits c.key) := by
  have hnew : ∀ e ∈ zremrangebyscore (c.now - w) (db.live expired c.now (redisKey c.key)),
      ∀ m ∈ e.members, m.1 ≠ member := by
    rintro e he m hm rfl
    exact hmember (h.pruned_used e he m hm)
  have hhits := h.allow_hits hexpired hnow hcutoff
  rw [hallow, if_pos rfl] at hhits
  have hadded := scores_zadd c.now hnew
  rw [← hhits] at hadded
  refine ⟨fun now _ => congrArg (Window.recent w now) hadded, fun now hall => h.hits_past hall,
    ?_, ?_⟩
  · intro e he d hd m hm
    cases he
    cases hd
    have hscore : m.2 ∈ (l.allow c).1.hits c.key := by
      rw [← hadded]
      exact List.mem_map_of_mem hm
    have huntil : LocalRateLimiter.Until (past ++ [c]) c.now := by
      intro d hd
      rcases List.mem_append.mp hd with hd | hd
      · exact hnow d hd
      · rw [List.mem_singleton.mp hd]
    have hlast := h.hits_past huntil m.2 hscore
    linarith
  · intro e he m hm
    cases he
    obtain hm | ⟨e, he, hm⟩ := mem_zadd hm
    · rw [hm]
      exact List.mem_cons_self
    · exact List.mem_cons_of_mem _ (h.pruned_used e he m hm)

/-- One call: the answers are the same, and what is stored still agrees. -/
theorem Agrees.step (h : Agrees w past used (db (redisKey c.key)) (l.hits c.key))
    (hms : (w * 1000).den = 1) (hexpired : ∀ d now, expired d now = true → d ≤ now)
    (hnow : LocalRateLimiter.Until past c.now) (hmember : member ∉ used)
    (hcutoff : l.cutoff = fun now => now - w) :
    ∃ db', redisAllow expired l.maxRequests w db c member = some (db', (l.allow c).2) ∧
      (∀ key, key ≠ redisKey c.key → db' key = db key) ∧
      Agrees w (past ++ [c]) (member :: used) (db' (redisKey c.key))
        ((l.allow c).1.hits c.key) := by
  let entry := zremrangebyscore (c.now - w) (db.live expired c.now (redisKey c.key))
  have hanswer := LocalRateLimiter.allow_answer l c
  rw [hcutoff, show recentBy (fun now => now - w) c.now (l.hits c.key) = _ from
    (h.live hexpired hnow).symm, ← zcard_eq] at hanswer
  cases hallow : (l.allow c).2 with
  | false =>
    have hfull : zcard entry ≥ l.maxRequests := by
      rw [hallow] at hanswer
      simpa using hanswer
    refine ⟨Function.update db (redisKey c.key) entry, ?_,
      fun key hkey => Function.update_of_ne hkey _ _, ?_⟩
    · simp only [redisAllow, slidingWindowScript]
      rw [if_pos hfull]
      rfl
    · rw [Function.update_self]
      exact h.refused hexpired hnow hcutoff hallow
  | true =>
    have hroom : ¬ zcard entry ≥ l.maxRequests := by
      rw [not_le]
      exact hanswer.mp hallow
    by_cases hneg : w * 1000 ≤ 0
    · refine ⟨Function.update db (redisKey c.key) none, ?_,
        fun key hkey => Function.update_of_ne hkey _ _, ?_⟩
      · simp only [redisAllow, slidingWindowScript]
        rw [if_neg hroom, pexpire, if_neg (not_not.mpr hms), if_pos hneg]
        rfl
      · rw [Function.update_self]
        exact h.deleted hneg
    · have hms' : w * 1000 / 1000 = w := by ring
      refine ⟨Function.update db (redisKey c.key)
        (some { zadd c.now member entry with expireAt := some (c.now + w) }), ?_,
        fun key hkey => Function.update_of_ne hkey _ _, ?_⟩
      · simp only [redisAllow, slidingWindowScript]
        rw [if_neg hroom, pexpire, if_neg (not_not.mpr hms), if_neg hneg, hms']
        rfl
      · rw [Function.update_self]
        exact h.admitted hexpired hnow hmember hcutoff hallow

end

/-- Over all calls. -/
theorem redisHistory_eq {l : LocalRateLimiter} {db : Redis} {calls : List (Call × String)}
    (h : ∀ key, Agrees w past used (db (redisKey key)) (l.hits key))
    (hms : (w * 1000).den = 1) (hexpired : ∀ d now, expired d now = true → d ≤ now)
    (hcutoff : l.cutoff = fun now => now - w) (hpast : ∀ x ∈ calls, LocalRateLimiter.Until past x.1.now)
    (htime : (calls.map (·.1.now)).Pairwise (· ≤ ·))
    (hused : ∀ x ∈ calls, x.2 ∉ used) (hmembers : (calls.map Prod.snd).Nodup) :
    redisHistory expired l.maxRequests w db calls =
      some (l.history (calls.map Prod.fst)) := by
  induction calls generalizing l db past used with
  | nil => rfl
  | cons x calls ih =>
    obtain ⟨c, member⟩ := x
    rw [List.map_cons, List.pairwise_cons] at htime
    rw [List.map_cons, List.nodup_cons] at hmembers
    obtain ⟨db', hallow, hother, hself⟩ := (h c.key).step hms hexpired
      (hpast (c, member) List.mem_cons_self) (hused (c, member) List.mem_cons_self) hcutoff
    have hagrees : ∀ key, Agrees w (past ++ [c]) (member :: used) (db' (redisKey key))
        ((l.allow c).1.hits key) := by
      intro key
      by_cases hkey : key = c.key
      · rw [hkey]
        exact hself
      · rw [hother _ fun he => hkey (redisKey_injective he),
          LocalRateLimiter.allow_hits_of_ne l hkey]
        exact (h key).weaken c member
    have hpast' : ∀ x ∈ calls, LocalRateLimiter.Until (past ++ [c]) x.1.now := by
      intro x hx d hd
      rcases List.mem_append.mp hd with hd | hd
      · exact hpast x (List.mem_cons_of_mem _ hx) d hd
      · rw [List.mem_singleton.mp hd]
        exact htime.1 x.1.now (List.mem_map_of_mem (f := fun x : Call × String => x.1.now) hx)
    have hused' : ∀ x ∈ calls, x.2 ∉ member :: used := by
      intro x hx hmem
      rcases List.mem_cons.mp hmem with he | hmem
      · have hseen : x.2 ∈ calls.map Prod.snd := List.mem_map_of_mem hx
        rw [he] at hseen
        exact hmembers.1 hseen
      · exact hused x (List.mem_cons_of_mem _ hx) hmem
    have hrest := ih hagrees ((LocalRateLimiter.allow_cutoff l c).trans hcutoff) hpast'
      htime.2 hused' hmembers.2
    rw [LocalRateLimiter.allow_maxRequests] at hrest
    simp only [redisHistory, hallow, hrest, bind, Option.bind, pure]
    rfl

end

/-- The script and the local limiter answer every call alike. All that is asked of the server's
test of a deadline is that it drops no key before its deadline. -/
theorem redis_limiter_agrees {expired : ℚ → ℚ → Bool}
    (hexpired : ∀ d now, expired d now = true → d ≤ now) (n : Nat) {w : ℚ}
    (hms : (w * 1000).den = 1) {calls : List (Call × String)}
    (htime : (calls.map (·.1.now)).Pairwise (· ≤ ·)) (hmembers : (calls.map Prod.snd).Nodup) :
    redisHistory expired n w (fun _ => none) calls =
      some ((LocalRateLimiter.new n w).history (calls.map Prod.fst)) := by
  have hstart : ∀ key, Agrees w [] [] ((fun _ => none : Redis) (redisKey key))
      ((LocalRateLimiter.new n w).hits key) := by
    intro key
    refine ⟨fun now _ => rfl, ?_, ?_, ?_⟩
    · intro now _ t ht
      cases ht
    · intro e he
      cases he
    · intro e he
      cases he
  have hcutoff : (LocalRateLimiter.new n w).cutoff = fun now => now - w := rfl
  exact redisHistory_eq hstart hms hexpired hcutoff
    (fun _ _ d hd => absurd hd List.not_mem_nil) htime (fun _ _ => List.not_mem_nil) hmembers

/-- Two calls of one key, a whole window apart, and one of another key. -/
def edgeMembers : List (Call × String) :=
  [(⟨"a", 0⟩, "m1"), (⟨"b", 1⟩, "m2"), (⟨"a", 10⟩, "m3")]

theorem redis_limiter_agrees_edgeCalls :
    redisHistory (fun d now => decide (d < now)) 1 10 (fun _ => none) edgeMembers =
      some ((LocalRateLimiter.new 1 10).history (edgeMembers.map Prod.fst)) := by
  have hexpired : ∀ d now : ℚ, decide (d < now) = true → d ≤ now := by
    intro d now h
    exact le_of_lt (of_decide_eq_true h)
  have htime : (edgeMembers.map (·.1.now)).Pairwise (· ≤ ·) := by decide +kernel
  exact redis_limiter_agrees hexpired 1 (by decide +kernel) htime (by decide +kernel)

end TaskPlatform
