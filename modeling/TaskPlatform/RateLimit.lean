import TaskPlatform.Lib.Window

/-!
# The local rate limiter

`LocalRateLimiter` of `core/rate_limit.py`, the sliding window that a process
keeps for itself. Times are seconds, as the floats of the clock have them; their
difference is rounded, and all that is asked of the rounding is that it is
monotone. The stored times are pruned on every call; what is forgotten could not
be recent any more.
-/

namespace TaskPlatform

open Window

/-- A call of `allow`: its key, and what the clock shows in it. -/
structure Call where
  key : String
  now : ℚ
  deriving DecidableEq, Repr

/-- `round` is what the machine makes of a difference of two floats. -/
structure LocalRateLimiter where
  maxRequests : Nat
  windowSeconds : ℚ
  round : ℚ → ℚ
  hits : String → List ℚ

namespace LocalRateLimiter

def rounded (round : ℚ → ℚ) (maxRequests : Nat) (windowSeconds : ℚ) : LocalRateLimiter :=
  ⟨maxRequests, windowSeconds, round, fun _ => []⟩

/-- A limiter whose clock and window are such that no difference is rounded. -/
def new (maxRequests : Nat) (windowSeconds : ℚ) : LocalRateLimiter :=
  rounded id maxRequests windowSeconds

def cutoff (l : LocalRateLimiter) (now : ℚ) : ℚ := l.round (now - l.windowSeconds)

def setHits (l : LocalRateLimiter) (key : String) (timestamps : List ℚ) : LocalRateLimiter :=
  { l with hits := Function.update l.hits key timestamps }

/-- `LocalRateLimiter.allow` -/
def allow (l : LocalRateLimiter) (c : Call) : LocalRateLimiter × Bool :=
  let timestamps := (l.hits c.key).filter (fun t => decide (l.cutoff c.now < t))
  if timestamps.length ≥ l.maxRequests then (l.setHits c.key timestamps, false)
  else (l.setHits c.key (timestamps ++ [c.now]), true)

/-- The calls with their answers. -/
def history : LocalRateLimiter → List Call → List (Call × Bool)
  | _, [] => []
  | l, c :: calls => (c, (l.allow c).2) :: history (l.allow c).1 calls

/-- The limiter after the calls. -/
def after (l : LocalRateLimiter) (calls : List Call) : LocalRateLimiter :=
  calls.foldl (fun l c => (l.allow c).1) l

end LocalRateLimiter

/-- When the calls for a key were admitted. -/
def admitted (key : String) (history : List (Call × Bool)) : List ℚ :=
  (history.filter (fun x => x.2 && x.1.key == key)).map (·.1.now)

namespace LocalRateLimiter

variable {l : LocalRateLimiter} {c : Call} {calls : List Call}

section

variable (round : ℚ → ℚ) (n : Nat) (w : ℚ)

@[simp] theorem rounded_maxRequests : (rounded round n w).maxRequests = n := rfl
@[simp] theorem rounded_cutoff : (rounded round n w).cutoff = fun now => round (now - w) := rfl
@[simp] theorem rounded_hits (key : String) : (rounded round n w).hits key = [] := rfl
@[simp] theorem new_maxRequests : (new n w).maxRequests = n := rfl
@[simp] theorem new_cutoff : (new n w).cutoff = fun now => now - w := rfl

end

theorem allow_answer (l : LocalRateLimiter) (c : Call) : (l.allow c).2 = true ↔
    (recentBy l.cutoff c.now (l.hits c.key)).length < l.maxRequests := by
  unfold allow recentBy
  simp only
  split
  · rename_i h
    simpa using h
  · rename_i h
    simpa using h

@[simp] theorem allow_maxRequests (l : LocalRateLimiter) (c : Call) :
    (l.allow c).1.maxRequests = l.maxRequests := by
  unfold allow
  simp only
  split <;> rfl

@[simp] theorem allow_cutoff (l : LocalRateLimiter) (c : Call) :
    (l.allow c).1.cutoff = l.cutoff := by
  unfold allow
  simp only
  split <;> rfl

theorem allow_hits_self (l : LocalRateLimiter) (c : Call) : (l.allow c).1.hits c.key =
    recentBy l.cutoff c.now (l.hits c.key) ++ if (l.allow c).2 then [c.now] else [] := by
  unfold allow recentBy
  simp only
  split <;> simp [setHits]

theorem allow_hits_of_ne (l : LocalRateLimiter) {c : Call} {key : String} (h : key ≠ c.key) :
    (l.allow c).1.hits key = l.hits key := by
  unfold allow
  simp only
  split <;> simp [setHits, h]

@[simp] theorem after_nil (l : LocalRateLimiter) : l.after [] = l := rfl

theorem after_append (l : LocalRateLimiter) (xs ys : List Call) :
    l.after (xs ++ ys) = (l.after xs).after ys := List.foldl_append ..

theorem after_maxRequests (l : LocalRateLimiter) (calls : List Call) :
    (l.after calls).maxRequests = l.maxRequests := by
  induction calls generalizing l with
  | nil => rfl
  | cons c calls ih => exact (ih _).trans (allow_maxRequests l c)

theorem after_cutoff (l : LocalRateLimiter) (calls : List Call) :
    (l.after calls).cutoff = l.cutoff := by
  induction calls generalizing l with
  | nil => rfl
  | cons c calls ih => exact (ih _).trans (allow_cutoff l c)

theorem history_append (l : LocalRateLimiter) (xs ys : List Call) :
    l.history (xs ++ ys) = l.history xs ++ (l.after xs).history ys := by
  induction xs generalizing l with
  | nil => rfl
  | cons c xs ih => exact congrArg ((c, (l.allow c).2) :: ·) (ih _)

theorem history_calls (l : LocalRateLimiter) (calls : List Call) :
    (l.history calls).map Prod.fst = calls := by
  induction calls generalizing l with
  | nil => rfl
  | cons c calls ih => exact congrArg (c :: ·) (ih _)

theorem admitted_append_self (key : String) (log : List (Call × Bool)) (c : Call) (b : Bool) :
    admitted key (log ++ [(c, b)]) =
      admitted key log ++ if b && c.key == key then [c.now] else [] := by
  unfold admitted
  rw [List.filter_append, List.map_append]
  cases hb : b && c.key == key <;> simp [hb]

/-- All the calls were made at `now` or before. -/
def Until (calls : List Call) (now : ℚ) : Prop := ∀ c ∈ calls, c.now ≤ now

section

variable {round : ℚ → ℚ} (hround : Monotone round) (n : Nat) (w : ℚ)

include hround

theorem monotone_cutoff : Monotone fun now => round (now - w) :=
  hround.comp (monotone_sub_const w)

/-- The limiter keeps of the admitted calls what can be recent at any time to come. -/
theorem recent_hits (calls : List Call) (htime : (calls.map Call.now).Pairwise (· ≤ ·))
    (key : String) {now : ℚ} (h : Until calls now) :
    recentBy (fun now => round (now - w)) now (((rounded round n w).after calls).hits key) =
      recentBy (fun now => round (now - w)) now
        (admitted key ((rounded round n w).history calls)) := by
  induction calls using List.reverseRecOn generalizing now with
  | nil => rfl
  | append_singleton calls c ih =>
    rw [List.map_append, List.pairwise_append] at htime
    obtain ⟨htime, -, hlast⟩ := htime
    have hnow : c.now ≤ now := h c (List.mem_append_right _ List.mem_cons_self)
    have hbefore : Until calls now := fun d hd => h d (List.mem_append_left _ hd)
    have hcut := after_cutoff (rounded round n w) calls
    rw [after_append, history_append]
    change recentBy (fun now => round (now - w)) now
        ((((rounded round n w).after calls).allow c).1.hits key) =
      recentBy (fun now => round (now - w)) now (admitted key ((rounded round n w).history calls ++
        [(c, (((rounded round n w).after calls).allow c).2)]))
    rw [admitted_append_self]
    by_cases hkey : key = c.key
    · subst hkey
      rw [allow_hits_self, hcut, rounded_cutoff, recentBy_append, recentBy_append,
        recentBy_recentBy (monotone_cutoff hround w) hnow, ih htime hbefore, beq_self_eq_true,
        Bool.and_true]
    · rw [allow_hits_of_ne _ hkey, ih htime hbefore, recentBy_append]
      simp [Ne.symm hkey]

/-- The answer to the next call. -/
theorem allow_iff_recent {calls : List Call} {c : Call}
    (htime : (calls.map Call.now).Pairwise (· ≤ ·)) (h : Until calls c.now) :
    (((rounded round n w).after calls).allow c).2 = true ↔
      (recentBy (fun now => round (now - w)) c.now
        (admitted c.key ((rounded round n w).history calls))).length < n := by
  rw [allow_answer, after_cutoff, after_maxRequests, rounded_cutoff, rounded_maxRequests,
    recent_hits hround n w calls htime c.key h]

/-- The admitted calls of a key are paced. -/
theorem pacedBy_admitted (calls : List Call) (htime : (calls.map Call.now).Pairwise (· ≤ ·))
    (key : String) : PacedBy (fun now => round (now - w)) n
      (admitted key ((rounded round n w).history calls)) := by
  induction calls using List.reverseRecOn with
  | nil => exact pacedBy_nil _ n
  | append_singleton calls c ih =>
    rw [List.map_append, List.pairwise_append] at htime
    obtain ⟨htime, -, hlast⟩ := htime
    have huntil : Until calls c.now := fun d hd =>
      hlast d.now (List.mem_map_of_mem hd) c.now List.mem_cons_self
    have hanswer := allow_iff_recent hround n w htime huntil
    rw [history_append]
    change PacedBy (fun now => round (now - w)) n (admitted key
      ((rounded round n w).history calls ++
        [(c, (((rounded round n w).after calls).allow c).2)]))
    rw [admitted_append_self]
    cases hadmit : (((rounded round n w).after calls).allow c).2 && c.key == key with
    | false =>
      rw [if_neg Bool.false_ne_true, List.append_nil]
      exact ih htime
    | true =>
      rw [Bool.and_eq_true, beq_iff_eq] at hadmit
      obtain ⟨hallowed, rfl⟩ := hadmit
      rw [if_pos rfl]
      refine pacedBy_append_singleton (ih htime) ?_
      rw [recentBy_append, List.length_append]
      have hself : (recentBy (fun now => round (now - w)) c.now [c.now]).length ≤ 1 :=
        List.length_filter_le _ _
      have hbefore := hanswer.mp hallowed
      omega

end

theorem paced_admitted (n : Nat) (w : ℚ) (calls : List Call)
    (htime : (calls.map Call.now).Pairwise (· ≤ ·)) (key : String) :
    Paced w n (admitted key ((new n w).history calls)) :=
  pacedBy_admitted monotone_id n w calls htime key

theorem admitted_subset (l : LocalRateLimiter) (calls : List Call) (key : String) :
    ∀ t ∈ admitted key (l.history calls), ∃ c ∈ calls, c.now = t := by
  intro t ht
  obtain ⟨x, hx, rfl⟩ := List.mem_map.mp ht
  have hcall := List.mem_map_of_mem (f := Prod.fst) (List.mem_of_mem_filter hx)
  rw [history_calls] at hcall
  exact ⟨x.1, hcall, rfl⟩

/-- The calls of one key are answered as if there were no others. -/
theorem history_filter {l m : LocalRateLimiter} (key : String) (calls : List Call)
    (hmax : l.maxRequests = m.maxRequests) (hcutoff : l.cutoff = m.cutoff)
    (hhits : l.hits key = m.hits key) :
    (l.history calls).filter (fun x => x.1.key == key) =
      m.history (calls.filter (fun c => c.key == key)) := by
  induction calls generalizing l m with
  | nil => rfl
  | cons c calls ih =>
    by_cases hkey : c.key = key
    · subst hkey
      have hanswer : (l.allow c).2 = (m.allow c).2 := by
        rw [Bool.eq_iff_iff, allow_answer, allow_answer, hmax, hcutoff, hhits]
      have hrest := ih (l := (l.allow c).1) (m := (m.allow c).1) (by simp [hmax])
        (by simp [hcutoff]) (by rw [allow_hits_self, allow_hits_self, hanswer, hcutoff, hhits])
      rw [history, List.filter_cons_of_pos (by simp), List.filter_cons_of_pos (by simp), hrest,
        hanswer]
      rfl
    · have hrest := ih (l := (l.allow c).1) (m := m) (by simp [hmax]) (by simp [hcutoff])
        (by rw [allow_hits_of_ne _ (Ne.symm hkey), hhits])
      rw [history, List.filter_cons_of_neg (by simpa using hkey),
        List.filter_cons_of_neg (by simpa using hkey), hrest]

end LocalRateLimiter

/-- A call is admitted exactly if fewer than `n` calls of its key were admitted after the rounded
cutoff and up to it. Hence no interval from a rounded cutoff to its time holds more than `n` of them,
and no interval of the length of the window where no difference is rounded; and calls with other
keys make no difference. -/
theorem local_limiter_exact {round : ℚ → ℚ} (hround : Monotone round) (n : Nat) (w : ℚ)
    {calls : List Call} (htime : (calls.map Call.now).Pairwise (· ≤ ·)) :
    (∀ xs c ys, calls = xs ++ c :: ys →
      ((((LocalRateLimiter.rounded round n w).after xs).allow c).2 = true ↔
        ((admitted c.key ((LocalRateLimiter.rounded round n w).history xs)).filter
          (fun t => decide (round (c.now - w) < t ∧ t ≤ c.now))).length < n)) ∧
    (∀ key b, ((admitted key ((LocalRateLimiter.rounded round n w).history calls)).filter
        (fun t => decide (round (b - w) < t ∧ t ≤ b))).length ≤ n) ∧
    ((∀ c ∈ calls, round (c.now - w) = c.now - w) → ∀ key a,
      ((admitted key ((LocalRateLimiter.rounded round n w).history calls)).filter
        (fun t => decide (a < t ∧ t ≤ a + w))).length ≤ n ∧
      ((admitted key ((LocalRateLimiter.rounded round n w).history calls)).filter
        (fun t => decide (a ≤ t ∧ t < a + w))).length ≤ n) ∧
    ∀ key, ((LocalRateLimiter.rounded round n w).history calls).filter (fun x => x.1.key == key) =
      (LocalRateLimiter.rounded round n w).history (calls.filter (fun c => c.key == key)) := by
  have hpaced := LocalRateLimiter.pacedBy_admitted hround n w calls htime
  refine ⟨?_, fun key => (hpaced key).interval (LocalRateLimiter.monotone_cutoff hround w),
    fun hexact key a => ?_, fun key => LocalRateLimiter.history_filter key calls rfl rfl rfl⟩
  · rintro xs c ys rfl
    rw [List.map_append, List.map_cons, List.pairwise_append] at htime
    obtain ⟨hbefore, -, hlast⟩ := htime
    have huntil : LocalRateLimiter.Until xs c.now := fun d hd =>
      hlast d.now (List.mem_map_of_mem hd) c.now List.mem_cons_self
    rw [LocalRateLimiter.allow_iff_recent hround n w hbefore huntil, recentBy]
    have hsame : (admitted c.key ((LocalRateLimiter.rounded round n w).history xs)).filter
        (fun t => decide (round (c.now - w) < t)) =
        (admitted c.key ((LocalRateLimiter.rounded round n w).history xs)).filter
          (fun t => decide (round (c.now - w) < t ∧ t ≤ c.now)) := by
      apply List.filter_congr
      intro t ht
      -- every admitted call was made before
      obtain ⟨d, hd, rfl⟩ := LocalRateLimiter.admitted_subset _ _ _ t ht
      simp [huntil d hd]
    rw [hsame]
  · have hcut : ∀ t ∈ admitted key ((LocalRateLimiter.rounded round n w).history calls),
        round (t - w) = t - w := by
      intro t ht
      obtain ⟨c, hc, rfl⟩ := LocalRateLimiter.admitted_subset _ _ _ t ht
      exact hexact c hc
    constructor
    · refine (hpaced key).length_filter fun s _ t ht hs hwithin => ?_
      rw [decide_eq_true_eq] at hs hwithin
      rw [hcut t ht]
      exact (sub_le_iff_le_add.mpr hwithin.2).trans_lt hs.1
    · refine (hpaced key).length_filter fun s _ t ht hs hwithin => ?_
      rw [decide_eq_true_eq] at hs hwithin
      rw [hcut t ht]
      exact (sub_lt_iff_lt_add.mpr hwithin.2).trans_le hs.1

/-- To the nearest double between 512 and 1024. -/
def roundDouble (x : ℚ) : ℚ := ⌊x * 2 ^ 43 + 1 / 2⌋ / 2 ^ 43

theorem monotone_roundDouble : Monotone roundDouble := by
  intro x y h
  unfold roundDouble
  have hfloor : ⌊x * 2 ^ 43 + 1 / 2⌋ ≤ ⌊y * 2 ^ 43 + 1 / 2⌋ := by
    gcongr
  gcongr

/-- Two calls less than 0.3 seconds apart, at 862.6903632435094 and 862.9903632435094 as doubles. -/
def closeCalls : List Call :=
  [⟨"a", 7588304684452318 / 2 ^ 43⟩, ⟨"a", 7590943512358980 / 2 ^ 43⟩]

/-- 0.3 as a double. -/
def shortWindow : ℚ := 5404319552844595 / 2 ^ 54

theorem local_limiter_exact_closeCalls :
    ((admitted "a" ((LocalRateLimiter.rounded roundDouble 1 shortWindow).history closeCalls)).filter
      (fun t => decide (roundDouble (863 - shortWindow) < t ∧ t ≤ 863))).length ≤ 1 := by
  have htime : (closeCalls.map Call.now).Pairwise (· ≤ ·) := by decide +kernel
  exact (local_limiter_exact monotone_roundDouble 1 shortWindow htime).2.1 "a" 863

/-- The first call lies in the window that ends with the second one, which is admitted too: the
cutoff is rounded to the time of the first. -/
theorem closeCalls_both_admitted :
    ((LocalRateLimiter.rounded roundDouble 1 shortWindow).history closeCalls).map Prod.snd =
      [true, true] ∧
    ¬ ∀ xs c ys, closeCalls = xs ++ c :: ys →
      ((((LocalRateLimiter.rounded roundDouble 1 shortWindow).after xs).allow c).2 = true ↔
        ((admitted c.key
            ((LocalRateLimiter.rounded roundDouble 1 shortWindow).history xs)).filter
          (fun t => decide (c.now - shortWindow < t ∧ t ≤ c.now))).length < 1) := by
  refine ⟨by decide +kernel, fun h => ?_⟩
  have hsecond := h [⟨"a", 7588304684452318 / 2 ^ 43⟩] ⟨"a", 7590943512358980 / 2 ^ 43⟩ [] rfl
  exact absurd hsecond (by decide +kernel)

end TaskPlatform
