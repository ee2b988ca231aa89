import Mathlib

/-!
# Times in a sliding window

`recentBy cut now ts` are the times of `ts` after the cutoff `cut now`. A list of
times is paced if each time finds at most `n` of the times up to it recent; then
no interval from a cutoff to its time holds more than `n` of them. The cutoff of
a window of length `w` is `now - w`, and then no half-open interval of length `w`
holds more than `n`.
-/

namespace Window

section

variable {τ : Type*} [LinearOrder τ] {cut : τ → τ} {now now' : τ} {ts : List τ} {n : Nat}

def recentBy (cut : τ → τ) (now : τ) (ts : List τ) : List τ :=
  ts.filter (fun t => decide (cut now < t))

@[simp] theorem recentBy_nil (cut : τ → τ) (now : τ) : recentBy cut now [] = [] := rfl

theorem recentBy_append (cut : τ → τ) (now : τ) (ts us : List τ) :
    recentBy cut now (ts ++ us) = recentBy cut now ts ++ recentBy cut now us :=
  List.filter_append ..

/-- Forgetting what is not recent now does not change what is recent later. -/
theorem recentBy_recentBy (hcut : Monotone cut) (h : now ≤ now') (ts : List τ) :
    recentBy cut now' (recentBy cut now ts) = recentBy cut now' ts := by
  rw [recentBy, recentBy, List.filter_filter]
  apply List.filter_congr
  intro t _
  have hlater : cut now' < t → cut now < t := (hcut h).trans_lt
  by_cases ht : cut now' < t
  · simp [ht, hlater ht]
  · simp [ht]

/-- Each time finds at most `n` of the times up to it recent. -/
def PacedBy (cut : τ → τ) (n : Nat) (ts : List τ) : Prop :=
  ∀ xs t ys, ts = xs ++ t :: ys → (recentBy cut t (xs ++ [t])).length ≤ n

theorem pacedBy_nil (cut : τ → τ) (n : Nat) : PacedBy cut n [] := by
  intro xs t ys h
  simp at h

theorem PacedBy.of_append {us : List τ} (h : PacedBy cut n (ts ++ us)) : PacedBy cut n ts := by
  intro xs t ys he
  refine h xs t (ys ++ us) ?_
  rw [he, List.append_assoc, List.cons_append]

theorem pacedBy_append_singleton {t : τ} (h : PacedBy cut n ts)
    (ht : (recentBy cut t (ts ++ [t])).length ≤ n) : PacedBy cut n (ts ++ [t]) := by
  intro xs s ys he
  rcases List.eq_nil_or_concat ys with rfl | ⟨zs, z, rfl⟩
  · obtain ⟨rfl, hs⟩ := List.append_inj' he rfl
    cases hs
    exact ht
  · rw [List.concat_eq_append, ← List.cons_append, ← List.append_assoc] at he
    obtain ⟨rfl, -⟩ := List.append_inj' he rfl
    exact h xs s zs rfl

/-- A condition that only recent times meet is met by at most `n` paced times. -/
theorem PacedBy.length_filter {p : τ → Bool} (h : PacedBy cut n ts)
    (hp : ∀ s ∈ ts, ∀ t ∈ ts, p s = true → p t = true → cut t < s) :
    (ts.filter p).length ≤ n := by
  induction ts using List.reverseRecOn with
  | nil => exact Nat.zero_le n
  | append_singleton ts t ih =>
    cases ht : p t with
    | false =>
      rw [List.filter_append, List.filter_cons_of_neg (by simp [ht]), List.filter_nil,
        List.append_nil]
      exact ih h.of_append fun s hs t ht =>
        hp s (List.mem_append_left _ hs) t (List.mem_append_left _ ht)
    | true =>
      refine le_trans ?_ (h ts t [] rfl)
      rw [recentBy, ← List.countP_eq_length_filter, ← List.countP_eq_length_filter]
      apply List.countP_mono_left
      intro s hs hps
      rw [decide_eq_true_eq]
      exact hp s hs t (List.mem_append_right _ List.mem_cons_self) hps ht

/-- No interval from a cutoff to its time holds more than `n` paced times. -/
theorem PacedBy.interval (hcut : Monotone cut) (h : PacedBy cut n ts) (b : τ) :
    (ts.filter (fun t => decide (cut b < t ∧ t ≤ b))).length ≤ n := by
  refine h.length_filter fun s _ t _ hs ht => ?_
  rw [decide_eq_true_eq] at hs ht
  exact (hcut ht.2).trans_lt hs.1

end

variable {τ : Type*} [AddCommGroup τ] [LinearOrder τ] {w now now' : τ} {ts : List τ}

/-- The times that lie less than `w` before `now`. -/
def recent (w now : τ) (ts : List τ) : List τ := recentBy (fun now => now - w) now ts

@[simp] theorem recent_nil (w now : τ) : recent w now [] = [] := rfl

theorem recent_append (w now : τ) (ts us : List τ) :
    recent w now (ts ++ us) = recent w now ts ++ recent w now us := recentBy_append ..

theorem recent_eq_nil (h : ∀ t ∈ ts, t ≤ now - w) : recent w now ts = [] := by
  rw [recent, recentBy, List.filter_eq_nil_iff]
  intro t ht
  rw [decide_eq_true_eq, not_lt]
  exact h t ht

def Paced (w : τ) (n : Nat) (ts : List τ) : Prop := PacedBy (fun now => now - w) n ts

theorem paced_nil (w : τ) (n : Nat) : Paced w n [] := pacedBy_nil _ n

theorem paced_append_singleton {n : Nat} {t : τ} (h : Paced w n ts)
    (ht : (recent w t (ts ++ [t])).length ≤ n) : Paced w n (ts ++ [t]) :=
  pacedBy_append_singleton h ht

variable [IsOrderedAddMonoid τ]

theorem monotone_sub_const (w : τ) : Monotone fun now : τ => now - w :=
  fun _ _ h => sub_le_sub_right h w

theorem recent_recent (h : now ≤ now') (ts : List τ) :
    recent w now' (recent w now ts) = recent w now' ts :=
  recentBy_recentBy (monotone_sub_const w) h ts

theorem length_recent_le (h : now ≤ now') (ts : List τ) :
    (recent w now' ts).length ≤ (recent w now ts).length := by
  rw [← recent_recent h ts]
  exact List.length_filter_le _ _

/-- No half-open interval of length `w` holds more than `n` paced times. -/
theorem Paced.interval {n : Nat} (h : Paced w n ts) (a : τ) :
    (ts.filter (fun t => decide (a < t ∧ t ≤ a + w))).length ≤ n ∧
      (ts.filter (fun t => decide (a ≤ t ∧ t < a + w))).length ≤ n := by
  constructor
  · refine h.length_filter fun s _ t _ hs ht => ?_
    rw [decide_eq_true_eq] at hs ht
    exact (sub_le_iff_le_add.mpr ht.2).trans_lt hs.1
  · refine h.length_filter fun s _ t _ hs ht => ?_
    rw [decide_eq_true_eq] at hs ht
    exact (sub_lt_iff_lt_add.mpr ht.2).trans_le hs.1

end Window
