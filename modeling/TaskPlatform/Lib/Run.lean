import Mathlib

/-!
# Runs of a state machine

A machine is a total step function; a run is the list of its actions. `Along`
says that a condition holds at every step of a run, in the state in which the
step is taken. An invariant that each step keeps, given that the step meets the
condition, holds at the end of every run along which the condition holds.
-/

namespace Run

variable {σ α : Type}

def run (step : σ → α → σ) (s : σ) (acts : List α) : σ := acts.foldl step s

@[simp] theorem run_nil (step : σ → α → σ) (s : σ) : run step s [] = s := rfl
@[simp] theorem run_cons (step : σ → α → σ) (s : σ) (a : α) (acts : List α) :
    run step s (a :: acts) = run step (step s a) acts := rfl

theorem run_append (step : σ → α → σ) (s : σ) (xs ys : List α) :
    run step s (xs ++ ys) = run step (run step s xs) ys := by
  simp [run]

/-- The condition `C` holds at every step of the run. -/
def Along (step : σ → α → σ) (C : σ → α → Prop) : σ → List α → Prop
  | _, [] => True
  | s, a :: acts => C s a ∧ Along step C (step s a) acts

@[simp] theorem along_nil (step : σ → α → σ) (C : σ → α → Prop) (s : σ) :
    Along step C s [] := trivial
@[simp] theorem along_cons (step : σ → α → σ) (C : σ → α → Prop) (s : σ) (a : α) (acts : List α) :
    Along step C s (a :: acts) ↔ C s a ∧ Along step C (step s a) acts := Iff.rfl

instance decidableAlong (step : σ → α → σ) (C : σ → α → Prop) [∀ s a, Decidable (C s a)] :
    ∀ (s : σ) (acts : List α), Decidable (Along step C s acts)
  | _, [] => isTrue trivial
  | s, a :: acts =>
    have := decidableAlong step C (step s a) acts
    inferInstanceAs (Decidable (C s a ∧ Along step C (step s a) acts))

theorem along_append (step : σ → α → σ) (C : σ → α → Prop) (s : σ) (xs ys : List α) :
    Along step C s (xs ++ ys) ↔ Along step C s xs ∧ Along step C (run step s xs) ys := by
  induction xs generalizing s with
  | nil => simp
  | cons a xs ih => simp [ih, and_assoc]

/-- A condition on the actions alone can be asked of the list. -/
theorem along_and_forall {step : σ → α → σ} {C : σ → α → Prop} {R : α → Prop} {s : σ}
    {acts : List α} (h : Along step C s acts) (hR : ∀ a ∈ acts, R a) :
    Along step (fun s a => C s a ∧ R a) s acts := by
  induction acts generalizing s with
  | nil => trivial
  | cons a acts ih =>
    exact ⟨⟨h.1, hR a List.mem_cons_self⟩,
      ih h.2 fun b hb => hR b (List.mem_cons_of_mem _ hb)⟩

/-- A step at any position of the run meets the condition. -/
theorem along_iff (step : σ → α → σ) (C : σ → α → Prop) (s : σ) (acts : List α) :
    Along step C s acts ↔
      ∀ xs a ys, acts = xs ++ a :: ys → C (run step s xs) a := by
  induction acts generalizing s with
  | nil => simp
  | cons b acts ih =>
    rw [along_cons, ih]
    constructor
    · rintro ⟨hb, hacts⟩ xs a ys he
      cases xs with
      | nil => simp only [List.nil_append, List.cons.injEq] at he; rw [← he.1]; exact hb
      | cons x xs =>
        simp only [List.cons_append, List.cons.injEq] at he
        rw [run_cons, ← he.1]
        exact hacts xs a ys he.2
    · intro h
      refine ⟨h [] b acts rfl, fun xs a ys he => ?_⟩
      have := h (b :: xs) a ys (by simp [he])
      simpa using this

/-- The induction rule for runs whose steps all meet a condition. -/
theorem along_invariant {step : σ → α → σ} {C : σ → α → Prop} {P : σ → Prop}
    (hstep : ∀ s a, P s → C s a → P (step s a)) {s : σ} {acts : List α}
    (hs : P s) (hc : Along step C s acts) : P (run step s acts) := by
  induction acts generalizing s with
  | nil => exact hs
  | cons a acts ih => exact ih (hstep s a hs hc.1) hc.2

/-- What an invariant and the condition imply of a step holds at every step. -/
theorem along_of_along_invariant {step : σ → α → σ} {C D : σ → α → Prop} {P : σ → Prop}
    (hstep : ∀ s a, P s → C s a → P (step s a)) (hd : ∀ s a, P s → C s a → D s a) {s : σ}
    {acts : List α} (hs : P s) (hc : Along step C s acts) : Along step D s acts := by
  induction acts generalizing s with
  | nil => trivial
  | cons a acts ih => exact ⟨hd s a hs hc.1, ih (hstep s a hs hc.1) hc.2⟩

/-- The induction rule for all runs. -/
theorem run_invariant {step : σ → α → σ} {P : σ → Prop} (hstep : ∀ s a, P s → P (step s a))
    {s : σ} (hs : P s) (acts : List α) : P (run step s acts) := by
  induction acts generalizing s with
  | nil => exact hs
  | cons a acts ih => exact ih (hstep s a hs)

/-- Two conditions that agree wherever an invariant holds hold along the same runs. -/
theorem along_congr {step : σ → α → σ} {C D : σ → α → Prop} {P : σ → Prop}
    (hstep : ∀ s a, P s → P (step s a)) (hcd : ∀ s a, P s → (C s a ↔ D s a))
    {s : σ} (hs : P s) (acts : List α) : Along step C s acts ↔ Along step D s acts := by
  induction acts generalizing s with
  | nil => simp
  | cons a acts ih => rw [along_cons, along_cons, hcd s a hs, ih (hstep s a hs)]

/-- A loop that can fail, with turns that are steps of the machine: what it returns is the end of a
run. -/
theorem foldlM_run {ρ ι ε : Type} {step : σ → α → σ} {f : ρ → ι → Except ε ρ} {g : ρ → σ}
    {act : ι → α} (hturn : ∀ r x r', f r x = .ok r' → g r' = step (g r) (act x)) {xs : List ι}
    {r r' : ρ} (hloop : xs.foldlM f r = .ok r') : g r' = run step (g r) (xs.map act) := by
  induction xs generalizing r with
  | nil =>
    cases hloop
    rfl
  | cons x xs ih =>
    rw [List.foldlM_cons] at hloop
    cases hx : f r x with
    | error e =>
      rw [hx] at hloop
      cases hloop
    | ok r₁ =>
      rw [hx] at hloop
      rw [List.map_cons, run_cons, ← hturn r x r₁ hx]
      exact ih hloop

section

variable {τ : Type} [Preorder τ]

/-- The times of a run, where its actions have one, do not decrease from `c` on. -/
def Forward (clock : α → Option τ) (c : τ) (acts : List α) : Prop :=
  (c :: acts.filterMap clock).Pairwise (· ≤ ·)

theorem forward_cons (clock : α → Option τ) (c : τ) (a : α) (acts : List α) :
    Forward clock c (a :: acts) ↔
      (∀ now ∈ clock a, c ≤ now) ∧ Forward clock ((clock a).getD c) acts := by
  unfold Forward
  cases ha : clock a with
  | none => simp [ha]
  | some now =>
    simp only [List.filterMap_cons, ha, List.pairwise_cons, List.mem_cons, forall_eq_or_imp,
      Option.mem_some_iff, forall_eq', Option.getD_some]
    constructor
    · rintro ⟨⟨hc, -⟩, hrest⟩
      exact ⟨hc, hrest⟩
    · rintro ⟨hc, hnow, hrest⟩
      exact ⟨⟨hc, fun t ht => hc.trans (hnow t ht)⟩, hnow, hrest⟩

/-- The induction rule for runs with a clock: the invariant is about the time of the last step. -/
theorem along_of_forward {step : σ → α → σ} {clock : α → Option τ} {C D : σ → α → Prop}
    {P : σ → τ → Prop}
    (hstep : ∀ s c a, P s c → C s a → (∀ now ∈ clock a, c ≤ now) →
      P (step s a) ((clock a).getD c))
    (hd : ∀ s c a, P s c → C s a → (∀ now ∈ clock a, c ≤ now) → D s a) {s : σ} {c : τ}
    {acts : List α} (hs : P s c) (hclock : Forward clock c acts) (hc : Along step C s acts) :
    Along step D s acts := by
  induction acts generalizing s c with
  | nil => trivial
  | cons a acts ih =>
    obtain ⟨ha, hrest⟩ := (forward_cons clock c a acts).mp hclock
    exact ⟨hd s c a hs hc.1 ha, ih (hstep s c a hs hc.1 ha) hrest hc.2⟩

/-- The induction rule for the end of a run with a clock. -/
theorem run_of_forward {step : σ → α → σ} {clock : α → Option τ} {P : σ → τ → Prop}
    (hstep : ∀ s c a, P s c → (∀ now ∈ clock a, c ≤ now) → P (step s a) ((clock a).getD c))
    {s : σ} {c : τ} {acts : List α} (hs : P s c) (hclock : Forward clock c acts) :
    ∃ now, P (run step s acts) now := by
  induction acts generalizing s c with
  | nil => exact ⟨c, hs⟩
  | cons a acts ih =>
    obtain ⟨ha, hrest⟩ := (forward_cons clock c a acts).mp hclock
    exact ih (hstep s c a hs ha) hrest

/-- Times that do not decrease do so from some time on. -/
theorem forward_of_pairwise [Nonempty τ] {clock : α → Option τ} {acts : List α}
    (h : (acts.filterMap clock).Pairwise (· ≤ ·)) : ∃ c, Forward clock c acts := by
  cases htimes : acts.filterMap clock with
  | nil =>
    refine ⟨Classical.ofNonempty, ?_⟩
    rw [Forward, htimes]
    exact List.pairwise_singleton _ _
  | cons c times =>
    refine ⟨c, ?_⟩
    rw [htimes] at h
    rw [Forward, htimes]
    refine List.pairwise_cons.mpr ⟨?_, h⟩
    intro t ht
    obtain rfl | ht := List.mem_cons.mp ht
    · exact le_rfl
    · exact (List.pairwise_cons.mp h).1 t ht

end

/-- The number of steps of a run that satisfy a condition. -/
def count (step : σ → α → σ) (c : σ → α → Bool) : σ → List α → Nat
  | _, [] => 0
  | s, a :: acts => (if c s a then 1 else 0) + count step c (step s a) acts

theorem count_append (step : σ → α → σ) (c : σ → α → Bool) (s : σ) (xs ys : List α) :
    count step c s (xs ++ ys) = count step c s xs + count step c (run step s xs) ys := by
  induction xs generalizing s with
  | nil => simp [count]
  | cons a xs ih =>
    simp only [List.cons_append, count, run_cons, ih]
    omega

theorem count_concat (step : σ → α → σ) (c : σ → α → Bool) (s : σ) (xs : List α) (a : α) :
    count step c s (xs ++ [a]) = count step c s xs + if c (run step s xs) a then 1 else 0 := by
  rw [count_append]
  rfl

/-- A potential that one kind of step raises and another kind uses up bounds the second kind by the
first. -/
theorem count_le_of_potential {step : σ → α → σ} {P : σ → Prop} (c d : σ → α → Bool) (φ : σ → Nat)
    (hstep : ∀ s a, P s → P (step s a))
    (h : ∀ s a, P s →
      (if c s a then 1 else 0) + φ (step s a) ≤ (if d s a then 1 else 0) + φ s)
    {s : σ} (hs : P s) (acts : List α) :
    count step c s acts + φ (run step s acts) ≤ count step d s acts + φ s := by
  induction acts generalizing s with
  | nil => simp [count]
  | cons a acts ih =>
    have hnow := h s a hs
    have hrest := ih (hstep s a hs)
    simp only [count, run_cons]
    omega

/-- The steps that find a flag set and leave it cleared are bounded by those that set it. -/
theorem count_le_of_flag {step : σ → α → σ} {P : σ → Prop} {c : σ → α → Bool} {flag : σ → Bool}
    (hstep : ∀ s a, P s → P (step s a))
    (h : ∀ s a, P s → c s a = true → flag s = true ∧ flag (step s a) = false)
    {s : σ} (hs : P s) (acts : List α) :
    count step c s acts ≤
      count step (fun s a => !flag s && flag (step s a)) s acts + (flag s).toNat := by
  have hcount := count_le_of_potential (P := P) c (fun s a => !flag s && flag (step s a))
    (fun s => (flag s).toNat) hstep (fun s a hs => ?_) hs acts
  · omega
  · by_cases hc : c s a = true
    · obtain ⟨hbefore, hafter⟩ := h s a hs hc
      simp [hc, hbefore, hafter]
    · rw [if_neg hc]
      cases flag s <;> cases flag (step s a) <;> simp

/-- A sequence of steps of a labelled relation, with the labels it goes through. -/
inductive Trace {ι : Type} (R : σ → ι → σ → Prop) : σ → List ι → σ → Prop where
  | nil (s : σ) : Trace R s [] s
  | cons {s t u : σ} {l : ι} {ls : List ι} : R s l t → Trace R t ls u → Trace R s (l :: ls) u

variable {ι : Type} {R : σ → ι → σ → Prop}

theorem Trace.single {s t : σ} {l : ι} (h : R s l t) : Trace R s [l] t := .cons h (.nil t)

theorem Trace.append {s t u : σ} {ls ms : List ι} (h₁ : Trace R s ls t) (h₂ : Trace R t ms u) :
    Trace R s (ls ++ ms) u := by
  induction h₁ with
  | nil s => exact h₂
  | cons hstep _ ih => exact .cons hstep (ih h₂)

/-- The induction rule for traces whose labels all meet a condition. -/
theorem Trace.invariant {P : σ → Prop} {Q : ι → Prop}
    (hstep : ∀ s l t, P s → Q l → R s l t → P t) {s t : σ} {ls : List ι}
    (h : Trace R s ls t) (hls : ∀ l ∈ ls, Q l) (hs : P s) : P t := by
  induction h with
  | nil s => exact hs
  | cons hr _ ih =>
    exact ih (fun l hl => hls l (List.mem_cons_of_mem _ hl))
      (hstep _ _ _ hs (hls _ List.mem_cons_self) hr)

theorem Trace.imp {S : σ → ι → σ → Prop} (himp : ∀ s l t, R s l t → S s l t) {s t : σ}
    {ls : List ι} (h : Trace R s ls t) : Trace S s ls t := by
  induction h with
  | nil s => exact .nil s
  | cons hr _ ih => exact .cons (himp _ _ _ hr) ih

/-- What every step says about its label holds of every label. -/
theorem Trace.labels {Q : ι → Prop} (hlabel : ∀ s l t, R s l t → Q l) {s t : σ} {ls : List ι}
    (h : Trace R s ls t) : ∀ l ∈ ls, Q l := by
  induction h with
  | nil s => simp
  | cons hr _ ih =>
    intro l hl
    rcases List.mem_cons.mp hl with rfl | hl
    · exact hlabel _ _ _ hr
    · exact ih l hl

/-- What an invariant and every step say about its label holds of every label. -/
theorem Trace.labels_of_invariant {P : σ → Prop} {Q S : ι → Prop}
    (hstep : ∀ s l t, P s → Q l → R s l t → P t ∧ S l) {s t : σ} {ls : List ι}
    (h : Trace R s ls t) (hls : ∀ l ∈ ls, Q l) (hs : P s) : ∀ l ∈ ls, S l := by
  induction h with
  | nil s => simp
  | cons hr _ ih =>
    obtain ⟨ht, hlabel⟩ := hstep _ _ _ hs (hls _ List.mem_cons_self) hr
    intro l hl
    rcases List.mem_cons.mp hl with rfl | hl
    · exact hlabel
    · exact ih (fun l hl => hls l (List.mem_cons_of_mem _ hl)) ht l hl

/-- A fold of bodies that each follow a trace follows the joined trace; `π` takes the machine's
state out of what the fold carries. -/
theorem trace_foldlM {τ ε β : Type} {Q : ι → Prop} (π : τ → σ) (I : List β → τ → Prop)
    {body : τ → β → Except ε τ}
    (hbody : ∀ s b bs t, I (b :: bs) s → body s b = .ok t →
      (∃ ls, Trace R (π s) ls (π t) ∧ ∀ l ∈ ls, Q l) ∧ I bs t)
    (bs : List β) {s t : τ} (hs : I bs s) (h : bs.foldlM body s = .ok t) :
    ∃ ls, Trace R (π s) ls (π t) ∧ ∀ l ∈ ls, Q l := by
  induction bs generalizing s with
  | nil =>
    simp only [List.foldlM_nil] at h
    cases h
    exact ⟨[], .nil _, by simp⟩
  | cons b bs ih =>
    rw [List.foldlM_cons] at h
    cases hb : body s b with
    | error e => rw [hb] at h; cases h
    | ok u =>
      rw [hb] at h
      obtain ⟨⟨ls, htr, hls⟩, hu⟩ := hbody s b bs u hs hb
      obtain ⟨ms, htr', hms⟩ := ih hu h
      exact ⟨ls ++ ms, htr.append htr', by
        intro l hl
        rcases List.mem_append.mp hl with h | h
        · exact hls l h
        · exact hms l h⟩

/-- The induction rule for folds that can fail. -/
theorem foldlM_invariant {τ ε β : Type} {P : τ → Prop} {body : τ → β → Except ε τ} (bs : List β)
    (hbody : ∀ s, ∀ b ∈ bs, ∀ t, P s → body s b = .ok t → P t) {s t : τ} (hs : P s)
    (h : bs.foldlM body s = .ok t) : P t := by
  induction bs generalizing s with
  | nil => cases h; exact hs
  | cons b bs ih =>
    rw [List.foldlM_cons] at h
    cases hb : body s b with
    | error e => rw [hb] at h; cases h
    | ok u =>
      rw [hb] at h
      exact ih (fun s b hm => hbody s b (List.mem_cons_of_mem _ hm))
        (hbody s b List.mem_cons_self u hs hb) h

/-- Execution of a machine in which a step may be impossible. -/
def exec (step : σ → α → Option σ) (s : σ) (acts : List α) : Option σ := acts.foldlM step s

@[simp] theorem exec_nil (step : σ → α → Option σ) (s : σ) : exec step s [] = some s := rfl
@[simp] theorem exec_cons (step : σ → α → Option σ) (s : σ) (a : α) (acts : List α) :
    exec step s (a :: acts) = (step s a).bind (fun t => exec step t acts) := rfl

theorem exec_append (step : σ → α → Option σ) (s : σ) (xs ys : List α) :
    exec step s (xs ++ ys) = (exec step s xs).bind (fun t => exec step t ys) := by
  simp [exec, List.foldlM_append]

/-- The induction rule for executions. -/
theorem exec_invariant {step : σ → α → Option σ} {P : σ → Prop}
    (hstep : ∀ s a t, P s → step s a = some t → P t) {s t : σ} {acts : List α}
    (hs : P s) (h : exec step s acts = some t) : P t := by
  induction acts generalizing s with
  | nil => simp only [exec_nil, Option.some.injEq] at h; rw [← h]; exact hs
  | cons a acts ih =>
    rw [exec_cons, Option.bind_eq_some_iff] at h
    obtain ⟨u, hu, ht⟩ := h
    exact ih (hstep s a u hs hu) ht

end Run
