import TaskPlatform.Lib.Run

/-!
# What a system can still do

`CanReach` says that some run of allowed actions leads from a state to a state of
a given kind. Such runs compose, an invariant of the system holds at their end,
and under a measure they can be repeated until the measure is used up.
`CanReachFrom` is the same for actions that are allowed at a time, with times
that do not go back. Goals that the actions keep are reached one after the other.
-/

namespace Run

variable {σ α : Type}

def CanReach (step : σ → α → σ) (allowed : α → Prop) (s : σ) (Q : σ → Prop) : Prop :=
  ∃ acts, (∀ a ∈ acts, allowed a) ∧ Q (run step s acts)

namespace CanReach

variable {step : σ → α → σ} {allowed : α → Prop} {s : σ} {P Q R : σ → Prop}

theorem here (h : Q s) : CanReach step allowed s Q := ⟨[], by simp, h⟩

theorem next {a : α} (ha : allowed a) (h : CanReach step allowed (step s a) Q) :
    CanReach step allowed s Q := by
  obtain ⟨acts, hacts, hq⟩ := h
  refine ⟨a :: acts, fun b hb => ?_, hq⟩
  obtain rfl | hb := List.mem_cons.mp hb
  · exact ha
  · exact hacts b hb

theorem trans (h : CanReach step allowed s Q) (hq : ∀ t, Q t → CanReach step allowed t R) :
    CanReach step allowed s R := by
  obtain ⟨acts, hacts, ht⟩ := h
  obtain ⟨more, hmore, hr⟩ := hq _ ht
  refine ⟨acts ++ more, fun b hb => ?_, by rw [run_append]; exact hr⟩
  obtain hb | hb := List.mem_append.mp hb
  · exact hacts b hb
  · exact hmore b hb

theorem mono (h : CanReach step allowed s Q) (hqr : ∀ t, Q t → R t) :
    CanReach step allowed s R :=
  h.trans fun t ht => here (hqr t ht)

/-- An invariant of the system holds at the end too. -/
theorem keep (hstep : ∀ s a, P s → P (step s a)) (hs : P s) (h : CanReach step allowed s Q) :
    CanReach step allowed s (fun t => Q t ∧ P t) := by
  obtain ⟨acts, hacts, hq⟩ := h
  exact ⟨acts, hacts, hq, run_invariant hstep hs acts⟩

/-- Runs that each lower the measure or arrive are repeated until they arrive. -/
theorem of_measure (μ : σ → Nat)
    (h : ∀ s, P s → Q s ∨ CanReach step allowed s (fun t => P t ∧ μ t < μ s)) (hs : P s) :
    CanReach step allowed s Q := by
  induction hn : μ s using Nat.strong_induction_on generalizing s with
  | _ n ih =>
    obtain hq | hless := h s hs
    · exact here hq
    · exact hless.trans fun t ⟨ht, hlt⟩ => ih (μ t) (hn ▸ hlt) ht rfl

end CanReach

/-- Some run of actions, each allowed at its time, leads to a state of the kind; the times do not go
back behind the first argument. -/
inductive CanReachFrom {τ : Type} [LE τ] (step : σ → α → σ) (allowed : τ → α → Prop)
    (Q : σ → Prop) : τ → σ → Prop where
  | here {c : τ} {s : σ} : Q s → CanReachFrom step allowed Q c s
  | next {c n : τ} {s : σ} {a : α} : c ≤ n → allowed n a →
      CanReachFrom step allowed Q n (step s a) → CanReachFrom step allowed Q c s

namespace CanReachFrom

variable {τ : Type} [Preorder τ] {step : σ → α → σ} {allowed : τ → α → Prop} {c : τ} {s : σ}
  {P Q R : σ → Prop}

/-- A run at one time, not before `c`, with what can be reached after it. -/
theorem of_canReach {n : τ} (hn : c ≤ n)
    (h : CanReach step (allowed n) s (CanReachFrom step allowed Q n)) :
    CanReachFrom step allowed Q c s := by
  obtain ⟨acts, hacts, hq⟩ := h
  induction acts generalizing c s with
  | nil =>
    cases hq with
    | here hq => exact here hq
    | next hle ha hq => exact next (hn.trans hle) ha hq
  | cons a acts ih =>
    refine next hn (hacts a List.mem_cons_self) ?_
    exact ih (le_refl n) (fun b hb => hacts b (List.mem_cons_of_mem _ hb)) hq

theorem trans (h : CanReachFrom step allowed Q c s)
    (hq : ∀ n t, c ≤ n → Q t → CanReachFrom step allowed R n t) :
    CanReachFrom step allowed R c s := by
  induction h with
  | here h => exact hq _ _ (le_refl _) h
  | next hle ha _ ih => exact next hle ha (ih fun n t hn ht => hq n t (hle.trans hn) ht)

theorem mono (h : CanReachFrom step allowed Q c s) (hqr : ∀ t, Q t → R t) :
    CanReachFrom step allowed R c s :=
  h.trans fun _ t _ ht => here (hqr t ht)

/-- What the allowed actions keep holds at the end too. -/
theorem keep (hstep : ∀ s n a, allowed n a → P s → P (step s a)) (hs : P s)
    (h : CanReachFrom step allowed Q c s) :
    CanReachFrom step allowed (fun t => Q t ∧ P t) c s := by
  induction h with
  | here h => exact here ⟨h, hs⟩
  | next hle ha _ ih => exact next hle ha (ih (hstep _ _ _ ha hs))

/-- Goals that the allowed actions keep, and that can each be reached, are reached together. -/
theorem all {ι : Type} {goals : List ι} {G : ι → σ → Prop}
    (hstep : ∀ s n a, allowed n a → P s → P (step s a))
    (hkept : ∀ i s n a, allowed n a → P s → G i s → G i (step s a))
    (h : ∀ i ∈ goals, ∀ n t, P t → CanReachFrom step allowed (G i) n t) (hs : P s) :
    CanReachFrom step allowed (fun t => P t ∧ ∀ i ∈ goals, G i t) c s := by
  induction goals generalizing c s with
  | nil => exact here ⟨hs, by simp⟩
  | cons i goals ih =>
    refine ((h i List.mem_cons_self c s hs).keep hstep hs).trans fun n t _ ht => ?_
    obtain ⟨hi, ht⟩ := ht
    have hrest : CanReachFrom step allowed (fun t => P t ∧ ∀ i ∈ goals, G i t) n t :=
      ih (fun j hj => h j (List.mem_cons_of_mem _ hj)) ht
    have hboth := hrest.keep (P := fun t => P t ∧ G i t)
      (fun s n a ha hp => ⟨hstep s n a ha hp.1, hkept i s n a ha hp.1 hp.2⟩) ⟨ht, hi⟩
    refine hboth.mono fun u hu => ?_
    obtain ⟨⟨hp, hgoals⟩, -, hi⟩ := hu
    exact ⟨hp, List.forall_mem_cons.mpr ⟨hi, hgoals⟩⟩

end CanReachFrom

end Run
