import TaskPlatform.Lib.Run

/-!
# The order of a schedule

A schedule is the list of the statements that were executed, each of them at
most once. What lies before a statement does not change when the schedule
goes on, and is compared through a projection that keeps statements apart.
-/

namespace Schedule

variable {α β : Type}

theorem mem_filterMap_iff {f : α → Option β} (hf : ∀ a b y, f a = some y → f b = some y → a = b)
    {σ : List α} {a : α} {x : β} (ha : f a = some x) : x ∈ σ.filterMap f ↔ a ∈ σ := by
  rw [List.mem_filterMap]
  constructor
  · rintro ⟨b, hb, hx⟩
    rwa [hf _ _ _ ha hx]
  · exact fun h => ⟨a, h, ha⟩

variable [DecidableEq α] [DecidableEq β]

/-- The statements of the schedule before a given one. -/
def before (σ : List α) (x : α) : List α := σ.takeWhile (fun y => decide (y ≠ x))

theorem before_append_of_mem {σ : List α} {x : α} (h : x ∈ σ) (τ : List α) :
    before (σ ++ τ) x = before σ x := by
  induction σ with
  | nil => cases h
  | cons y σ ih =>
    by_cases hy : y = x
    · simp [before, hy]
    · have hmem : x ∈ σ := (List.mem_cons.mp h).resolve_left (fun he => hy he.symm)
      simpa [before, hy] using ih hmem

theorem before_append_of_not_mem {σ : List α} {x : α} (h : x ∉ σ) (τ : List α) :
    before (σ ++ τ) x = σ ++ before τ x := by
  induction σ with
  | nil => rfl
  | cons y σ ih =>
    rw [List.mem_cons, not_or] at h
    simpa [before, Ne.symm h.1] using ih h.2

/-- Of a statement that is executed now, everything executed so far lies before it. -/
theorem before_append_self {σ : List α} {x : α} (h : x ∉ σ) : before (σ ++ [x]) x = σ := by
  rw [before_append_of_not_mem h]
  simp [before]

theorem mem_of_mem_before {σ : List α} {x y : α} (h : y ∈ before σ x) : y ∈ σ :=
  (List.takeWhile_prefix _).subset h

/-- Nothing lies before itself. -/
theorem not_mem_before_self (σ : List α) (x : α) : x ∉ before σ x := by
  intro h
  have hne := List.mem_takeWhile_imp h
  simp at hne

theorem mem_before_trans {σ : List α} {x y z : α} (hxy : x ∈ before σ y) (hyz : y ∈ before σ z) :
    x ∈ before σ z := by
  induction σ with
  | nil => cases hxy
  | cons a σ ih =>
    by_cases hz : a = z
    · simp [before, hz] at hyz
    · by_cases hy : a = y
      · simp [before, hy] at hxy
      · simp only [before, ne_eq, hy, hz, not_false_eq_true, decide_true, List.takeWhile_cons_of_pos,
          List.mem_cons] at hxy hyz ⊢
        obtain rfl | hxy := hxy
        · exact .inl rfl
        · exact .inr (ih hxy (hyz.resolve_left (fun he => hy he.symm)))

/-- A projection that keeps the statements it does not drop apart keeps their order. -/
theorem mem_before_filterMap {f : α → Option β} (hf : ∀ a b y, f a = some y → f b = some y → a = b)
    {σ : List α} {a b : α} {x y : β} (ha : f a = some x) (hb : f b = some y) :
    x ∈ before (σ.filterMap f) y ↔ a ∈ before σ b := by
  induction σ with
  | nil => simp [before]
  | cons c σ ih =>
    by_cases hcb : c = b
    · subst hcb
      simp [before, hb]
    · cases hc : f c with
      | none =>
        have hca : a ≠ c := by
          rintro rfl
          rw [ha] at hc
          cases hc
        rw [List.filterMap_cons_none hc, ih]
        simp [before, hcb, hca]
      | some z =>
        have hzy : z ≠ y := by
          rintro rfl
          exact hcb (hf _ _ _ hc hb)
        have hxz : x = z ↔ a = c :=
          ⟨fun h => hf _ _ _ ha (h ▸ hc), fun h => Option.some.inj (by rw [← ha, ← hc, h])⟩
        rw [List.filterMap_cons_some hc]
        simp only [before, ne_eq, hzy, hcb, not_false_eq_true, decide_true,
          List.takeWhile_cons_of_pos, List.mem_cons, hxz]
        exact or_congr Iff.rfl ih

end Schedule
