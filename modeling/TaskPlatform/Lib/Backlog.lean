import TaskPlatform.Lib.Run
import TaskPlatform.Lib.Table

/-!
# Waiting in a backlog

An item waits with others, and a service takes some of them or the item itself. If
nothing comes before the item later than it did, then the services that it waits
through are bounded by the items that were there when it came, however long the run
is and whatever else happens in it.
-/

namespace Backlog

open Run

variable {σ α κ : Type}

/-- Whoever is not among the first `n` of an ordered list has `n` before it. -/
theorem take_before {R : α → α → Prop} {xs : List α} (hxs : xs.Pairwise R) {x : α} (hx : x ∈ xs)
    {n : Nat} (hnot : x ∉ xs.take n) : (xs.take n).length = n ∧ ∀ y ∈ xs.take n, R y x := by
  have hdrop : x ∈ xs.drop n := by
    rw [← List.take_append_drop n xs, List.mem_append] at hx
    exact hx.resolve_left hnot
  have hlt : n < xs.length := by
    have hpos := List.length_pos_of_mem hdrop
    rw [List.length_drop] at hpos
    omega
  rw [← List.take_append_drop n xs, List.pairwise_append] at hxs
  exact ⟨List.length_take_of_le (Nat.le_of_lt hlt), fun y hy => hxs.2.2 y hy x hdrop⟩

/-- The keys of the rows that a query selects. -/
def selected (t : Table α) (p : Nat × α → Bool) : Set Nat :=
  {i | ∃ a, t.get i = some a ∧ p (i, a) = true}

theorem selected_eq (t : Table α) (p : Nat × α → Bool) :
    selected t p = (((t.select p).map Prod.fst).toFinset : Set Nat) := by
  ext i
  simp [selected, Table.mem_select]

theorem selected_finite (t : Table α) (p : Nat × α → Bool) : (selected t p).Finite := by
  rw [selected_eq]
  exact Finset.finite_toSet _

theorem selected_ncard (t : Table α) (p : Nat × α → Bool) :
    (selected t p).ncard = (t.select p).length := by
  rw [selected_eq, Set.ncard_coe_finset, List.toFinset_card_of_nodup (t.select_nodup p),
    List.length_map]

/-- What a machine does to the backlog `A` of the item `k`: no step adds to it, and a service that
leaves `k` takes `n` others. `P` is an invariant of the machine under the actions `C`. -/
structure Drains (step : σ → α → σ) (P : σ → Prop) (C : σ → α → Prop) (A : σ → Set κ) (k : κ)
    (serves : α → Bool) (n : Nat) : Prop where
  keeps : ∀ s a, P s → C s a → P (step s a)
  finite : ∀ s, P s → (A s).Finite
  shrinks : ∀ s a, P s → C s a → A (step s a) ⊆ A s
  takes : ∀ s a, P s → C s a → serves a = true → k ∈ A (step s a) →
    ∃ T : Finset κ, n ≤ T.card ∧ ∀ x ∈ T, x ∈ A s ∧ x ∉ A (step s a)

section

variable {step : σ → α → σ} {P : σ → Prop} {C : σ → α → Prop} {A : σ → Set κ} {k : κ}
  {serves : α → Bool} {n : Nat} {s : σ}

/-- What a service takes is missing in the backlog after it. -/
theorem ncard_add_le {S S' : Set κ} (hfinite : S.Finite) (hsub : S' ⊆ S) {T : Finset κ}
    (hT : ∀ x ∈ T, x ∈ S ∧ x ∉ S') : T.card + S'.ncard ≤ S.ncard := by
  have hdisjoint : Disjoint (T : Set κ) S' :=
    Set.disjoint_left.mpr fun x hx hx' => (hT x (Finset.mem_coe.mp hx)).2 hx'
  have hunion : (T : Set κ) ∪ S' ⊆ S :=
    Set.union_subset (fun x hx => (hT x (Finset.mem_coe.mp hx)).1) hsub
  calc T.card + S'.ncard = (T : Set κ).ncard + S'.ncard := by rw [Set.ncard_coe_finset]
    _ = ((T : Set κ) ∪ S').ncard :=
      (Set.ncard_union_eq hdisjoint T.finite_toSet (hfinite.subset hsub)).symm
    _ ≤ S.ncard := Set.ncard_le_ncard hunion hfinite

theorem along_of_forall {R : α → Prop} {acts : List α} (h : ∀ a ∈ acts, R a) :
    Along step (fun _ a => R a) s acts := by
  rw [along_iff]
  intro xs a ys he
  exact h a (he ▸ List.mem_append_right xs List.mem_cons_self)

theorem Drains.subset (h : Drains step P C A k serves n) (hs : P s) {acts : List α}
    (hacts : Along step C s acts) : A (run step s acts) ⊆ A s := by
  induction acts generalizing s with
  | nil => exact subset_rfl
  | cons a acts ih =>
    have hrest := ih (h.keeps s a hs hacts.1) hacts.2
    exact hrest.trans (h.shrinks s a hs hacts.1)

/-- The services that an item has waited through, and the backlog that is left. -/
theorem Drains.waited (h : Drains step P C A k serves n) (hs : P s) {acts : List α}
    (hacts : Along step C s acts) (hk : k ∈ A (run step s acts)) :
    acts.countP serves * n + (A (run step s acts)).ncard ≤ (A s).ncard := by
  induction acts generalizing s with
  | nil => simp
  | cons a acts ih =>
    obtain ⟨ha, hlater⟩ := hacts
    have hs' := h.keeps s a hs ha
    have hrest := ih hs' hlater hk
    have hsub := h.shrinks s a hs ha
    rw [run_cons, List.countP_cons]
    by_cases hserves : serves a = true
    · obtain ⟨T, hn, hT⟩ := h.takes s a hs ha hserves (h.subset hs' hlater hk)
      have hstep := ncard_add_le (h.finite s hs) hsub hT
      simp only [hserves, if_true, Nat.add_mul, Nat.one_mul]
      omega
    · have hstep := Set.ncard_le_ncard hsub (h.finite s hs)
      simp only [hserves]
      exact hrest.trans hstep

/-- After enough services the item is taken. -/
theorem Drains.taken (h : Drains step P C A k serves n) (hs : P s) {acts : List α}
    (hacts : Along step C s acts) (hn : (A s).ncard ≤ acts.countP serves * n) :
    k ∉ A (run step s acts) := by
  intro hk
  have hwaited := h.waited hs hacts hk
  have hfinite := (h.finite s hs).subset (h.subset hs hacts)
  have hpos := (Set.ncard_pos hfinite).mpr ⟨k, hk⟩
  omega

end

end Backlog
