import Mathlib.Data.Set.Card
import TaskPlatform.Lib.Flood

/-!
# Depth-first floods

A flood that runs by recursion: it enters an element of `A`, takes it out of
`A`, and goes on with its successors in their order, each of which floods all
that it reaches before the next one is looked at. How deep the recursion gets
depends on this order, not only on the paths of the graph. A flood that has run
elsewhere never makes it deeper.
-/

namespace DepthFirst

open Flood

variable {α : Type*} (next : α → List α) {A D : Set α} {i j : α} {n : ℕ}

def Arrow (i j : α) : Prop := j ∈ next i

/-- What is left of `A` after the floods from the elements of `before`. -/
def left (A : Set α) (before : List α) : Set α :=
  A \ flood (Arrow next) A ({j | j ∈ before} ∩ A)

/-- The recursion below `i` gets `n` calls deep: into a successor that its elder siblings have left,
and `n - 1` calls deep below it. -/
def Nested : ℕ → Set α → α → Prop
  | 0, _, _ => True
  | n + 1, A, i => ∃ before j after, next i = before ++ j :: after ∧ j ∈ left next A before ∧
      Nested n (left next A before \ {j}) j

variable {next}

theorem left_subset (before : List α) : left next A before ⊆ A := Set.sdiff_subset

@[simp] theorem left_nil : left next A [] = A := by
  have hnone : ({j | j ∈ ([] : List α)} : Set α) ∩ A = ∅ := by
    ext j
    simp
  rw [left, hnone, flood_empty, Set.sdiff_empty]

theorem closed_mono {r : α → α → Prop} {A B C : Set α} (h : Closed r A C) (hB : B ⊆ A) :
    Closed r B C := fun i hi j hj hij => h i hi j (hB hj) hij

/-- A closed set that is gone already is the only difference to what the siblings leave. -/
theorem left_diff (hD : Closed (Arrow next) A D) (before : List α) :
    left next (A \ D) before = left next A before \ D := by
  have hsource : ({j | j ∈ before} : Set α) ∩ (A \ D) = ({j | j ∈ before} ∩ A) \ D := by
    rw [Set.inter_sdiff_assoc]
  have hsame : D ∪ flood (Arrow next) (A \ D) (({j | j ∈ before} ∩ A) \ D) =
      D ∪ flood (Arrow next) A ({j | j ∈ before} ∩ A) := by
    rw [union_flood_diff hD]
    apply Set.Subset.antisymm
    · exact Set.union_subset_union_right D (flood_mono Set.sdiff_subset)
    · refine Set.union_subset Set.subset_union_left (flood_subset (fun j hj => ?_) ?_)
      · by_cases hjD : j ∈ D
        · exact .inl hjD
        · exact .inr (subset_flood ⟨hj, hjD⟩)
      · rintro j (hj | hj) k hk hjk
        · exact .inl (hD j hj k hk hjk)
        · exact .inr (flood_closed j hj k hk hjk)
  rw [left, left, hsource]
  ext j
  have hj := Set.ext_iff.mp hsame j
  simp only [Set.mem_union, Set.mem_sdiff] at hj ⊢
  tauto

/-- Without a closed set the recursion is no deeper. -/
theorem Nested.of_diff (hD : Closed (Arrow next) A D) (h : Nested next n (A \ D) i) :
    Nested next n A i := by
  induction n generalizing A i with
  | zero => trivial
  | succ n ih =>
    obtain ⟨before, j, after, hnext, hj, hnested⟩ := h
    rw [left_diff hD] at hj hnested
    refine ⟨before, j, after, hnext, hj.1, ih (A := left next A before \ {j}) ?_ ?_⟩
    · exact closed_mono hD (Set.sdiff_subset.trans (left_subset before))
    · rw [Set.sdiff_sdiff_comm]
      exact hnested

theorem Nested.of_le {m : ℕ} (hle : m ≤ n) (h : Nested next n A i) : Nested next m A i := by
  induction m generalizing n A i with
  | zero => trivial
  | succ m ih =>
    obtain ⟨n, rfl⟩ := Nat.exists_eq_succ_of_ne_zero (Nat.ne_zero_of_lt hle)
    obtain ⟨before, j, after, hnext, hj, hnested⟩ := h
    exact ⟨before, j, after, hnext, hj, ih (Nat.le_of_succ_le_succ hle) hnested⟩

/-- Every call takes one element out of `A`. -/
theorem Nested.le_ncard (hA : A.Finite) (h : Nested next n A i) : n ≤ A.ncard := by
  induction n generalizing A i with
  | zero => exact Nat.zero_le _
  | succ n ih =>
    obtain ⟨before, j, after, -, hj, hnested⟩ := h
    have hleft : (left next A before).Finite := hA.subset (left_subset before)
    have hdeep := ih hleft.sdiff hnested
    have hentered := Set.ncard_sdiff_singleton_lt_of_mem hj hleft
    have hsub : (left next A before).ncard ≤ A.ncard := Set.ncard_le_ncard (left_subset before) hA
    omega

/-- Down a path without branches the recursion is as deep as the path is long. -/
theorem nested_of_path {f : ℕ → α} (hf : Function.Injective f)
    (hnext : ∀ k < n, next (f k) = [f (k + 1)]) (hA : ∀ k < n, f (k + 1) ∈ A) :
    Nested next n A (f 0) := by
  induction n generalizing f A with
  | zero => trivial
  | succ n ih =>
    refine ⟨[], f 1, [], hnext 0 (Nat.succ_pos n), ?_, ?_⟩
    · rw [left_nil]
      exact hA 0 (Nat.succ_pos n)
    · rw [left_nil]
      refine ih (f := fun k => f (k + 1)) (fun a b hab => Nat.succ_injective (hf hab))
        (fun k hk => hnext (k + 1) (Nat.succ_lt_succ hk)) fun k hk => ⟨?_, fun he => ?_⟩
      · exact hA (k + 1) (Nat.succ_lt_succ hk)
      · exact absurd (hf he) (by omega)

end DepthFirst
