import Mathlib.Logic.Relation
import Mathlib.Data.Set.Lattice

/-!
# Flooding a graph

`flood r A S` is the set `S` with everything that `r` reaches from it along
elements of `A`. A set to which no step into `A` leads out is closed. A flood
that has run somewhere already can be left out of the next one, which is what
makes a sequence of floods the flood of all their sources.
-/

namespace Flood

open Relation

variable {α : Type*} {r : α → α → Prop} {A C S T : Set α} {i j : α}

/-- A step of `r` into `A`. -/
def Arc (r : α → α → Prop) (A : Set α) (i j : α) : Prop := r i j ∧ j ∈ A

/-- The elements that a nonempty path of arcs reaches. -/
def below (r : α → α → Prop) (A : Set α) (i : α) : Set α := {j | TransGen (Arc r A) i j}

def flood (r : α → α → Prop) (A S : Set α) : Set α :=
  {j | ∃ i ∈ S, ReflTransGen (Arc r A) i j}

def Closed (r : α → α → Prop) (A C : Set α) : Prop := ∀ i ∈ C, ∀ j ∈ A, r i j → j ∈ C

theorem subset_flood : S ⊆ flood r A S := fun i hi => ⟨i, hi, .refl⟩

theorem flood_closed : Closed r A (flood r A S) := by
  rintro i ⟨s, hs, hi⟩ j hj hij
  exact ⟨s, hs, hi.tail ⟨hij, hj⟩⟩

/-- The flood is the least closed set around its sources. -/
theorem flood_subset (hS : S ⊆ C) (hC : Closed r A C) : flood r A S ⊆ C := by
  rintro j ⟨s, hs, hj⟩
  induction hj with
  | refl => exact hS hs
  | tail _ harc ih => exact hC _ ih _ harc.2 harc.1

theorem flood_mono (h : S ⊆ T) : flood r A S ⊆ flood r A T :=
  flood_subset (h.trans subset_flood) flood_closed

theorem flood_union : flood r A (S ∪ T) = flood r A S ∪ flood r A T := by
  apply Set.Subset.antisymm
  · rintro j ⟨s, hs | hs, hj⟩
    · exact .inl ⟨s, hs, hj⟩
    · exact .inr ⟨s, hs, hj⟩
  · exact Set.union_subset (flood_mono Set.subset_union_left) (flood_mono Set.subset_union_right)

@[simp] theorem flood_empty : flood r A ∅ = ∅ := by
  apply Set.eq_empty_of_forall_notMem
  rintro j ⟨s, hs, -⟩
  exact hs

/-- Arcs into a set that is flooded already are not needed. -/
theorem union_flood_diff (hC : Closed r A C) : C ∪ flood r (A \ C) S = C ∪ flood r A S := by
  apply Set.Subset.antisymm
  · refine Set.union_subset_union_right C (flood_subset subset_flood ?_)
    exact fun i hi j hj hij => flood_closed i hi j hj.1 hij
  · refine Set.union_subset Set.subset_union_left
      (flood_subset (subset_flood.trans Set.subset_union_right) ?_)
    rintro i (hi | hi) j hj hij
    · exact .inl (hC i hi j hj hij)
    · by_cases hjC : j ∈ C
      · exact .inl hjC
      · exact .inr (flood_closed i hi j ⟨hj, hjC⟩ hij)

/-- Nor are arcs into the sources. -/
theorem flood_diff : flood r (A \ S) S = flood r A S := by
  apply Set.Subset.antisymm
  · refine flood_subset subset_flood ?_
    exact fun i hi j hj hij => flood_closed i hi j hj.1 hij
  · refine flood_subset subset_flood ?_
    rintro i hi j hj hij
    by_cases hjS : j ∈ S
    · exact subset_flood hjS
    · exact flood_closed i hi j ⟨hj, hjS⟩ hij

/-- The next flood, from the sources that are not flooded yet and around what is flooded. -/
theorem flood_next : flood r A S ∪ flood r (A \ flood r A S) (T \ flood r A S) =
    flood r A (S ∪ T) := by
  rw [union_flood_diff flood_closed, ← flood_union]
  apply Set.Subset.antisymm
  · exact flood_mono (Set.union_subset_union_right S Set.sdiff_subset)
  · refine flood_subset (Set.union_subset ?_ fun i hi => ?_) flood_closed
    · exact Set.subset_union_left.trans subset_flood
    · by_cases hflood : i ∈ flood r A S
      · exact flood_mono Set.subset_union_left hflood
      · exact subset_flood (.inr ⟨hi, hflood⟩)

/-- What one source floods: itself and everything below it. -/
theorem flood_singleton : flood r A {i} = insert i (below r A i) := by
  ext j
  simp only [flood, below, Set.mem_singleton_iff, exists_eq_left, Set.mem_ofPred_eq,
    Set.mem_insert_iff, reflTransGen_iff_eq_or_transGen]

/-- Everything below `i` is flooded from its targets. -/
theorem flood_targets : flood r A {j | Arc r A i j} = below r A i := by
  ext k
  constructor
  · rintro ⟨j, hij, hjk⟩
    exact TransGen.head' hij hjk
  · intro hk
    obtain ⟨j, hij, hjk⟩ := TransGen.head'_iff.mp hk
    exact ⟨j, hij, hjk⟩

theorem below_subset : below r A i ⊆ A := by
  intro j hj
  obtain ⟨k, -, hkj⟩ := TransGen.tail'_iff.mp hj
  exact hkj.2

end Flood
