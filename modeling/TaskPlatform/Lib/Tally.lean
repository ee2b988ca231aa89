import Mathlib

/-!
# Counting the entries of a log

Entries are added at the end of the log and rewritten in place. What a count
takes from an entry changes with the entry alone, and a count over all entries
is at most the sum of the counts over their owners.
-/

namespace Tally

variable {α β : Type*}

/-- A rewritten entry that gives what it gave. -/
theorem filterMap_set_of_eq (f : α → Option β) {xs : List α} {i : Nat} {a b : α}
    (ha : xs[i]? = some a) (h : f b = f a) : (xs.set i b).filterMap f = xs.filterMap f := by
  induction xs generalizing i with
  | nil => rfl
  | cons x xs ih =>
    cases i with
    | zero =>
      cases ha
      simp [List.filterMap_cons, h]
    | succ i =>
      simp only [List.set_cons_succ, List.filterMap_cons]
      rw [ih (by simpa using ha)]

/-- A rewritten entry that gives one more. -/
theorem filterMap_set_perm (f : α → Option β) {xs : List α} {i : Nat} {a b : α}
    {y : β} (ha : xs[i]? = some a) (hnone : f a = none) (hb : f b = some y) :
    ((xs.set i b).filterMap f).Perm (xs.filterMap f ++ [y]) := by
  induction xs generalizing i with
  | nil => cases ha
  | cons x xs ih =>
    cases i with
    | zero =>
      cases ha
      simp only [List.set_cons_zero, List.filterMap_cons, hnone, hb]
      exact (List.perm_append_singleton _ _).symm
    | succ i =>
      have hrest := ih (by simpa using ha)
      simp only [List.set_cons_succ, List.filterMap_cons]
      cases f x with
      | none => exact hrest
      | some z => exact hrest.cons z

/-- What meets a condition and not another one, or both. -/
theorem countP_split (p q : α → Bool) (xs : List α) :
    xs.countP p = xs.countP (fun x => p x && q x) + xs.countP (fun x => p x && !q x) := by
  induction xs with
  | nil => rfl
  | cons x xs ih =>
    simp only [List.countP_cons, ih]
    cases p x <;> cases q x <;> simp <;> omega

theorem countP_le_sum {ι : Type*} [DecidableEq ι] (f : α → ι) (q : α → Bool) {s : Finset ι}
    {xs : List α} (h : ∀ x ∈ xs, q x = true → f x ∈ s) :
    xs.countP q ≤ ∑ i ∈ s, xs.countP (fun x => q x && decide (f x = i)) := by
  induction xs with
  | nil => simp
  | cons x xs ih =>
    have hrest := ih fun y hy => h y (List.mem_cons_of_mem _ hy)
    simp only [List.countP_cons, Finset.sum_add_distrib]
    cases hq : q x with
    | false => simpa using hrest
    | true =>
      have hx := h x List.mem_cons_self hq
      simpa [hx] using hrest

end Tally
