import Mathlib

/-!
# Processes known by their positions

The processes of a system stand in a list, and a step replaces one of them or adds one
at the end. What is known of an entry afterwards is known of the new process or of an
entry that was there.
-/

namespace Slots

variable {α : Type} {l : List α} {i k : Nat} {a b : α}

theorem getElem?_set_cases (h : (l.set i a)[k]? = some b) :
    k = i ∧ b = a ∨ k ≠ i ∧ l[k]? = some b := by
  rw [List.getElem?_set] at h
  split at h
  · rename_i hik
    split at h
    · cases h
      exact Or.inl ⟨hik.symm, rfl⟩
    · cases h
  · rename_i hik
    exact Or.inr ⟨Ne.symm hik, h⟩

theorem getElem?_append_cases (h : (l ++ [a])[k]? = some b) :
    k = l.length ∧ b = a ∨ k ≠ l.length ∧ l[k]? = some b := by
  rw [List.getElem?_append] at h
  split at h
  · rename_i hlt
    exact .inr ⟨Nat.ne_of_lt hlt, h⟩
  · rename_i hle
    rw [List.getElem?_singleton] at h
    split at h
    · cases h
      exact .inl ⟨by omega, rfl⟩
    · cases h

/-- The count of a list after one element was replaced. -/
theorem countP_replace {p : α → Bool} (h : l[i]? = some a) :
    (l.set i b).countP p + (if p a then 1 else 0) = l.countP p + if p b then 1 else 0 := by
  induction l generalizing i with
  | nil => simp at h
  | cons x l ih =>
    cases i with
    | zero =>
      rw [List.getElem?_cons_zero, Option.some.injEq] at h
      subst h
      rw [List.set_cons_zero, List.countP_cons, List.countP_cons]
      omega
    | succ i =>
      rw [List.getElem?_cons_succ] at h
      have hrest := ih h
      rw [List.set_cons_succ, List.countP_cons, List.countP_cons]
      omega

/-- The entry that was replaced is the new one. -/
theorem getElem?_set_self (h : l[i]? = some a) : (l.set i b)[i]? = some b := by
  rw [List.getElem?_set_self' , h]
  rfl

/-- An entry is where it was after one was added. -/
theorem getElem?_append_of_some (h : l[i]? = some a) : (l ++ [b])[i]? = some a := by
  rw [List.getElem?_append_left (List.getElem?_eq_some_iff.mp h).1]
  exact h

end Slots
