import Mathlib

/-!
# Rows locked by open transactions

Transactions that take locks when they select their rows, pass over the rows that
are locked, and release them when they end. While a row is locked nobody else
writes it. Then no two open transactions have a row in common, and every
transaction finds its rows as it selected them.
-/

namespace Locks

variable {κ ρ ι τ : Type}

/-- The open transactions, each under its owner. -/
abbrev Sessions (ι τ : Type) := List (ι × τ)

def find [DecidableEq ι] (s : Sessions ι τ) (c : ι) : Option τ :=
  (s.find? (fun x => x.1 == c)).map Prod.snd

/-- `keys` are the rows that a transaction has locked. -/
def locked [DecidableEq κ] (keys : τ → List κ) (s : Sessions ι τ) (k : κ) : Bool :=
  s.any (fun x => decide (k ∈ keys x.2))

/-- The transaction ends. -/
def release [DecidableEq ι] (s : Sessions ι τ) (c : ι) : Sessions ι τ :=
  s.filter (fun x => decide (x.1 ≠ c))

/-- The transaction goes on. -/
def advance [DecidableEq ι] (s : Sessions ι τ) (c : ι) (t : τ) : Sessions ι τ :=
  s.map (fun x => if x.1 = c then (c, t) else x)

theorem mem_of_find [DecidableEq ι] {s : Sessions ι τ} {c : ι} {t : τ} (h : find s c = some t) :
    (c, t) ∈ s := by
  obtain ⟨x, hx, rfl⟩ := Option.map_eq_some_iff.mp h
  have hc : x.1 = c := by simpa using List.find?_some hx
  rw [← hc]
  exact List.mem_of_find?_eq_some hx

theorem not_mem_of_find [DecidableEq ι] {s : Sessions ι τ} {c : ι} (h : find s c = none) :
    c ∉ s.map Prod.fst := by
  intro hc
  obtain ⟨x, hx, rfl⟩ := List.mem_map.mp hc
  have hnone := List.find?_eq_none.mp (Option.map_eq_none_iff.mp h) x hx
  simp at hnone

theorem locked_of_mem [DecidableEq κ] {keys : τ → List κ} {s : Sessions ι τ} {x : ι × τ}
    (hx : x ∈ s) {k : κ} (hk : k ∈ keys x.2) : locked keys s k = true :=
  List.any_eq_true.mpr ⟨x, hx, decide_eq_true hk⟩

/-- `Seen t k v` says that `v` is what the transaction `t` selected under the key `k`. -/
structure Kept (keys : τ → List κ) (Seen : τ → κ → ρ → Prop) (view : κ → ρ)
    (s : Sessions ι τ) : Prop where
  owners : (s.map Prod.fst).Nodup
  disjoint : ∀ x ∈ s, ∀ y ∈ s, x.1 ≠ y.1 → ∀ k ∈ keys x.2, k ∉ keys y.2
  seen : ∀ x ∈ s, ∀ k ∈ keys x.2, Seen x.2 k (view k)

variable {keys : τ → List κ} {Seen : τ → κ → ρ → Prop} {view view' : κ → ρ} {s : Sessions ι τ}

theorem Kept.nil (keys : τ → List κ) (Seen : τ → κ → ρ → Prop) (view : κ → ρ) :
    Kept keys Seen view ([] : Sessions ι τ) :=
  ⟨List.nodup_nil, by simp, by simp⟩

/-- Somebody else writes, and leaves the locked rows. -/
theorem Kept.write [DecidableEq κ] (h : Kept keys Seen view s)
    (hview : ∀ k, locked keys s k = true → view' k = view k) : Kept keys Seen view' s where
  owners := h.owners
  disjoint := h.disjoint
  seen := by
    intro x hx k hk
    rw [hview k (locked_of_mem hx hk)]
    exact h.seen x hx k hk

/-- A transaction begins, without any row. -/
theorem Kept.begin [DecidableEq ι] (h : Kept keys Seen view s) {c : ι} {t : τ}
    (hc : find s c = none) (hkeys : keys t = []) : Kept keys Seen view ((c, t) :: s) where
  owners := List.nodup_cons.mpr ⟨not_mem_of_find hc, h.owners⟩
  disjoint := by
    intro x hx y hy hne k hk hky
    rcases List.mem_cons.mp hx with rfl | hx
    · rw [hkeys] at hk
      cases hk
    · rcases List.mem_cons.mp hy with rfl | hy
      · rw [hkeys] at hky
        cases hky
      · exact h.disjoint x hx y hy hne k hk hky
  seen := by
    intro x hx k hk
    rcases List.mem_cons.mp hx with rfl | hx
    · rw [hkeys] at hk
      cases hk
    · exact h.seen x hx k hk

/-- What a transaction that goes on has become. -/
theorem mem_advance [DecidableEq ι] {c : ι} {t : τ} {y : ι × τ} (hy : y ∈ advance s c t) :
    y = (c, t) ∨ y ∈ s ∧ y.1 ≠ c := by
  obtain ⟨x, hx, rfl⟩ := List.mem_map.mp hy
  split
  · exact .inl rfl
  · rename_i hxc
    exact .inr ⟨hx, hxc⟩

theorem advance_owners [DecidableEq ι] (s : Sessions ι τ) (c : ι) (t : τ) :
    (advance s c t).map Prod.fst = s.map Prod.fst := by
  rw [advance, List.map_map]
  apply List.map_congr_left
  intro x _
  simp only [Function.comp]
  split
  · rename_i hxc
    exact hxc.symm
  · rfl

/-- A transaction goes on with rows that it has, and with rows that nobody has. -/
theorem Kept.advance [DecidableEq ι] [DecidableEq κ] (h : Kept keys Seen view s) {c : ι} {t t' : τ}
    (ht : find s c = some t) (hkeys : ∀ k ∈ keys t', k ∈ keys t ∨ locked keys s k = false)
    (hseen : ∀ k ∈ keys t', Seen t' k (view k)) : Kept keys Seen view (advance s c t') where
  owners := by
    rw [advance_owners]
    exact h.owners
  disjoint := by
    have hother : ∀ y ∈ s, y.1 ≠ c → ∀ k ∈ keys t', k ∉ keys y.2 := by
      intro y hy hyc k hk hky
      obtain hown | hfree := hkeys k hk
      · exact h.disjoint _ (mem_of_find ht) y hy (Ne.symm hyc) k hown hky
      · rw [locked_of_mem hy hky] at hfree
        cases hfree
    intro x hx y hy hne k hk hky
    obtain rfl | ⟨hx, hxc⟩ := mem_advance hx
    · obtain rfl | ⟨hy, hyc⟩ := mem_advance hy
      · exact hne rfl
      · exact hother y hy hyc k hk hky
    · obtain rfl | ⟨hy, hyc⟩ := mem_advance hy
      · exact hother x hx hxc k hky hk
      · exact h.disjoint x hx y hy hne k hk hky
  seen := by
    intro y hy k hk
    obtain rfl | ⟨hy, hyc⟩ := mem_advance hy
    · exact hseen k hk
    · exact h.seen y hy k hk

theorem Kept.release [DecidableEq ι] (h : Kept keys Seen view s) (c : ι) :
    Kept keys Seen view (release s c) where
  owners := h.owners.sublist (List.filter_sublist.map Prod.fst)
  disjoint := fun x hx y hy =>
    h.disjoint x (List.mem_filter.mp hx).1 y (List.mem_filter.mp hy).1
  seen := fun x hx => h.seen x (List.mem_filter.mp hx).1

/-- A transaction writes its own rows and ends. -/
theorem Kept.commit [DecidableEq ι] (h : Kept keys Seen view s) {c : ι} {t : τ}
    (ht : find s c = some t) (hframe : ∀ k, k ∉ keys t → view' k = view k) :
    Kept keys Seen view' (Locks.release s c) where
  owners := (h.release c).owners
  disjoint := (h.release c).disjoint
  seen := by
    intro x hx k hk
    obtain ⟨hmem, hxc⟩ := List.mem_filter.mp hx
    rw [hframe k (h.disjoint x hmem _ (mem_of_find ht) (of_decide_eq_true hxc) k hk)]
    exact h.seen x hmem k hk

end Locks
