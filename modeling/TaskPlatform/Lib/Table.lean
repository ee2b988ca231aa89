import Mathlib

/-!
# Tables with a primary key

A table holds its rows in key order and hands out the next key by itself, so a
key is never used twice, not even after its row was deleted. Both facts are
fields of the type: no operation can build a table that breaks them. The
lemmas below say how each operation changes a lookup and a selection.
-/

structure Table (α : Type) where
  rows : List (Nat × α)
  next : Nat
  sorted : (rows.map Prod.fst).Pairwise (· < ·)
  bound : ∀ i ∈ rows.map Prod.fst, i < next

namespace Table

variable {α β : Type}

/-- The empty table; the first key will be 1. -/
def empty : Table α := ⟨[], 1, by simp, by simp⟩

def get (t : Table α) (i : Nat) : Option α := t.rows.lookup i

/-- Append a row under the next key. -/
def insert (t : Table α) (a : α) : Table α where
  rows := t.rows ++ [(t.next, a)]
  next := t.next + 1
  sorted := by
    simp only [List.map_append, List.map_cons, List.map_nil, List.pairwise_append]
    exact ⟨t.sorted, by simp, by simpa using t.bound⟩
  bound := by
    simp only [List.map_append, List.map_cons, List.map_nil, List.mem_append, List.mem_singleton]
    rintro i (h | h)
    · have := t.bound i h; omega
    · omega

/-- Hand out the next key to no row. -/
def skip (t : Table α) : Table α where
  rows := t.rows
  next := t.next + 1
  sorted := t.sorted
  bound := fun i h => Nat.lt_succ_of_lt (t.bound i h)

/-- Rewrite the row under one key; every other row stays. -/
def modify (t : Table α) (i : Nat) (f : α → α) : Table α where
  rows := t.rows.map (fun r => if r.1 = i then (r.1, f r.2) else r)
  next := t.next
  sorted := by
    have h : (Prod.fst ∘ fun r : Nat × α => if r.1 = i then (r.1, f r.2) else r) = Prod.fst := by
      funext r; simp only [Function.comp]; split <;> rfl
    rw [List.map_map, h]
    exact t.sorted
  bound := by
    have h : (Prod.fst ∘ fun r : Nat × α => if r.1 = i then (r.1, f r.2) else r) = Prod.fst := by
      funext r; simp only [Function.comp]; split <;> rfl
    rw [List.map_map, h]
    exact t.bound

/-- Delete the rows that satisfy a condition. -/
def erase (t : Table α) (p : Nat × α → Bool) : Table α where
  rows := t.rows.filter (fun r => !p r)
  next := t.next
  sorted := t.sorted.sublist (List.filter_sublist.map Prod.fst)
  bound := fun i h => t.bound i ((List.filter_sublist.map Prod.fst).subset h)

/-- The rows that satisfy a condition, in key order. -/
def select (t : Table α) (p : Nat × α → Bool) : List (Nat × α) := t.rows.filter p

/-- A row is found under its key exactly when it is in the table. -/
theorem lookup_eq_some_iff {rows : List (Nat × α)} (h : (rows.map Prod.fst).Pairwise (· < ·))
    (i : Nat) (a : α) : rows.lookup i = some a ↔ (i, a) ∈ rows := by
  induction rows with
  | nil => simp
  | cons r rows ih =>
    obtain ⟨j, b⟩ := r
    simp only [List.map_cons, List.pairwise_cons] at h
    by_cases hij : i = j
    · subst hij
      have hnot : ∀ c, (i, c) ∉ rows := by
        intro c hc
        have := h.1 i (List.mem_map.mpr ⟨(i, c), hc, rfl⟩)
        omega
      simp [hnot, eq_comm]
    · have hb : (i == j) = false := by simpa using hij
      simp [List.lookup, hb, ih h.2, hij]

theorem get_eq_some_iff (t : Table α) (i : Nat) (a : α) : t.get i = some a ↔ (i, a) ∈ t.rows :=
  lookup_eq_some_iff t.sorted i a

theorem get_lt {t : Table α} {i : Nat} {a : α} (h : t.get i = some a) : i < t.next :=
  t.bound i (List.mem_map.mpr ⟨(i, a), (get_eq_some_iff t i a).mp h, rfl⟩)

theorem get_of_le {t : Table α} {i : Nat} (h : t.next ≤ i) : t.get i = none := by
  cases hg : t.get i with
  | none => rfl
  | some a => have := get_lt hg; omega

@[simp] theorem get_empty (i : Nat) : (empty : Table α).get i = none := rfl
@[simp] theorem next_empty : (empty : Table α).next = 1 := rfl
@[simp] theorem next_insert (t : Table α) (a : α) : (t.insert a).next = t.next + 1 := rfl
@[simp] theorem next_skip (t : Table α) : t.skip.next = t.next + 1 := rfl
@[simp] theorem get_skip (t : Table α) (i : Nat) : t.skip.get i = t.get i := rfl
@[simp] theorem select_skip (t : Table α) (p : Nat × α → Bool) : t.skip.select p = t.select p := rfl
@[simp] theorem next_modify (t : Table α) (i : Nat) (f : α → α) : (t.modify i f).next = t.next := rfl
@[simp] theorem next_erase (t : Table α) (p : Nat × α → Bool) : (t.erase p).next = t.next := rfl

theorem get_insert (t : Table α) (a : α) (i : Nat) :
    (t.insert a).get i = if i = t.next then some a else t.get i := by
  apply Option.ext
  intro b
  rw [get_eq_some_iff]
  simp only [insert, List.mem_append, List.mem_singleton, Prod.mk.injEq]
  split
  · rename_i h
    subst h
    have hnot : ((t.next, b)) ∉ t.rows := by
      intro hm
      have := get_lt ((get_eq_some_iff t t.next b).mpr hm)
      omega
    simp [hnot, eq_comm]
  · rename_i h
    simp [h, get_eq_some_iff]

@[simp] theorem get_insert_next (t : Table α) (a : α) : (t.insert a).get t.next = some a := by
  simp [get_insert]

/-- An insertion leaves every existing row in place. -/
theorem get_insert_of_some {t : Table α} {i : Nat} {b : α} (a : α) (h : t.get i = some b) :
    (t.insert a).get i = some b := by
  have := get_lt h
  rw [get_insert, if_neg (by omega), h]

theorem get_modify (t : Table α) (i : Nat) (f : α → α) (j : Nat) :
    (t.modify i f).get j = if j = i then (t.get j).map f else t.get j := by
  apply Option.ext
  intro b
  rw [get_eq_some_iff]
  simp only [modify, List.mem_map, Prod.exists]
  split
  · rename_i h
    subst h
    simp only [Option.map_eq_some_iff, get_eq_some_iff]
    constructor
    · rintro ⟨k, c, hm, he⟩
      split at he
      · simp only [Prod.mk.injEq] at he
        exact ⟨c, by rw [← he.1]; exact hm, he.2⟩
      · rename_i hk; simp only [Prod.mk.injEq] at he; exact absurd he.1 hk
    · rintro ⟨c, hm, rfl⟩
      exact ⟨j, c, hm, by simp⟩
  · rename_i h
    rw [get_eq_some_iff]
    constructor
    · rintro ⟨k, c, hm, he⟩
      split at he
      · rename_i hk; simp only [Prod.mk.injEq] at he; exact absurd (he.1.symm.trans hk) h
      · rw [he] at hm; exact hm
    · intro hm
      exact ⟨j, b, hm, by simp [h]⟩

theorem get_modify_self (t : Table α) (i : Nat) (f : α → α) :
    (t.modify i f).get i = (t.get i).map f := by simp [get_modify]

theorem get_modify_of_ne (t : Table α) {i j : Nat} (f : α → α) (h : j ≠ i) :
    (t.modify i f).get j = t.get j := by simp [get_modify, h]

theorem ext_rows {t u : Table α} (hrows : t.rows = u.rows) (hnext : t.next = u.next) : t = u := by
  cases t
  cases u
  simp only at hrows hnext
  subst hrows hnext
  rfl

/-- Of two rewrites of one row by constants the second one stays. -/
theorem modify_modify_const (t : Table α) (i : Nat) (a b : α) :
    (t.modify i (fun _ => a)).modify i (fun _ => b) = t.modify i (fun _ => b) := by
  refine ext_rows ?_ rfl
  simp only [modify, List.map_map]
  congr 1
  funext r
  by_cases h : r.1 = i <;> simp [h]

/-- Two rewrites of one row agree if they agree on the row. -/
theorem modify_congr {t : Table α} {i : Nat} {a : α} {f g : α → α} (hget : t.get i = some a)
    (h : f a = g a) : t.modify i f = t.modify i g := by
  refine ext_rows ?_ rfl
  simp only [modify]
  apply List.map_congr_left
  rintro ⟨j, b⟩ hb
  by_cases hj : j = i
  · subst hj
    rw [(get_eq_some_iff t j b).mpr hb, Option.some.injEq] at hget
    rw [hget]
    simp only [if_true, h]
  · simp only [hj, if_false]

theorem get_erase (t : Table α) (p : Nat × α → Bool) (i : Nat) :
    (t.erase p).get i = (t.get i).filter (fun a => !p (i, a)) := by
  apply Option.ext
  intro a
  rw [get_eq_some_iff]
  simp only [erase, List.mem_filter, Option.filter_eq_some_iff, get_eq_some_iff]

theorem erase_erase (t : Table α) (p q : Nat × α → Bool) :
    (t.erase p).erase q = t.erase (fun r => p r || q r) := by
  refine ext_rows ?_ rfl
  simp only [erase, List.filter_filter]
  apply List.filter_congr
  intro r _
  cases p r <;> cases q r <;> rfl

theorem erase_of_false (t : Table α) : t.erase (fun _ => false) = t := by
  refine ext_rows ?_ rfl
  simp [erase]

theorem mem_select (t : Table α) (p : Nat × α → Bool) (i : Nat) (a : α) :
    (i, a) ∈ t.select p ↔ t.get i = some a ∧ p (i, a) = true := by
  simp only [select, List.mem_filter, get_eq_some_iff]

theorem select_nodup (t : Table α) (p : Nat × α → Bool) : ((t.select p).map Prod.fst).Nodup :=
  (t.sorted.sublist (List.filter_sublist.map Prod.fst)).imp (fun h => by omega)

/-- In increasing order, the first `n` are those with fewer than `n` before them. -/
theorem mem_take_of_sorted {keys : List Nat} (h : keys.Pairwise (· < ·)) (n i : Nat) :
    i ∈ keys.take n ↔ i ∈ keys ∧ (keys.filter (· < i)).length < n := by
  induction keys generalizing n with
  | nil => simp
  | cons k keys ih =>
    obtain ⟨hk, hkeys⟩ := List.pairwise_cons.mp h
    cases n with
    | zero => simp
    | succ n =>
      rw [List.take_succ_cons, List.mem_cons, List.mem_cons, ih hkeys]
      by_cases hik : i = k
      · subst hik
        have hnone : (i :: keys).filter (· < i) = [] := by
          rw [List.filter_eq_nil_iff]
          intro j hj
          obtain rfl | hj := List.mem_cons.mp hj
          · simp
          · have := hk j hj
            simp only [decide_eq_true_eq]
            omega
        simp [hnone]
      · have hlt : i ∈ keys → ((k :: keys).filter (· < i)).length =
            (keys.filter (· < i)).length + 1 := by
          intro hi
          rw [List.filter_cons_of_pos (by simpa using hk i hi), List.length_cons]
        constructor
        · rintro (he | ⟨hi, hfew⟩)
          · exact absurd he hik
          · rw [hlt hi]
            exact ⟨.inr hi, by omega⟩
        · rintro ⟨he | hi, hfew⟩
          · exact absurd he hik
          · rw [hlt hi] at hfew
            exact .inr ⟨hi, by omega⟩

/-- A limit takes the selected rows with fewer selected rows before them. -/
theorem mem_take_select (t : Table α) (p : Nat × α → Bool) (n i : Nat) :
    i ∈ ((t.select p).map Prod.fst).take n ↔
      (∃ a, t.get i = some a ∧ p (i, a) = true) ∧
        (t.select fun r => decide (r.1 < i) && p r).length < n := by
  have hsorted : ((t.select p).map Prod.fst).Pairwise (· < ·) :=
    t.sorted.sublist (List.filter_sublist.map Prod.fst)
  rw [mem_take_of_sorted hsorted, List.filter_map, List.length_map, select, List.filter_filter,
    ← select]
  simp only [List.mem_map, Prod.exists, exists_and_right, exists_eq_right, mem_select,
    Function.comp_def]
  rfl

@[simp] theorem select_empty (p : Nat × α → Bool) : (empty : Table α).select p = [] := rfl

theorem select_insert (t : Table α) (a : α) (p : Nat × α → Bool) :
    (t.insert a).select p = t.select p ++ if p (t.next, a) then [(t.next, a)] else [] := by
  simp only [select, insert, List.filter_append, List.filter_cons, List.filter_nil]

theorem select_insert_of_false {t : Table α} {a : α} {p : Nat × α → Bool}
    (h : p (t.next, a) = false) : (t.insert a).select p = t.select p := by
  simp [select_insert, h]

theorem select_insert_of_true {t : Table α} {a : α} {p : Nat × α → Bool}
    (h : p (t.next, a) = true) : (t.insert a).select p = t.select p ++ [(t.next, a)] := by
  simp [select_insert, h]

/-- A selection that does not look at what a rewrite changes sees the rewritten rows. -/
theorem select_modify (t : Table α) (i : Nat) (f : α → α) (p : Nat × α → Bool)
    (hp : ∀ a, p (i, f a) = p (i, a)) :
    (t.modify i f).select p =
      (t.select p).map (fun r => if r.1 = i then (r.1, f r.2) else r) := by
  simp only [select, modify, List.filter_map]
  congr 1
  apply List.filter_congr
  rintro ⟨j, a⟩ -
  by_cases h : j = i
  · subst h; simpa using hp a
  · simp [h]

/-- A rewrite that takes a row out of a selection. -/
theorem select_modify_of_false (t : Table α) (i : Nat) (f : α → α) (p : Nat × α → Bool)
    (hp : ∀ a, p (i, f a) = false) :
    (t.modify i f).select p = (t.select p).filter (fun r => decide (r.1 ≠ i)) := by
  simp only [select, modify]
  induction t.rows with
  | nil => rfl
  | cons r rows ih =>
    obtain ⟨j, a⟩ := r
    simp only [List.map_cons, List.filter_cons, ih]
    by_cases hj : j = i
    · subst hj
      cases p (j, a) <;> simp [hp]
    · simp [hj]
      split <;> simp [hj]

/-- Rows outside a selection can be deleted without changing it. -/
theorem select_erase_of_false (t : Table α) (p q : Nat × α → Bool)
    (h : ∀ r, q r = true → p r = false) : (t.erase p).select q = t.select q := by
  simp only [select, erase, List.filter_filter]
  apply List.filter_congr
  intro r _
  cases hq : q r with
  | false => simp
  | true => simp [h r hq]

theorem select_erase_of_true (t : Table α) (p q : Nat × α → Bool)
    (h : ∀ r, q r = true → p r = true) : (t.erase p).select q = [] := by
  simp only [select, erase, List.filter_filter, List.filter_eq_nil_iff]
  intro r _
  cases hq : q r with
  | false => simp
  | true => simp [h r hq]

/-- Two selections with the same rows are the same list, even out of two tables. -/
theorem select_eq_of_mem_iff {t u : Table α} {p q : Nat × α → Bool}
    (h : ∀ i a, (t.get i = some a ∧ p (i, a) = true) ↔ (u.get i = some a ∧ q (i, a) = true)) :
    t.select p = u.select q := by
  have hsorted : ∀ (t : Table α) (p : Nat × α → Bool),
      (t.select p).Pairwise (fun a b => a.1 < b.1) :=
    fun t p => List.Pairwise.filter p (List.pairwise_map.mp t.sorted)
  have hirrefl : Std.Irrefl (fun a b : Nat × α => a.1 < b.1) := ⟨fun a => Nat.lt_irrefl a.1⟩
  have hasymm : Std.Antisymm (fun a b : Nat × α => a.1 < b.1) :=
    ⟨fun a b hab hba => absurd hab (Nat.lt_asymm hba)⟩
  refine List.Pairwise.eq_of_mem_iff (hsorted t p) (hsorted u q) ?_
  rintro ⟨i, a⟩
  rw [mem_select, mem_select]
  exact h i a

section

variable {τ : Type} [LinearOrder τ] (key : α → τ)

theorem orderedInsert_append_left {a : α} (l₁ : List α) {l₂ : List α}
    (h : ∀ b ∈ l₂, key a ≤ key b) :
    (l₁ ++ l₂).orderedInsert (fun a b => key a ≤ key b) a =
      l₁.orderedInsert (fun a b => key a ≤ key b) a ++ l₂ := by
  induction l₁ with
  | nil =>
    cases l₂ with
    | nil => rfl
    | cons b l₂ => exact List.orderedInsert_cons_of_le _ l₂ (h b List.mem_cons_self)
  | cons b l₁ ih =>
    by_cases hab : key a ≤ key b
    · simp [hab]
    · simp [hab, ih]

theorem orderedInsert_append_right {a : α} {l₁ : List α} (l₂ : List α)
    (h : ∀ b ∈ l₁, key b < key a) :
    (l₁ ++ l₂).orderedInsert (fun a b => key a ≤ key b) a =
      l₁ ++ l₂.orderedInsert (fun a b => key a ≤ key b) a := by
  induction l₁ with
  | nil => rfl
  | cons b l₁ ih =>
    have hab : ¬ key a ≤ key b := not_le.mpr (h b List.mem_cons_self)
    have hrest := ih fun c hc => h c (List.mem_cons_of_mem _ hc)
    rw [List.cons_append, List.orderedInsert_cons, if_neg hab, hrest, List.cons_append]

/-- If the rows of a condition come before all others, ordering the query orders the two parts. -/
theorem insertionSort_partition (p : α → Bool) (l : List α)
    (h : ∀ a ∈ l, ∀ b ∈ l, p a = true → p b = false → key a < key b) :
    l.insertionSort (fun a b => key a ≤ key b) =
      (l.filter p).insertionSort (fun a b => key a ≤ key b) ++
        (l.filter (fun a => !p a)).insertionSort (fun a b => key a ≤ key b) := by
  induction l with
  | nil => rfl
  | cons a l ih =>
    have hl := ih fun b hb c hc => h b (List.mem_cons_of_mem _ hb) c (List.mem_cons_of_mem _ hc)
    rw [List.insertionSort_cons, hl]
    cases hpa : p a with
    | true =>
      rw [orderedInsert_append_left key _ fun b hb => ?_]
      · simp [hpa]
      · obtain ⟨hb, hpb⟩ := List.mem_filter.mp ((List.mem_insertionSort _).mp hb)
        exact le_of_lt (h a List.mem_cons_self b (List.mem_cons_of_mem _ hb) hpa
          (by simpa using hpb))
    | false =>
      rw [orderedInsert_append_right key _ fun b hb => ?_]
      · simp [hpa]
      · obtain ⟨hb, hpb⟩ := List.mem_filter.mp ((List.mem_insertionSort _).mp hb)
        exact h b (List.mem_cons_of_mem _ hb) a List.mem_cons_self hpb hpa

end

end Table
