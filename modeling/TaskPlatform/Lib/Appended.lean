import TaskPlatform.Lib.Table

/-!
# Rows appended to a table

Keys grow, so the rows that were inserted after a table was seen are those from
its next key on, whatever was deleted meanwhile. Where nothing was deleted, the
table is the old one with these rows appended.
-/

namespace Table

variable {α : Type} {t u v : Table α} {xs ys : List (Nat × α)}

/-- The rows of `u` that were inserted after `t`. -/
def newRows (t u : Table α) : List (Nat × α) := u.select (fun r => decide (t.next ≤ r.1))

/-- `u` is `t` with the rows `xs` appended. -/
structure Appends (t : Table α) (xs : List (Nat × α)) (u : Table α) : Prop where
  rows : u.rows = t.rows ++ xs
  next : t.next ≤ u.next
  fresh : ∀ x ∈ xs, t.next ≤ x.1

theorem Appends.refl (t : Table α) : t.Appends [] t :=
  ⟨(List.append_nil _).symm, le_rfl, fun _ hx => absurd hx List.not_mem_nil⟩

theorem Appends.insert (t : Table α) (a : α) : t.Appends [(t.next, a)] (t.insert a) where
  rows := rfl
  next := Nat.le_succ _
  fresh := by
    intro x hx
    rw [List.mem_singleton.mp hx]

theorem Appends.trans (h : t.Appends xs u) (h' : u.Appends ys v) : t.Appends (xs ++ ys) v where
  rows := by rw [h'.rows, h.rows, List.append_assoc]
  next := h.next.trans h'.next
  fresh := by
    intro x hx
    rcases List.mem_append.mp hx with hx | hx
    · exact h.fresh x hx
    · exact h.next.trans (h'.fresh x hx)

/-- No old row has a key from the next key on. -/
theorem lt_next {r : Nat × α} (h : r ∈ t.rows) : r.1 < t.next :=
  t.bound r.1 (List.mem_map_of_mem h)

theorem Appends.newRows (h : t.Appends xs u) : t.newRows u = xs := by
  have hold : t.rows.filter (fun r => decide (t.next ≤ r.1)) = [] := by
    rw [List.filter_eq_nil_iff]
    intro r hr
    have hlt := lt_next hr
    simpa using hlt
  have hnew : xs.filter (fun r => decide (t.next ≤ r.1)) = xs := by
    rw [List.filter_eq_self]
    intro x hx
    simpa using h.fresh x hx
  rw [Table.newRows, select, h.rows, List.filter_append, hold, hnew, List.nil_append]

/-- A table that only lost rows has no new ones. -/
theorem newRows_of_subset (h : u.rows ⊆ t.rows) : t.newRows u = [] := by
  rw [newRows, select, List.filter_eq_nil_iff]
  intro r hr
  have hlt := lt_next (h hr)
  simpa using hlt

theorem erase_subset (t : Table α) (p : Nat × α → Bool) : (t.erase p).rows ⊆ t.rows :=
  fun _ hr => List.mem_of_mem_filter hr

end Table
