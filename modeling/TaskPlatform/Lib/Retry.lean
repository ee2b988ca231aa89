import Mathlib

/-!
# Items that are tried again

An item is attempted until one attempt succeeds or a policy's limit of attempts has failed, and it can
be closed at any time. After each failure the policy says from when on the next attempt may be made.
The log of an item has all its attempts, whether it is still open or not.
-/

namespace Retry

variable {τ : Type}

structure Attempt (τ : Type) where
  time : τ
  ok : Bool
  deriving DecidableEq, Repr

/-- How many attempts may fail, and from when on there may be another one after the `n`-th failure. -/
structure Policy (τ : Type) where
  limit : Nat
  next : τ → Nat → τ

structure Item (τ : Type) where
  isOpen : Bool
  failed : Nat
  notBefore : τ
  log : List (Attempt τ)

/-- One more attempt. -/
def Item.attempt (P : Policy τ) (now : τ) (ok : Bool) (i : Item τ) : Item τ :=
  if ok then ⟨false, i.failed, i.notBefore, i.log ++ [⟨now, ok⟩]⟩
  else if P.limit ≤ i.failed + 1 then ⟨false, i.failed + 1, i.notBefore, i.log ++ [⟨now, ok⟩]⟩
  else ⟨true, i.failed + 1, P.next now (i.failed + 1), i.log ++ [⟨now, ok⟩]⟩

def Item.close (i : Item τ) : Item τ := { i with isOpen := false }

def failures (log : List (Attempt τ)) : Nat := log.countP (fun a => !a.ok)

@[simp] theorem failures_nil : failures ([] : List (Attempt τ)) = 0 := rfl

@[simp] theorem failures_concat (log : List (Attempt τ)) (a : Attempt τ) :
    failures (log ++ [a]) = failures log + if a.ok then 0 else 1 := by
  cases ha : a.ok <;> simp [failures, List.countP_append, ha]

theorem failures_of_failed {log : List (Attempt τ)} (h : ∀ a ∈ log, a.ok = false) :
    failures log = log.length := by
  rw [failures, List.countP_eq_length]
  intro a ha
  rw [h a ha]
  rfl

/-- A log with one more entry, parted at an entry. -/
theorem concat_eq_append_cons {α : Type} {log earlier later : List α} {a b : α}
    (h : log ++ [b] = earlier ++ a :: later) :
    (log = earlier ∧ b = a ∧ later = []) ∨
      ∃ rest, log = earlier ++ a :: rest ∧ later = rest ++ [b] := by
  obtain rfl | ⟨rest, c, rfl⟩ := later.eq_nil_or_concat
  · left
    have hlen : [b].length = [a].length := rfl
    have hsame := List.append_inj' h hlen
    exact ⟨hsame.1, List.cons.inj hsame.2 |>.1, rfl⟩
  · right
    rw [List.concat_eq_append] at h ⊢
    rw [← List.cons_append, ← List.append_assoc] at h
    have hlen : [b].length = [c].length := rfl
    have hsame := List.append_inj' h hlen
    refine ⟨rest, hsame.1, ?_⟩
    rw [hsame.2]

section

variable [Preorder τ] (P : Policy τ)

/-- Before an attempt there are only failures, and each of them was waited for. -/
def Spaced (log : List (Attempt τ)) : Prop :=
  ∀ earlier a later, log = earlier ++ a :: later →
    ∀ b ∈ later, a.ok = false ∧ P.next a.time (failures earlier + 1) ≤ b.time

/-- What holds of every log. -/
structure Kept (log : List (Attempt τ)) : Prop where
  bounded : log.length ≤ P.limit
  spaced : Spaced P log

/-- What holds of an open item from the time `c` on. -/
structure Waiting (c : τ) (i : Item τ) : Prop where
  below : i.failed < P.limit
  failed : ∀ a ∈ i.log, a.ok = false
  late : ∀ earlier a later, i.log = earlier ++ a :: later →
    ∀ t, c ≤ t → i.notBefore ≤ t → P.next a.time (failures earlier + 1) ≤ t

/-- The invariant of an item at the time `c`. -/
structure Item.Sound (c : τ) (i : Item τ) : Prop where
  counted : i.failed = failures i.log
  kept : Kept P i.log
  waiting : i.isOpen = true → Waiting P c i

variable {P} {c now : τ} {i : Item τ}

/-- An item that nobody has attempted yet. -/
theorem Item.Sound.fresh (h : 0 < P.limit) (c notBefore : τ) (isOpen : Bool) :
    Item.Sound P c ⟨isOpen, 0, notBefore, []⟩ where
  counted := rfl
  kept := by
    refine ⟨Nat.zero_le _, ?_⟩
    intro earlier a later he
    exact absurd he.symm (List.append_ne_nil_of_right_ne_nil _ (List.cons_ne_nil _ _))
  waiting := by
    intro _
    refine ⟨h, fun a ha => absurd ha List.not_mem_nil, ?_⟩
    intro earlier a later he
    exact absurd he.symm (List.append_ne_nil_of_right_ne_nil _ (List.cons_ne_nil _ _))

theorem Item.Sound.later (h : i.Sound P c) (hc : c ≤ now) : i.Sound P now where
  counted := h.counted
  kept := h.kept
  waiting hopen := by
    have hw := h.waiting hopen
    exact ⟨hw.below, hw.failed, fun earlier a later he t ht hnot =>
      hw.late earlier a later he t (hc.trans ht) hnot⟩

theorem Item.Sound.close (h : i.Sound P c) : i.close.Sound P c where
  counted := h.counted
  kept := h.kept
  waiting hopen := by cases hopen

/-- An attempt at a time that the item waits for is spaced from all before. -/
theorem Waiting.kept_concat (hw : Waiting P c i) (h : i.Sound P c) (hc : c ≤ now)
    (hnot : i.notBefore ≤ now) (ok : Bool) : Kept P (i.log ++ [⟨now, ok⟩]) where
  bounded := by
    have hbelow := hw.below
    rw [h.counted, failures_of_failed hw.failed] at hbelow
    rw [List.length_append, List.length_singleton]
    omega
  spaced := by
    intro earlier a later he b hb
    obtain ⟨-, -, rfl⟩ | ⟨rest, hlog, rfl⟩ := concat_eq_append_cons he
    · cases hb
    · have ha : a ∈ i.log := by
        rw [hlog]
        exact List.mem_append_right _ List.mem_cons_self
      obtain hb | hb := List.mem_append.mp hb
      · exact h.kept.spaced earlier a rest hlog b hb
      · rw [List.mem_singleton.mp hb]
        exact ⟨hw.failed a ha, hw.late earlier a rest hlog now hc hnot⟩

/-- An attempt keeps the invariant. -/
theorem Item.Sound.attempt (h : i.Sound P c) (hopen : i.isOpen = true) (hc : c ≤ now)
    (hnot : i.notBefore ≤ now) (ok : Bool) : (i.attempt P now ok).Sound P now := by
  have hw := h.waiting hopen
  have hkept := hw.kept_concat h hc hnot ok
  unfold Item.attempt
  split
  · rename_i hok
    refine ⟨?_, hkept, fun he => by cases he⟩
    rw [failures_concat, if_pos hok, Nat.add_zero]
    exact h.counted
  · rename_i hok
    have hcounted : i.failed + 1 = failures (i.log ++ [⟨now, ok⟩]) := by
      rw [failures_concat, if_neg hok, h.counted]
    split
    · exact ⟨hcounted, hkept, fun he => by cases he⟩
    · rename_i hlimit
      refine ⟨hcounted, hkept, fun _ => ⟨Nat.lt_of_not_le hlimit, ?_, ?_⟩⟩
      · intro a ha
        obtain ha | ha := List.mem_append.mp ha
        · exact hw.failed a ha
        · rw [List.mem_singleton.mp ha]
          exact Bool.eq_false_iff.mpr hok
      · intro earlier a later he t ht hnext
        obtain ⟨rfl, rfl, -⟩ | ⟨rest, hlog, -⟩ := concat_eq_append_cons he
        · rw [← h.counted]
          exact hnext
        · exact (hw.late earlier a rest hlog now hc hnot).trans ht

end

end Retry
