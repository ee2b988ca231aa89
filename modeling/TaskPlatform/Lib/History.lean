import Mathlib

/-!
# Logs of a state variable

An event says from which value to which value a variable went. A log is a
history of the variable when its events are linked, every event that changes
the value is an allowed edge, the first event sits at the initial value, and
the last one ends at the present value.
-/

structure History {ε S : Type} (old new : ε → S) (edge : S → S → Prop) (initial : S)
    (log : List ε) (present : S) : Prop where
  opening : ∃ e, log.head? = some e ∧ old e = initial ∧ new e = initial
  linked : log.IsChain (fun a b => old b = new a)
  edges : ∀ e ∈ log, old e ≠ new e → edge (old e) (new e)
  last : ∃ e, log.getLast? = some e ∧ new e = present

namespace History

variable {ε S : Type} {old new : ε → S} {edge : S → S → Prop} {initial present : S} {log : List ε}

/-- The history that one event opens. -/
theorem start {e : ε} (hold : old e = initial) (hnew : new e = initial) :
    History old new edge initial [e] initial where
  opening := ⟨e, rfl, hold, hnew⟩
  linked := List.isChain_singleton _
  edges := by
    intro f hf hne
    rw [List.mem_singleton.mp hf, hold, hnew] at hne
    exact absurd rfl hne
  last := ⟨e, rfl, hnew⟩

/-- An event at the present value continues the history. -/
theorem append (h : History old new edge initial log present) {e : ε} (hold : old e = present)
    (hedge : old e ≠ new e → edge (old e) (new e)) :
    History old new edge initial (log ++ [e]) (new e) where
  opening := by
    obtain ⟨f, hf, hopen⟩ := h.opening
    exact ⟨f, by rw [List.head?_append, hf]; rfl, hopen⟩
  linked := by
    obtain ⟨f, hf, hlast⟩ := h.last
    refine List.isChain_append.mpr ⟨h.linked, List.isChain_singleton _, ?_⟩
    intro x hx y hy
    rw [hf, Option.mem_some_iff] at hx
    rw [List.head?_cons, Option.mem_some_iff] at hy
    rw [← hx, ← hy, hlast, hold]
  edges := by
    intro f hf hne
    rcases List.mem_append.mp hf with hf | hf
    · exact h.edges f hf hne
    · rw [List.mem_singleton.mp hf] at hne ⊢
      exact hedge hne
  last := ⟨e, by simp, rfl⟩

/-- Reading a log: the value after it, if it can be followed from the given value. -/
def replay [DecidableEq S] (old new : ε → S) (s : S) (log : List ε) : Option S :=
  log.foldlM (fun s e => if old e = s then some (new e) else none) s

/-- A linked log is followed to its last value. -/
theorem replay_of_linked [DecidableEq S] {e : ε} (hlinked : (e :: log).IsChain
    (fun a b => old b = new a)) :
    replay old new (old e) (e :: log) = ((e :: log).getLast?).map new := by
  induction log generalizing e with
  | nil => simp [replay]
  | cons f log ih =>
    rw [List.isChain_cons_cons] at hlinked
    have hrest := ih hlinked.2
    rw [hlinked.1] at hrest
    rw [replay, List.foldlM_cons, if_pos rfl]
    simpa [replay] using hrest

/-- Replaying a history yields the present value. -/
theorem replay_eq [DecidableEq S] (h : History old new edge initial log present) :
    replay old new initial log = some present := by
  obtain ⟨e, hhead, hold, -⟩ := h.opening
  obtain ⟨f, hlast, hnew⟩ := h.last
  cases log with
  | nil => cases hhead
  | cons e' log =>
    cases hhead
    rw [← hold, replay_of_linked h.linked, hlast, Option.map_some, hnew]

/-- After an event into a value that no edge leaves, every event stays there. -/
theorem absorbing_of_linked {s : S} (hs : ∀ t, ¬ edge s t) {e : ε}
    (hlinked : (e :: log).IsChain (fun a b => old b = new a))
    (hedges : ∀ f ∈ e :: log, old f ≠ new f → edge (old f) (new f)) (hnew : new e = s) :
    ∀ f ∈ e :: log, new f = s := by
  induction log generalizing e with
  | nil =>
    intro f hf
    rw [List.mem_singleton.mp hf, hnew]
  | cons g log ih =>
    rw [List.isChain_cons_cons] at hlinked
    have hold : old g = s := hlinked.1.trans hnew
    have hg : new g = s := by
      by_contra hne
      have hedge := hedges g (by simp) (by rw [hold]; exact fun he => hne he.symm)
      rw [hold] at hedge
      exact hs _ hedge
    intro f hf
    rcases List.mem_cons.mp hf with rfl | hf
    · exact hnew
    · exact ih hlinked.2 (fun f hf => hedges f (List.mem_cons_of_mem _ hf)) hg f hf

/-- A value that no edge leaves is the present value once it was reached. -/
theorem absorbing (h : History old new edge initial log present) {s : S}
    (hs : ∀ t, ¬ edge s t) {e : ε} (he : e ∈ log) (hnew : new e = s) : present = s := by
  obtain ⟨f, hlast, hpresent⟩ := h.last
  obtain ⟨pre, post, rfl⟩ := List.append_of_mem he
  have hlinked := (List.isChain_append.mp h.linked).2.1
  rw [List.getLast?_append_of_ne_nil _ (List.cons_ne_nil _ _)] at hlast
  rw [← hpresent]
  exact absorbing_of_linked hs hlinked (fun g hg => h.edges g (List.mem_append_right _ hg)) hnew f
    (List.mem_of_getLast? hlast)

/-- What every edge leads to, and no event without one changes. -/
theorem reached_of_linked {P : S → Prop} (hedge : ∀ s t, edge s t → P t) {e : ε}
    (hlinked : (e :: log).IsChain (fun a b => old b = new a))
    (hedges : ∀ f ∈ e :: log, old f ≠ new f → edge (old f) (new f)) (hnew : P (new e)) :
    ∀ f ∈ e :: log, P (new f) := by
  induction log generalizing e with
  | nil =>
    intro f hf
    rw [List.mem_singleton.mp hf]
    exact hnew
  | cons g log ih =>
    rw [List.isChain_cons_cons] at hlinked
    have hg : P (new g) := by
      by_cases hsame : old g = new g
      · rw [← hsame, hlinked.1]
        exact hnew
      · exact hedge _ _ (hedges g (by simp) hsame)
    intro f hf
    rcases List.mem_cons.mp hf with rfl | hf
    · exact hnew
    · exact ih hlinked.2 (fun f hf => hedges f (List.mem_cons_of_mem _ hf)) hg f hf

/-- The present value has what the initial value has and every edge gives. -/
theorem reached (h : History old new edge initial log present) {P : S → Prop} (hinit : P initial)
    (hedge : ∀ s t, edge s t → P t) : P present := by
  obtain ⟨e, hhead, -, hnew⟩ := h.opening
  obtain ⟨f, hlast, hpresent⟩ := h.last
  cases log with
  | nil => cases hhead
  | cons e' log =>
    cases hhead
    rw [← hpresent]
    exact reached_of_linked hedge h.linked h.edges (hnew ▸ hinit) f (List.mem_of_getLast? hlast)

end History
