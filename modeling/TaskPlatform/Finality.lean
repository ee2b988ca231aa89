import TaskPlatform.Fencing

/-!
# A finished task stays as it is

No step of the platform writes the row of a task in a terminal status but the
operator's retry and the dead-letter tick. In particular the row of a task that
succeeded, with its result, never changes again.
-/

namespace TaskPlatform

open Run

/-- The action puts the finished task `id` back into the queue, if the guards allow it. -/
def Action.Requeues (id : TaskId) (status : Status) : Action → Prop
  | .manualRetry _ i => i = id ∧ status ∈ retryable
  | .bulkRetry _ ids => id ∈ ids ∧ status ∈ retryable
  | .requeueDlq _ _ _ => status = .deadLetter
  | _ => False

section

variable {cfg : Settings} {p : Platform} {a : Action} {id : TaskId} {row row' : Task} {l : Label}

/-- Of the steps of a finished row only a retry, a dead-letter requeue and a stamp write it. -/
theorem Task.Step.unwritten (h : Task.Step cfg id row l row') (hterm : row.status ∈ terminal)
    (hstamp : l ≠ .stamp id) (hallow : a.Allows cfg p l) (hkept : ¬ a.Requeues id row.status) :
    row' = row := by
  have hnot : ∀ s, s ∉ terminal → row.status ≠ s := by
    rintro s hs rfl
    exact hs hterm
  cases h with
  | same => rfl
  | schedule now hs => exact absurd hs (hnot _ (by decide))
  | enqueue now cause hs =>
    exfalso
    cases cause with
    | create => exact hnot .created (by decide) (List.mem_singleton.mp hs)
    | unblock => exact hnot .created (by decide) (List.mem_singleton.mp hs)
    | due =>
      simp only [Cause.sources, dueStatuses, List.mem_cons, List.not_mem_nil, or_false] at hs
      rcases hs with hs | hs
      · exact hnot _ (by decide) hs
      · exact hnot _ (by decide) hs
    | retry =>
      obtain ⟨now, i, rfl⟩ | ⟨now, ids, rfl⟩ := hallow.retry
      · cases hallow
        exact hkept ⟨rfl, hs⟩
      · obtain ⟨i, hi, he⟩ := hallow
        cases he
        exact hkept ⟨hi, hs⟩
    | dlq =>
      obtain ⟨now, limit, locked, rfl⟩ := hallow.dlq
      exact hkept (List.mem_singleton.mp hs)
  | cancel now hs =>
    simp only [cancelable, List.mem_cons, List.not_mem_nil, or_false] at hs
    rcases hs with hs | hs | hs | hs | hs <;> exact absurd hs (hnot _ (by decide))
  | start now w hs => exact absurd hs (hnot _ (by decide))
  | renew now w howner hs => exact absurd hs (hnot _ (by decide))
  | finish now hv hs => exact absurd hs (hnot _ (by decide))
  | stamp => exact absurd rfl hstamp
  | recover now hs => exact absurd hs (hnot _ (by decide))
  | release now hs => exact absurd hs (hnot _ (by decide))

/-- One action. -/
theorem step_unwritten (h : p.Sound) (hrow : p.db.tasks.get id = some row)
    (hterm : row.status ∈ terminal) (hkept : ¬ a.Requeues id row.status)
    (hrow' : (p.step cfg a).db.tasks.get id = some row') : row' = row := by
  by_cases hout : ∃ w held, a.outcomeOf = some w ∧ p.holding w = some held ∧ held.task.id = id
  · -- an outcome of the task itself is refused
    obtain ⟨w, held, ha, hheld, rfl⟩ := hout
    obtain hsame | ⟨now, row₁, row₂, task, new, hrow₁, hrun, -⟩ := step_outcome_cases cfg h ha hheld
    · rw [hsame, hrow] at hrow'
      exact (Option.some.inj hrow').symm
    · rw [hrow] at hrow₁
      cases hrow₁
      rw [hrun] at hterm
      exact absurd hterm (by decide)
  · obtain ⟨ls, htr, hls⟩ : ∃ ls, Trace (Change cfg) p.db ls (p.step cfg a).db ∧ _ :=
      step_trace h.foreignKeys h.held a
    refine row_trace_of_lt (P := fun r => r = row)
      (Q := fun l => a.Allows cfg p l ∧ l ≠ .stamp id) htr
      (fun l hl => ⟨hls l hl, ?_⟩) ?_ (Table.get_lt hrow) ?_ row' hrow'
    · rintro rfl
      exact hout (hls _ hl).stamp
    · rintro r l r' hstep ⟨hallow, hstamp⟩ rfl
      exact hstep.unwritten hterm hstamp hallow hkept
    · intro r hr
      rw [hrow] at hr
      exact (Option.some.inj hr).symm

end

/-- Unless a retry or a dead-letter tick puts it back, the row of a finished task stays the same to
the last column, through any run that follows, for as long as it exists. -/
theorem finished_row_kept (cfg : Settings) (acts later : List Action) (id : TaskId) {row row' : Task}
    (hrow : (Platform.after cfg acts).db.tasks.get id = some row) (hterm : row.status ∈ terminal)
    (hkept : ∀ a ∈ later, ¬ a.Requeues id row.status)
    (hrow' : (Platform.after cfg (acts ++ later)).db.tasks.get id = some row') : row' = row := by
  have hrun : ∀ later : List Action, (∀ a ∈ later, ¬ a.Requeues id row.status) →
      ∀ p : Platform, p.Sound → id < p.db.tasks.next →
        (∀ r, p.db.tasks.get id = some r → r = row) →
        ∀ r, (run (Platform.step cfg) p later).db.tasks.get id = some r → r = row := by
    intro later
    induction later with
    | nil => exact fun _ _ _ _ hp => hp
    | cons a later ih =>
      intro hkept p hsound hid hp
      refine ih (fun b hb => hkept b (List.mem_cons_of_mem _ hb)) (p.step cfg a) (hsound.step cfg a)
        (Nat.lt_of_lt_of_le hid (step_gone hsound a).1) ?_
      intro r hr
      obtain ⟨r₀, hr₀⟩ := row_before hsound hid hr
      obtain rfl := hp r₀ hr₀
      exact step_unwritten hsound hr₀ hterm (hkept a List.mem_cons_self) hr
  rw [Platform.after, run_append] at hrow'
  refine hrun later hkept _ (Platform.after_sound cfg acts) (Table.get_lt hrow) ?_ row' hrow'
  intro r hr
  exact Option.some.inj (hr.symm.trans hrow)

/-- A success with everything that could still happen to it. -/
def afterSuccess : List Action :=
  [.manualRetry 10 1, .cancelTask 11 1, .bulkRetry 12 [1], .start 13 "w2" 1,
    .recoverStuck 1000000000 50 (fun _ => false), .requeueDlq 1000000000 200 (fun _ => false)]

theorem finished_row_kept_afterSuccess : ∃ row,
    (Platform.after .default successRun).db.tasks.get 1 = some row ∧
      (Platform.after .default (successRun ++ afterSuccess)).db.tasks.get 1 = some row := by
  obtain ⟨row, hrow⟩ := Option.isSome_iff_exists.mp
    (by decide +kernel : ((Platform.after .default successRun).db.tasks.get 1).isSome = true)
  obtain ⟨row', hrow'⟩ := Option.isSome_iff_exists.mp
    (by decide +kernel : ((Platform.after .default (successRun ++ afterSuccess)).db.tasks.get
      1).isSome = true)
  have hs : ((Platform.after .default successRun).db.tasks.get 1).map (·.status) =
      some .success := by decide +kernel
  rw [hrow, Option.map_some, Option.some.injEq] at hs
  have hkept : ∀ a ∈ afterSuccess, ¬ a.Requeues 1 row.status := by
    rw [hs]
    simp [afterSuccess, Action.Requeues, retryable]
  have hsame := finished_row_kept .default successRun afterSuccess 1 hrow
    (by rw [hs]; decide) hkept hrow'
  exact ⟨row, hrow, by rw [hrow', hsame]⟩

end TaskPlatform
