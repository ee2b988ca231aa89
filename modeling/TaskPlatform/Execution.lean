import TaskPlatform.Invariant

/-!
# One execution for one entry into the queue

A message that is delivered is an attempt to start its task. However often the
messages of a task are delivered, and to whichever workers, a start succeeds at
most once between two entries of the task into the queue: a start takes the task
out of the queue, and the guarded `UPDATE` finds only queued tasks.
-/

namespace TaskPlatform

open Run

def isQueued (id : TaskId) (p : Platform) : Bool :=
  (p.db.tasks.get id).any (fun row => row.status == .queued)

/-- The step puts the task into the queue. -/
def entersQueue (cfg : Settings) (id : TaskId) (p : Platform) (a : Action) : Bool :=
  !isQueued id p && isQueued id (p.step cfg a)

/-- The step is a delivery whose `try_acquire_lease` and `start_attempt` succeed. -/
def starts (cfg : Settings) (id : TaskId) (p : Platform) : Action → Bool
  | .start now w i =>
    i == id && (p.holding w).isNone && ((p.step cfg (.start now w i)).holding w).isSome
  | _ => false

/-- A successful start finds the task queued and leaves it running. -/
theorem row_of_starts {cfg : Settings} {id : TaskId} {p : Platform} {a : Action}
    (h : starts cfg id p a = true) :
    (∃ row, p.db.tasks.get id = some row ∧ row.status = .queued) ∧
      ∃ row, (p.step cfg a).db.tasks.get id = some row ∧ row.status = .running := by
  cases a with
  | start now w i =>
    simp only [starts, Bool.and_eq_true, beq_iff_eq, Option.isNone_iff_eq_none] at h
    obtain ⟨⟨rfl, hnone⟩, hsome⟩ := h
    obtain ⟨held, hheld⟩ := Option.isSome_iff_exists.mp hsome
    obtain hold | ⟨now', id', row, seen, ha, -, hrow, hq, -, -, hdb⟩ := step_holding hheld
    · rw [hnone] at hold
      cases hold
    · cases ha
      have hrow' := congrArg View.row
        (view_startedDb_self now w (startedTask now w cfg.taskLeaseSeconds row) seen hrow)
      rw [← hdb] at hrow'
      exact ⟨⟨row, hrow, hq⟩, _, hrow', rfl⟩
  | _ => cases h

theorem isQueued_of_starts {cfg : Settings} {id : TaskId} {p : Platform} {a : Action}
    (h : starts cfg id p a = true) :
    isQueued id p = true ∧ isQueued id (p.step cfg a) = false := by
  obtain ⟨⟨row, hrow, hq⟩, ⟨row', hrow', hrun⟩⟩ := row_of_starts h
  simp [isQueued, hrow, hq, hrow', hrun]

/-- Successful starts are bounded by the entries into the queue. -/
theorem count_starts_le (cfg : Settings) (id : TaskId) (p : Platform) (acts : List Action) :
    count (Platform.step cfg) (starts cfg id) p acts ≤
      count (Platform.step cfg) (entersQueue cfg id) p acts + (isQueued id p).toNat :=
  count_le_of_flag (P := fun _ => True) (fun _ _ _ => trivial)
    (fun _ _ _ hs => isQueued_of_starts hs) trivial acts

/-- In any part of a run without an entry into the queue at most one start succeeds; the attempt
rows of a task carry the numbers from 1 to its counter, each once, and the counter is the number of
starts in its log. -/
theorem starts_at_most_once (cfg : Settings) (id : TaskId) :
    (∀ before acts : List Action,
      count (Platform.step cfg) (entersQueue cfg id) (Platform.after cfg before) acts = 0 →
      count (Platform.step cfg) (starts cfg id) (Platform.after cfg before) acts ≤ 1) ∧
    ∀ (acts : List Action) (row : Task), (Platform.after cfg acts).db.tasks.get id = some row →
      ((Platform.after cfg acts).db.attemptsOf id).map (·.2.attemptNumber) =
        List.range' 1 row.attempts ∧
      (((Platform.after cfg acts).db.eventsOf id).filter isStart).length = row.attempts := by
  refine ⟨fun before acts hnone => ?_, fun acts row hrow => ?_⟩
  · have h := count_starts_le cfg id (Platform.after cfg before) acts
    have hle : (isQueued id (Platform.after cfg before)).toNat ≤ 1 := Bool.toNat_le _
    omega
  · have hsound := (Platform.after_sound cfg acts).row hrow
    exact ⟨hsound.numbered, hsound.counted⟩

/-- Two workers get a message each for one queued task. -/
def duplicateRun : List Action :=
  [.start 1 "w1" 1, .start 1 "w2" 1, .recordSuccess 2 "w1" "{}", .start 3 "w2" 1]

theorem starts_at_most_once_duplicateRun :
    count (Platform.step .default) (starts .default 1)
      (Platform.after .default [.createTask 0 plainSpec]) duplicateRun ≤ 1 :=
  (starts_at_most_once .default 1).1 [.createTask 0 plainSpec] duplicateRun (by decide +kernel)

end TaskPlatform
