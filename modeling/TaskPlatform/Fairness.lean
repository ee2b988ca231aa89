import TaskPlatform.DeadLetterRetention
import TaskPlatform.Finality
import TaskPlatform.Lib.Backlog
import TaskPlatform.Progress

/-!
# Nobody waits forever

Retention, the coordinator and the outbox relay take their work in batches, the
oldest first. How many batches a row waits for is bounded by the rows that were there
before it, whatever load comes later and however the other transactions interleave.
-/

namespace TaskPlatform

open Run Backlog

instance (days : Int) (now : Time) (row : Task) : Decidable (FinishedFor days now row) := by
  unfold FinishedFor; infer_instance

/-- A tick of the retention that comes late enough for the task, and deletes `n` tasks at least if
there are so many. -/
def Action.purges (cfg : Settings) (row : Task) (n : Nat) : Action → Bool
  | .purgeOldData now limit =>
    decide (FinishedFor cfg.retentionDoneTasksDays now row ∧ n ≤ purgeLimit cfg limit)
  | _ => false

/-- The tasks that are as old as `id`. -/
def upTo (id : TaskId) (p : Platform) : Set TaskId :=
  selected p.db.tasks fun r => decide (r.1 ≤ id)

/-- As long as it exists, the task has this row. -/
structure Keeps (id : TaskId) (row : Task) (p : Platform) : Prop where
  sound : p.Sound
  known : id < p.db.tasks.next
  row : ∀ r, p.db.tasks.get id = some r → r = row

section

variable {cfg : Settings} {p : Platform} {id : TaskId} {row : Task}

theorem mem_upTo {i : TaskId} : i ∈ upTo id p ↔ i ≤ id ∧ (p.db.tasks.get i).isSome := by
  simp only [upTo, selected, Set.mem_ofPred_eq, decide_eq_true_eq, Option.isSome_iff_exists]
  constructor
  · rintro ⟨r, hr, hle⟩
    exact ⟨hle, r, hr⟩
  · rintro ⟨hle, r, hr⟩
    exact ⟨r, hr, hle⟩

/-- What the first branch of the retention takes instead of an old task. -/
theorem purge_takes {now : Time} {limit : Option Nat} (hrow : p.db.tasks.get id = some row)
    (hold : FinishedFor cfg.retentionDoneTasksDays now row)
    (hleft : ((purgeOldData cfg now limit p.db).tasks.get id).isSome) :
    ∃ T : Finset TaskId, T.card = purgeLimit cfg limit ∧ ∀ i ∈ T, i ≤ id ∧
      (p.db.tasks.get i).isSome ∧ (purgeOldData cfg now limit p.db).tasks.get i = none := by
  let keys := (p.db.tasks.select fun r => isOldDone
    (now - timedeltaDays cfg.retentionDoneTasksDays) r.2).map Prod.fst
  have hselect : selectDone cfg now (purgeLimit cfg limit) p.db =
      keys.take (purgeLimit cfg limit) := by
    rw [selectDone, if_pos hold.1]
    rfl
  have hgone : ∀ i, i ∈ keys.take (purgeLimit cfg limit) →
      (p.db.tasks.get i).isSome ∧ (purgeOldData cfg now limit p.db).tasks.get i = none := by
    intro i hi
    obtain ⟨r, hr, rfl⟩ := List.mem_map.mp (List.mem_of_mem_take hi)
    obtain ⟨hget, -⟩ := (Table.mem_select _ _ _ _).mp hr
    refine ⟨by rw [hget]; rfl, (purgeOldData_gone ((Table.get_eq_some_iff _ _ _).mp hget)).mpr ?_⟩
    exact .inl (hselect ▸ hi)
  have hsorted : keys.Pairwise (· < ·) :=
    p.db.tasks.sorted.sublist (List.filter_sublist.map Prod.fst)
  have hmem : id ∈ keys :=
    List.mem_map.mpr ⟨(id, row), (Table.mem_select _ _ _ _).mpr ⟨hrow, hold.2⟩, rfl⟩
  have hnot : id ∉ keys.take (purgeLimit cfg limit) := by
    intro hi
    rw [(hgone id hi).2] at hleft
    cases hleft
  obtain ⟨hlength, hbefore⟩ := take_before hsorted hmem hnot
  refine ⟨(keys.take (purgeLimit cfg limit)).toFinset, ?_, fun i hi => ?_⟩
  · rw [List.toFinset_card_of_nodup, hlength]
    exact (hsorted.imp fun h => Nat.ne_of_lt h).sublist (List.take_sublist _ _)
  · rw [List.mem_toFinset] at hi
    exact ⟨Nat.le_of_lt (hbefore i hi), hgone i hi⟩

/-- No later task comes before an older one that retention is to delete. -/
theorem retention_drains (cfg : Settings) (hterm : row.status ∈ terminal) (n : Nat) :
    Drains (Platform.step cfg) (Keeps id row) (fun _ a => ¬ a.Requeues id row.status) (upTo id) id
      (Action.purges cfg row n) n where
  keeps := by
    intro p a h hkept
    refine ⟨h.sound.step cfg a, Nat.lt_of_lt_of_le h.known (step_gone h.sound a).1, fun r hr => ?_⟩
    obtain ⟨r₀, hr₀⟩ := row_before h.sound h.known hr
    obtain rfl := h.row r₀ hr₀
    exact step_unwritten h.sound hr₀ hterm hkept hr
  finite := fun p _ => selected_finite _ _
  shrinks := by
    rintro p a h - i hi
    obtain ⟨hle, hsome⟩ := mem_upTo.mp hi
    obtain ⟨r', hr'⟩ := Option.isSome_iff_exists.mp hsome
    obtain ⟨r, hr⟩ := row_before h.sound (Nat.lt_of_le_of_lt hle h.known) hr'
    exact mem_upTo.mpr ⟨hle, by rw [hr]; rfl⟩
  takes := by
    intro p a h hkept hserves hid
    obtain ⟨now, limit, rfl, hold, hn⟩ : ∃ now limit, a = .purgeOldData now limit ∧
        FinishedFor cfg.retentionDoneTasksDays now row ∧ n ≤ purgeLimit cfg limit := by
      cases a <;> simp [Action.purges] at hserves ⊢
      exact hserves
    have hleft := (mem_upTo.mp hid).2
    obtain ⟨r', hr'⟩ := Option.isSome_iff_exists.mp hleft
    obtain ⟨r, hr⟩ := row_before h.sound h.known hr'
    obtain rfl := h.row r hr
    obtain ⟨T, hcard, hT⟩ := purge_takes hr hold hleft
    refine ⟨T, by rw [hcard]; exact hn, fun i hi => ?_⟩
    obtain ⟨hle, hsome, hgone⟩ := hT i hi
    refine ⟨mem_upTo.mpr ⟨hle, hsome⟩, fun hi' => ?_⟩
    rw [mem_upTo, show (p.step cfg (.purgeOldData now limit)).db.tasks.get i = none from hgone]
      at hi'
    cases hi'.2

end

/-- A finished task is deleted after a bounded number of ticks that come late enough for it: they
need only take as many tasks as there were up to its id at the beginning, whatever is created,
finished and deleted in between, unless the task is put back into the queue. -/
theorem retention_deletes_within (cfg : Settings) (before later : List Action) {id : TaskId}
    {row : Task} (n : Nat) (hrow : (Platform.after cfg before).db.tasks.get id = some row)
    (hterm : row.status ∈ terminal) (hkept : ∀ a ∈ later, ¬ a.Requeues id row.status)
    (hticks : ((Platform.after cfg before).db.tasks.select fun r => decide (r.1 ≤ id)).length ≤
      later.countP (Action.purges cfg row n) * n) :
    (Platform.after cfg (before ++ later)).db.tasks.get id = none := by
  have hkeeps : Keeps id row (Platform.after cfg before) :=
    ⟨Platform.after_sound cfg before, Table.get_lt hrow, fun r hr =>
      Option.some.inj (hr.symm.trans hrow)⟩
  have htaken := (retention_drains cfg hterm n).taken hkeeps (along_of_forall hkept)
    ((selected_ncard _ _).trans_le hticks)
  rw [Platform.after, run_append]
  by_contra hsome
  exact htaken (mem_upTo.mpr ⟨le_refl id, Option.isSome_iff_ne_none.mpr hsome⟩)

/-- Two tasks succeed; a third one is created between the two ticks, each of which deletes one. -/
def twoDoneRun : List Action :=
  [.createTask 0 plainSpec, .createTask 0 plainSpec, .start 1 "w1" 1, .recordSuccess 2 "w1" "{}",
    .start 3 "w1" 2, .recordSuccess 4 "w1" "{}"]

def twoPurges : List Action :=
  [.purgeOldData 3000000000000 (some 1), .createTask 3000000000001 plainSpec,
    .purgeOldData 3000000000002 (some 1)]

theorem retention_deletes_within_twoPurges :
    (Platform.after .default (twoDoneRun ++ twoPurges)).db.tasks.get 2 = none := by
  obtain ⟨row, hrow⟩ := Option.isSome_iff_exists.mp (by decide +kernel :
    ((Platform.after .default twoDoneRun).db.tasks.get 2).isSome = true)
  have hfacts : ((Platform.after .default twoDoneRun).db.tasks.get 2).all (fun row =>
      decide (row.status = .success) &&
        decide (((Platform.after .default twoDoneRun).db.tasks.select fun r =>
          decide (r.1 ≤ 2)).length ≤ twoPurges.countP (Action.purges .default row 1) * 1)) =
        true := by
    decide +kernel
  rw [hrow, Option.all_some, Bool.and_eq_true, decide_eq_true_eq, decide_eq_true_eq] at hfacts
  obtain ⟨hs, hticks⟩ := hfacts
  exact retention_deletes_within .default twoDoneRun twoPurges 1 hrow (by rw [hs]; decide)
    (by simp [twoPurges, Action.Requeues]) hticks

end TaskPlatform
