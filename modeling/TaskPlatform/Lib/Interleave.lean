import TaskPlatform.Lib.Schedule

/-!
# Two transactions on one row

Two transactions statement by statement: one statement reads the row, one updates
it through what was read, and a commit makes the update visible. An update takes
the lock of the row and waits while the other transaction has it; a locking read
takes it too, and passes over a row that is locked. The result is that of a
serial order unless each transaction reads before the other commits.
-/

namespace Interleave

open Run Schedule

variable {δ ρ : Type}

/-- `read` is the reading statement with the guard that follows it; `write` is all that the
transaction commits if the guard lets it, `refuse` what it commits otherwise. -/
structure Transaction (δ ρ : Type) where
  locks : Bool
  read : δ → Option ρ
  write : δ → ρ → δ
  refuse : δ → δ

def Transaction.finish (t : Transaction δ ρ) : Option ρ → δ → δ
  | some r, d => t.write d r
  | none, d => t.refuse d

/-- The transaction without another one beside it. -/
def Transaction.alone (t : Transaction δ ρ) (d : δ) : δ := t.finish (t.read d) d

theorem Transaction.finish_none (t : Transaction δ ρ) (d : δ) : t.finish none d = t.refuse d := rfl

theorem Transaction.alone_some {t : Transaction δ ρ} {d : δ} {r : ρ} (h : t.read d = some r) :
    t.alone d = t.write d r := by
  rw [alone, h, finish]

theorem Transaction.alone_none {t : Transaction δ ρ} {d : δ} (h : t.read d = none) :
    t.alone d = t.refuse d := by
  rw [alone, h, finish]

inductive Side where
  | left | right
  deriving DecidableEq, Repr

def Side.other : Side → Side
  | .left => .right
  | .right => .left

inductive Stmt where
  | read | write | commit
  deriving DecidableEq, Repr

abbrev Statements := List (Side × Stmt)

inductive Stage (ρ : Type) where
  | begun
  | read (r : Option ρ)
  | written (r : ρ)
  | committed
  deriving DecidableEq, Repr

/-- Whether a transaction at this stage has the lock of the row. -/
def Stage.locked (locks : Bool) : Stage ρ → Bool
  | .written _ => true
  | .read (some _) => locks
  | _ => false

structure State (δ ρ : Type) where
  db : δ
  stage : Side → Stage ρ

def State.start (d : δ) : State δ ρ := ⟨d, fun _ => .begun⟩

def State.move (s : State δ ρ) (x : Side) (stage : Stage ρ) : State δ ρ :=
  { s with stage := Function.update s.stage x stage }

@[simp] theorem State.move_db (s : State δ ρ) (x : Side) (stage : Stage ρ) :
    (s.move x stage).db = s.db := rfl

@[simp] theorem State.move_self (s : State δ ρ) (x : Side) (stage : Stage ρ) :
    (s.move x stage).stage x = stage := by simp [State.move]

@[simp] theorem State.move_other (s : State δ ρ) (x : Side) (stage : Stage ρ) :
    (s.move x stage).stage x.other = s.stage x.other := by
  cases x <;> simp [State.move, Side.other]

@[simp] theorem Side.other_other (x : Side) : x.other.other = x := by cases x <;> rfl

/-- The next statement of one side, or `none` where it has to wait or is not its next. -/
def step (t : Side → Transaction δ ρ) (s : State δ ρ) (x : Side × Stmt) : Option (State δ ρ) :=
  let locked := (s.stage x.1.other).locked (t x.1.other).locks
  match x.2, s.stage x.1 with
  | .read, .begun =>
    some (s.move x.1 (.read (if (t x.1).locks && locked then none else (t x.1).read s.db)))
  | .write, .read (some r) => if locked then none else some (s.move x.1 (.written r))
  | .commit, .read none => some { s.move x.1 .committed with db := (t x.1).refuse s.db }
  | .commit, .written r => some { s.move x.1 .committed with db := (t x.1).write s.db r }
  | _, _ => none

/-- Each transaction reads before the other commits; if the right one reads with a lock, it also
reads before the left one updates. -/
def Overlap (locks : Bool) (σ : Statements) : Prop :=
  (.left, .read) ∈ before σ (.right, .commit) ∧ (.right, .read) ∈ before σ (.left, .commit) ∧
    (locks = true → (.left, .write) ∉ before σ (.right, .read))

instance (locks : Bool) (σ : Statements) : Decidable (Overlap locks σ) := by
  unfold Overlap; infer_instance

/-- The side has read `r` and not committed. -/
def Holds (s : State δ ρ) (x : Side) (r : Option ρ) : Prop :=
  s.stage x = .read r ∨ ∃ a, r = some a ∧ s.stage x = .written a

/-- What is known after a schedule without commits. The left side reads without a lock. -/
structure Uncommitted (t : Side → Transaction δ ρ) (d : δ) (σ : Statements) (s : State δ ρ) :
    Prop where
  db : s.db = d
  left : ((.left, .read) ∉ σ ∧ s.stage .left = .begun) ∨
    ((.left, .read) ∈ σ ∧ Holds s .left ((t .left).read d))
  written : (.left, .write) ∈ σ ↔ ∃ a, s.stage .left = .written a
  right : ((.right, .read) ∉ σ ∧ s.stage .right = .begun) ∨
    ((.right, .read) ∈ σ ∧ ∃ r, Holds s .right r ∧
      if (t .right).locks = true ∧ (.left, .write) ∈ before σ (.right, .read) then r = none
      else r = (t .right).read d)

theorem Uncommitted.start (t : Side → Transaction δ ρ) (d : δ) :
    Uncommitted t d [] (State.start d) :=
  ⟨rfl, .inl ⟨by simp, rfl⟩, by simp [State.start], .inl ⟨by simp, rfl⟩⟩

/-- A statement of the left side leaves what is known of the right side. -/
theorem Uncommitted.right_append {t : Side → Transaction δ ρ} {d : δ} {σ : Statements}
    {s s' : State δ ρ} (h : Uncommitted t d σ s) {x : Side × Stmt} (hx : x ≠ (.right, .read))
    (hs : ∀ r, Holds s .right r → Holds s' .right r)
    (hbegun : s.stage .right = .begun → s'.stage .right = .begun) :
    ((.right, .read) ∉ σ ++ [x] ∧ s'.stage .right = .begun) ∨
      ((.right, .read) ∈ σ ++ [x] ∧ ∃ r, Holds s' .right r ∧
        if (t .right).locks = true ∧ (.left, .write) ∈ before (σ ++ [x]) (.right, .read)
          then r = none else r = (t .right).read d) := by
  obtain ⟨hnot, hstage⟩ | ⟨hmem, r, hr, hif⟩ := h.right
  · refine .inl ⟨?_, hbegun hstage⟩
    simpa [hnot] using hx.symm
  · exact .inr ⟨List.mem_append_left _ hmem, r, hs r hr, by rwa [before_append_of_mem hmem]⟩

/-- A statement of the right side leaves what is known of the left side. -/
theorem Uncommitted.left_append {t : Side → Transaction δ ρ} {d : δ} {σ : Statements}
    {s : State δ ρ} (h : Uncommitted t d σ s) (stmt : Stmt) (stage : Stage ρ) :
    ((.left, .read) ∉ σ ++ [(Side.right, stmt)] ∧ (s.move .right stage).stage .left = .begun) ∨
      ((.left, .read) ∈ σ ++ [(Side.right, stmt)] ∧
        Holds (s.move .right stage) .left ((t .left).read d)) := by
  obtain ⟨hnot, hbegun⟩ | ⟨hmem, hr⟩ := h.left
  · refine .inl ⟨?_, hbegun⟩
    simpa using hnot
  · exact .inr ⟨List.mem_append_left _ hmem, hr⟩

theorem Uncommitted.written_append {t : Side → Transaction δ ρ} {d : δ} {σ : Statements}
    {s : State δ ρ} (h : Uncommitted t d σ s) (stmt : Stmt) (stage : Stage ρ) :
    (.left, .write) ∈ σ ++ [(Side.right, stmt)] ↔
      ∃ a, (s.move .right stage).stage .left = .written a := by
  rw [show (s.move .right stage).stage .left = s.stage .left from rfl, ← h.written]
  simp

theorem Uncommitted.step_left {t : Side → Transaction δ ρ} {d : δ} {σ : Statements}
    {s s' : State δ ρ} (h : Uncommitted t d σ s) (hleft : (t .left).locks = false) {stmt : Stmt}
    (hstmt : stmt ≠ .commit) (hstep : step t s (.left, stmt) = some s') :
    Uncommitted t d (σ ++ [(.left, stmt)]) s' := by
  unfold Interleave.step at hstep
  simp only at hstep
  split at hstep
  · rename_i hbegun
    simp only [hleft, Bool.false_and, Bool.false_eq_true, if_false, Option.some.injEq] at hstep
    subst hstep
    refine ⟨h.db, .inr ⟨by simp, .inl ?_⟩, ?_,
      h.right_append (by simp) (fun _ hr => hr) (fun hs => hs)⟩
    · rw [State.move_self, h.db]
    · simp [h.written, hbegun]
  · rename_i r hread
    split at hstep
    · cases hstep
    · cases hstep
      have hl : (.left, .read) ∈ σ ∧ Holds s .left ((t .left).read d) := by
        obtain ⟨-, hbegun⟩ | hl := h.left
        · rw [hread] at hbegun
          cases hbegun
        · exact hl
      refine ⟨h.db, .inr ⟨List.mem_append_left _ hl.1, .inr ⟨r, ?_, State.move_self _ _ _⟩⟩, ?_,
        h.right_append (by simp) (fun _ hr => hr) (fun hs => hs)⟩
      · obtain hr | ⟨a, -, ha⟩ := hl.2
        · rw [hread, Stage.read.injEq] at hr
          exact hr.symm
        · rw [hread] at ha
          cases ha
      · simp
  · exact absurd rfl hstmt
  · exact absurd rfl hstmt
  · cases hstep

/-- The left side has the lock exactly after its update. -/
theorem Uncommitted.locked_iff {t : Side → Transaction δ ρ} {d : δ} {σ : Statements}
    {s : State δ ρ} (h : Uncommitted t d σ s) (hleft : (t .left).locks = false) :
    (s.stage .left).locked (t .left).locks = true ↔ (.left, .write) ∈ σ := by
  rw [h.written, hleft]
  cases s.stage .left with
  | read r => cases r <;> simp [Stage.locked]
  | _ => simp [Stage.locked]

theorem Uncommitted.step_right {t : Side → Transaction δ ρ} {d : δ} {σ : Statements}
    {s s' : State δ ρ} (h : Uncommitted t d σ s) (hleft : (t .left).locks = false) {stmt : Stmt}
    (hstmt : stmt ≠ .commit) (hstep : step t s (.right, stmt) = some s') :
    Uncommitted t d (σ ++ [(.right, stmt)]) s' := by
  unfold Interleave.step at hstep
  simp only at hstep
  split at hstep
  · rename_i hbegun
    cases hstep
    have hnot : (.right, .read) ∉ σ := by
      obtain ⟨hnot, -⟩ | ⟨-, r, hr | ⟨a, -, ha⟩, -⟩ := h.right
      · exact hnot
      · rw [hbegun] at hr; cases hr
      · rw [hbegun] at ha; cases ha
    refine ⟨h.db, h.left_append _ _, h.written_append _ _,
      .inr ⟨by simp, _, .inl (State.move_self _ _ _), ?_⟩⟩
    rw [before_append_of_not_mem hnot]
    simp only [before, ne_eq, not_true_eq_false, decide_false, Bool.false_eq_true,
      not_false_eq_true, List.takeWhile_cons_of_neg, List.append_nil, Bool.and_eq_true, Side.other,
      h.locked_iff hleft, h.db]
    split <;> rfl
  · rename_i r hread
    split at hstep
    · cases hstep
    · cases hstep
      refine ⟨h.db, h.left_append _ _, h.written_append _ _,
        h.right_append (by simp) (fun r' hr' => ?_) ?_⟩
      · obtain hr | ⟨a, -, ha⟩ := hr'
        · rw [hread] at hr
          cases hr
          exact .inr ⟨r, rfl, State.move_self _ _ _⟩
        · rw [hread] at ha
          cases ha
      · intro hbegun
        rw [hread] at hbegun
        cases hbegun
  · exact absurd rfl hstmt
  · exact absurd rfl hstmt
  · cases hstep

theorem Uncommitted.step {t : Side → Transaction δ ρ} {d : δ} {σ : Statements} {s s' : State δ ρ}
    (h : Uncommitted t d σ s) (hleft : (t .left).locks = false) {x : Side × Stmt}
    (hx : x.2 ≠ .commit) (hstep : step t s x = some s') : Uncommitted t d (σ ++ [x]) s' := by
  obtain ⟨side, stmt⟩ := x
  cases side with
  | left => exact h.step_left hleft hx hstep
  | right => exact h.step_right hleft hx hstep

theorem uncommitted_exec {t : Side → Transaction δ ρ} {d : δ} (hleft : (t .left).locks = false)
    {σ τ : Statements} {s s' : State δ ρ} (h : Uncommitted t d σ s) (hτ : ∀ x ∈ τ, x.2 ≠ .commit)
    (hexec : exec (step t) s τ = some s') : Uncommitted t d (σ ++ τ) s' := by
  induction τ generalizing σ s with
  | nil =>
    cases hexec
    rwa [List.append_nil]
  | cons x τ ih =>
    rw [exec_cons, Option.bind_eq_some_iff] at hexec
    obtain ⟨u, hu, hrest⟩ := hexec
    have hnext := h.step hleft (hτ x List.mem_cons_self) hu
    have := ih hnext (fun y hy => hτ y (List.mem_cons_of_mem _ hy)) hrest
    rwa [List.append_assoc] at this

/-- What the side still makes of the database when it runs alone from here. -/
def State.result (t : Side → Transaction δ ρ) (s : State δ ρ) (x : Side) : δ :=
  match s.stage x with
  | .begun => (t x).alone s.db
  | .read r => (t x).finish r s.db
  | .written r => (t x).write s.db r
  | .committed => s.db

theorem Holds.result {t : Side → Transaction δ ρ} {s : State δ ρ} {x : Side} {r : Option ρ}
    (h : Holds s x r) : s.result t x = (t x).finish r s.db := by
  obtain hr | ⟨a, rfl, ha⟩ := h
  · simp [State.result, hr]
  · simp [State.result, ha, Transaction.finish]

/-- A commit makes of the database what the side read it for. -/
theorem commit_step {t : Side → Transaction δ ρ} {s s' : State δ ρ} {x : Side} {r : Option ρ}
    (hr : Holds s x r) (h : step t s (x, .commit) = some s') :
    s'.db = (t x).finish r s.db ∧ s'.stage x = .committed ∧
      s'.stage x.other = s.stage x.other := by
  obtain hr | ⟨a, rfl, ha⟩ := hr
  · cases r with
    | none =>
      simp only [step, hr, Option.some.injEq] at h
      subst h
      exact ⟨rfl, State.move_self _ _ _, State.move_other _ _ _⟩
    | some a => simp [step, hr] at h
  · simp only [step, ha, Option.some.injEq] at h
    subst h
    exact ⟨rfl, State.move_self _ _ _, State.move_other _ _ _⟩

/-- With one side committed, every step is one of the other and leads to its result. -/
theorem result_step {t : Side → Transaction δ ρ} {s s' : State δ ρ} {x : Side}
    (hx : s.stage x.other = .committed) {y : Side × Stmt} (h : step t s y = some s') :
    s'.stage x.other = .committed ∧ s'.result t x = s.result t x := by
  obtain ⟨side, stmt⟩ := y
  have hside : side = x := by
    by_contra hne
    have hother : side = x.other := by cases side <;> cases x <;> simp_all [Side.other]
    subst hother
    cases stmt <;> simp [step, hx] at h
  subst hside
  have hfree : (s.stage side.other).locked (t side.other).locks = false := by
    simp [hx, Stage.locked]
  unfold step at h
  simp only [hfree, Bool.and_false, Bool.false_eq_true, if_false] at h
  split at h
  · rename_i hstage
    cases h
    exact ⟨by simp [hx], by simp [State.result, hstage, Transaction.alone]⟩
  · rename_i r hstage
    cases h
    exact ⟨by simp [hx], by simp [State.result, hstage, Transaction.finish]⟩
  · rename_i hstage
    cases h
    refine ⟨(State.move_other s side _).trans hx, ?_⟩
    simp only [State.result, hstage, Transaction.finish]
    rw [show (s.move side .committed).stage side = .committed from State.move_self _ _ _]
  · rename_i r hstage
    cases h
    refine ⟨(State.move_other s side _).trans hx, ?_⟩
    simp only [State.result, hstage]
    rw [show (s.move side .committed).stage side = .committed from State.move_self _ _ _]
  · cases h

theorem result_exec {t : Side → Transaction δ ρ} {s s' : State δ ρ} {x : Side}
    (hx : s.stage x.other = .committed) {τ : Statements} (h : exec (step t) s τ = some s')
    (hdone : s'.stage x = .committed) : s'.db = s.result t x := by
  have hinv := exec_invariant
    (P := fun u : State δ ρ => u.stage x.other = .committed ∧ u.result t x = s.result t x)
    (fun u y v hu hv => by
      obtain ⟨hc, hr⟩ := result_step hu.1 hv
      exact ⟨hc, hr.trans hu.2⟩) ⟨hx, rfl⟩ h
  rw [← hinv.2, State.result, hdone]

/-- Overlapping, as seen when the first transaction commits. -/
theorem overlap_iff {locks : Bool} {l m : Statements} {x : Side} (hnot : ∀ y, (y, Stmt.commit) ∉ l)
    (hx : (x, .read) ∈ l) : Overlap locks (l ++ (x, .commit) :: m) ↔
      (.left, .read) ∈ l ∧ (.right, .read) ∈ l ∧
        (locks = true → (.left, .write) ∉ before l (.right, .read)) := by
  have hself : before (l ++ (x, .commit) :: m) (x, .commit) = l := by
    rw [before_append_of_not_mem (hnot x)]
    simp [before]
  have hmem : ∀ y z, z ∈ l → z ∈ before (l ++ (x, .commit) :: m) (y, .commit) := by
    intro y z hz
    rw [before_append_of_not_mem (hnot y)]
    exact List.mem_append_left _ hz
  have hlock : (.right, .read) ∈ l →
      before (l ++ (x, .commit) :: m) (.right, .read) = before l (.right, .read) :=
    fun hr => before_append_of_mem hr _
  unfold Overlap
  constructor
  · rintro ⟨hl, hr, hw⟩
    have hboth : (.left, .read) ∈ l ∧ (.right, .read) ∈ l := by
      cases x with
      | left => rw [hself] at hr; exact ⟨hx, hr⟩
      | right => rw [hself] at hl; exact ⟨hl, hx⟩
    rw [hlock hboth.2] at hw
    exact ⟨hboth.1, hboth.2, hw⟩
  · rintro ⟨hl, hr, hw⟩
    rw [hlock hr]
    exact ⟨hmem _ _ hl, hmem _ _ hr, hw⟩

/-- Either the transactions do not overlap and the result is that of a serial order, or both go
through what they read at the start; a locking read that found the row locked read nothing. -/
def ResultOf (t : Side → Transaction δ ρ) (d : δ) (σ : Statements) (result : δ) : Prop :=
  (¬ Overlap (t .right).locks σ ∧ (result = (t .right).alone ((t .left).alone d) ∨
    result = (t .left).alone ((t .right).alone d))) ∨
  ∃ r, ((Overlap (t .right).locks σ ∧ r = (t .right).read d) ∨
      (¬ Overlap (t .right).locks σ ∧ (t .right).locks = true ∧ r = none ∧
        ((t .left).read d).isSome)) ∧
    (result = (t .right).finish r ((t .left).alone d) ∨
      result = (t .left).finish ((t .left).read d) ((t .right).finish r d))

theorem Holds.of_stage {s s' : State δ ρ} {x : Side} {r : Option ρ} (h : Holds s x r)
    (hstage : s'.stage x = s.stage x) : Holds s' x r := by
  unfold Holds
  rw [hstage]
  exact h

section

variable {t : Side → Transaction δ ρ} {d : δ} {l m : Statements} {s u v : State δ ρ}

/-- The left side has read a row if it updates one. -/
theorem Uncommitted.read_of_written (h : Uncommitted t d l u) (hw : (.left, .write) ∈ l) :
    ((t .left).read d).isSome := by
  obtain ⟨a, ha⟩ := h.written.mp hw
  obtain ⟨-, hbegun⟩ | ⟨-, hr | ⟨b, hb, -⟩⟩ := h.left
  · rw [ha] at hbegun; cases hbegun
  · rw [ha] at hr; cases hr
  · rw [hb]; rfl

/-- Both sides have read before the first commit: they overlap, or the right one was too late. -/
theorem Uncommitted.overlap_cases (h : Uncommitted t d l u) (hnot : ∀ y, (y, Stmt.commit) ∉ l)
    (x : Side) (hl : (.left, .read) ∈ l) (hr : (.right, .read) ∈ l) {r : Option ρ}
    (hif : if (t .right).locks = true ∧ (.left, .write) ∈ before l (.right, .read) then r = none
      else r = (t .right).read d) :
    (Overlap (t .right).locks (l ++ (x, .commit) :: m) ∧ r = (t .right).read d) ∨
      (¬ Overlap (t .right).locks (l ++ (x, .commit) :: m) ∧ (t .right).locks = true ∧ r = none ∧
        ((t .left).read d).isSome) := by
  have hx : (x, .read) ∈ l := by
    cases x with
    | left => exact hl
    | right => exact hr
  rw [overlap_iff hnot hx]
  split at hif
  · rename_i hskip
    refine .inr ⟨fun ho => ho.2.2 hskip.1 hskip.2, hskip.1, hif, ?_⟩
    exact h.read_of_written (mem_of_mem_before hskip.2)
  · rename_i hskip
    exact .inl ⟨⟨hl, hr, fun hlock hw => hskip ⟨hlock, hw⟩⟩, hif⟩

/-- The left side commits first. -/
theorem Uncommitted.result_left (h : Uncommitted t d l u) (hnot : ∀ y, (y, Stmt.commit) ∉ l)
    (hv : Interleave.step t u (.left, .commit) = some v)
    (hm : exec (Interleave.step t) v m = some s) (hdone : ∀ x, s.stage x = .committed) :
    ResultOf t d (l ++ (.left, .commit) :: m) s.db := by
  obtain ⟨-, hbegun⟩ | ⟨hread, hholds⟩ := h.left
  · simp [Interleave.step, hbegun] at hv
  obtain ⟨hdb, hcommitted, hother⟩ := commit_step hholds hv
  have hs : s.db = v.result t .right := result_exec hcommitted hm (hdone .right)
  rw [h.db] at hdb
  obtain ⟨hnr, hbegun⟩ | ⟨hmem, r, hr, hif⟩ := h.right
  · refine .inl ⟨?_, .inl ?_⟩
    · rw [overlap_iff hnot hread]
      exact fun ho => hnr ho.2.1
    · rw [hs, State.result, show v.stage .right = .begun from hother.trans hbegun, hdb]
      rfl
  · rw [(hr.of_stage hother).result, hdb] at hs
    exact .inr ⟨r, h.overlap_cases hnot .left hread hmem hif, .inl hs⟩

/-- The right side commits first. -/
theorem Uncommitted.result_right (h : Uncommitted t d l u) (hnot : ∀ y, (y, Stmt.commit) ∉ l)
    (hv : Interleave.step t u (.right, .commit) = some v)
    (hm : exec (Interleave.step t) v m = some s) (hdone : ∀ x, s.stage x = .committed) :
    ResultOf t d (l ++ (.right, .commit) :: m) s.db := by
  obtain ⟨-, hbegun⟩ | ⟨hmem, r, hr, hif⟩ := h.right
  · simp [Interleave.step, hbegun] at hv
  obtain ⟨hdb, hcommitted, hother⟩ := commit_step hr hv
  have hs : s.db = v.result t .left := result_exec hcommitted hm (hdone .left)
  rw [h.db] at hdb
  obtain ⟨hnr, hbegun⟩ | ⟨hread, hholds⟩ := h.left
  · refine .inl ⟨?_, .inr ?_⟩
    · rw [overlap_iff hnot hmem]
      exact fun ho => hnr ho.1
    · rw [hs, State.result, show v.stage .left = .begun from hother.trans hbegun, hdb]
      split at hif
      · -- the left side has not even read, so it cannot have locked the row
        rename_i hskip
        obtain ⟨a, ha⟩ := h.written.mp (mem_of_mem_before hskip.2)
        rw [hbegun] at ha
        cases ha
      · rw [hif]
        rfl
  · rw [(hholds.of_stage hother).result, hdb] at hs
    exact .inr ⟨r, h.overlap_cases hnot .right hread hmem hif, .inr hs⟩

end

/-- Every complete schedule has one of these results. -/
theorem result_cases {t : Side → Transaction δ ρ} {d : δ} (hleft : (t .left).locks = false)
    {σ : Statements} {s : State δ ρ} (h : exec (step t) (State.start d) σ = some s)
    (hdone : ∀ x, s.stage x = .committed) : ResultOf t d σ s.db := by
  cases hfind : σ.find? (fun x => decide (x.2 = .commit)) with
  | none =>
    -- without a commit nobody is done
    have hnone : ∀ x ∈ σ, x.2 ≠ .commit := by simpa using hfind
    have hpre := uncommitted_exec hleft (Uncommitted.start t d) hnone h
    obtain ⟨-, hl⟩ | ⟨-, hl | ⟨a, -, hl⟩⟩ := hpre.left
    · rw [hdone .left] at hl; cases hl
    · rw [hdone .left] at hl; cases hl
    · rw [hdone .left] at hl; cases hl
  | some c =>
    obtain ⟨hc, l, m, rfl, hfirst⟩ := List.find?_eq_some_iff_append.mp hfind
    have hnone : ∀ x ∈ l, x.2 ≠ .commit := by simpa using hfirst
    obtain ⟨x, stmt⟩ := c
    simp only [decide_eq_true_eq] at hc
    subst hc
    rw [exec_append, Option.bind_eq_some_iff] at h
    obtain ⟨u, hu, hrest⟩ := h
    rw [exec_cons, Option.bind_eq_some_iff] at hrest
    obtain ⟨v, hv, hm⟩ := hrest
    have hpre : Uncommitted t d l u := uncommitted_exec hleft (Uncommitted.start t d) hnone hu
    have hnot : ∀ y, (y, Stmt.commit) ∉ l := fun y hy => hnone _ hy rfl
    cases x with
    | left => exact hpre.result_left hnot hv hm hdone
    | right => exact hpre.result_right hnot hv hm hdone

end Interleave
