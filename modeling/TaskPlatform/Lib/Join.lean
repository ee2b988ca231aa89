import TaskPlatform.Lib.Schedule

/-!
# A join of concurrent members

Each member finishes in a transaction of its own: it reads whether the join is
there, whether it is still blocked, and whether all the other members have
committed, and releases the join if so. One more transaction creates the join.
A member sees its own write and what was committed when the statement began. The
join is released at most once, and it is released exactly if some member reads
the list after the creation was committed, and the others after all their
commits.
-/

namespace Join

open Run Schedule

variable {ι : Type} [DecidableEq ι]

/-- `create` and `commit` are commits; the others are statements of a member. -/
inductive Stmt (ι : Type) where
  | create
  | list (p : ι)
  | get (p : ι)
  | check (p : ι)
  | update (p : ι)
  | commit (p : ι)
  deriving DecidableEq, Repr

/-- `idle` has nothing left to do but to commit. -/
inductive Stage where
  | begun | listed | found | ready | updated | idle | committed
  deriving DecidableEq, Repr

structure State (ι : Type) where
  created : Bool
  released : Nat
  stage : ι → Stage

def State.start : State ι := ⟨false, 0, fun _ => .begun⟩

def State.move (s : State ι) (p : ι) (stage : Stage) : State ι :=
  { s with stage := Function.update s.stage p stage }

@[simp] theorem State.move_self (s : State ι) (p : ι) (stage : Stage) :
    (s.move p stage).stage p = stage := by simp [State.move]

@[simp] theorem State.move_of_ne (s : State ι) {p q : ι} (stage : Stage) (h : q ≠ p) :
    (s.move p stage).stage q = s.stage q := by simp [State.move, h]

@[simp] theorem State.move_stage (s : State ι) (p : ι) : s.move p (s.stage p) = s := by
  simp [State.move]

@[simp] theorem State.move_created (s : State ι) (p : ι) (stage : Stage) :
    (s.move p stage).created = s.created := rfl

@[simp] theorem State.move_released (s : State ι) (p : ι) (stage : Stage) :
    (s.move p stage).released = s.released := rfl

def step (members : List ι) (s : State ι) : Stmt ι → Option (State ι)
  | .create => if s.created then none else some { s with created := true }
  | .list p =>
    if p ∈ members ∧ s.stage p = .begun then some (s.move p (if s.created then .listed else .idle))
    else none
  | .get p =>
    if s.stage p = .listed then some (s.move p (if s.released = 0 then .found else .idle))
    else none
  | .check p =>
    if s.stage p = .found then
      some (s.move p (if ∀ q ∈ members, q ≠ p → s.stage q = .committed then .ready else .idle))
    else none
  | .update p => if s.stage p = .ready then some (s.move p .updated) else none
  | .commit p =>
    if s.stage p = .idle then some (s.move p .committed)
    else if s.stage p = .updated then
      some { s.move p .committed with released := s.released + 1 }
    else none

/-- The member reads the list after the join was created, and the others after they committed. -/
def Wakes (members : List ι) (σ : List (Stmt ι)) (p : ι) : Prop :=
  .create ∈ before σ (.list p) ∧ .check p ∈ σ ∧
    ∀ q ∈ members, q ≠ p → .commit q ∈ before σ (.check p)

/-- A later statement changes nothing of this. -/
theorem wakes_append {members : List ι} {σ : List (Stmt ι)} {p : ι} {x : Stmt ι}
    (hlist : .list p ∈ σ) (hx : x ≠ .check p) : Wakes members (σ ++ [x]) p ↔ Wakes members σ p := by
  unfold Wakes
  rw [before_append_of_mem hlist]
  by_cases hcheck : .check p ∈ σ
  · rw [before_append_of_mem hcheck]
    simp [hcheck]
  · simp [hcheck, hx.symm]

/-- What is known of a member at this stage. -/
structure Turn (members : List ι) (σ : List (Stmt ι)) (p : ι) (stage : Stage) : Prop where
  begun : stage = .begun → .list p ∉ σ ∧ .check p ∉ σ
  listed : stage ≠ .begun → .list p ∈ σ
  found : stage = .listed ∨ stage = .found → .create ∈ before σ (.list p) ∧ .check p ∉ σ
  ready : stage = .ready ∨ stage = .updated → Wakes members σ p
  idle : stage = .idle → ¬ Wakes members σ p
  committed : .commit p ∈ σ ↔ stage = .committed
  order : stage = .committed → .check p ∈ σ → .check p ∈ before σ (.commit p)

/-- A statement that is not of this member leaves what is known of it. -/
theorem Turn.append {members : List ι} {σ : List (Stmt ι)} {p : ι} {stage : Stage} {x : Stmt ι}
    (h : Turn members σ p stage) (hlist : x ≠ .list p) (hcheck : x ≠ .check p)
    (hcommit : x ≠ .commit p) : Turn members (σ ++ [x]) p stage where
  begun := by
    intro hs
    simpa [hlist.symm, hcheck.symm] using h.begun hs
  listed := fun hs => List.mem_append_left _ (h.listed hs)
  found := by
    intro hs
    have hmem := h.listed (by rintro rfl; simp at hs)
    rw [before_append_of_mem hmem]
    simpa [hcheck.symm] using h.found hs
  ready := fun hs =>
    (wakes_append (h.listed (by rintro rfl; simp at hs)) hcheck).mpr (h.ready hs)
  idle := fun hs hw =>
    h.idle hs ((wakes_append (h.listed (by rintro rfl; cases hs)) hcheck).mp hw)
  committed := by simpa [hcommit.symm] using h.committed
  order := by
    intro hs hmem
    have hmem' : .check p ∈ σ := by simpa [hcheck.symm] using hmem
    rw [before_append_of_mem (h.committed.mpr hs)]
    exact h.order hs hmem'

structure Known (members : List ι) (σ : List (Stmt ι)) (s : State ι) : Prop where
  created : .create ∈ σ ↔ s.created = true
  turn : ∀ p, Turn members σ p (s.stage p)
  member : ∀ p, s.stage p ≠ .begun → p ∈ members
  released : s.released ≤ 1
  releasedBy : s.released = 1 ↔ ∃ p, s.stage p = .committed ∧ Wakes members σ p

theorem Known.start (members : List ι) : Known members [] State.start where
  created := by simp [State.start]
  turn := by
    intro p
    constructor <;> simp [State.start]
  member := by simp [State.start]
  released := by simp [State.start]
  releasedBy := by simp [State.start]

/-- Two members that both find all the others committed are the same. -/
theorem Known.unique {members : List ι} {σ : List (Stmt ι)} {s : State ι} (h : Known members σ s)
    {p q : ι} (hp : Wakes members σ p) (hq : Wakes members σ q) (hmp : p ∈ members)
    (hmq : q ∈ members) : p = q := by
  by_contra hne
  have hqp := hp.2.2 q hmq (Ne.symm hne)
  have hpq := hq.2.2 p hmp hne
  have hp' := (h.turn p).order ((h.turn p).committed.mp (mem_of_mem_before hpq)) hp.2.1
  have hq' := (h.turn q).order ((h.turn q).committed.mp (mem_of_mem_before hqp)) hq.2.1
  exact not_mem_before_self σ (.check p)
    (mem_before_trans hp' (mem_before_trans hpq (mem_before_trans hq' hqp)))

/-- The members other than the one that takes a step keep what is known of them. -/
theorem Known.turn_move {members : List ι} {σ : List (Stmt ι)} {s : State ι}
    (h : Known members σ s) {p : ι} {stage : Stage} {x : Stmt ι}
    (hx : ∀ q, q ≠ p → x ≠ .list q ∧ x ≠ .check q ∧ x ≠ .commit q)
    (hp : Turn members (σ ++ [x]) p stage) (q : ι) :
    Turn members (σ ++ [x]) q ((s.move p stage).stage q) := by
  by_cases hq : q = p
  · subst hq
    rwa [State.move_self]
  · rw [State.move_of_ne _ _ hq]
    exact (h.turn q).append (hx q hq).1 (hx q hq).2.1 (hx q hq).2.2

/-- A step that commits nothing leaves the releases as they are. -/
theorem Known.releasedBy_move {members : List ι} {σ : List (Stmt ι)} {s : State ι}
    (h : Known members σ s) {p : ι} {stage : Stage} {x : Stmt ι} (hx : ∀ q, q ≠ p → x ≠ .check q)
    (hs : s.stage p ≠ .committed) (hstage : stage ≠ .committed) :
    s.released = 1 ↔ ∃ q, (s.move p stage).stage q = .committed ∧ Wakes members (σ ++ [x]) q := by
  rw [h.releasedBy]
  refine exists_congr fun q => ?_
  by_cases hq : q = p
  · subst hq
    simp [hs, hstage]
  · rw [State.move_of_ne _ _ hq]
    refine and_congr_right fun hc => ?_
    rw [wakes_append ((h.turn q).listed (by rw [hc]; decide)) (hx q hq)]

theorem Known.member_move {members : List ι} {σ : List (Stmt ι)} {s : State ι}
    (h : Known members σ s) {p : ι} (stage : Stage) (hp : p ∈ members) (q : ι)
    (hq : (s.move p stage).stage q ≠ .begun) : q ∈ members := by
  by_cases he : q = p
  · rwa [he]
  · rw [State.move_of_ne _ _ he] at hq
    exact h.member q hq

theorem Known.open_member {members : List ι} {σ : List (Stmt ι)} {s : State ι}
    (h : Known members σ s) {p : ι} {stage : Stage} (hp : s.stage p = stage)
    (hstage : stage ≠ .committed) : .commit p ∉ σ :=
  fun hm => hstage (hp ▸ (h.turn p).committed.mp hm)

theorem Known.create {members : List ι} {σ : List (Stmt ι)} {s : State ι}
    (h : Known members σ s) : Known members (σ ++ [.create]) { s with created := true } := by
  refine ⟨by simp, fun p => (h.turn p).append (by simp) (by simp) (by simp), h.member,
    h.released, ?_⟩
  change s.released = 1 ↔ _
  rw [h.releasedBy]
  refine exists_congr fun p => and_congr_right fun hc => ?_
  rw [wakes_append ((h.turn p).listed (by rw [hc]; decide)) (by simp)]

/-- A statement of a member that does not commit. -/
theorem Known.advance {members : List ι} {σ : List (Stmt ι)} {s : State ι}
    (h : Known members σ s) {p : ι} {stage : Stage} {x : Stmt ι} (hcreate : x ≠ .create)
    (hx : ∀ q, q ≠ p → x ≠ .list q ∧ x ≠ .check q ∧ x ≠ .commit q) (hp : p ∈ members)
    (hs : s.stage p ≠ .committed) (hstage : stage ≠ .committed)
    (hturn : Turn members (σ ++ [x]) p stage) : Known members (σ ++ [x]) (s.move p stage) where
  created := by simpa [hcreate.symm] using h.created
  turn := h.turn_move hx hturn
  member := h.member_move stage hp
  released := h.released
  releasedBy := h.releasedBy_move (fun q hq => (hx q hq).2.1) hs hstage

theorem Known.list {members : List ι} {σ : List (Stmt ι)} {s : State ι}
    (h : Known members σ s) {p : ι} (hmember : p ∈ members) (hp : s.stage p = .begun) :
    Known members (σ ++ [.list p]) (s.move p (if s.created then .listed else .idle)) := by
  obtain ⟨hlist, hcheck⟩ := (h.turn p).begun hp
  have hcommit := h.open_member hp (by decide)
  have hbefore : before (σ ++ [.list p]) (.list p) = σ := before_append_self hlist
  refine h.advance (by simp) (by simp +contextual [eq_comm]) hmember (by rw [hp]; decide)
    (by split <;> decide) ?_
  constructor
  · split <;> simp
  · simp
  · split
    · rename_i hcreated
      rw [hbefore]
      simpa [hcheck] using h.created.mpr hcreated
    · simp
  · split <;> simp
  · split
    · simp
    · rename_i hcreated
      rintro - ⟨hmem, -⟩
      rw [hbefore] at hmem
      exact hcreated (h.created.mp hmem)
  · split <;> simp [hcommit]
  · split <;> simp

theorem Known.get {members : List ι} {σ : List (Stmt ι)} {s : State ι}
    (h : Known members σ s) {p : ι} (hp : s.stage p = .listed) :
    Known members (σ ++ [.get p]) (s.move p (if s.released = 0 then .found else .idle)) := by
  obtain ⟨hcreate, hcheck⟩ := (h.turn p).found (.inl hp)
  have hlist := (h.turn p).listed (by rw [hp]; decide)
  have hcommit := h.open_member hp (by decide)
  refine h.advance (by simp) (by simp) (h.member p (by rw [hp]; decide)) (by rw [hp]; decide)
    (by split <;> decide) ?_
  constructor
  · split <;> simp
  · simp [hlist]
  · rw [before_append_of_mem hlist]
    simp [hcreate, hcheck]
  · split <;> simp
  · rintro - ⟨-, hmem, -⟩
    simp [hcheck] at hmem
  · split <;> simp [hcommit]
  · split <;> simp

theorem Known.check {members : List ι} {σ : List (Stmt ι)} {s : State ι}
    (h : Known members σ s) {p : ι} (hp : s.stage p = .found) :
    Known members (σ ++ [.check p])
      (s.move p (if ∀ q ∈ members, q ≠ p → s.stage q = .committed then .ready else .idle)) := by
  obtain ⟨hcreate, hcheck⟩ := (h.turn p).found (.inr hp)
  have hlist := (h.turn p).listed (by rw [hp]; decide)
  have hcommit := h.open_member hp (by decide)
  -- the member finds the others committed if their commits lie before this statement
  have hwakes : Wakes members (σ ++ [.check p]) p ↔
      ∀ q ∈ members, q ≠ p → s.stage q = .committed := by
    unfold Wakes
    rw [before_append_of_mem hlist, before_append_self hcheck]
    simp only [hcreate, List.mem_append, List.mem_singleton, or_true, true_and]
    exact forall₃_congr fun q _ _ => (h.turn q).committed
  refine h.advance (by simp) (by simp +contextual [eq_comm]) (h.member p (by rw [hp]; decide))
    (by rw [hp]; decide) (by split <;> decide) ?_
  constructor
  · split <;> simp
  · simp [hlist]
  · split <;> simp
  · split
    · rename_i hall
      exact fun _ => hwakes.mpr hall
    · simp
  · split
    · simp
    · rename_i hall
      exact fun _ hw => hall (hwakes.mp hw)
  · split <;> simp [hcommit]
  · split <;> simp

theorem Known.update {members : List ι} {σ : List (Stmt ι)} {s : State ι}
    (h : Known members σ s) {p : ι} (hp : s.stage p = .ready) :
    Known members (σ ++ [.update p]) (s.move p .updated) := by
  have hlist := (h.turn p).listed (by rw [hp]; decide)
  have hwakes := (h.turn p).ready (.inl hp)
  have hcommit := h.open_member hp (by decide)
  refine h.advance (by simp) (by simp) (h.member p (by rw [hp]; decide)) (by rw [hp]; decide)
    (by decide) ?_
  constructor
  · simp
  · simp [hlist]
  · simp
  · exact fun _ => (wakes_append hlist (by simp)).mpr hwakes
  · simp
  · simp [hcommit]
  · simp

/-- What is known of a member that commits. -/
theorem Known.turn_commit {members : List ι} {σ : List (Stmt ι)} {s : State ι}
    (h : Known members σ s) {p : ι} {stage : Stage} (hp : s.stage p = stage)
    (hbegun : stage ≠ .begun) (hopen : stage ≠ .committed) :
    Turn members (σ ++ [.commit p]) p .committed := by
  have hlist := (h.turn p).listed (by rwa [hp])
  have hcommit := h.open_member hp hopen
  constructor
  · simp
  · simp [hlist]
  · simp
  · simp
  · simp
  · simp
  · intro _ hcheck
    rw [before_append_self hcommit]
    simpa using hcheck

/-- A member commits that has found a reason not to release the join. -/
theorem Known.commit_idle {members : List ι} {σ : List (Stmt ι)} {s : State ι}
    (h : Known members σ s) {p : ι} (hp : s.stage p = .idle) :
    Known members (σ ++ [.commit p]) (s.move p .committed) := by
  have hlist := (h.turn p).listed (by rw [hp]; decide)
  refine ⟨by simpa using h.created,
    h.turn_move (by simp +contextual [eq_comm]) (h.turn_commit hp (by decide) (by decide)),
    h.member_move _ (h.member p (by rw [hp]; decide)), h.released, ?_⟩
  change s.released = 1 ↔ _
  rw [h.releasedBy]
  refine exists_congr fun q => ?_
  by_cases hq : q = p
  · subst hq
    have hnot : ¬ Wakes members (σ ++ [.commit q]) q := fun hw =>
      (h.turn q).idle hp ((wakes_append hlist (by simp)).mp hw)
    simp [hp, hnot]
  · rw [State.move_of_ne _ _ hq]
    refine and_congr_right fun hc => ?_
    rw [wakes_append ((h.turn q).listed (by rw [hc]; decide)) (by simp)]

/-- Nobody has released the join yet when a member that will do so commits. -/
theorem Known.commit_updated {members : List ι} {σ : List (Stmt ι)} {s : State ι}
    (h : Known members σ s) {p : ι} (hp : s.stage p = .updated) :
    Known members (σ ++ [.commit p]) { s.move p .committed with released := s.released + 1 } := by
  have hlist := (h.turn p).listed (by rw [hp]; decide)
  have hwakes := (h.turn p).ready (.inr hp)
  have hzero : s.released = 0 := by
    by_contra hne
    obtain ⟨q, hq, hw⟩ := h.releasedBy.mp (by have := h.released; omega)
    have hsame : q = p := h.unique hw hwakes (h.member q (by rw [hq]; decide))
      (h.member p (by rw [hp]; decide))
    rw [hsame, hp] at hq
    cases hq
  refine ⟨by simpa using h.created,
    h.turn_move (by simp +contextual [eq_comm]) (h.turn_commit hp (by decide) (by decide)),
    h.member_move _ (h.member p (by rw [hp]; decide)), by simp [hzero], ?_⟩
  simp only [hzero, zero_add, true_iff]
  exact ⟨p, by simp [State.move], (wakes_append hlist (by simp)).mpr hwakes⟩

theorem Known.step {members : List ι} {σ : List (Stmt ι)} {s s' : State ι}
    (h : Known members σ s) {x : Stmt ι} (hx : step members s x = some s') :
    Known members (σ ++ [x]) s' := by
  cases x with
  | create =>
    simp only [Join.step] at hx
    split at hx
    · cases hx
    · cases hx
      exact h.create
  | list p =>
    simp only [Join.step] at hx
    split at hx
    · rename_i hp
      cases hx
      exact h.list hp.1 hp.2
    · cases hx
  | get p =>
    simp only [Join.step] at hx
    split at hx
    · rename_i hp
      cases hx
      exact h.get hp
    · cases hx
  | check p =>
    simp only [Join.step] at hx
    split at hx
    · rename_i hp
      cases hx
      exact h.check hp
    · cases hx
  | update p =>
    simp only [Join.step] at hx
    split at hx
    · rename_i hp
      cases hx
      exact h.update hp
    · cases hx
  | commit p =>
    simp only [Join.step] at hx
    split at hx
    · rename_i hp
      cases hx
      exact h.commit_idle hp
    · split at hx
      · rename_i hp
        cases hx
        exact h.commit_updated hp
      · cases hx

theorem known_exec {members : List ι} {σ τ : List (Stmt ι)} {s s' : State ι}
    (h : Known members σ s) (hexec : exec (step members) s τ = some s') :
    Known members (σ ++ τ) s' := by
  induction τ generalizing σ s with
  | nil =>
    cases hexec
    rwa [List.append_nil]
  | cons x τ ih =>
    rw [exec_cons, Option.bind_eq_some_iff] at hexec
    obtain ⟨u, hu, hrest⟩ := hexec
    have hnext := ih (h.step hu) hrest
    rwa [List.append_assoc] at hnext

/-- In a run in which every member commits the join is released once or not at all, and once
exactly if one of them reads the list after the creation and the others after their commits. -/
theorem released_iff {members : List ι} {σ : List (Stmt ι)} {s : State ι}
    (h : exec (step members) State.start σ = some s)
    (hdone : ∀ p ∈ members, s.stage p = .committed) :
    s.released ≤ 1 ∧ (s.released = 1 ↔ ∃ p ∈ members, Wakes members σ p) := by
  have hknown : Known members σ s := known_exec (Known.start members) h
  refine ⟨hknown.released, ?_⟩
  rw [hknown.releasedBy]
  constructor
  · rintro ⟨p, hp, hw⟩
    exact ⟨p, hknown.member p (by rw [hp]; decide), hw⟩
  · rintro ⟨p, hp, hw⟩
    exact ⟨p, hdone p hp, hw⟩

end Join
