import TaskPlatform.Database
import TaskPlatform.Lib.Like

/-!
# The task list

`list_tasks` and `count_tasks` of `services/tasks.py`. The search text is put between two percent signs
and becomes a pattern of `ILIKE`. It is found as it stands exactly if no character of it has a meaning
in patterns.
-/

namespace TaskPlatform

open Like

def Priority.value : Priority → String
  | .critical => "critical"
  | .high => "high"
  | .normal => "normal"
  | .low => "low"

/-- The filters that `list_tasks` and `count_tasks` take. -/
structure TaskQuery where
  status : Option String
  taskType : Option String
  priority : Option String
  search : Option String
  createdFrom : Option Time
  createdTo : Option Time
  batchId : Option Nat
  createdBy : Option Nat
  deriving DecidableEq, Repr

def TaskQuery.everything : TaskQuery := ⟨none, none, none, none, none, none, none, none⟩

/-- `if text:`, neither `None` nor empty. -/
def given (text : Option String) : Option String := text.filter (· ≠ "")

variable (l : Lowering)

/-- `column.ilike(like)`; a null never matches. -/
def columnIlike (column : Option String) (pattern : String) : Bool :=
  column.any fun text => ilike l text.toList pattern.toList

def searchPattern (search : String) : String := "%" ++ search ++ "%"

def searchFilter (search : String) (task : Task) : Bool :=
  columnIlike l (some task.taskType) (searchPattern search) ||
    columnIlike l task.idempotencyKey (searchPattern search) ||
    columnIlike l task.lastError (searchPattern search)

/-- `_task_filters` -/
def taskFilters (q : TaskQuery) : List (Task → Bool) :=
  (given q.status).toList.map (fun status (task : Task) => task.status.value == status) ++
    (given q.taskType).toList.map (fun taskType (task : Task) => task.taskType == taskType) ++
    (given q.priority).toList.map (fun priority (task : Task) => task.priority.value == priority) ++
    (given q.search).toList.map (searchFilter l) ++
    q.createdFrom.toList.map
      (fun createdFrom (task : Task) => decide (createdFrom ≤ task.createdAt)) ++
    q.createdTo.toList.map (fun createdTo (task : Task) => decide (task.createdAt ≤ createdTo)) ++
    q.batchId.toList.map (fun batchId (task : Task) => task.batchId == some batchId) ++
    q.createdBy.toList.map (fun createdBy (task : Task) => task.createdBy == some createdBy)

/-- `where(*filters)` -/
def passes (q : TaskQuery) (task : Task) : Bool := (taskFilters l q).all fun filter => filter task

/-- One page of selected rows, the newest first. -/
def page (limit offset : Nat) (rows : List (TaskId × Task)) : List (TaskId × Task) :=
  (rows.reverse.drop offset).take limit

/-- `list_tasks` -/
def listTasks (db : Database) (q : TaskQuery) (limit offset : Nat) : List (TaskId × Task) :=
  page limit offset (db.tasks.select fun row => passes l q row.2)

/-- `count_tasks` -/
def countTasks (db : Database) (q : TaskQuery) : Nat :=
  (db.tasks.select fun row => passes l q row.2).length

/-- The text is in the type of the task, in its key or in its error. -/
def Mentions (search : String) (task : Task) : Prop :=
  ∃ text ∈ [some task.taskType, task.idempotencyKey, task.lastError].reduceOption,
    Contains l text.toList search.toList

instance (search : String) (task : Task) : Decidable (Mentions l search task) :=
  inferInstanceAs (Decidable (∃ _ ∈ _, _))

/-- The tasks that satisfy the other filters and mention the text. -/
def mentioning (db : Database) (q : TaskQuery) (search : String) : List (TaskId × Task) :=
  db.tasks.select fun row =>
    passes l { q with search := none } row.2 && decide (Mentions l search row.2)

/-- Both functions select exactly the tasks that mention the text. -/
structure SubstringSearch (search : String) : Prop where
  listed : ∀ (db : Database) (q : TaskQuery) (limit offset : Nat),
    listTasks l db { q with search := some search } limit offset =
      page limit offset (mentioning l db q search)
  counted : ∀ (db : Database) (q : TaskQuery),
    countTasks l db { q with search := some search } = (mentioning l db q search).length

@[simp] theorem given_none : given none = none := rfl

@[simp] theorem given_empty : given (some "") = none := rfl

theorem given_some {text : String} (h : text ≠ "") : given (some text) = some text := by
  simp [given, Option.filter, h]

theorem toList_searchPattern (search : String) :
    (searchPattern search).toList = '%' :: search.toList ++ ['%'] := by
  simp [searchPattern]

/-- The search is one more filter. -/
theorem passes_search (q : TaskQuery) (search : String) (task : Task) :
    passes l { q with search := some search } task =
      (passes l { q with search := none } task &&
        ((given (some search)).toList.all fun text => searchFilter l text task)) := by
  simp only [passes, taskFilters, given_none, Option.toList_none, List.map_nil, List.append_nil,
    List.all_append, List.all_map, Function.comp_def]
  ac_rfl

theorem mentions_iff (search : String) (task : Task) :
    Mentions l search task ↔
      Contains l task.taskType.toList search.toList ∨
        (∃ key ∈ task.idempotencyKey, Contains l key.toList search.toList) ∨
        ∃ error ∈ task.lastError, Contains l error.toList search.toList := by
  simp only [Mentions, List.reduceOption_mem_iff, List.mem_cons, List.not_mem_nil, or_false,
    Option.mem_def]
  constructor
  · rintro ⟨text, htext | htext | htext, h⟩
    · left
      rwa [← Option.some.inj htext]
    · exact .inr (.inl ⟨text, htext.symm, h⟩)
    · exact .inr (.inr ⟨text, htext.symm, h⟩)
  · rintro (h | ⟨key, hkey, h⟩ | ⟨error, herror, h⟩)
    · exact ⟨_, .inl rfl, h⟩
    · exact ⟨key, .inr (.inl hkey.symm), h⟩
    · exact ⟨error, .inr (.inr herror.symm), h⟩

/-- The pattern of a plain text finds it. -/
theorem columnIlike_plain {search : String} (h : Plain search.toList) (column : Option String) :
    columnIlike l column (searchPattern search) = true ↔
      ∃ text ∈ column, Contains l text.toList search.toList := by
  have hfind := (ilike_iff_contains l search.toList).mpr h
  cases column with
  | none => simp [columnIlike]
  | some text =>
    simp only [columnIlike, Option.any_some, toList_searchPattern, hfind, Option.mem_def,
      Option.some.injEq, exists_eq_left']

theorem searchFilter_plain {search : String} (h : Plain search.toList) (task : Task) :
    searchFilter l search task = true ↔ Mentions l search task := by
  simp only [searchFilter, Bool.or_eq_true, columnIlike_plain l h, mentions_iff, or_assoc,
    Option.mem_def, Option.some.injEq, exists_eq_left']

/-- Every task mentions the empty text, so it may go without a filter. -/
theorem mentions_empty (task : Task) : Mentions l "" task := by
  rw [mentions_iff]
  left
  exact List.nil_infix

theorem passes_plain {search : String} (h : Plain search.toList) (q : TaskQuery) (task : Task) :
    passes l { q with search := some search } task =
      (passes l { q with search := none } task && decide (Mentions l search task)) := by
  rw [passes_search]
  by_cases hs : search = ""
  · subst hs
    simp [mentions_empty l task]
  · have hfilter : searchFilter l search task = decide (Mentions l search task) := by
      rw [Bool.eq_iff_iff, decide_eq_true_iff]
      exact searchFilter_plain l h task
    simp [given_some hs, hfilter]

/-- A task of the given type that nothing else is known of. -/
def typed (taskType : String) : Task where
  taskType := taskType
  payload := ""
  status := .queued
  priority := .normal
  maxAttempts := 3
  attempts := 0
  idempotencyKey := none
  scheduledAt := none
  startedAt := none
  finishedAt := none
  leaseOwner := none
  leaseExpiresAt := none
  result := none
  lastError := none
  createdBy := none
  batchId := none
  dlqRequeueCount := 0
  dlqRetryAt := none
  createdAt := 0
  updatedAt := 0

/-- The database with one task of this type. -/
def onlyTask (taskType : String) : Database :=
  { Database.empty with tasks := Table.empty.insert (typed taskType) }

theorem length_select_onlyTask (taskType : String) (p : TaskId × Task → Bool) :
    ((onlyTask taskType).tasks.select p).length = if p (1, typed taskType) then 1 else 0 := by
  change ([(1, typed taskType)].filter p).length = _
  cases h : p (1, typed taskType) <;> simp [h]

@[simp] theorem passes_everything (task : Task) : passes l .everything task = true := rfl

/-- Only the pattern decides on a task of which no more than the type is known. -/
theorem searchFilter_typed (search : String) (text : List Char) :
    searchFilter l search (typed (.ofList text)) =
      ilike l text ('%' :: search.toList ++ ['%']) := by
  simp [searchFilter, columnIlike, typed, toList_searchPattern]

theorem mentions_typed (search : String) (text : List Char) :
    Mentions l search (typed (.ofList text)) ↔ Contains l text search.toList := by
  simp [mentions_iff, typed]

/-- The count of one task tells whether the pattern finds its type. -/
theorem ilike_of_counted {search : String} (hne : search ≠ "")
    (hcounted : ∀ (db : Database) (q : TaskQuery),
      countTasks l db { q with search := some search } = (mentioning l db q search).length)
    (text : List Char) :
    ilike l text ('%' :: search.toList ++ ['%']) = true ↔ Contains l text search.toList := by
  have hone := hcounted (onlyTask (.ofList text)) .everything
  rw [countTasks, mentioning, length_select_onlyTask, length_select_onlyTask, passes_search,
    given_some hne, Option.toList_some, List.all_cons, List.all_nil, searchFilter_typed] at hone
  change (if (true && _) = true then 1 else 0) = if (true && _) = true then 1 else 0 at hone
  simp only [Bool.true_and, Bool.and_true, decide_eq_true_iff, mentions_typed] at hone
  by_cases hfound : ilike l text ('%' :: search.toList ++ ['%']) = true
  · rw [if_pos hfound] at hone
    refine iff_of_true hfound ?_
    by_contra hnot
    rw [if_neg hnot] at hone
    cases hone
  · rw [if_neg hfound] at hone
    refine iff_of_false hfound ?_
    intro hcontains
    rw [if_pos hcontains] at hone
    cases hone

theorem plain_iff (search : String) :
    Plain search.toList ↔ ∀ c ∈ search.toList, c ≠ '%' ∧ c ≠ '_' ∧ c ≠ '\\' := by
  simp [Plain, isSpecial, and_assoc]

/-- A text can be searched for if and only if no character of it has a meaning in patterns. -/
theorem substringSearch_iff (search : String) :
    SubstringSearch l search ↔ ∀ c ∈ search.toList, c ≠ '%' ∧ c ≠ '_' ∧ c ≠ '\\' := by
  rw [← plain_iff]
  constructor
  · intro h
    by_cases hs : search = ""
    · subst hs
      exact fun c hc => absurd hc List.not_mem_nil
    · exact (ilike_iff_contains l search.toList).mp (ilike_of_counted l hs h.counted)
  · intro h
    constructor
    · intro db q limit offset
      simp only [listTasks, mentioning, passes_plain l h]
    · intro db q
      simp only [countTasks, mentioning, passes_plain l h]

theorem isAlpha_eq_false {c : Char} (h : isSpecial c = true) : c.isAlpha = false := by
  simp only [isSpecial, Bool.or_eq_true, beq_iff_eq] at h
  obtain (rfl | rfl) | rfl := h <;> rfl

/-- Lower-casing of the letters of ASCII. -/
def asciiLowering : Lowering where
  lower := Char.toLower
  lower_special := by
    intro c hc
    simp only [isSpecial, Bool.or_eq_true, beq_iff_eq] at hc
    obtain (rfl | rfl) | rfl := hc <;> rfl
  isSpecial_lower := by
    intro c
    by_cases hupper : c.isUpper = true
    · -- a letter stays a letter, and no letter has a meaning in patterns
      have halpha : c.isAlpha = true := by simp [Char.isAlpha, hupper]
      have hlower : c.toLower.isAlpha = true := by rw [Char.isAlpha_toLower_eq_isAlpha, halpha]
      rw [Bool.eq_iff_iff]
      constructor
      · intro h
        rw [isAlpha_eq_false h] at hlower
        cases hlower
      · intro h
        rw [isAlpha_eq_false h] at halpha
        cases halpha
    · rw [Char.toLower_eq_of_not_isUpper hupper]

/-- An underscore in the text finds a task that does not mention it. -/
theorem underscore_finds_letter : ¬ SubstringSearch asciiLowering "a_b" := by
  intro h
  exact absurd (h.counted (onlyTask "axb") .everything) (by decide)

end TaskPlatform
