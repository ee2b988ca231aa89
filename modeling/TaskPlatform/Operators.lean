import TaskPlatform.Commands
import TaskPlatform.Credentials

/-!
# Who changes what

Through the API the tables change only by commands, each of an actor whose role
allows it and was given to it as the audit log tells, and each with its own row in
the log. For the tasks a run of the whole site is a run of the platform, and what
is not done by a worker or a coordinator there is told by these rows in their order.
-/

namespace TaskPlatform.Api

open Run
open Access (Accounts Entitled Extends State UserId record)
open Requests (Config)

section

variable {env : Access.Env} {s : State} {i : Nat} {c : Access.Session}

/-- The row of a command in the audit log says nothing about users and tokens. -/
theorem record_extends (db : Accounts) (actor : UserId) (row : Access.User)
    (action resourceType : String) (resourceId : Option Nat) :
    Extends db (record db actor row (.command action resourceType) resourceId) :=
  Extends.record (fun hwhat => by cases hwhat) (fun _ row h => ⟨row, h, rfl⟩)
    fun _ t h => ⟨t, h, rfl, rfl, rfl, fun hr => hr⟩

theorem record_sound (h : s.Sound env) (actor : UserId) (row : Access.User)
    (action resourceType : String) (resourceId : Option Nat) :
    State.Sound env
      { s with db := record s.db actor row (.command action resourceType) resourceId } := by
  have hext := record_extends s.db actor row action resourceType resourceId
  refine ⟨h.users.same hext rfl fun e he => ?_, h.tokens.same hext rfl fun e he hwhat => ?_,
    fun k c hk => (h.sessions k c hk).later hext⟩
  · obtain hold | rfl := Access.logged_record.mp he
    · exact .inl hold
    · exact .inr ⟨by simp, fun hby => hby⟩
  · obtain hold | rfl := Access.logged_record.mp he
    · exact hold
    · cases hwhat

/-- A request that is over holds nothing. -/
theorem settle_sound (h : s.Sound env) {stage : Access.Stage}
    (hstage : stage = .committed ∨ ∃ code, stage = .refused code) :
    State.Sound env { s with sessions := s.sessions.set i { c with stage := stage } } := by
  refine ⟨h.users, h.tokens, fun k c' hk => ?_⟩
  obtain ⟨-, rfl⟩ | ⟨-, hold⟩ := Slots.getElem?_set_cases hk
  · obtain rfl | ⟨code, rfl⟩ := hstage <;>
      exact .of_stage (by simp) (by simp) (by simp) (by simp)
  · exact h.sessions k c' hold

/-- A request keeps its place and its words. -/
theorem set_request (stage : Access.Stage) {l : List Access.Session} (hc : l[i]? = some c) {k : Nat}
    {c₀ : Access.Session} (hc₀ : l[k]? = some c₀) :
    ∃ c', (l.set k { c₀ with stage := stage })[i]? = some c' ∧ c'.request = c.request := by
  by_cases hk : k = i
  · subst hk
    cases hc.symm.trans hc₀
    exact ⟨_, Slots.getElem?_set_self hc, rfl⟩
  · exact ⟨c, by rw [List.getElem?_set_ne hk, hc], rfl⟩

theorem access_step_request (env : Access.Env) (a : Access.Action) (hc : s.sessions[i]? = some c) :
    ∃ c', (s.step env a).sessions[i]? = some c' ∧ c'.request = c.request := by
  cases a with
  | arrive request => exact ⟨c, Slots.getElem?_append_of_some hc, rfl⟩
  | advance k now =>
    simp only [State.step]
    cases hk : s.sessions[k]? with
    | none => exact ⟨c, hc, rfl⟩
    | some c₀ => exact set_request _ hc hk

end

def isCommand : Access.Audited → Bool
  | .command _ _ => true
  | _ => false

/-- The audit rows of the commands, the oldest first. -/
def commandRows (db : Accounts) : List Access.AuditLog :=
  (db.audit.rows.map Prod.snd).filter (fun e => isCommand e.what)

theorem commandRows_record (db : Accounts) (actor : UserId) (row : Access.User)
    (what : Access.Audited) (id : Option Nat) :
    commandRows (record db actor row what id) =
      commandRows db ++ if isCommand what then [⟨actor, row.username, what, id⟩] else [] := by
  cases hwhat : isCommand what <;> simp [commandRows, record, Table.insert, hwhat]

theorem Command.audited_isCommand (command : Command) : isCommand command.audited = true := by
  cases command <;> rfl

/-- Requests about accounts write other rows into the log. -/
theorem effect_commandRows {env : Access.Env} {now : Time} {db db' : Accounts} {c : Access.Session}
    {stage : Access.Stage} (h : Access.Effect env now db c db' stage) :
    commandRows db' = commandRows db := by
  cases h with
  | createToken hs hok =>
    unfold Access.createToken at hok
    split at hok <;> cases hok
    exact (commandRows_record _ _ _ _ _).trans (List.append_nil _)
  | revokeToken => exact (commandRows_record _ _ _ _ _).trans (List.append_nil _)
  | setActive => exact (commandRows_record _ _ _ _ _).trans (List.append_nil _)
  | setRole => exact (commandRows_record _ _ _ _ _).trans (List.append_nil _)
  | register hok =>
    unfold Access.register at hok
    split at hok <;> cases hok
    exact (commandRows_record _ _ _ _ _).trans (List.append_nil _)
  | bootstrap hok =>
    unfold Access.bootstrapAdmin at hok
    split at hok <;> cases hok
    rfl
  | _ => rfl

theorem access_step_commandRows (env : Access.Env) (s : State) (a : Access.Action) :
    commandRows (s.step env a).db = commandRows s.db := by
  obtain ⟨hdb, -⟩ | ⟨i, now, c, stage, -, -, heffect, -⟩ := Access.State.step_cases env s a
  · rw [hdb]
  · exact effect_commandRows heffect

/-- What is known of every state of the site. -/
structure Site.Sound (env : Access.Env) (s : Site) : Prop where
  accounts : s.accounts.Sound env
  commands : ∀ i command, s.commands i = some command → ∃ c, s.accounts.sessions[i]? = some c ∧
    c.request.operation = .command command.roles

/-- From `s` to `s'` the command wrote all it writes and its row in the audit log; its actor has a
role that allows it, and that the log accounts for. -/
def Committed (env : Access.Env) (cfg : Config) (command : Command) (s s' : Site) : Prop :=
  ∃ now admitted order actor row tables resourceId,
    command.valid = true ∧
    command.execute cfg now admitted order actor ⟨s.platform.db, s.batches⟩ =
      .done tables resourceId ∧
    row.role ∈ command.roles ∧ Entitled env s.accounts.db actor row.role ∧
    s'.platform = { s.platform with db := tables.db } ∧ s'.batches = tables.batches ∧
    s'.accounts.db = record s.accounts.db actor row command.audited resourceId

/-- Nothing was written but by account requests. -/
structure Unchanged (s s' : Site) : Prop where
  platform : s'.platform = s.platform
  batches : s'.batches = s.batches
  rows : commandRows s'.accounts.db = commandRows s.accounts.db
  accounts : Extends s.accounts.db s'.accounts.db

section

variable {env : Access.Env} {cfg : Config} {s : Site}

theorem Unchanged.refl (s : Site) : Unchanged s s := ⟨rfl, rfl, rfl, .refl _⟩

theorem Command.audited_eq (command : Command) :
    ∃ action resourceType, command.audited = .command action resourceType := by
  cases command <;> exact ⟨_, _, rfl⟩

/-- A permitted request commits its command, or ends without a trace. -/
theorem Site.Sound.perform (h : s.Sound env) (cfg : Config) {i : Nat} (now : Time) (admitted : Bool)
    (order : List (TaskId × Task) → List (TaskId × Task)) {c : Access.Session} {command : Command}
    (hc : s.accounts.sessions[i]? = some c) (hcommand : s.commands i = some command)
    {actor : UserId} {row : Access.User} (hstage : c.stage = .permitted actor row) :
    (s.perform cfg i now admitted order c actor row command).Sound env ∧
      (Unchanged s (s.perform cfg i now admitted order c actor row command) ∨
        Committed env cfg command s (s.perform cfg i now admitted order c actor row command)) := by
  have hsettle : ∀ stage, (stage = .committed ∨ ∃ code, stage = .refused code) →
      (s.settle i c stage).Sound env := by
    intro stage hstage
    refine ⟨settle_sound h.accounts hstage, fun k command' hk => ?_⟩
    obtain ⟨c', hc', hop⟩ := h.commands k command' hk
    obtain ⟨c'', hc'', hrequest⟩ := set_request stage hc' hc
    exact ⟨c'', hc'', by rw [hrequest, hop]⟩
  have hunchanged : ∀ stage, Unchanged s (s.settle i c stage) := fun stage =>
    ⟨rfl, rfl, rfl, .refl _⟩
  unfold Site.perform
  split
  · exact ⟨hsettle _ (.inr ⟨_, rfl⟩), .inl (hunchanged _)⟩
  · rename_i hvalid
    split
    · exact ⟨hsettle _ (.inr ⟨_, rfl⟩), .inl (hunchanged _)⟩
    · exact ⟨hsettle _ (.inl rfl), .inl (hunchanged _)⟩
    · rename_i tables resourceId hdone
      obtain ⟨hentitled, roles, hop, hrole⟩ :=
        (h.accounts.sessions i c hc).permitted actor row hstage
      obtain ⟨c₀, hc₀, hop₀⟩ := h.commands i command hcommand
      cases hc.symm.trans hc₀
      cases hop.symm.trans hop₀
      obtain ⟨action, resourceType, haudited⟩ := command.audited_eq
      have hsound := hsettle .committed (.inl rfl)
      refine ⟨⟨?_, hsound.commands⟩, .inr ⟨now, admitted, order, actor, row, tables, resourceId,
        by simpa using hvalid, hdone, hrole, hentitled, rfl, rfl, rfl⟩⟩
      rw [haudited]
      exact record_sound hsound.accounts actor row action resourceType resourceId

theorem Site.Sound.step (h : s.Sound env) (cfg : Config) (a : Action) :
    (s.step env cfg a).Sound env ∧
      (Unchanged s (s.step env cfg a) ∨
        (∃ b, a = .service b ∧ internal b = true ∧
          s.step env cfg a = { s with platform := s.platform.step cfg.settings b }) ∨
        ∃ command, Committed env cfg command s (s.step env cfg a)) := by
  cases a with
  | access a =>
    refine ⟨⟨h.accounts.step a, fun i command hi => ?_⟩,
      .inl ⟨rfl, rfl, access_step_commandRows env s.accounts a,
        Access.State.step_extends env s.accounts a⟩⟩
    obtain ⟨c, hc, hop⟩ := h.commands i command hi
    obtain ⟨c', hc', hrequest⟩ := access_step_request env a hc
    exact ⟨c', hc', by rw [hrequest, hop]⟩
  | request credentials command =>
    refine ⟨⟨h.accounts.step (.arrive ⟨credentials, .command command.roles⟩),
      fun i command' hi => ?_⟩, .inl ⟨rfl, rfl, rfl, .refl _⟩⟩
    simp only [Site.step, Function.update_apply] at hi
    split at hi
    · rename_i hlast
      cases hi
      exact ⟨⟨⟨credentials, .command command.roles⟩, .begun⟩, by
        simp [Site.step, Access.State.step, hlast], rfl⟩
    · obtain ⟨c, hc, hop⟩ := h.commands i command' hi
      exact ⟨c, Slots.getElem?_append_of_some hc, hop⟩
  | service a =>
    simp only [Site.step]
    split
    · rename_i hinternal
      exact ⟨⟨h.accounts, h.commands⟩, .inr (.inl ⟨a, rfl, hinternal, rfl⟩)⟩
    · exact ⟨h, .inl (.refl s)⟩
  | perform i now admitted order =>
    simp only [Site.step]
    split
    · rename_i c command hc hcommand
      split
      · rename_i actor row hstage
        obtain ⟨hsound, hcases⟩ := h.perform cfg now admitted order hc hcommand hstage
        exact ⟨hsound, hcases.imp_right fun hcommitted => .inr ⟨command, hcommitted⟩⟩
      · exact ⟨h, .inl (.refl s)⟩
    · exact ⟨h, .inl (.refl s)⟩

end

theorem Site.initial_sound (env : Access.Env) : Site.initial.Sound env :=
  ⟨Access.State.initial_sound env, fun i command hi => by cases hi⟩

theorem Site.after_sound (env : Access.Env) (cfg : Config) (acts : List Action) :
    (Site.after env cfg acts).Sound env :=
  run_invariant (fun _ a h => (h.step cfg a).1) (Site.initial_sound env) acts

/-- Tables change by steps of workers and coordinators and by committed commands only: each with one
row in the audit log, by an actor whose role allows it and is accounted for by the log, whatever
runs at the same time. No other step writes the row of a command into the log. -/
theorem writes_authorised (env : Access.Env) (cfg : Config) (acts : List Action) (a : Action) :
    Unchanged (Site.after env cfg acts) (Site.after env cfg (acts ++ [a])) ∨
      (∃ b, a = .service b ∧ internal b = true ∧ Site.after env cfg (acts ++ [a]) =
        { Site.after env cfg acts with
          platform := (Site.after env cfg acts).platform.step cfg.settings b }) ∨
      ∃ command, Committed env cfg command (Site.after env cfg acts)
        (Site.after env cfg (acts ++ [a])) := by
  rw [Site.after, Site.after, run_append]
  exact ((Site.after_sound env cfg acts).step cfg a).2

/-- What a command that commits has done to the platform. -/
def Command.actions (now : Time) (order : List (TaskId × Task) → List (TaskId × Task))
    (actor : UserId) (t : Tables) : Command → List TaskPlatform.Action
  | .createTask spec => [.createTask now (posted spec)]
  | .bulkCreate specs => (specs.map posted).map (.createTask now)
  | .retryTask id => [.manualRetry now id]
  | .cancelTask id => [.cancelTask now id]
  | .bulkRetry ids => [.bulkRetry now ids]
  | .bulkCancel ids => [.bulkCancel now ids]
  | .createBatch _ specs =>
    specs.map fun spec =>
      .createTask now { spec with batchId := some t.batches.next, createdBy := some actor }
  | .cancelBatch batchId => (batchTasks order t.db batchId).map (.cancelTask now)
  | .createWebhook events => [.putWebhook none ⟨events, true⟩]
  | .updateWebhook id events isActive =>
    match t.db.subscriptions.get id with
    | none => []
    | some sub => [.putWebhook (some id) ⟨events.getD sub.events, isActive.getD sub.isActive⟩]
  | .deleteWebhook id => [.deleteWebhook id]
  | .testWebhook _ => []

section

variable {cfg : Config} {now : Time} {t tables : Tables} {resourceId : Option Nat}

theorem createTask_done {spec : TaskSpec}
    (h : createTask cfg now t spec = .done tables resourceId) :
    ∃ id, TaskPlatform.createTask cfg.settings now t.db (posted spec) = .ok (tables.db, id) := by
  unfold createTask at h
  split at h
  · cases h
  · split at h
    · rename_i db id hok
      cases h
      exact ⟨id, hok⟩
    all_goals cases h

theorem answerOne_done {id : TaskId} {r : Except TaskError (Option Database)}
    (h : answerOne t id r = .done tables resourceId) : r = .ok (some tables.db) := by
  unfold answerOne at h
  split at h <;> cases h
  rfl

theorem answerAll_done {id : Option Nat} {r : Except TaskError Database}
    (h : answerAll t id r = .done tables resourceId) : r = .ok tables.db := by
  unfold answerAll at h
  split at h <;> cases h
  rfl

variable (p : Platform)

/-- A creation of `bulk_create` that fails loses its id, as one on its own does. -/
theorem bulkCreateTurn_step {r r' : BulkCreated} {spec : TaskSpec}
    (h : bulkCreateTurn cfg.settings now r spec = .ok r') :
    { p with db := r'.db } =
      Platform.step cfg.settings { p with db := r.db } (.createTask now spec) := by
  unfold bulkCreateTurn at h
  split at h
  · rename_i db id hok
    cases h
    simp [Platform.step, hok, commitCreated]
  · rename_i herror
    cases h
    simp [Platform.step, herror, commitCreated]
  · cases h

theorem createBatchTurn_step {batchId createdBy : Nat} {db db' : Database} {spec : TaskSpec}
    (h : createBatchTurn cfg.settings now batchId createdBy db spec = .ok db') :
    { p with db := db' } = Platform.step cfg.settings { p with db := db }
      (.createTask now { spec with batchId := some batchId, createdBy := some createdBy }) := by
  obtain ⟨⟨db₁, id⟩, hok, rfl⟩ := map_ok h
  simp [Platform.step, hok, commitCreated]

theorem cancelBatchTurn_step {r r' : BatchCancelled} {id : TaskId}
    (h : cancelBatchTurn (TaskPlatform.cancelTask cfg.settings now) r id = .ok r') :
    { p with db := r'.db } =
      Platform.step cfg.settings { p with db := r.db } (.cancelTask now id) := by
  unfold cancelBatchTurn at h
  split at h
  · rename_i found hok
    cases h
    cases found <;> simp [Platform.step, hok, commitFound]
  · rename_i reason herror
    cases h
    simp [Platform.step, herror, commitFound]
  · cases h

/-- A command that commits is a run of the platform. -/
theorem execute_run {admitted : Bool} {order : List (TaskId × Task) → List (TaskId × Task)}
    {actor : UserId} {command : Command} {batches : Table TaskBatch}
    (h : command.execute cfg now admitted order actor ⟨p.db, batches⟩ = .done tables resourceId) :
    { p with db := tables.db } =
      run (Platform.step cfg.settings) p (command.actions now order actor ⟨p.db, batches⟩) := by
  cases command with
  | createTask spec =>
    simp only [Command.execute] at h
    split at h
    · obtain ⟨id, hok⟩ := createTask_done h
      simp only at hok
      simp [Command.actions, Platform.step, hok, commitCreated]
    · cases h
  | bulkCreate specs =>
    simp only [Command.execute] at h
    split at h
    · obtain ⟨r, hloop, hdb⟩ := map_ok (answerAll_done h)
      rw [← hdb]
      exact foldlM_run (g := fun r : BulkCreated => { p with db := r.db })
        (fun _ _ _ => bulkCreateTurn_step p) hloop
    · cases h
  | retryTask id => simp [Command.actions, Platform.step, answerOne_done h, commitFound]
  | cancelTask id => simp [Command.actions, Platform.step, answerOne_done h, commitFound]
  | bulkRetry ids => simp [Command.actions, Platform.step, answerAll_done h, commit]
  | bulkCancel ids => simp [Command.actions, Platform.step, answerAll_done h, commit]
  | createBatch name specs =>
    simp only [Command.execute, createBatch] at h
    split at h
    · cases h
    · split at h <;> cases h
      rename_i hloop
      exact foldlM_run (g := fun db : Database => { p with db := db })
        (fun _ _ _ => createBatchTurn_step p) hloop
  | cancelBatch batchId =>
    simp only [Command.execute, cancelBatch] at h
    split at h <;> cases h
    rename_i r hcancel
    unfold TaskPlatform.cancelBatch cancelBatchBody at hcancel
    split at hcancel
    · cases hcancel
    · exact foldlM_run (g := fun r : BatchCancelled => { p with db := r.db })
        (fun _ _ _ => cancelBatchTurn_step p) hcancel
  | createWebhook events =>
    simp only [Command.execute] at h
    split at h <;> cases h
    rfl
  | updateWebhook id events isActive =>
    simp only [Command.execute] at h
    split at h
    · cases h
    · rename_i sub hsub
      unfold updateWebhook at h
      split at h <;> cases h
      simp [Command.actions, hsub, Platform.step]
  | deleteWebhook id =>
    simp only [Command.execute] at h
    split at h <;> cases h
    rfl
  | testWebhook id =>
    simp only [Command.execute] at h
    split at h <;> cases h
    rfl

end

/-- What happens to the platform: a step of a worker or a coordinator, or a command with its row of
the audit log. -/
inductive Entry where
  | service (a : TaskPlatform.Action)
  | request (command : Command) (row : Access.AuditLog) (actions : List TaskPlatform.Action)

def Entry.actions : Entry → List TaskPlatform.Action
  | .service a => [a]
  | .request _ _ actions => actions

def Entry.row : Entry → Option Access.AuditLog
  | .service _ => none
  | .request _ row _ => some row

/-- The row names the command, and an actor with a role for it; the actions are those of the
command in some state. -/
def Entry.Valid (env : Access.Env) (db : Accounts) : Entry → Prop
  | .service a => internal a = true
  | .request command row actions =>
    command.valid = true ∧ row.what = command.audited ∧
      (∃ role ∈ command.roles, Entitled env db row.actorId role) ∧
      ∃ now order t, actions = command.actions now order row.actorId t

theorem Entry.Valid.later {env : Access.Env} {db db' : Accounts} {x : Entry}
    (h : x.Valid env db) (hext : Extends db db') : x.Valid env db' := by
  cases x with
  | service a => exact h
  | request command row actions =>
    obtain ⟨hvalid, hwhat, ⟨role, hrole, hentitled⟩, hactions⟩ := h
    exact ⟨hvalid, hwhat, ⟨role, hrole, hext.entitled hentitled⟩, hactions⟩

/-- The history explains the platform and the rows of the commands. -/
structure Explains (env : Access.Env) (cfg : Config) (s : Site) (history : List Entry) : Prop where
  platform : s.platform = Platform.after cfg.settings (history.flatMap Entry.actions)
  rows : commandRows s.accounts.db = history.filterMap Entry.row
  valid : ∀ x ∈ history, x.Valid env s.accounts.db

section

variable {env : Access.Env} {cfg : Config} {s s' : Site} {history : List Entry}

theorem Explains.unchanged (h : Explains env cfg s history) (hsame : Unchanged s s') :
    Explains env cfg s' history where
  platform := hsame.platform.trans h.platform
  rows := hsame.rows.trans h.rows
  valid := fun x hx => (h.valid x hx).later hsame.accounts

theorem Explains.service (h : Explains env cfg s history) {a : TaskPlatform.Action}
    (ha : internal a = true) :
    Explains env cfg { s with platform := s.platform.step cfg.settings a }
      (history ++ [.service a]) where
  platform := by
    simp only [h.platform, Platform.after, List.flatMap_append, run_append]
    rfl
  rows := by simp [h.rows, Entry.row]
  valid := by
    intro x hx
    obtain hold | rfl := by simpa using hx
    · exact h.valid x hold
    · exact ha

theorem Explains.committed (h : Explains env cfg s history) {command : Command}
    (hcommitted : Committed env cfg command s s') :
    ∃ x, Explains env cfg s' (history ++ [x]) := by
  obtain ⟨now, admitted, order, actor, row, tables, resourceId, hvalid, hdone, hrole, hentitled,
    hplatform, -, haccounts⟩ := hcommitted
  obtain ⟨action, resourceType, haudited⟩ := command.audited_eq
  have hext : Extends s.accounts.db s'.accounts.db := by
    rw [haccounts, haudited]
    exact record_extends s.accounts.db actor row action resourceType resourceId
  refine ⟨.request command ⟨actor, row.username, command.audited, resourceId⟩
    (command.actions now order actor ⟨s.platform.db, s.batches⟩), ?_, ?_, fun x hx => ?_⟩
  · rw [hplatform, execute_run s.platform hdone, Platform.after, List.flatMap_append, run_append,
      ← Platform.after, ← h.platform]
    simp [Entry.actions]
  · rw [haccounts, commandRows_record, command.audited_isCommand, h.rows]
    simp [Entry.row]
  · obtain hold | rfl := by simpa using hx
    · exact (h.valid x hold).later hext
    · exact ⟨hvalid, rfl, ⟨row.role, hrole, hext.entitled hentitled⟩, now, order, _, rfl⟩

end

/-- A run of the whole site, with its users, tokens and requests, is for the tasks a run of the
platform. What is no step of a worker or a coordinator in it comes from commands, and the audit log
has these commands in their order, one row for each, with an actor who had a role for it. -/
theorem site_refines_platform (env : Access.Env) (cfg : Config) (acts : List Action) :
    ∃ history, Explains env cfg (Site.after env cfg acts) history := by
  have hrun : (Site.after env cfg acts).Sound env ∧
      ∃ history, Explains env cfg (Site.after env cfg acts) history := by
    refine run_invariant (P := fun s => s.Sound env ∧ ∃ history, Explains env cfg s history)
      (fun s a hs => ?_) ⟨Site.initial_sound env, [], rfl, rfl, by simp⟩ acts
    obtain ⟨hsound, history, hexplains⟩ := hs
    obtain ⟨hsound', hsame | ⟨b, -, hinternal, hstep⟩ | ⟨command, hcommitted⟩⟩ := hsound.step cfg a
    · exact ⟨hsound', history, hexplains.unchanged hsame⟩
    · exact ⟨hsound', _, hstep ▸ hexplains.service hinternal⟩
    · obtain ⟨x, hx⟩ := hexplains.committed hcommitted
      exact ⟨hsound', _, hx⟩
  exact hrun.2

end TaskPlatform.Api
