import TaskPlatform.AccessSteps
import TaskPlatform.Lib.Slots

/-!
# Where authority comes from

The audit log accounts for every privilege: roles are given by administrators
whose own role was given by one, back to the user that the first start created.
The same log accounts for the API tokens. All of it holds in every state, while
requests go on with rows that others have changed in the meantime.
-/

namespace TaskPlatform.Access

open Run

def AuditLog.Grants (e : AuditLog) (user : UserId) (role : String) : Prop :=
  e.resourceId = some user ∧ ∃ oldRole, e.what = .roleChange oldRole role

/-- Only an administrator does this to a user. -/
def Audited.ByAdmin : Audited → Prop
  | .setActive _ | .roleChange _ _ => True
  | _ => False

/-- The user is the one that `bootstrap_admin` created: nobody registered it. -/
def Bootstrapped (env : Env) (db : Accounts) (user : UserId) : Prop :=
  ∃ row, db.users.get user = some row ∧ row.username = env.adminUsername ∧
    ∀ e, db.Logged e → e.what = .userRegister → e.resourceId ≠ some user

/-- The user was made an administrator by one who was appointed, or is the first. -/
inductive Appointed (env : Env) (db : Accounts) : UserId → Prop where
  | bootstrap {user : UserId} : Bootstrapped env db user → Appointed env db user
  | granted {user : UserId} {e : AuditLog} : db.Logged e → e.Grants user "admin" →
      Appointed env db e.actorId → Appointed env db user

/-- Users start as viewers, the first one as an administrator; any other role was granted. -/
def Entitled (env : Env) (db : Accounts) (user : UserId) (role : String) : Prop :=
  role = "viewer" ∨ (role = "admin" ∧ Bootstrapped env db user) ∨
    ∃ e, db.Logged e ∧ e.Grants user role

section

variable {env : Env} {now : Time} {db db' : Accounts} {c : Session}

theorem Extends.bootstrapped (h : Extends db db') {user : UserId} (hb : Bootstrapped env db user) :
    Bootstrapped env db' user := by
  obtain ⟨row, hrow, hname, hnot⟩ := hb
  obtain ⟨row', hrow', hname'⟩ := h.users user row hrow
  refine ⟨row', hrow', hname'.trans hname, fun e he hwhat hid => ?_⟩
  obtain hold | hnew := h.registered e he hwhat
  · exact hnot e hold hwhat hid
  · obtain ⟨i, hi, hle⟩ := hnew
    cases hid.symm.trans hi
    exact absurd (Table.get_lt hrow) (not_lt_of_ge hle)

theorem Extends.appointed (h : Extends db db') {user : UserId} (ha : Appointed env db user) :
    Appointed env db' user := by
  induction ha with
  | bootstrap hb => exact .bootstrap (h.bootstrapped hb)
  | granted he hgrants _ ih => exact .granted (h.log _ he) hgrants ih

theorem Extends.entitled (h : Extends db db') {user : UserId} {role : String}
    (he : Entitled env db user role) : Entitled env db' user role := by
  obtain hviewer | ⟨hadmin, hb⟩ | ⟨e, hlogged, hgrants⟩ := he
  · exact .inl hviewer
  · exact .inr (.inl ⟨hadmin, h.bootstrapped hb⟩)
  · exact .inr (.inr ⟨e, h.log e hlogged, hgrants⟩)

/-- Roles beyond the first one are granted, and administrators do what only they may do. -/
structure UsersSound (env : Env) (db : Accounts) : Prop where
  roles : ∀ u row, db.users.get u = some row → Entitled env db u row.role
  byAdmin : ∀ e, db.Logged e → e.what.ByAdmin → Appointed env db e.actorId
  registered : ∀ e, db.Logged e → e.what = .userRegister →
    ∃ i, e.resourceId = some i ∧ i < db.users.next
  usernames : ∀ u u' row row', db.users.get u = some row → db.users.get u' = some row' →
    row.username = row'.username → u = u'

/-- Tokens are logged, and revoked by their owner or an administrator. -/
structure TokensSound (env : Env) (db : Accounts) : Prop where
  created : ∀ k t, db.tokens.get k = some t → ∃ e, db.Logged e ∧ e.resourceId = some k ∧
    e.actorId = t.userId ∧ ∃ name, e.what = .tokenCreate name
  revoked : ∀ k t, db.tokens.get k = some t → t.revokedAt ≠ none →
    ∃ e, db.Logged e ∧ e.what = .tokenRevoke ∧ e.resourceId = some k
  revokes : ∀ e, db.Logged e → e.what = .tokenRevoke → ∃ k t, e.resourceId = some k ∧
    db.tokens.get k = some t ∧ t.revokedAt ≠ none ∧
    (e.actorId = t.userId ∨ Appointed env db e.actorId)
  hashes : ∀ k k' t t', db.tokens.get k = some t → db.tokens.get k' = some t' →
    t.tokenHash = t'.tokenHash → k = k'

/-- What the objects of a request tell of the committed rows. -/
structure Session.Sound (env : Env) (db : Accounts) (c : Session) : Prop where
  authorised : ∀ actor row, c.stage = .authorised actor row →
    Entitled env db actor row.role ∧ (row.role = "admin" → Appointed env db actor)
  permitted : ∀ actor row, c.stage = .permitted actor row → Entitled env db actor row.role ∧
    ∃ roles, c.request.operation = .command roles ∧ row.role ∈ roles
  target : ∀ actor row loaded, c.stage = .target actor row loaded → Appointed env db actor
  located : ∀ actor row loaded id, c.stage = .located actor row loaded →
    c.request.operation = .revokeToken id →
    ∃ t, db.tokens.get id = some t ∧ (loaded.revokedAt ≠ none → t.revokedAt ≠ none) ∧
      (actor = t.userId ∨ Appointed env db actor)

structure State.Sound (env : Env) (s : State) : Prop where
  users : UsersSound env s.db
  tokens : TokensSound env s.db
  sessions : ∀ (i : Nat) (c : Session), s.sessions[i]? = some c → c.Sound env s.db

theorem UsersSound.appointed (h : UsersSound env db) {user : UserId} {row : User}
    (hrow : db.users.get user = some row) (hrole : row.role = "admin") :
    Appointed env db user := by
  obtain hviewer | ⟨-, hb⟩ | ⟨e, he, hgrants⟩ := h.roles user row hrow
  · rw [hrole] at hviewer
    exact absurd hviewer (by decide)
  · exact .bootstrap hb
  · rw [hrole] at hgrants
    refine .granted he hgrants (h.byAdmin e he ?_)
    obtain ⟨-, oldRole, hwhat⟩ := hgrants
    rw [hwhat]
    trivial

theorem Session.Sound.later (h : c.Sound env db) (hext : Extends db db') : c.Sound env db' where
  authorised := by
    intro actor row hs
    obtain ⟨hentitled, hadmin⟩ := h.authorised actor row hs
    exact ⟨hext.entitled hentitled, fun hrole => hext.appointed (hadmin hrole)⟩
  permitted := fun actor row hs => (h.permitted actor row hs).imp_left hext.entitled
  target := fun actor row loaded hs => hext.appointed (h.target actor row loaded hs)
  located := by
    intro actor row loaded id hs hop
    obtain ⟨t, ht, hrevoked, hmay⟩ := h.located actor row loaded id hs hop
    obtain ⟨t', ht', huser, -, -, hkept⟩ := hext.tokens id t ht
    refine ⟨t', ht', fun hl => hkept (hrevoked hl), ?_⟩
    rw [huser]
    exact hmay.imp_right hext.appointed

/-- A request that holds no objects. -/
theorem Session.Sound.of_stage {stage : Stage}
    (hauthorised : ∀ actor row, stage ≠ .authorised actor row)
    (hpermitted : ∀ actor row, stage ≠ .permitted actor row)
    (htarget : ∀ actor row loaded, stage ≠ .target actor row loaded)
    (hlocated : ∀ actor row loaded, stage ≠ .located actor row loaded) :
    Session.Sound env db { c with stage := stage } where
  authorised := fun actor row hs => absurd hs (hauthorised actor row)
  permitted := fun actor row hs => absurd hs (hpermitted actor row)
  target := fun actor row loaded hs => absurd hs (htarget actor row loaded)
  located := fun actor row loaded _ hs => absurd hs (hlocated actor row loaded)

theorem Session.Sound.authorise (h : UsersSound env db) {user : UserId} {row : User}
    (hrow : db.users.get user = some row) :
    Session.Sound env db { c with stage := .authorised user row } where
  authorised := by
    intro actor row' hs
    cases hs
    exact ⟨h.roles user row hrow, h.appointed hrow⟩
  permitted := fun _ _ hs => (by cases hs)
  target := fun _ _ _ hs => (by cases hs)
  located := fun _ _ _ _ hs => (by cases hs)

theorem Session.Sound.advance (h : c.Sound env db) (husers : UsersSound env db) {stage : Stage}
    (heffect : Effect env now db c db' stage) : Session.Sound env db' { c with stage := stage } := by
  cases heffect with
  | same => exact h
  | access hs hc hapi hdecode hexp htype hrow hactive => exact .authorise husers hrow
  | touch hs hrow hactive =>
    exact (Session.Sound.authorise husers hrow).later touch_extends
  | target hs hrole hget =>
    refine ⟨fun _ _ hs' => (by cases hs'), fun _ _ hs' => (by cases hs'),
      fun actor row loaded hs' => ?_, fun _ _ _ _ hs' => (by cases hs')⟩
    cases hs'
    exact (h.authorised _ _ hs).2 hrole
  | located hs hop hget hmay =>
    refine ⟨fun _ _ hs' => (by cases hs'), fun _ _ hs' => (by cases hs'),
      fun _ _ _ hs' => (by cases hs'), fun actor row loaded id hs' hop' => ?_⟩
    cases hs'
    cases hop.symm.trans hop'
    refine ⟨_, hget, fun hl => hl, ?_⟩
    obtain hadmin | howner := hmay
    · exact .inr ((h.authorised _ _ hs).2 hadmin)
    · exact .inl howner.symm
  | permitted hs hop hrole =>
    refine ⟨fun _ _ hs' => (by cases hs'), fun actor row hs' => ?_,
      fun _ _ _ hs' => (by cases hs'), fun _ _ _ _ hs' => (by cases hs')⟩
    cases hs'
    exact ⟨(h.authorised _ _ hs).1, _, hop, hrole⟩
  | _ => exact .of_stage (by simp) (by simp) (by simp) (by simp)

/-- Old users with the roles that they had or that the log grants them. -/
theorem UsersSound.keep (h : UsersSound env db) (hext : Extends db db')
    (hnext : db.users.next ≤ db'.users.next)
    (hrows : ∀ u row', db'.users.get u = some row' → ∃ row, db.users.get u = some row ∧
      row'.username = row.username ∧
      (row'.role = row.role ∨ ∃ e, db'.Logged e ∧ e.Grants u row'.role))
    (hlog : ∀ e, db'.Logged e → db.Logged e ∨
      e.what ≠ .userRegister ∧ (e.what.ByAdmin → Appointed env db e.actorId)) :
    UsersSound env db' where
  roles := by
    intro u row' hrow'
    obtain ⟨row, hrow, -, hrole | hgranted⟩ := hrows u row' hrow'
    · rw [hrole]
      exact hext.entitled (h.roles u row hrow)
    · exact .inr (.inr hgranted)
  byAdmin := by
    intro e he hby
    obtain hold | ⟨-, hnew⟩ := hlog e he
    · exact hext.appointed (h.byAdmin e hold hby)
    · exact hext.appointed (hnew hby)
  registered := by
    intro e he hwhat
    obtain hold | ⟨hnew, -⟩ := hlog e he
    · obtain ⟨i, hi, hlt⟩ := h.registered e hold hwhat
      exact ⟨i, hi, Nat.lt_of_lt_of_le hlt hnext⟩
    · exact absurd hwhat hnew
  usernames := by
    intro u u' row₁ row₂ h₁ h₂ hname
    obtain ⟨r₁, hr₁, hname₁, -⟩ := hrows u row₁ h₁
    obtain ⟨r₂, hr₂, hname₂, -⟩ := hrows u' row₂ h₂
    exact h.usernames u u' r₁ r₂ hr₁ hr₂ (by rw [← hname₁, ← hname₂, hname])

theorem not_usernameTaken {username : String} (h : ¬ usernameTaken db username = true) {u : UserId}
    {row : User} (hrow : db.users.get u = some row) : row.username ≠ username := by
  rintro rfl
  refine h ?_
  have hmem : (u, row) ∈ db.users.select (fun r => r.2.username == row.username) :=
    (Table.mem_select _ _ _ _).mpr ⟨hrow, beq_iff_eq.mpr rfl⟩
  simp [usernameTaken, List.ne_nil_of_mem hmem]

/-- A new user whose name was free. -/
theorem usernames_insert {row : User}
    (h : ∀ u u' row row', db.users.get u = some row → db.users.get u' = some row' →
      row.username = row'.username → u = u')
    (hfree : ¬ usernameTaken db row.username = true) (u u' : UserId) (row₁ row₂ : User)
    (h₁ : (db.users.insert row).get u = some row₁) (h₂ : (db.users.insert row).get u' = some row₂)
    (hname : row₁.username = row₂.username) : u = u' := by
  rw [Table.get_insert] at h₁ h₂
  split at h₁
  · split at h₂
    · rename_i hu hu'
      rw [hu, hu']
    · cases h₁
      exact absurd hname.symm (not_usernameTaken hfree h₂)
  · split at h₂
    · cases h₂
      exact absurd hname (not_usernameTaken hfree h₁)
    · exact h u u' row₁ row₂ h₁ h₂ hname

theorem UsersSound.register (h : UsersSound env db) {username : String}
    (hok : register db username = some db') : UsersSound env db' := by
  have hext := register_extends hok
  unfold Access.register at hok
  split at hok
  · cases hok
  · rename_i hfree
    cases hok
    refine ⟨fun u row hrow => ?_, fun e he hby => ?_, fun e he hwhat => ?_,
      usernames_insert h.usernames hfree⟩
    · rw [show (record _ _ _ _ _ : Accounts).users = db.users.insert _ from rfl,
        Table.get_insert] at hrow
      split at hrow
      · cases hrow
        exact .inl rfl
      · exact hext.entitled (h.roles u row hrow)
    · obtain hold | rfl := logged_record.mp he
      · exact hext.appointed (h.byAdmin e hold hby)
      · cases hby
    · obtain hold | rfl := logged_record.mp he
      · obtain ⟨i, hi, hlt⟩ := h.registered e hold hwhat
        exact ⟨i, hi, Nat.lt_succ_of_lt hlt⟩
      · exact ⟨_, rfl, Nat.lt_succ_self _⟩

theorem UsersSound.bootstrapAdmin (h : UsersSound env db) (hok : bootstrapAdmin env db = some db') :
    UsersSound env db' := by
  have hext := bootstrapAdmin_extends hok
  unfold Access.bootstrapAdmin at hok
  split at hok
  · cases hok
  · rename_i hfree
    cases hok
    refine ⟨fun u row hrow => ?_, fun e he hby => hext.appointed (h.byAdmin e he hby),
      fun e he hwhat => ?_, usernames_insert h.usernames hfree⟩
    · by_cases hu : u = db.users.next
      · subst hu
        rw [Table.get_insert_next] at hrow
        cases hrow
        refine .inr (.inl ⟨rfl, _, Table.get_insert_next _ _, rfl, fun e he hwhat hid => ?_⟩)
        obtain ⟨i, hi, hlt⟩ := h.registered e he hwhat
        cases hid.symm.trans hi
        exact absurd hlt (lt_irrefl _)
      · rw [Table.get_insert, if_neg hu] at hrow
        exact hext.entitled (h.roles u row hrow)
    · obtain ⟨i, hi, hlt⟩ := h.registered e he hwhat
      exact ⟨i, hi, Nat.lt_succ_of_lt hlt⟩

/-- A transaction that leaves the users alone and logs what needs no administrator. -/
theorem UsersSound.same (h : UsersSound env db) (hext : Extends db db') (husers : db'.users = db.users)
    (hlog : ∀ e, db'.Logged e → db.Logged e ∨ e.what ≠ .userRegister ∧ ¬ e.what.ByAdmin) :
    UsersSound env db' := by
  refine h.keep hext (by rw [husers]) (fun u row hrow => ?_) fun e he => ?_
  · rw [husers] at hrow
    exact ⟨row, hrow, rfl, .inl rfl⟩
  · exact (hlog e he).imp_right (And.imp_right fun hnot hby => absurd hby hnot)

theorem UsersSound.createToken (h : UsersSound env db) {actor : UserId} {row : User}
    {name token : String} (hok : createToken env db now actor row name token = some db') :
    UsersSound env db' := by
  have hext := createToken_extends hok
  unfold Access.createToken at hok
  split at hok
  · cases hok
    refine h.same hext rfl fun e he => ?_
    obtain hold | rfl := logged_record.mp he
    · exact .inl hold
    · exact .inr ⟨by simp, id⟩
  · cases hok

theorem UsersSound.revokeToken (h : UsersSound env db) {actor : UserId} {row : User} {id : TokenId}
    {loaded : ApiToken} : UsersSound env (revokeToken db now actor row id loaded) := by
  refine h.same revokeToken_extends rfl fun e he => ?_
  obtain hold | rfl := logged_record.mp he
  · exact .inl hold
  · exact .inr ⟨by simp, fun hby => hby⟩

theorem UsersSound.setActive (h : UsersSound env db) {actor : UserId} {row : User} {id : UserId}
    {loaded : User} {isActive : Bool} (hactor : Appointed env db actor) :
    UsersSound env (setActive db actor row id loaded isActive) := by
  refine h.keep setActive_extends ?_ (fun u row' hrow' => ?_) fun e he => ?_
  · simp only [Access.setActive, record]
    split <;> simp
  · simp only [Access.setActive, record] at hrow'
    split at hrow'
    · exact ⟨row', hrow', rfl, .inl rfl⟩
    · obtain ⟨r, hr, rfl⟩ := get_of_modify hrow'
      refine ⟨r, hr, ?_, .inl ?_⟩ <;> split <;> rfl
  · obtain hold | rfl := logged_record.mp he
    · exact .inl hold
    · exact .inr ⟨by simp, fun _ => hactor⟩

theorem UsersSound.setRole (h : UsersSound env db) {actor : UserId} {row : User} {id : UserId}
    {loaded : User} {role : String} (hactor : Appointed env db actor) :
    UsersSound env (setRole db actor row id loaded role) := by
  refine h.keep setRole_extends ?_ (fun u row' hrow' => ?_) fun e he => ?_
  · simp only [Access.setRole, record]
    split <;> simp
  · simp only [Access.setRole, record] at hrow'
    split at hrow'
    · exact ⟨row', hrow', rfl, .inl rfl⟩
    · obtain ⟨r, hr, rfl⟩ := get_of_modify hrow'
      refine ⟨r, hr, by split <;> rfl, ?_⟩
      by_cases hu : u = id
      · subst hu
        rw [if_pos rfl]
        exact .inr ⟨_, logged_record.mpr (.inr rfl), rfl, _, rfl⟩
      · rw [if_neg hu]
        exact .inl rfl
  · obtain hold | rfl := logged_record.mp he
    · exact .inl hold
    · exact .inr ⟨by simp, fun _ => hactor⟩

theorem UsersSound.step (h : UsersSound env db) (hc : c.Sound env db) {stage : Stage}
    (heffect : Effect env now db c db' stage) : UsersSound env db' := by
  cases heffect with
  | touch hs hrow hactive => exact h.same touch_extends rfl fun e he => .inl he
  | createToken hs hok => exact h.createToken hok
  | revokeToken hs hop => exact h.revokeToken
  | setActive hs hop => exact h.setActive (hc.target _ _ _ hs)
  | setRole hs hop => exact h.setRole (hc.target _ _ _ hs)
  | register hok => exact h.register hok
  | bootstrap hok => exact h.bootstrapAdmin hok
  | _ => exact h

/-- Old tokens, revoked only where the log says so. -/
theorem TokensSound.keep (h : TokensSound env db) (hext : Extends db db')
    (hrows : ∀ k t', db'.tokens.get k = some t' → ∃ t, db.tokens.get k = some t ∧
      t'.userId = t.userId ∧ t'.tokenHash = t.tokenHash ∧
      (t'.revokedAt ≠ none → t.revokedAt ≠ none ∨
        ∃ e, db'.Logged e ∧ e.what = .tokenRevoke ∧ e.resourceId = some k))
    (hlog : ∀ e, db'.Logged e → e.what = .tokenRevoke → db.Logged e ∨
      ∃ k t, e.resourceId = some k ∧ db'.tokens.get k = some t ∧ t.revokedAt ≠ none ∧
        (e.actorId = t.userId ∨ Appointed env db e.actorId)) : TokensSound env db' where
  created := by
    intro k t' ht'
    obtain ⟨t, ht, huser, -⟩ := hrows k t' ht'
    obtain ⟨e, he, hid, hactor, hwhat⟩ := h.created k t ht
    exact ⟨e, hext.log e he, hid, hactor.trans huser.symm, hwhat⟩
  revoked := by
    intro k t' ht' hrevoked'
    obtain ⟨t, ht, -, -, hrevoked⟩ := hrows k t' ht'
    obtain hold | hnew := hrevoked hrevoked'
    · obtain ⟨e, he, hwhat, hid⟩ := h.revoked k t ht hold
      exact ⟨e, hext.log e he, hwhat, hid⟩
    · exact hnew
  revokes := by
    intro e he hwhat
    obtain hold | ⟨k, t, hid, ht, hrevoked, hmay⟩ := hlog e he hwhat
    · obtain ⟨k, t, hid, ht, hrevoked, hmay⟩ := h.revokes e hold hwhat
      obtain ⟨t', ht', huser, -, -, hkept⟩ := hext.tokens k t ht
      exact ⟨k, t', hid, ht', hkept hrevoked, by rw [huser]; exact hmay.imp_right hext.appointed⟩
    · exact ⟨k, t, hid, ht, hrevoked, hmay.imp_right hext.appointed⟩
  hashes := by
    intro k k' t₁ t₂ h₁ h₂ hhash
    obtain ⟨r₁, hr₁, -, hhash₁, -⟩ := hrows k t₁ h₁
    obtain ⟨r₂, hr₂, -, hhash₂, -⟩ := hrows k' t₂ h₂
    exact h.hashes k k' r₁ r₂ hr₁ hr₂ (by rw [← hhash₁, ← hhash₂, hhash])

theorem TokensSound.same (h : TokensSound env db) (hext : Extends db db')
    (htokens : db'.tokens = db.tokens)
    (hlog : ∀ e, db'.Logged e → e.what = .tokenRevoke → db.Logged e) : TokensSound env db' := by
  refine h.keep hext (fun k t ht => ?_) fun e he hwhat => .inl (hlog e he hwhat)
  rw [htokens] at ht
  exact ⟨t, ht, rfl, rfl, .inl⟩

theorem TokensSound.touch (h : TokensSound env db) {id : TokenId} :
    TokensSound env (touch db id now) := by
  refine h.keep touch_extends (fun k t' ht' => ?_) fun e he _ => .inl he
  obtain ⟨t, ht, rfl⟩ := get_of_modify ht'
  refine ⟨t, ht, ?_, ?_, fun hr => .inl ?_⟩
  · split <;> rfl
  · split <;> rfl
  · split at hr <;> exact hr

theorem TokensSound.createToken (h : TokensSound env db) {actor : UserId} {row : User}
    {name token : String} (hok : createToken env db now actor row name token = some db') :
    TokensSound env db' := by
  have hext := createToken_extends hok
  unfold Access.createToken at hok
  split at hok
  · rename_i hfree
    cases hok
    let created : ApiToken := ⟨name, actor, env.hash token, none, expiry env now, none, true⟩
    have hrows : ∀ k t, (db.tokens.insert created).get k = some t →
        (k = db.tokens.next ∧ t = created) ∨ db.tokens.get k = some t := by
      intro k t ht
      rw [Table.get_insert] at ht
      split at ht
      · rename_i hk
        exact .inl ⟨hk, (Option.some.inj ht).symm⟩
      · exact .inr ht
    have hother : ∀ k t, db.tokens.get k = some t → t.tokenHash ≠ env.hash token := by
      intro k t ht hhash
      have hmem : (k, t) ∈ db.tokens.select (fun r => r.2.tokenHash == env.hash token) :=
        (Table.mem_select _ _ _ _).mpr ⟨ht, beq_iff_eq.mpr hhash⟩
      rw [List.isEmpty_iff.mp hfree] at hmem
      cases hmem
    refine ⟨fun k t ht => ?_, fun k t ht hrevoked => ?_, fun e he hwhat => ?_,
      fun k k' t₁ t₂ h₁ h₂ hhash => ?_⟩
    · obtain ⟨rfl, rfl⟩ | hold := hrows k t ht
      · exact ⟨_, logged_record.mpr (.inr rfl), rfl, rfl, name, rfl⟩
      · obtain ⟨e, he, hid, hactor, hwhat⟩ := h.created k t hold
        exact ⟨e, hext.log e he, hid, hactor, hwhat⟩
    · obtain ⟨rfl, rfl⟩ | hold := hrows k t ht
      · exact absurd rfl hrevoked
      · obtain ⟨e, he, hwhat, hid⟩ := h.revoked k t hold hrevoked
        exact ⟨e, hext.log e he, hwhat, hid⟩
    · obtain hold | rfl := logged_record.mp he
      · obtain ⟨k, t, hid, ht, hrevoked, hmay⟩ := h.revokes e hold hwhat
        exact ⟨k, t, hid, Table.get_insert_of_some _ ht, hrevoked,
          hmay.imp_right hext.appointed⟩
      · cases hwhat
    · obtain ⟨rfl, rfl⟩ | hold₁ := hrows k t₁ h₁ <;> obtain ⟨rfl, rfl⟩ | hold₂ := hrows k' t₂ h₂
      · rfl
      · exact absurd hhash.symm (hother _ _ hold₂)
      · exact absurd hhash (hother _ _ hold₁)
      · exact h.hashes k k' t₁ t₂ hold₁ hold₂ hhash
  · cases hok

/-- The row is revoked by now, if not by this request then by another one. -/
theorem TokensSound.revokeToken (h : TokensSound env db) {actor : UserId} {row : User}
    {id : TokenId} {loaded t : ApiToken} (ht : db.tokens.get id = some t)
    (hrevoked : loaded.revokedAt ≠ none → t.revokedAt ≠ none)
    (hmay : actor = t.userId ∨ Appointed env db actor) :
    TokensSound env (revokeToken db now actor row id loaded) := by
  refine h.keep revokeToken_extends (fun k t' ht' => ?_) fun e he hwhat => ?_
  · simp only [Access.revokeToken, record] at ht'
    split at ht'
    · obtain ⟨t, ht, rfl⟩ := get_of_modify ht'
      refine ⟨t, ht, by split <;> rfl, by split <;> rfl, fun hr => ?_⟩
      split at hr
      · rename_i hk
        exact .inr ⟨_, logged_record.mpr (.inr rfl), rfl, congrArg some hk.symm⟩
      · exact .inl hr
    · exact ⟨t', ht', rfl, rfl, .inl⟩
  · obtain hold | rfl := logged_record.mp he
    · exact .inl hold
    · refine .inr ?_
      simp only [Access.revokeToken, record]
      split
      · rename_i hnone
        refine ⟨id, { t with revokedAt := some now }, rfl, ?_, Option.some_ne_none _, hmay⟩
        rw [Table.get_modify_self, ht]
        rfl
      · rename_i hsome
        exact ⟨id, t, rfl, ht, hrevoked (by simpa using hsome), hmay⟩

theorem TokensSound.step (h : TokensSound env db) (hc : c.Sound env db) {stage : Stage}
    (heffect : Effect env now db c db' stage) : TokensSound env db' := by
  cases heffect with
  | touch hs hrow hactive => exact h.touch
  | createToken hs hok => exact h.createToken hok
  | revokeToken hs hop =>
    obtain ⟨t, ht, hrevoked, hmay⟩ := hc.located _ _ _ _ hs hop
    exact h.revokeToken ht hrevoked hmay
  | setActive hs hop =>
    refine h.same setActive_extends rfl fun e he hwhat => ?_
    obtain hold | rfl := logged_record.mp he
    · exact hold
    · cases hwhat
  | setRole hs hop =>
    refine h.same setRole_extends rfl fun e he hwhat => ?_
    obtain hold | rfl := logged_record.mp he
    · exact hold
    · cases hwhat
  | register hok =>
    have hext := register_extends hok
    unfold Access.register at hok
    split at hok
    · cases hok
    · cases hok
      refine h.same hext rfl fun e he hwhat => ?_
      obtain hold | rfl := logged_record.mp he
      · exact hold
      · cases hwhat
  | bootstrap hok =>
    have hext := bootstrapAdmin_extends hok
    unfold Access.bootstrapAdmin at hok
    split at hok
    · cases hok
    · cases hok
      exact h.same hext rfl fun e he _ => he
  | _ => exact h

end

theorem State.initial_sound (env : Env) : State.initial.Sound env where
  users := by
    refine ⟨fun u row h => ?_, fun e he => ?_, fun e he => ?_, fun u u' row row' h => ?_⟩
    · cases h
    · obtain ⟨k, hk⟩ := he
      cases hk
    · obtain ⟨k, hk⟩ := he
      cases hk
    · cases h
  tokens := by
    refine ⟨fun k t h => ?_, fun k t h => ?_, fun e he => ?_, fun k k' t t' h => ?_⟩
    · cases h
    · cases h
    · obtain ⟨k, hk⟩ := he
      cases hk
    · cases h
  sessions := by
    intro i c hc
    simp [State.initial] at hc

/-- The database after a step, and the request that took it. -/
theorem State.step_cases (env : Env) (s : State) (a : Action) :
    ((s.step env a).db = s.db ∧
      ∀ i c, (s.step env a).sessions[i]? = some c → s.sessions[i]? = some c ∨
        i = s.sessions.length ∧ c.stage = .begun) ∨
    ∃ i now c stage, a = .advance i now ∧ s.sessions[i]? = some c ∧
      Effect env now s.db c (s.step env a).db stage ∧
      (s.step env a).db = (c.advance env now s.db).1 ∧ stage = (c.advance env now s.db).2 ∧
      (s.step env a).sessions = s.sessions.set i { c with stage := stage } := by
  cases a with
  | arrive request =>
    refine .inl ⟨rfl, fun i c hc => ?_⟩
    obtain ⟨hi, rfl⟩ | ⟨-, hold⟩ := Slots.getElem?_append_cases hc
    · exact .inr ⟨hi, rfl⟩
    · exact .inl hold
  | advance i now =>
    obtain hc | ⟨c, hc⟩ := Option.eq_none_or_eq_some s.sessions[i]?
    · have hstep : s.step env (.advance i now) = s := by simp only [State.step, hc]
      rw [hstep]
      exact .inl ⟨rfl, fun k c hk => .inl hk⟩
    · have hstep : s.step env (.advance i now) = { s with
          db := (c.advance env now s.db).1
          sessions := s.sessions.set i { c with stage := (c.advance env now s.db).2 } } := by
        simp only [State.step, hc]
      rw [hstep]
      exact .inr ⟨i, now, c, _, rfl, hc, advance_effect env now s.db c, rfl, rfl, rfl⟩

theorem State.Sound.step {env : Env} {s : State} (h : s.Sound env) (a : Action) :
    (s.step env a).Sound env := by
  obtain ⟨hdb, hsessions⟩ | ⟨i, now, c, stage, -, hc, heffect, -, -, hsessions⟩ :=
    State.step_cases env s a
  · refine ⟨by rw [hdb]; exact h.users, by rw [hdb]; exact h.tokens, fun k c' hk => ?_⟩
    rw [hdb]
    obtain hold | ⟨-, hbegun⟩ := hsessions k c' hk
    · exact h.sessions k c' hold
    · refine ⟨fun _ _ hs => ?_, fun _ _ hs => ?_, fun _ _ _ hs => ?_, fun _ _ _ _ hs => ?_⟩ <;>
        rw [hbegun] at hs <;> cases hs
  · have hsound := h.sessions i c hc
    refine ⟨h.users.step hsound heffect, h.tokens.step hsound heffect, fun k c' hk => ?_⟩
    rw [hsessions] at hk
    obtain ⟨-, rfl⟩ | ⟨-, hold⟩ := Slots.getElem?_set_cases hk
    · exact hsound.advance h.users heffect
    · exact (h.sessions k c' hold).later heffect.extends

theorem State.after_sound (env : Env) (acts : List Action) : (State.after env acts).Sound env :=
  run_invariant (fun _ a h => h.step a) (State.initial_sound env) acts

theorem Bootstrapped.unique {env : Env} {db : Accounts} (h : UsersSound env db) {u u' : UserId}
    (hu : Bootstrapped env db u) (hu' : Bootstrapped env db u') : u = u' := by
  obtain ⟨row, hrow, hname, -⟩ := hu
  obtain ⟨row', hrow', hname', -⟩ := hu'
  exact h.usernames u u' row row' hrow hrow' (hname.trans hname'.symm)

/-- Whatever requests run at the same time, a user is a viewer, or the bootstrap admin, or has a
role that the audit log says was granted; and whoever granted a role or switched a user was
appointed by administrators, in a chain of entries that begins with the one bootstrap admin. -/
theorem authority_is_granted (env : Env) (acts : List Action) :
    (∀ u row, (State.after env acts).db.users.get u = some row →
      Entitled env (State.after env acts).db u row.role) ∧
    (∀ e, (State.after env acts).db.Logged e → e.what.ByAdmin →
      Appointed env (State.after env acts).db e.actorId) ∧
    ∀ u u', Bootstrapped env (State.after env acts).db u →
      Bootstrapped env (State.after env acts).db u' → u = u' := by
  have h := (State.after_sound env acts).users
  exact ⟨h.roles, h.byAdmin, fun u u' hu hu' => hu.unique h hu'⟩

/-- The audit log accounts for every API token: its creation by the owner, and exactly if it is
revoked an entry that says so, which the owner or an appointed administrator wrote. No two tokens
have the same hash. -/
theorem tokens_accounted (env : Env) (acts : List Action) (k : TokenId) {t : ApiToken}
    (ht : (State.after env acts).db.tokens.get k = some t) :
    (∃ e, (State.after env acts).db.Logged e ∧ e.resourceId = some k ∧ e.actorId = t.userId ∧
      ∃ name, e.what = .tokenCreate name) ∧
    (t.revokedAt ≠ none ↔ ∃ e, (State.after env acts).db.Logged e ∧ e.what = .tokenRevoke ∧
      e.resourceId = some k) ∧
    (∀ e, (State.after env acts).db.Logged e → e.what = .tokenRevoke → e.resourceId = some k →
      e.actorId = t.userId ∨ Appointed env (State.after env acts).db e.actorId) ∧
    ∀ k' t', (State.after env acts).db.tokens.get k' = some t' → t'.tokenHash = t.tokenHash →
      k' = k := by
  have h := (State.after_sound env acts).tokens
  have hrevokes : ∀ e, (State.after env acts).db.Logged e → e.what = .tokenRevoke →
      e.resourceId = some k → t.revokedAt ≠ none ∧
        (e.actorId = t.userId ∨ Appointed env (State.after env acts).db e.actorId) := by
    intro e he hwhat hid
    obtain ⟨k', t', hid', ht', hrevoked, hmay⟩ := h.revokes e he hwhat
    cases hid.symm.trans hid'
    cases ht.symm.trans ht'
    exact ⟨hrevoked, hmay⟩
  refine ⟨h.created k t ht, ⟨h.revoked k t ht, ?_⟩, fun e he hwhat hid => ?_,
    fun k' t' ht' hhash => h.hashes k' k t' t ht' ht hhash⟩
  · rintro ⟨e, he, hwhat, hid⟩
    exact (hrevokes e he hwhat hid).1
  · exact (hrevokes e he hwhat hid).2

/-- Two users with an access token each. -/
def twoUsers : Env where
  hash := fun token => "#" ++ token
  decode := fun token =>
    if token = "first" then some ⟨1, .access, 1000⟩
    else if token = "second" then some ⟨2, .access, 1000⟩
    else none
  apiTokenPrefix := "tp_"
  apiTokenExpireDays := 90
  adminUsername := "admin"

/-- The first start, a registration, and a token for the new user. -/
def tokenRun : List Action :=
  [.arrive ⟨none, .bootstrap⟩, .advance 0 0, .advance 0 0,
    .arrive ⟨none, .register "viewer"⟩, .advance 1 1, .advance 1 1,
    .arrive ⟨some "second", .createToken "ci" "tp_1"⟩, .advance 2 2, .advance 2 2]

/-- The owner and the administrator revoke the token at the same time. -/
def revokedRun : List Action :=
  tokenRun ++ [.arrive ⟨some "second", .revokeToken 1⟩, .arrive ⟨some "first", .revokeToken 1⟩,
    .advance 3 3, .advance 4 3, .advance 3 4, .advance 4 4, .advance 3 5, .advance 4 6]

theorem tokens_accounted_revokedRun :
    ∃ t, (State.after twoUsers revokedRun).db.tokens.get 1 = some t ∧ t.revokedAt = some 6 ∧
      ∃ e, (State.after twoUsers revokedRun).db.Logged e ∧ e.what = .tokenRevoke ∧
        e.resourceId = some 1 := by
  obtain ⟨t, ht⟩ := Option.isSome_iff_exists.mp
    (by decide +kernel : ((State.after twoUsers revokedRun).db.tokens.get 1).isSome = true)
  have hrevoked : ((State.after twoUsers revokedRun).db.tokens.get 1).bind (·.revokedAt) =
      some 6 := by decide +kernel
  rw [ht, Option.bind_some] at hrevoked
  obtain ⟨-, hiff, -, -⟩ := tokens_accounted twoUsers revokedRun 1 ht
  exact ⟨t, ht, hrevoked, hiff.mp (by rw [hrevoked]; exact Option.some_ne_none _)⟩

end TaskPlatform.Access
