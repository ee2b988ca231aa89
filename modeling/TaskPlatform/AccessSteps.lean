import TaskPlatform.Access

/-!
# The statements of the account requests

What the next statement of a request can do, what it knows when it does it, and
what every transaction keeps of the rows that others have read.
-/

namespace TaskPlatform.Access

def Accounts.Logged (db : Accounts) (e : AuditLog) : Prop := ∃ k, db.audit.get k = some e

/-- What is read and what is written by the next statement of a request. -/
inductive Effect (env : Env) (now : Time) (db : Accounts) (c : Session) : Accounts → Stage → Prop
  | same : Effect env now db c db c.stage
  | closed : Effect env now db c db .committed
  | refused (code : Nat) : Effect env now db c db (.refused code)
  | vacant : c.request.operation.guarded = false → Effect env now db c db .vacant
  | found {token : String} {id : TokenId} {loaded : ApiToken} : c.stage = .begun →
      c.request.credentials = some token → isApiToken env token = true →
      db.tokens.get id = some loaded → loaded.tokenHash = env.hash token →
      loaded.revokedAt = none → (∀ t, loaded.expiresAt = some t → now < t) →
      Effect env now db c db (.found id loaded)
  | access {token : String} {payload : Payload} {row : User} : c.stage = .begun →
      c.request.credentials = some token → isApiToken env token = false →
      env.decode token = some payload → now < payload.exp → payload.type = .access →
      db.users.get payload.sub = some row → row.isActive = true →
      Effect env now db c db (.authorised payload.sub row)
  | touch {id : TokenId} {loaded : ApiToken} {row : User} : c.stage = .found id loaded →
      db.users.get loaded.userId = some row → row.isActive = true →
      Effect env now db c (touch db id now) (.authorised loaded.userId row)
  | target {actor : UserId} {row : User} {id : UserId} {loaded : User} :
      c.stage = .authorised actor row → row.role = "admin" → db.users.get id = some loaded →
      Effect env now db c db (.target actor row loaded)
  | located {actor : UserId} {row : User} {id : TokenId} {loaded : ApiToken} :
      c.stage = .authorised actor row → c.request.operation = .revokeToken id →
      db.tokens.get id = some loaded → (row.role = "admin" ∨ loaded.userId = actor) →
      Effect env now db c db (.located actor row loaded)
  | permitted {actor : UserId} {row : User} {roles : List String} :
      c.stage = .authorised actor row → c.request.operation = .command roles → row.role ∈ roles →
      Effect env now db c db (.permitted actor row)
  | createToken {actor : UserId} {row : User} {name token : String} {db' : Accounts} :
      c.stage = .authorised actor row →
      createToken env db now actor row name token = some db' → Effect env now db c db' .committed
  | revokeToken {actor : UserId} {row : User} {id : TokenId} {loaded : ApiToken} :
      c.stage = .located actor row loaded → c.request.operation = .revokeToken id →
      Effect env now db c (revokeToken db now actor row id loaded) .committed
  | setActive {actor : UserId} {row : User} {id : UserId} {loaded : User} {isActive : Bool} :
      c.stage = .target actor row loaded → c.request.operation = .setActive id isActive →
      Effect env now db c (setActive db actor row id loaded isActive) .committed
  | setRole {actor : UserId} {row : User} {id : UserId} {loaded : User} {role : String} :
      c.stage = .target actor row loaded → c.request.operation = .setRole id role →
      Effect env now db c (setRole db actor row id loaded role) .committed
  | register {username : String} {db' : Accounts} : register db username = some db' →
      Effect env now db c db' .committed
  | bootstrap {db' : Accounts} : bootstrapAdmin env db = some db' →
      Effect env now db c db' .committed

section

variable {env : Env} {now : Time} {db db' : Accounts} {c : Session}

theorem activeUser_some {id : UserId} {row : User} (h : activeUser db id = some row) :
    db.users.get id = some row ∧ row.isActive = true :=
  Option.filter_eq_some_iff.mp h

theorem authenticate_some {token : String} {id : TokenId} {loaded : ApiToken}
    (h : authenticate env db now token = some (id, loaded)) :
    db.tokens.get id = some loaded ∧ loaded.tokenHash = env.hash token ∧
      loaded.revokedAt = none ∧ ∀ t, loaded.expiresAt = some t → now < t := by
  unfold authenticate at h
  split at h
  · cases h
  · rename_i k found rest hselect
    split at h
    · cases h
    · rename_i hrevoked
      split at h
      · cases h
      · split at h
        · cases h
        · rename_i hexpired
          cases h
          have hmem : (id, loaded) ∈ db.tokens.select (fun r => r.2.tokenHash == env.hash token) := by
            rw [hselect]
            exact List.mem_cons_self
          obtain ⟨hget, hhash⟩ := (Table.mem_select _ _ _ _).mp hmem
          refine ⟨hget, beq_iff_eq.mp hhash, by simpa using hrevoked, fun t ht => ?_⟩
          simpa [ht] using hexpired

theorem decodeToken_some {token : String} {payload : Payload}
    (h : decodeToken env now token = some payload) :
    env.decode token = some payload ∧ now < payload.exp := by
  simpa [decodeToken, Option.filter_eq_some_iff] using h

theorem getCurrentUser_effect (hs : c.stage = .begun) :
    Effect env now db c db (getCurrentUser env db now c.request.credentials) := by
  cases hc : c.request.credentials with
  | none => exact .refused 401
  | some token =>
    simp only [getCurrentUser]
    split
    · rename_i hapi
      split
      · exact .refused 401
      · rename_i id loaded hfound
        obtain ⟨hget, hhash, hrevoked, hexpires⟩ := authenticate_some hfound
        exact .found hs hc hapi hget hhash hrevoked hexpires
    · rename_i hapi
      split
      · exact .refused 401
      · rename_i payload hdecode
        obtain ⟨hpayload, hexp⟩ := decodeToken_some hdecode
        split
        · exact .refused 401
        · rename_i htype
          split
          · exact .refused 401
          · rename_i row hrow
            obtain ⟨hget, hactive⟩ := activeUser_some hrow
            exact .access hs hc (Bool.eq_false_iff.mpr hapi) hpayload hexp (not_not.mp htype) hget
              hactive

theorem findTarget_effect {actor : UserId} {row : User} (hs : c.stage = .authorised actor row)
    (valid : Bool) (id : UserId) : Effect env now db c db (findTarget db actor row valid id) := by
  unfold findTarget
  split
  · exact .refused 403
  · rename_i hrole
    split
    · exact .refused 422
    · split
      · exact .refused 404
      · rename_i loaded hget
        exact .target hs (not_not.mp hrole) hget

theorem findToken_effect {actor : UserId} {row : User} {id : TokenId}
    (hs : c.stage = .authorised actor row) (hop : c.request.operation = .revokeToken id) :
    Effect env now db c db (findToken db actor row id) := by
  unfold findToken
  split
  · exact .refused 404
  · rename_i loaded hfound
    obtain ⟨hget, hmay⟩ := Option.filter_eq_some_iff.mp hfound
    exact .located hs hop hget (by simpa using hmay)

theorem finish_effect {r : Option Accounts}
    (h : ∀ db', r = some db' → Effect env now db c db' .committed) :
    Effect env now db c (finish db r).1 (finish db r).2 := by
  cases r with
  | none => exact .refused 500
  | some db' => exact h db' rfl

theorem advance_effect (env : Env) (now : Time) (db : Accounts) (c : Session) :
    Effect env now db c (c.advance env now db).1 (c.advance env now db).2 := by
  unfold Session.advance
  split
  · split
    · exact .vacant (by simp [Operation.guarded, *])
    · exact .closed
  · split
    · exact .refused 422
    · split
      · exact .refused 409
      · exact .vacant (by simp [Operation.guarded, *])
  · rename_i hs _ _
    exact getCurrentUser_effect hs
  · rename_i hs
    split
    · exact .refused 401
    · rename_i row hrow
      obtain ⟨hget, hactive⟩ := activeUser_some hrow
      exact .touch hs hget hactive
  · rename_i hs _
    exact findTarget_effect hs _ _
  · rename_i hs _
    exact findTarget_effect hs _ _
  · rename_i hs _
    split
    · exact .refused 422
    · exact finish_effect fun db' h => .createToken hs h
  · rename_i hs hop
    exact findToken_effect hs hop
  · rename_i hs hop
    split
    · rename_i hrole
      exact .permitted hs hop hrole
    · exact .refused 403
  · rename_i hs hop
    exact .setActive hs hop
  · rename_i hs hop
    split
    · exact .refused 500
    · exact .setRole hs hop
  · rename_i hs hop
    exact .revokeToken hs hop
  · exact finish_effect fun db' h => .bootstrap h
  · exact finish_effect fun db' h => .register h
  · exact .same

/-- What every transaction keeps of the rows that others have read. -/
structure Extends (db db' : Accounts) : Prop where
  log : ∀ e, db.Logged e → db'.Logged e
  registered : ∀ e, db'.Logged e → e.what = .userRegister → db.Logged e ∨
    ∃ i, e.resourceId = some i ∧ db.users.next ≤ i
  users : ∀ u row, db.users.get u = some row →
    ∃ row', db'.users.get u = some row' ∧ row'.username = row.username
  tokens : ∀ k t, db.tokens.get k = some t → ∃ t', db'.tokens.get k = some t' ∧
    t'.userId = t.userId ∧ t'.tokenHash = t.tokenHash ∧ t'.expiresAt = t.expiresAt ∧
    (t.revokedAt ≠ none → t'.revokedAt ≠ none)

theorem Extends.refl (db : Accounts) : Extends db db where
  log := fun _ h => h
  registered := fun _ h _ => .inl h
  users := fun _ row h => ⟨row, h, rfl⟩
  tokens := fun _ t h => ⟨t, h, rfl, rfl, rfl, fun hr => hr⟩

section

variable {actor : UserId} {row : User} {what : Audited} {id : Option Nat} {e : AuditLog}

theorem logged_record : (record db actor row what id).Logged e ↔
    db.Logged e ∨ e = ⟨actor, row.username, what, id⟩ := by
  constructor
  · rintro ⟨k, hk⟩
    rw [record, Table.get_insert] at hk
    split at hk
    · exact .inr (Option.some.inj hk).symm
    · exact .inl ⟨k, hk⟩
  · rintro (⟨k, hk⟩ | rfl)
    · exact ⟨k, Table.get_insert_of_some _ hk⟩
    · exact ⟨db.audit.next, Table.get_insert_next _ _⟩

/-- Rows are added and rewritten, and one entry is written to the log. -/
theorem Extends.record {users : Table User} {tokens : Table ApiToken}
    (hwhat : what = .userRegister → ∃ i, id = some i ∧ db.users.next ≤ i)
    (husers : ∀ u row, db.users.get u = some row →
      ∃ row', users.get u = some row' ∧ row'.username = row.username)
    (htokens : ∀ k t, db.tokens.get k = some t → ∃ t', tokens.get k = some t' ∧
      t'.userId = t.userId ∧ t'.tokenHash = t.tokenHash ∧ t'.expiresAt = t.expiresAt ∧
      (t.revokedAt ≠ none → t'.revokedAt ≠ none)) :
    Extends db (record { db with users := users, tokens := tokens } actor row what id) where
  log := fun _ he => logged_record.mpr (.inl he)
  registered := by
    intro e he hregister
    obtain hold | rfl := logged_record.mp he
    · exact .inl hold
    · exact .inr (hwhat hregister)
  users := husers
  tokens := htokens

end

theorem get_modify_some {α : Type} {t : Table α} {i k : Nat} {f : α → α} {a : α}
    (h : t.get k = some a) : ∃ a', (t.modify i f).get k = some a' ∧ (a' = a ∨ a' = f a) := by
  rw [Table.get_modify, h]
  split
  · exact ⟨f a, rfl, .inr rfl⟩
  · exact ⟨a, rfl, .inl rfl⟩

theorem get_of_modify {α : Type} {t : Table α} {i k : Nat} {f : α → α} {a : α}
    (h : (t.modify i f).get k = some a) :
    ∃ b, t.get k = some b ∧ a = if k = i then f b else b := by
  rw [Table.get_modify] at h
  split at h
  · rename_i hk
    obtain ⟨b, hb, rfl⟩ := Option.map_eq_some_iff.mp h
    exact ⟨b, hb, (if_pos hk).symm⟩
  · rename_i hk
    exact ⟨a, h, (if_neg hk).symm⟩

theorem createToken_extends {actor : UserId} {row : User} {name token : String}
    (h : createToken env db now actor row name token = some db') : Extends db db' := by
  unfold createToken at h
  split at h
  · cases h
    refine Extends.record (by simp) (fun u r hr => ⟨r, hr, rfl⟩) (fun k t ht => ?_)
    exact ⟨t, Table.get_insert_of_some _ ht, rfl, rfl, rfl, fun hr => hr⟩
  · cases h

theorem revokeToken_extends {actor : UserId} {row : User} {id : TokenId} {loaded : ApiToken} :
    Extends db (revokeToken db now actor row id loaded) := by
  refine Extends.record (by simp) (fun u r hr => ⟨r, hr, rfl⟩) (fun k t ht => ?_)
  split
  · obtain ⟨t', ht', rfl | rfl⟩ := get_modify_some ht
    · exact ⟨_, ht', rfl, rfl, rfl, fun hr => hr⟩
    · exact ⟨_, ht', rfl, rfl, rfl, fun _ => Option.some_ne_none _⟩
  · exact ⟨t, ht, rfl, rfl, rfl, fun hr => hr⟩

theorem setActive_extends {actor : UserId} {row : User} {id : UserId} {loaded : User}
    {isActive : Bool} : Extends db (setActive db actor row id loaded isActive) := by
  refine Extends.record (by simp) (fun u r hr => ?_)
    (fun k t ht => ⟨t, ht, rfl, rfl, rfl, fun hr => hr⟩)
  split
  · exact ⟨r, hr, rfl⟩
  · obtain ⟨r', hr', rfl | rfl⟩ := get_modify_some hr <;> exact ⟨_, hr', rfl⟩

theorem setRole_extends {actor : UserId} {row : User} {id : UserId} {loaded : User}
    {role : String} : Extends db (setRole db actor row id loaded role) := by
  refine Extends.record (by simp) (fun u r hr => ?_)
    (fun k t ht => ⟨t, ht, rfl, rfl, rfl, fun hr => hr⟩)
  split
  · exact ⟨r, hr, rfl⟩
  · obtain ⟨r', hr', rfl | rfl⟩ := get_modify_some hr <;> exact ⟨_, hr', rfl⟩

theorem register_extends {username : String} (h : register db username = some db') :
    Extends db db' := by
  unfold register at h
  split at h
  · cases h
  · cases h
    exact Extends.record (fun _ => ⟨_, rfl, le_refl _⟩)
      (fun u r hr => ⟨r, Table.get_insert_of_some _ hr, rfl⟩)
      (fun k t ht => ⟨t, ht, rfl, rfl, rfl, fun hr => hr⟩)

theorem bootstrapAdmin_extends (h : bootstrapAdmin env db = some db') : Extends db db' := by
  unfold bootstrapAdmin at h
  split at h
  · cases h
  · cases h
    exact ⟨fun _ he => he, fun _ he _ => .inl he,
      fun u r hr => ⟨r, Table.get_insert_of_some _ hr, rfl⟩,
      fun k t ht => ⟨t, ht, rfl, rfl, rfl, fun hr => hr⟩⟩

theorem touch_extends {id : TokenId} : Extends db (touch db id now) where
  log := fun _ h => h
  registered := fun _ h _ => .inl h
  users := fun _ row h => ⟨row, h, rfl⟩
  tokens := by
    intro k t ht
    obtain ⟨t', ht', rfl | rfl⟩ := get_modify_some ht <;>
      exact ⟨_, ht', rfl, rfl, rfl, fun hr => hr⟩

theorem Effect.extends {stage : Stage} (h : Effect env now db c db' stage) : Extends db db' := by
  cases h with
  | touch => exact touch_extends
  | createToken hs hok => exact createToken_extends hok
  | revokeToken => exact revokeToken_extends
  | setActive => exact setActive_extends
  | setRole => exact setRole_extends
  | register hok => exact register_extends hok
  | bootstrap hok => exact bootstrapAdmin_extends hok
  | _ => exact .refl db

end

end TaskPlatform.Access
