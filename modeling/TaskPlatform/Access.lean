import TaskPlatform.Database
import TaskPlatform.Lib.Run

/-!
# Users, API tokens and the audit log

The requests of `routes/auth.py` that create users and API tokens or change them,
with `get_current_user` before them, statement by statement. A statement sees the
rows that were committed before it, a request goes on with the objects that it
read, and what it writes is committed in one step with its audit row. Any number
of requests run at the same time. `command` stands for a request of another route
that needs a role; it goes as far as the check of the role here. The audit rows
are all that were ever written: what the retention deletes of them is left out.
-/

namespace TaskPlatform.Access

abbrev UserId := Nat

abbrev TokenId := Nat

structure User where
  username : String
  role : String
  isActive : Bool
  deriving DecidableEq, Repr

structure ApiToken where
  name : String
  userId : UserId
  tokenHash : String
  lastUsedAt : Option Time
  expiresAt : Option Time
  revokedAt : Option Time
  isActive : Bool
  deriving DecidableEq, Repr

/-- The `action` and the `resource_type` of an audit row, with the `details` that go with them. -/
inductive Audited where
  | userRegister
  | setActive (isActive : Bool)
  | roleChange (oldRole newRole : String)
  | tokenCreate (name : String)
  | tokenRevoke
  | command (action resourceType : String)
  deriving DecidableEq, Repr

def Audited.action : Audited → String
  | .userRegister => "user.register"
  | .setActive _ => "user.set_active"
  | .roleChange _ _ => "user.role_change"
  | .tokenCreate _ => "api_token.create"
  | .tokenRevoke => "api_token.revoke"
  | .command action _ => action

def Audited.resourceType : Audited → String
  | .userRegister | .setActive _ | .roleChange _ _ => "user"
  | .tokenCreate _ | .tokenRevoke => "api_token"
  | .command _ resourceType => resourceType

structure AuditLog where
  actorId : UserId
  actorUsername : String
  what : Audited
  resourceId : Option Nat
  deriving DecidableEq, Repr

structure Accounts where
  users : Table User
  tokens : Table ApiToken
  audit : Table AuditLog

def Accounts.empty : Accounts := ⟨.empty, .empty, .empty⟩

inductive TokenType where
  | access | refresh
  deriving DecidableEq, Repr

/-- The claims of a JWT whose signature is good. -/
structure Payload where
  sub : UserId
  type : TokenType
  exp : Time
  deriving DecidableEq, Repr

/-- `hash` is SHA-256, `decode` checks the signature of a JWT and reads its claims. -/
structure Env where
  hash : String → String
  decode : String → Option Payload
  apiTokenPrefix : String
  apiTokenExpireDays : Int
  adminUsername : String

/-- `ROLES` -/
def roles : List String := ["admin", "operator", "viewer"]

/-- `RoleChangeRequest`: its pattern is searched for in the role, not matched with the whole. -/
def validRole (role : String) : Bool := roles.any (fun r => decide (r.toList <:+: role.toList))

def isApiToken (env : Env) (token : String) : Bool :=
  decide (env.apiTokenPrefix.toList <+: token.toList)

/-- `jwt.decode`, which refuses a token that has expired. -/
def decodeToken (env : Env) (now : Time) (token : String) : Option Payload :=
  (env.decode token).filter (fun payload => decide (now < payload.exp))

/-- `api_tokens.authenticate` -/
def authenticate (env : Env) (db : Accounts) (now : Time) (token : String) :
    Option (TokenId × ApiToken) :=
  match db.tokens.select (fun r => r.2.tokenHash == env.hash token) with
  | [] => none
  | (id, record) :: _ =>
    if record.revokedAt.isSome then none
    else if !record.isActive then none
    else if record.expiresAt.any (fun t => t ≤ now) then none
    else some (id, record)

/-- The user that a request is made for, if the user is there and active. -/
def activeUser (db : Accounts) (id : UserId) : Option User := (db.users.get id).filter (·.isActive)

def usernameTaken (db : Accounts) (username : String) : Bool :=
  !(db.users.select (fun r => r.2.username == username)).isEmpty

/-- `audit.record` -/
def record (db : Accounts) (actor : UserId) (row : User) (what : Audited)
    (resourceId : Option Nat) : Accounts :=
  { db with audit := db.audit.insert ⟨actor, row.username, what, resourceId⟩ }

/-- What `_authenticate_api_token` commits. -/
def touch (db : Accounts) (id : TokenId) (now : Time) : Accounts :=
  { db with tokens := db.tokens.modify id (fun t => { t with lastUsedAt := some now }) }

/-- `expires_at` of a new token; the route gives no `ttl_days`. -/
def expiry (env : Env) (now : Time) : Option Time :=
  if 0 < env.apiTokenExpireDays then some (now + timedeltaDays env.apiTokenExpireDays) else none

/-- `create_api_token`; `none` where the hash is taken. -/
def createToken (env : Env) (db : Accounts) (now : Time) (actor : UserId) (row : User)
    (name token : String) : Option Accounts :=
  if (db.tokens.select (fun r => r.2.tokenHash == env.hash token)).isEmpty then
    let created := { db with
      tokens := db.tokens.insert
        ⟨name, actor, env.hash token, none, expiry env now, none, true⟩ }
    some (record created actor row (.tokenCreate name) (some db.tokens.next))
  else none

/-- `revoke_api_token` after `revoke_token` has read the row `loaded`. -/
def revokeToken (db : Accounts) (now : Time) (actor : UserId) (row : User) (id : TokenId)
    (loaded : ApiToken) : Accounts :=
  let tokens :=
    if loaded.revokedAt.isNone then
      db.tokens.modify id (fun t => { t with revokedAt := some now })
    else db.tokens
  record { db with tokens := tokens } actor row .tokenRevoke (some id)

/-- `set_active` after it has read the user; an unchanged column is not written. -/
def setActive (db : Accounts) (actor : UserId) (row : User) (id : UserId) (target : User)
    (isActive : Bool) : Accounts :=
  let users :=
    if isActive = target.isActive then db.users
    else db.users.modify id (fun u => { u with isActive := isActive })
  record { db with users := users } actor row (.setActive isActive) (some id)

/-- `set_role` after it has read the user. -/
def setRole (db : Accounts) (actor : UserId) (row : User) (id : UserId) (target : User)
    (role : String) : Accounts :=
  let users :=
    if role = target.role then db.users
    else db.users.modify id (fun u => { u with role := role })
  record { db with users := users } actor row (.roleChange target.role role) (some id)

/-- `register` after it has found the name free; `none` where it is taken by now. -/
def register (db : Accounts) (username : String) : Option Accounts :=
  if usernameTaken db username then none
  else
    let user : User := ⟨username, "viewer", true⟩
    some (record { db with users := db.users.insert user } db.users.next user .userRegister
      (some db.users.next))

/-- `bootstrap_admin` after it has found no user. -/
def bootstrapAdmin (env : Env) (db : Accounts) : Option Accounts :=
  if usernameTaken db env.adminUsername then none
  else some { db with users := db.users.insert ⟨env.adminUsername, "admin", true⟩ }

/-- `token` is the one that `generate_token` draws. -/
inductive Operation where
  | bootstrap
  | register (username : String)
  | setActive (user : UserId) (isActive : Bool)
  | setRole (user : UserId) (role : String)
  | createToken (name token : String)
  | revokeToken (token : TokenId)
  | command (roles : List String)
  deriving DecidableEq, Repr

structure Request where
  credentials : Option String
  operation : Operation
  deriving DecidableEq, Repr

/-- How far a request is, with the objects that it has read: the row of its API token, the `actor`
it is made for, the user or the API token that it is about; `permitted` has passed the check of the
role, `vacant` has found no such user. -/
inductive Stage where
  | begun
  | found (token : TokenId) (loaded : ApiToken)
  | authorised (actor : UserId) (row : User)
  | target (actor : UserId) (row : User) (loaded : User)
  | located (actor : UserId) (row : User) (loaded : ApiToken)
  | permitted (actor : UserId) (row : User)
  | vacant
  | refused (code : Nat)
  | committed
  deriving DecidableEq, Repr

structure Session where
  request : Request
  stage : Stage
  deriving DecidableEq, Repr

/-- Authenticated requests; the others are open to everyone. -/
def Operation.guarded : Operation → Bool
  | .bootstrap | .register _ => false
  | _ => true

/-- The first statement of `get_current_user`. -/
def getCurrentUser (env : Env) (db : Accounts) (now : Time) (credentials : Option String) : Stage :=
  match credentials with
  | none => .refused 401
  | some token =>
    if isApiToken env token then
      match authenticate env db now token with
      | none => .refused 401
      | some (id, loaded) => .found id loaded
    else
      match decodeToken env now token with
      | none => .refused 401
      | some payload =>
        if payload.type ≠ .access then .refused 401
        else
          match activeUser db payload.sub with
          | none => .refused 401
          | some row => .authorised payload.sub row

/-- `require_roles("admin")`, the check of the body and `session.get(User, user_id)`. -/
def findTarget (db : Accounts) (actor : UserId) (row : User) (valid : Bool) (id : UserId) : Stage :=
  if row.role ≠ "admin" then .refused 403
  else if !valid then .refused 422
  else
    match db.users.get id with
    | none => .refused 404
    | some loaded => .target actor row loaded

/-- The query of `revoke_token`. -/
def findToken (db : Accounts) (actor : UserId) (row : User) (id : TokenId) : Stage :=
  match (db.tokens.get id).filter (fun t => row.role == "admin" || t.userId == actor) with
  | none => .refused 404
  | some loaded => .located actor row loaded

/-- A transaction that a constraint of the database can make fail. -/
def finish (db : Accounts) : Option Accounts → Accounts × Stage
  | none => (db, .refused 500)
  | some db' => (db', .committed)

/-- The next statement of a request, or its last transaction. -/
def Session.advance (env : Env) (now : Time) (db : Accounts) (c : Session) : Accounts × Stage :=
  match c.stage, c.request.operation with
  | .begun, .bootstrap => (db, if db.users.rows.isEmpty then .vacant else .committed)
  | .begun, .register username =>
    (db,
      if username.length < 3 ∨ 100 < username.length then .refused 422
      else if usernameTaken db username then .refused 409
      else .vacant)
  | .begun, _ => (db, getCurrentUser env db now c.request.credentials)
  | .found id loaded, _ =>
    match activeUser db loaded.userId with
    | none => (db, .refused 401)
    | some row => (touch db id now, .authorised loaded.userId row)
  | .authorised actor row, .setActive id _ => (db, findTarget db actor row true id)
  | .authorised actor row, .setRole id role => (db, findTarget db actor row (validRole role) id)
  | .authorised actor row, .createToken name token =>
    if name.length < 1 ∨ 100 < name.length then (db, .refused 422)
    else finish db (createToken env db now actor row name token)
  | .authorised actor row, .revokeToken id => (db, findToken db actor row id)
  | .authorised actor row, .command roles =>
    (db, if row.role ∈ roles then .permitted actor row else .refused 403)
  | .target actor row loaded, .setActive id isActive =>
    (setActive db actor row id loaded isActive, .committed)
  | .target actor row loaded, .setRole id role =>
    -- the column holds twenty characters
    if 20 < role.length then (db, .refused 500)
    else (setRole db actor row id loaded role, .committed)
  | .located actor row loaded, .revokeToken id =>
    (revokeToken db now actor row id loaded, .committed)
  | .vacant, .bootstrap => finish db (bootstrapAdmin env db)
  | .vacant, .register username => finish db (register db username)
  | stage, _ => (db, stage)

structure State where
  db : Accounts
  sessions : List Session

def State.initial : State := ⟨.empty, []⟩

inductive Action where
  | arrive (request : Request)
  | advance (session : Nat) (now : Time)
  deriving DecidableEq, Repr

def Action.clock : Action → Option Time
  | .arrive _ => none
  | .advance _ now => some now

def State.step (env : Env) (s : State) : Action → State
  | .arrive request => { s with sessions := s.sessions ++ [⟨request, .begun⟩] }
  | .advance i now =>
    match s.sessions[i]? with
    | none => s
    | some c =>
      { s with
        db := (c.advance env now s.db).1
        sessions := s.sessions.set i { c with stage := (c.advance env now s.db).2 } }

def State.after (env : Env) (acts : List Action) : State := Run.run (State.step env) .initial acts

end TaskPlatform.Access
