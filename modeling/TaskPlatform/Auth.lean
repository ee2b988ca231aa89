import TaskPlatform.Database
import TaskPlatform.Lib.Run

/-!
# Login, refresh tokens and their revocation

The requests of `routes/auth.py` that issue or revoke refresh tokens, statement
by statement. What a request has written is seen by others only after its
commit; until then it holds the rows it updated, and an `UPDATE` of such a row
waits. Any number of requests run at the same time.
-/

namespace TaskPlatform.Auth

/-- `uuid4` gives a request a `jti` of its own; `earlier` are those from before the run. -/
inductive Jti where
  | earlier (n : Nat)
  | issued (request : Nat)
  deriving DecidableEq, Repr

structure User where
  id : Nat
  username : String
  passwordHash : String
  isActive : Bool
  lastLoginAt : Option Time
  deriving DecidableEq, Repr

structure RefreshToken where
  userId : Nat
  jti : Jti
  expiresAt : Time
  revokedAt : Option Time
  deriving DecidableEq, Repr

structure Accounts where
  users : List User
  refreshTokens : List RefreshToken
  deriving DecidableEq, Repr

/-- `verify_password` is bcrypt's, the lifetime is that of `refresh_token_expire_days`. -/
structure Env where
  verifyPassword : String → String → Bool
  refreshTokenLifetime : Time

def getUserById (db : Accounts) (id : Nat) : Option User := db.users.find? (fun u => u.id == id)

def getUserByUsername (db : Accounts) (username : String) : Option User :=
  db.users.find? (fun u => u.username == username && u.isActive)

def storedRefresh (db : Accounts) (jti : Jti) : Option RefreshToken :=
  db.refreshTokens.find? (fun t => t.jti == jti)

def refreshIsValid (db : Accounts) (jti : Jti) (now : Time) : Option RefreshToken :=
  match storedRefresh db jti with
  | none => none
  | some stored =>
    if stored.revokedAt.isSome then none
    else if stored.expiresAt ≤ now then none
    else some stored

/-- The rows that the `UPDATE` of `revoke_all_refresh_tokens` finds when it begins. -/
def activeTokens (db : Accounts) (userId : Nat) : List Jti :=
  (db.refreshTokens.filter (fun t => t.userId == userId && t.revokedAt.isNone)).map (·.jti)

/-- A row that was written to the database and is not committed yet. -/
inductive Write where
  | lastLogin (user : Nat) (at' : Time)
  | password (user : Nat) (passwordHash : String)
  | active (user : Nat) (isActive : Bool)
  | revoke (jti : Jti) (at' : Time)
  | insert (token : RefreshToken)
  deriving DecidableEq, Repr

inductive Row where
  | user (id : Nat)
  | token (jti : Jti)
  deriving DecidableEq, Repr

/-- The row that an `UPDATE` locks. -/
def Write.row : Write → Option Row
  | .lastLogin user _ | .password user _ | .active user _ => some (.user user)
  | .revoke jti _ => some (.token jti)
  | .insert _ => none

def Accounts.setUser (db : Accounts) (id : Nat) (f : User → User) : Accounts :=
  { db with users := db.users.map (fun u => if u.id = id then f u else u) }

def Accounts.write (db : Accounts) : Write → Accounts
  | .lastLogin user at' => db.setUser user (fun u => { u with lastLoginAt := some at' })
  | .password user hash => db.setUser user (fun u => { u with passwordHash := hash })
  | .active user isActive => db.setUser user (fun u => { u with isActive := isActive })
  | .revoke jti at' =>
    { db with refreshTokens := db.refreshTokens.map (fun t =>
        if t.jti = jti then { t with revokedAt := some at' } else t) }
  | .insert token => { db with refreshTokens := db.refreshTokens ++ [token] }

/-- The claims of a decoded refresh token. -/
structure Payload where
  sub : Nat
  jti : Jti
  deriving DecidableEq, Repr

/-- `newHash` is `hash_password` of the new password; the administrator who calls `set_active` is
authorised already. -/
inductive Request where
  | login (username password : String)
  | refresh (payload : Payload)
  | logout (payload : Payload)
  | changePassword (user : Nat) (current new newHash : String)
  | setActive (user : Nat) (isActive : Bool)
  deriving DecidableEq, Repr

/-- How far a request is: `checked` by `get_current_user`, its token `found`, `flushing` what it
decided to write, in the `UPDATE` of `revoke_all_refresh_tokens`, after it, or `answered`. -/
inductive Stage where
  | begun
  | checked
  | found
  | flushing (queue : List Write)
  | revoking (snapshot : List Jti) (at' : Time)
  | revoked
  | answered (committed : Bool)
  deriving DecidableEq, Repr

structure Session where
  request : Request
  stage : Stage
  writes : List Write
  deriving DecidableEq, Repr

/-- The new refresh token that the `i`-th request gives to a user. -/
def newToken (env : Env) (i : Nat) (user : User) (now : Time) : RefreshToken where
  userId := user.id
  jti := .issued i
  expiresAt := now + env.refreshTokenLifetime
  revokedAt := none

/-- The reading statements of a request, with the guards after them. -/
def readStage (env : Env) (db : Accounts) (i : Nat) (now : Time) : Request → Stage → Stage
  | .login username password, .begun =>
    match getUserByUsername db username with
    | none => .answered false
    | some user =>
      if env.verifyPassword password user.passwordHash then
        .flushing [.lastLogin user.id now, .insert (newToken env i user now)]
      else .answered false
  | .refresh payload, .begun =>
    if (refreshIsValid db payload.jti now).isSome then .found else .answered false
  | .refresh payload, .found =>
    match getUserById db payload.sub with
    | none => .answered false
    | some user =>
      if user.isActive then
        .flushing [.revoke payload.jti now, .insert (newToken env i user now)]
      else .answered false
  | .logout payload, .begun =>
    if (refreshIsValid db payload.jti now).isSome then .flushing [.revoke payload.jti now]
    else .answered false
  | .changePassword user _ _ _, .begun =>
    if (getUserById db user).any (·.isActive) then .checked else .answered false
  | .changePassword user current new newHash, .checked =>
    match getUserById db user with
    | none => .answered false
    | some row =>
      if !row.isActive then .answered false
      else if !env.verifyPassword current row.passwordHash then .answered false
      else if current = new then .answered false
      else .flushing [.password row.id newHash]
  | .setActive user isActive, .begun =>
    match getUserById db user with
    | none => .answered false
    | some row =>
      -- an unchanged column is not written
      if row.isActive = isActive then .flushing [] else .flushing [.active row.id isActive]
  | _, stage => stage

/-- The user whose refresh tokens the request revokes after its own writes. -/
def Request.revokes : Request → Option Nat
  | .changePassword user _ _ _ => some user
  | .setActive user isActive => if isActive then none else some user
  | _ => none

/-- The committed rows and the requests. -/
structure State where
  db : Accounts
  sessions : List Session
  deriving DecidableEq, Repr

/-- Requests that have all not begun yet. -/
def State.start (db : Accounts) (requests : List Request) : State :=
  ⟨db, requests.map (fun r => ⟨r, .begun, []⟩)⟩

/-- Whether another request has an uncommitted `UPDATE` of the row. -/
def State.locked (s : State) (i : Nat) (row : Row) : Bool :=
  (List.range s.sessions.length).any fun k => k != i &&
    (s.sessions[k]?).any (fun c => c.writes.any (fun w => decide (w.row = some row)))

def State.put (s : State) (i : Nat) (c : Session) : State :=
  { s with sessions := s.sessions.set i c }

def State.commit (s : State) (i : Nat) (c : Session) : State where
  db := c.writes.foldl Accounts.write s.db
  sessions := s.sessions.set i { c with stage := .answered true, writes := [] }

/-- The rows of a snapshot that are still not revoked. -/
def stillActive (db : Accounts) (snapshot : List Jti) : List Jti :=
  snapshot.filter (fun jti =>
    db.refreshTokens.any (fun t => t.jti == jti && t.revokedAt.isNone))

structure Action where
  request : Nat
  now : Time
  deriving DecidableEq, Repr

/-- The next statement of a request; where it has to wait, nothing happens. -/
def State.step (env : Env) (s : State) (a : Action) : State :=
  match s.sessions[a.request]? with
  | none => s
  | some c =>
    match c.stage with
    | .begun | .checked | .found =>
      s.put a.request { c with stage := readStage env s.db a.request a.now c.request c.stage }
    | .flushing (w :: queue) =>
      if w.row.any (s.locked a.request) then s
      else s.put a.request { c with stage := .flushing queue, writes := c.writes ++ [w] }
    | .flushing [] =>
      match c.request.revokes with
      | some user =>
        s.put a.request { c with stage := .revoking (activeTokens s.db user) a.now }
      | none => s.commit a.request c
    | .revoking snapshot at' =>
      if snapshot.any (fun jti => s.locked a.request (.token jti)) then s
      else s.put a.request
        { c with
          stage := .revoked
          writes := c.writes ++ (stillActive s.db snapshot).map (fun jti => .revoke jti at') }
    | .revoked => s.commit a.request c
    | .answered _ => s

end TaskPlatform.Auth
