import TaskPlatform.Lib.Run
import TaskPlatform.RedisLimiter

/-!
# The limiters of a replica

`RateLimiter` of `core/rate_limit.py` and its three callers. A replica asks
Redis, which all replicas share; after a call that raised it decides in its own
process, and for half a minute it does not ask again. While a call waits for
Redis others run. The limiters of a process are kept under their settings, so
callers with equal settings share one.
-/

namespace TaskPlatform

abbrev ReplicaId := Nat

/-- How the call of the script ends for its caller; a lost one may have run in Redis all the same. -/
inductive RedisReply where
  | answered
  | lost (ran : Bool)
  deriving DecidableEq, Repr

inductive LimitKind where
  | api | ws | taskCreate
  deriving DecidableEq, Repr

/-- What a caller of a limiter knows of the client. -/
inductive Client where
  | api (authorization host : Option String)
  | ws (userId : Nat)
  | taskCreate (host : Option String)
  deriving DecidableEq, Repr

def Client.kind : Client → LimitKind
  | .api _ _ => .api
  | .ws _ => .ws
  | .taskCreate _ => .taskCreate

/-- A call of `allow`; `member` is what the script would add. -/
structure Visit where
  replica : ReplicaId
  client : Client
  time : ℚ
  member : String
  reply : RedisReply
  deriving DecidableEq, Repr

/-- `limits` are the maximum and the window of a caller, `accessSubject` is `jwt.decode` with the
test of the token's type, `expired` the test of a deadline in Redis. The `time.monotonic()` of a
process is `time.time()` less its `boot`. -/
structure LimiterEnv where
  redisEnabled : Bool
  limits : LimitKind → Nat × ℚ
  accessSubject : String → Option String
  expired : ℚ → ℚ → Bool
  boot : ReplicaId → ℚ

/-- The token of an `Authorization` header. -/
def bearerToken (header : String) : Option String :=
  if (header.toList.take 7).map Char.toLower = "bearer ".toList then
    some (String.ofList (header.toList.drop 7))
  else none

/-- `_client_key` -/
def clientKey (env : LimiterEnv) (authorization host : Option String) : String :=
  match (authorization.bind bearerToken).bind env.accessSubject with
  | some sub => "user:" ++ sub
  | none => "ip:" ++ host.getD "unknown"

/-- The key that `RateLimitMiddleware`, `ws_allowed` and `task_create_allowed` pass on. -/
def Client.key (env : LimiterEnv) : Client → String
  | .api authorization host => clientKey env authorization host
  | .ws userId => "ws:" ++ toString userId
  | .taskCreate host => "create:" ++ host.getD "unknown"

structure RedisRateLimiter where
  maxRequests : Nat
  windowSeconds : ℚ
  lastFailure : Option ℚ

/-- `RedisRateLimiter.available` -/
def RedisRateLimiter.available (r : RedisRateLimiter) (monotonic : ℚ) : Bool :=
  r.lastFailure.all (fun t => decide (30 < monotonic - t))

/-- `redis.eval`: what Redis holds afterwards, and what the script returned if it did not raise. A
script that raises is not undone. -/
def redisEval (expired : ℚ → ℚ → Bool) (maxRequests : Nat) (windowSeconds : ℚ) (db : Redis)
    (c : Call) (member : String) : Redis × Option Bool :=
  match redisAllow expired maxRequests windowSeconds db c member with
  | some (db', answer) => (db', some answer)
  | none =>
    let entry := zremrangebyscore (c.now - windowSeconds) (db.live expired c.now (redisKey c.key))
    (Function.update db (redisKey c.key) (some (zadd c.now member entry)), none)

/-- `RedisRateLimiter.allow` as far as its caller learns: it did not ask, it raised, or it was told. -/
inductive RedisOutcome where
  | skipped
  | raised
  | returned (answer : Bool)
  deriving DecidableEq, Repr

/-- `RedisRateLimiter.allow` up to the end of the script. -/
def RedisRateLimiter.ask (expired : ℚ → ℚ → Bool) (r : RedisRateLimiter) (db : Redis)
    (key : String) (monotonic : ℚ) (v : Visit) : Redis × RedisOutcome :=
  if !r.available monotonic then (db, .skipped)
  else
    let ran := redisEval expired r.maxRequests r.windowSeconds db ⟨key, v.time⟩ v.member
    match v.reply with
    | .lost false => (db, .raised)
    | .lost true => (ran.1, .raised)
    | .answered => (ran.1, ran.2.elim .raised .returned)

structure RateLimiter where
  localLimiter : LocalRateLimiter
  redis : RedisRateLimiter

/-- `RateLimiter.__init__` -/
def RateLimiter.new (limit : Nat × ℚ) : RateLimiter where
  localLimiter := .new limit.1 limit.2
  redis := ⟨limit.1, limit.2, none⟩

/-- `RateLimiter.allow` up to the end of the script. -/
def RateLimiter.ask (env : LimiterEnv) (l : RateLimiter) (db : Redis) (key : String) (v : Visit) :
    Redis × RedisOutcome :=
  if env.redisEnabled then
    l.redis.ask env.expired db key (v.time - env.boot v.replica) v
  else (db, .skipped)

/-- The rest of `RateLimiter.allow`: without an answer of Redis the process decides. -/
def RateLimiter.settle (l : RateLimiter) (key : String) (monotonic : ℚ) :
    RedisOutcome → RateLimiter × Bool
  | .returned answer => (l, answer)
  | .raised =>
    let own := l.localLimiter.allow ⟨key, monotonic⟩
    (⟨own.1, { l.redis with lastFailure := some monotonic }⟩, own.2)
  | .skipped =>
    let own := l.localLimiter.allow ⟨key, monotonic⟩
    ({ l with localLimiter := own.1 }, own.2)

/-- The answer of a call; `time` is when the limiter that decided counted it. -/
structure Decision where
  time : ℚ
  allowed : Bool
  deriving DecidableEq, Repr

/-- A call of `allow` that has reached its `await`. -/
structure LimiterCall where
  visit : Visit
  key : String
  outcome : RedisOutcome
  decision : Option Decision
  deriving DecidableEq, Repr

/-- Redis, `_rate_limiters` of every replica, and all calls in the order of their scripts. -/
structure Replicas where
  redis : Redis
  limiters : ReplicaId → Nat × ℚ → Option RateLimiter
  calls : List LimiterCall

def Replicas.initial : Replicas := ⟨fun _ => none, fun _ _ => none, []⟩

/-- The limiter of a process for some settings; a missing one is made. -/
def Replicas.limiter (s : Replicas) (i : ReplicaId) (limit : Nat × ℚ) : RateLimiter :=
  (s.limiters i limit).getD (.new limit)

def Replicas.setLimiter (s : Replicas) (i : ReplicaId) (limit : Nat × ℚ) (l : RateLimiter) :
    Replicas :=
  { s with
    limiters := Function.update s.limiters i (Function.update (s.limiters i) limit (some l)) }

/-- A call runs to its `await`, or one that waits goes on. -/
inductive LimiterEvent where
  | ask (v : Visit)
  | settle (call : Nat) (now : ℚ)
  deriving DecidableEq, Repr

def LimiterEvent.clock : LimiterEvent → Option ℚ
  | .ask v => some v.time
  | .settle _ now => some now

/-- `get_limiter`, `ws_allowed` and `task_create_allowed`, with the first part of `allow`. -/
def Replicas.ask (env : LimiterEnv) (s : Replicas) (v : Visit) : Replicas :=
  let limit := env.limits v.client.kind
  let l := s.limiter v.replica limit
  let r := l.ask env s.redis (v.client.key env) v
  { s.setLimiter v.replica limit l with
    redis := r.1
    calls := s.calls ++ [⟨v, v.client.key env, r.2, none⟩] }

/-- The second part of `allow`. -/
def Replicas.settle (env : LimiterEnv) (s : Replicas) (call : Nat) (now : ℚ) : Replicas :=
  match s.calls[call]? with
  | none => s
  | some c =>
    if c.decision.isSome then s
    else
      let limit := env.limits c.visit.client.kind
      let r := (s.limiter c.visit.replica limit).settle c.key (now - env.boot c.visit.replica)
        c.outcome
      let time := match c.outcome with
        | .returned _ => c.visit.time
        | _ => now
      { s.setLimiter c.visit.replica limit r.1 with
        calls := s.calls.set call { c with decision := some ⟨time, r.2⟩ } }

def Replicas.step (env : LimiterEnv) (s : Replicas) : LimiterEvent → Replicas
  | .ask v => s.ask env v
  | .settle call now => s.settle env call now

def Replicas.after (env : LimiterEnv) (events : List LimiterEvent) : Replicas :=
  Run.run (Replicas.step env) .initial events

end TaskPlatform
