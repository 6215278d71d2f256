import DsApm.Lib.GoMap
import DsApm.Tokenizer.Token
/-!
# Sessions — the calls of the opaque tokenizer

Tokens are rows of a table, and copies of them are in a cache under their access tokens.  A call is where it stands between
its operations, and each operation on the cache or the table is one step, which may fail.  A rotation is a transaction: the
row it selects is locked until it commits, its update is seen from then on, and a failure before leaves the row.
-/
namespace DsApm
namespace Tokenizer

open GoStd (Time)

/-! ## The table -/

structure Table where
  rows : List Token
  unique : (rows.map Token.accessToken).Nodup

def Table.getByAccessToken (T : Table) (accessToken : String) : Option Token := T.rows.find? fun t => t.accessToken == accessToken

def Table.getByAccessTokenOrPrevAccessToken (T : Table) (accessToken : String) : Option Token :=
  T.rows.find? fun t => t.accessToken == accessToken || t.prevAccessToken == accessToken

def Table.listByUserID (T : Table) (userID : String) : List Token := T.rows.filter fun t => t.userID == userID

def Table.delete (T : Table) (p : Token → Bool) : Table := ⟨T.rows.filter fun t => !p t, T.unique.sublist (List.filter_sublist.map _)⟩

def Table.update (T : Table) (t : Token) : Option Table :=
  let rows := T.rows.map fun r => if r.id = t.id then t else r
  if h : (rows.map Token.accessToken).Nodup then some ⟨rows, h⟩ else none

/-! ## Calls -/

inductive Purpose
  | getIdentity
  | setLastObservedAt (lastObservedAt : Time)
  deriving DecidableEq

inductive Call
  -- `getOrGetSetToken`, and what follows it
  | cacheGet (purpose : Purpose) (accessToken : String)
  | dbGet (purpose : Purpose) (accessToken : String)
  | cacheSet (purpose : Purpose) (accessToken : String) (token : Token)
  | got (purpose : Purpose) (accessToken : String) (token : Token)
  | observed (accessToken : String) (token : Token)
  -- `RotateToken`, with the row and what it becomes
  | selectRow (accessToken refreshToken : String)
  | setToken (accessToken : String) (row token : Token)
  | update (accessToken : String) (row token : Token)
  | cacheDrop (accessToken : String) (row token : Token)
  | commit (row token : Token)
  -- `DeleteToken`
  | cacheDelete (accessToken : String)
  | deleteRow (accessToken : String)
  -- `DeleteTokensByUserID`
  | listTokens (userID : String)
  | cacheDeletes (userID : String) (accessTokens : List String)
  | returned
  deriving DecidableEq

inductive Request
  | getIdentity (accessToken : String)
  | setLastObservedAt (accessToken : String) (lastObservedAt : Time)
  | rotateToken (accessToken refreshToken : String)
  | deleteToken (accessToken : String)
  | deleteTokensByUserID (userID : String)

def Request.call : Request → Call
  | .getIdentity accessToken => .cacheGet .getIdentity accessToken
  | .setLastObservedAt accessToken at' => .cacheGet (.setLastObservedAt at') accessToken
  | .rotateToken accessToken refreshToken => .selectRow accessToken refreshToken
  | .deleteToken accessToken => .cacheDelete accessToken
  | .deleteTokensByUserID userID => .listTokens userID

def Call.row : Call → Option Token
  | .setToken _ row _ | .update _ row _ | .cacheDrop _ row _ | .commit row _ => some row
  | _ => none

/-- The access token under which a call may still write a token, to the cache or the table. -/
def Call.writes : Call → Option String
  | .cacheSet _ a _ | .got (.setLastObservedAt _) a _ | .observed a _ => some a
  | .setToken _ _ t | .update _ _ t | .cacheDrop _ _ t | .commit _ t => some t.accessToken
  | _ => none

/-- What is told at the end of a call: an identity for an access token, access tokens that are revoked, or nothing. -/
inductive Event
  | identity (accessToken : String)
  | revoked (accessTokens : List String)
  | none
  deriving DecidableEq

structure State where
  table : Table
  cache : GoMap String Token
  calls : GoMap Nat Call

/-- What a step meets: whether its operation succeeds, whether there is an identity for the user, the clock, and what is
generated. -/
structure Env where
  ok : Bool
  identity : Bool
  now : Readings
  fresh : String × String

inductive Action
  | start (id : Nat) (request : Request)
  | advance (id : Nat) (env : Env)
  | evict (accessToken : String)

def State.locked (s : State) (p : Token → Bool) : Bool := s.calls.entries.any fun e => e.2.row.any p

/-- The step of a call: the table and the cache, where the call stands then, and what is told. -/
def Call.next (c : Config) (s : State) (e : Env) : Call → (Table × GoMap String Token) × Call × Event
  | .cacheGet purpose a =>
    if !e.ok then ((s.table, s.cache), .returned, .none)
    else match s.cache.lookup a with
      | some t => ((s.table, s.cache), .got purpose a t, .none)
      | none => ((s.table, s.cache), .dbGet purpose a, .none)
  | .dbGet purpose a =>
    if !e.ok then ((s.table, s.cache), .returned, .none)
    else match s.table.getByAccessToken a with
      | some t => ((s.table, s.cache), .cacheSet purpose a t, .none)
      | none => ((s.table, s.cache), .returned, .none)
  | .cacheSet purpose a t =>
    if !e.ok then ((s.table, s.cache), .returned, .none)
    else ((s.table, s.cache.insert a t), .got purpose a t, .none)
  | .got .getIdentity a t =>
    match t.isValid c e.now with
    | .error _ => ((s.table, s.cache), .returned, .none)
    | .ok _ => ((s.table, s.cache), .returned, if e.identity then .identity a else .none)
  | .got (.setLastObservedAt at') a t =>
    match t.updateLastObservedAt at' e.now.updated with
    | .error _ => ((s.table, s.cache), .returned, .none)
    | .ok t => ((s.table, s.cache), .observed a t, .none)
  | .observed a t =>
    if !e.ok then ((s.table, s.cache), .returned, .none)
    else ((s.table, s.cache.insert a t), .returned, .none)
  | .selectRow a r =>
    if !e.ok then ((s.table, s.cache), .returned, .none)
    else match s.table.getByAccessTokenOrPrevAccessToken a with
      | none => ((s.table, s.cache), .returned, .none)
      | some row =>
        if s.locked fun l => l.id == row.id then ((s.table, s.cache), .selectRow a r, .none)
        else match row.rotate c ⟨a, r, e.now, e.fresh⟩ with
          | .error _ => ((s.table, s.cache), .returned, .none)
          | .ok t =>
            if t.accessToken = a ∧ t.refreshToken = r then ((s.table, s.cache), .returned, .none)
            else ((s.table, s.cache), .setToken a row t, .none)
  | .setToken a row t =>
    if !e.ok then ((s.table, s.cache), .returned, .none)
    else ((s.table, s.cache.insert t.accessToken t), .update a row t, .none)
  | .update a row t =>
    if !e.ok then ((s.table, s.cache), .returned, .none)
    else ((s.table, s.cache), .cacheDrop a row t, .none)
  | .cacheDrop a row t => ((s.table, s.cache.erase a), .commit row t, .none)
  | .commit row t =>
    if !e.ok then ((s.table, s.cache), .returned, .none)
    else match s.table.update t with
      | none => ((s.table, s.cache), .returned, .none)
      | some table => ((table, s.cache), .returned, .revoked (if row.accessToken = t.accessToken then [] else [row.accessToken]))
  | .cacheDelete a => ((s.table, s.cache.erase a), .deleteRow a, .none)
  | .deleteRow a =>
    if !e.ok then ((s.table, s.cache), .returned, .none)
    else if s.locked fun l => l.accessToken == a then ((s.table, s.cache), .deleteRow a, .none)
    else ((s.table.delete fun t => t.accessToken == a, s.cache), .returned, .revoked [a])
  | .listTokens u =>
    if !e.ok then ((s.table, s.cache), .returned, .none)
    else ((s.table, s.cache), .cacheDeletes u ((s.table.listByUserID u).map Token.accessToken), .none)
  | .cacheDeletes u (a :: rest) => ((s.table, s.cache.erase a), .cacheDeletes u rest, .none)
  | .cacheDeletes u [] =>
    if !e.ok then ((s.table, s.cache), .returned, .none)
    else if s.locked fun l => l.userID == u then ((s.table, s.cache), .cacheDeletes u [], .none)
    else ((s.table.delete fun t => t.userID == u, s.cache), .returned, .revoked ((s.table.listByUserID u).map Token.accessToken))
  | .returned => ((s.table, s.cache), .returned, .none)

def step (c : Config) (s : State) : Action → State × Event
  | .start id request =>
    match s.calls.lookup id with
    | some _ => (s, .none)
    | none => ({ s with calls := s.calls.insert id request.call }, .none)
  | .advance id e =>
    match s.calls.lookup id with
    | none => (s, .none)
    | some call =>
      let ((table, cache), call', event) := call.next c s e
      (⟨table, cache, s.calls.insert id call'⟩, event)
  | .evict a => ({ s with cache := s.cache.erase a }, .none)

end Tokenizer
end DsApm
