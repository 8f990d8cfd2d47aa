import Crm.Iam.RateLimit
import Crm.Lib.Calendar
import Crm.Lib.Interleave
import Crm.Lib.Text
import Crm.Lib.Uuid

/-!
# Crm.Iam.Login — tenant and master login

`internal/iam` with the adapters behind it.  The durable lockout is looked up before the password is verified; a failed verification is counted by
the limiter under a key made of the e-mail alone, and the count that is refused writes the lockout.  `checkPassword` is the part that `Login` and
`MasterLogin` have in common.

`Deployment` holds what no login changes: hosts, users, policies, the password verifier, the digest and the case tables, which leave white space as it
is.  `LockDB` holds what they change: the sorted sets of Redis and `account_lockout`, by its primary key.
-/

namespace Crm.Iam

open Interleave Text List

inductive Role : Type
  | master
  | tenantGerente
  | tenantLider
  | tenantAtendente
  | tenantCommon
  | other (s : String)
  deriving DecidableEq, Repr

structure Session where
  id : UUID
  userID : UUID
  tenantID : UUID
  expiresAt : Time
  createdAt : Time
  ipAddr : Option String
  userAgent : String
  lastActivity : Time
  role : Role
  csrfToken : String
  deriving DecidableEq, Repr

def zeroTime : Time := -62135596800000000000

/-! ## Requests -/

/-- `scope` is the tenant of a `TenantLockouts`, or nothing for `MasterLockouts`. -/
inductive Req : Type
  | tenantFromContext (host : String)
  | resolveByHost (host : String)
  | lookupCredentials (tenantID : UUID) (email : String)
  | lookupMasterCredentials (email : String)
  | roleByUser (tenantID userID : UUID)
  | isLocked (scope : Option UUID) (userID : UUID)
  | lock (scope : Option UUID) (userID : UUID) (lockedUntil : Time) (reason : String)
  | clear (scope : Option UUID) (userID : UUID)
  | allow (key : String) (window max : ℤ)
  | verifyPassword (encoded password : String)
  | dummyVerify (password : String)
  | clock
  | newSessionID
  | generateToken
  | createSession (sess : Session)
  | notify (msg : String)
  | scheduleRehash (tenantID userID : UUID) (password : String)

abbrev Resp : Req → Type
  | .tenantFromContext _ => Except Err UUID
  | .resolveByHost _ => Except Err UUID
  | .lookupCredentials _ _ => Except Err (UUID × String)
  | .lookupMasterCredentials _ => Except Err (UUID × String)
  | .roleByUser _ _ => Except Err Role
  | .isLocked _ _ => Except Err (Option Time)
  | .lock _ _ _ _ => Except Err Unit
  | .clear _ _ => Except Err Unit
  | .allow _ _ _ => Except Err (Bool × ℤ)
  | .verifyPassword _ _ => Except Err (Bool × Bool)
  | .dummyVerify _ => Unit
  | .clock => Time
  | .newSessionID => Except Err UUID
  | .generateToken => Except Err String
  | .createSession _ => Except Err Unit
  | .notify _ => Except Err Unit
  | .scheduleRehash _ _ _ => Unit

abbrev Client (α : Type) : Type := Prog Req Resp α

/-! ## The service -/

structure User where
  id : UUID
  /-- Nothing for a master operator. -/
  tenantID : Option UUID
  email : String
  passwordHash : String
  role : Role
  deactivated : Bool
  isSystem : Bool
  deriving DecidableEq, Repr

structure Deployment where
  tables : CaseTables
  space : ∀ c, isSpace (tables.toLower c) = isSpace c
  sha256 : String → String
  login : Policy
  mLogin : Policy
  hosts : String → Except Err UUID
  users : List User
  ids : (users.map User.id).Nodup
  verify : String → String → Except Err (Bool × Bool)

structure Service where
  /-- The scope of the lockout adapter, if one is wired. -/
  lockouts : Option (Option UUID)
  limiter : Bool
  loginPolicy : Policy
  alerter : Bool
  masterUsers : Bool
  rehash : Bool
  ttl : ℤ

/-- The fields of a request that reach the session and the alert. -/
structure RequestInfo where
  ipAddr : Option String
  userAgent : String
  route : String
  deriving DecidableEq, Repr

variable (Δ : Deployment) (S : Service)

def failedLoginKey (email : String) : String := "failed_login:email:" ++ Δ.sha256 (Δ.tables.lower (trimSpace email))

theorem failedLoginKey_ne_empty (email : String) : failedLoginKey Δ email ≠ "" := fun h =>
  absurd (String.append_eq_empty_iff.mp h).1 (by decide)

def lockedMessage (tenantID userID : UUID) (email : String) (req : RequestInfo) (lockedUntil : Time) : String :=
  "master account locked: policy=" ++ S.loginPolicy.name ++ " email=" ++ email ++ " user=" ++ userID.string ++ " tenant=" ++ tenantID.string ++
    " ip=[" ++ req.ipAddr.getD "" ++ "] ua=[" ++ req.userAgent ++ "] route=[" ++ req.route ++ "] until=" ++
    Calendar.rfc3339Nano (lockedUntil - lockedUntil % 1000000000)

/-- Every failure is logged and leaves the attempt a plain rejection. -/
def recordLoginFailure (tenantID userID : UUID) (email : String) (req : RequestInfo) : Client (Option Time) := do
  if S.limiter = false ∨ S.loginPolicy.lockoutEnabled = false then return none
  match ← .send (Req.allow (failedLoginKey Δ email) S.loginPolicy.lockout.duration S.loginPolicy.lockout.threshold) with
  | .error _ => return none
  | .ok (true, _) => return none
  | .ok (false, _) =>
    match S.lockouts with
    | none => return none
    | some scope =>
      let now ← .send Req.clock
      let lockedUntil := now + S.loginPolicy.lockout.duration
      let reason := "ratelimit: " ++ toString S.loginPolicy.lockout.threshold ++ " failed login attempts"
      match ← .send (Req.lock scope userID lockedUntil reason) with
      | .error _ => return none
      | .ok () =>
        if S.alerter = true ∧ S.loginPolicy.lockout.alertOnLock = true then
          let _ ← .send (Req.notify (lockedMessage S tenantID userID email req lockedUntil))
          return some lockedUntil
        return some lockedUntil

/-- The pre-check; without a lockout adapter nothing is locked. -/
def isLocked (userID : UUID) : Client (Except Err (Option Time)) :=
  match S.lockouts with
  | none => return .ok none
  | some scope => .send (Req.isLocked scope userID)

def clear (userID : UUID) : Client Unit :=
  match S.lockouts with
  | none => return ()
  | some scope => do
    let _ ← .send (Req.clear scope userID)
    return ()

/-- The error of a failed attempt, by the lockout that it has written. -/
def rejection : Option Time → Err
  | some lockedUntil => .iamAccountLocked lockedUntil
  | none => .iamInvalidCredentials

/-- From the pre-check to the verified password, for a user that was found.  The result says whether to re-hash. -/
def checkPassword (precheck : String) (tenantID userID : UUID) (encoded email password : String) (req : RequestInfo) :
    Client (Except Err Bool) := do
  match ← isLocked S userID with
  | .error e => return .error (.wrap precheck e)
  | .ok (some lockedUntil) =>
    let _ ← .send (Req.dummyVerify password)
    return .error (.iamAccountLocked lockedUntil)
  | .ok none =>
    match ← .send (Req.verifyPassword encoded password) with
    | .ok (true, needsRehash) =>
      clear S userID
      return .ok needsRehash
    | _ =>
      let locked ← recordLoginFailure Δ S tenantID userID email req
      return .error (rejection locked)

def resolveSessionRole (tenantID userID : UUID) : Client Role := do
  match ← .send (Req.roleByUser tenantID userID) with
  | .error _ => return .tenantCommon
  | .ok .tenantGerente => return .tenantGerente
  | .ok .tenantAtendente => return .tenantAtendente
  | .ok _ => return .tenantCommon

def defaultSessionTTL : ℤ := 24 * hour

def openSession (tenantID userID : UUID) (password : String) (needsRehash : Bool) (req : RequestInfo) : Client (Except Err Session) := do
  match ← .send Req.newSessionID with
  | .error e => return .error (.wrap "iam: new session id" e)
  | .ok id =>
    match ← .send Req.generateToken with
    | .error e => return .error (.wrap "iam: generate csrf token" e)
    | .ok csrfToken =>
      let now ← .send Req.clock
      let role ← resolveSessionRole tenantID userID
      let sess : Session := ⟨id, userID, tenantID, now + (if 0 < S.ttl then S.ttl else defaultSessionTTL), now, req.ipAddr, req.userAgent, now,
        role, csrfToken⟩
      match ← .send (Req.createSession sess) with
      | .error e => return .error (.wrap "iam: create session" e)
      | .ok () =>
        if needsRehash = true ∧ S.rehash = true then
          let _ ← .send (Req.scheduleRehash tenantID userID password)
          return .ok sess
        return .ok sess

def login (host email password : String) (req : RequestInfo) : Client (Except Err Session) := do
  match ← .send (Req.resolveByHost host) with
  | .error e =>
    if e.is .iamTenantNotFound then
      let _ ← .send (Req.dummyVerify password)
      return .error .iamInvalidCredentials
    return .error (.wrap "iam: resolve host" e)
  | .ok tenantID =>
    match ← .send (Req.lookupCredentials tenantID email) with
    | .error e => return .error (.wrap "iam: lookup credentials" e)
    | .ok (userID, encoded) =>
      if userID = UUID.Nil then
        let _ ← .send (Req.dummyVerify password)
        return .error .iamInvalidCredentials
      match ← checkPassword Δ S "iam: lockout pre-check" tenantID userID encoded email password req with
      | .error e => return .error e
      | .ok needsRehash => openSession S tenantID userID password needsRehash req

/-- The session of a master operator carries the user alone. -/
def masterLogin (email password : String) (req : RequestInfo) : Client (Except Err Session) := do
  if S.masterUsers = false then return .error (.other "iam: master login: no master credential reader configured")
  match ← .send (Req.lookupMasterCredentials email) with
  | .error e => return .error (.wrap "iam: lookup master credentials" e)
  | .ok (userID, encoded) =>
    if userID = UUID.Nil then
      let _ ← .send (Req.dummyVerify password)
      return .error .iamInvalidCredentials
    match ← checkPassword Δ S "iam: master lockout pre-check" UUID.Nil userID encoded email password req with
    | .error e => return .error e
    | .ok _ => return .ok ⟨UUID.Nil, userID, UUID.Nil, zeroTime, zeroTime, none, "", zeroTime, .other "", ""⟩

/-! ## The two wirings -/

/-- The service that `iamAdapter.Login` builds for one request. -/
def tenantService (tenantID : UUID) : Service where
  lockouts := some (some tenantID)
  limiter := true
  loginPolicy := Δ.login
  alerter := false
  masterUsers := false
  rehash := false
  ttl := 0

def masterService : Service where
  lockouts := some none
  limiter := true
  loginPolicy := Δ.mLogin
  alerter := true
  masterUsers := true
  rehash := false
  ttl := 0

def iamAdapterLogin (host email password : String) (req : RequestInfo) : Client (Except Err Session) := do
  match ← .send (Req.tenantFromContext host) with
  | .error e => return .error (.wrap "cmd/server: tenant from context" e)
  | .ok tenantID =>
    if tenantID = UUID.Nil then return .error (.wrap "cmd/server: tenant lockouts" (.other "postgres: zero tenant"))
    login Δ (tenantService Δ tenantID) host email password req

/-- A login against a tenant's host, or at the master console. -/
inductive Call : Type
  | login (host email password : String) (req : RequestInfo)
  | masterLogin (email password : String) (req : RequestInfo)
  deriving DecidableEq

def Call.email : Call → String
  | .login _ email _ _ => email
  | .masterLogin email _ _ => email

def body : Call → Client (Except Err Session)
  | .login host email password req => iamAdapterLogin Δ host email password req
  | .masterLogin email password req => masterLogin Δ (masterService Δ) email password req

/-! ## The stores -/

structure LockoutRow where
  tenantID : Option UUID
  lockedUntil : Time
  reason : Option String
  deriving DecidableEq, Repr

structure LockDB where
  redis : Redis
  lockouts : UUID → Option LockoutRow

def nullIfEmpty (s : String) : Option String := if s = "" then none else some s

namespace LockDB

variable (db : LockDB)

/-- The row that the adapter sees, if it is still in force. -/
def isLocked (scope : Option UUID) (userID : UUID) (now : Time) : Option Time :=
  match db.lockouts userID with
  | none => none
  | some row => if row.tenantID = scope ∧ now < row.lockedUntil then some row.lockedUntil else none

def adapter : Option UUID → String
  | some _ => "postgres: TenantLockouts"
  | none => "postgres: MasterLockouts"

/-- The upsert.  A tenant cannot update a row of another one. -/
def lock (scope : Option UUID) (userID : UUID) (lockedUntil : Time) (reason : String) : Except Err Unit × LockDB :=
  if userID = UUID.Nil then (.error (.other (adapter scope ++ ".Lock: userID is nil")), db)
  else if lockedUntil = zeroTime then (.error (.other (adapter scope ++ ".Lock: until is zero")), db)
  else
    let put (row : LockoutRow) : Except Err Unit × LockDB := (.ok (), { db with lockouts := Function.update db.lockouts userID (some row) })
    match db.lockouts userID with
    | none => put ⟨scope, timestamptz lockedUntil, nullIfEmpty reason⟩
    | some row =>
      if scope ≠ none ∧ row.tenantID ≠ scope then (.error (.wrap (adapter scope ++ ".Lock exec") (.other "42501")), db)
      else put { row with lockedUntil := timestamptz lockedUntil, reason := nullIfEmpty reason }

def clear (scope : Option UUID) (userID : UUID) : LockDB :=
  match db.lockouts userID with
  | none => db
  | some row => if row.tenantID = scope then { db with lockouts := Function.update db.lockouts userID none } else db

end LockDB

variable {db : LockDB} {scope : Option UUID} {u : UUID}

theorem LockDB.isLocked_eq {row : LockoutRow} (hrow : db.lockouts u = some row) (hscope : row.tenantID = scope) (now : Time) :
    db.isLocked scope u now = if now < row.lockedUntil then some row.lockedUntil else none := by
  rw [LockDB.isLocked, hrow]
  simp [hscope]

theorem LockDB.lock_eq {lockedUntil : Time} (reason : String) (hu : u ≠ UUID.Nil) (hz : lockedUntil ≠ zeroTime)
    (hrow : ∀ row, db.lockouts u = some row → row.tenantID = scope) :
    ∃ row : LockoutRow, row.tenantID = scope ∧ row.lockedUntil = timestamptz lockedUntil ∧
      db.lock scope u lockedUntil reason = (.ok (), { db with lockouts := Function.update db.lockouts u (some row) }) := by
  rw [LockDB.lock, if_neg hu, if_neg hz]
  cases hold : db.lockouts u with
  | none => exact ⟨_, rfl, rfl, rfl⟩
  | some row =>
  have hscope := hrow row hold
  refine ⟨{ row with lockedUntil := timestamptz lockedUntil, reason := nullIfEmpty reason }, hscope, rfl, ?_⟩
  exact if_neg fun h => h.2 hscope

theorem LockDB.clear_eq (hrow : ∀ row, db.lockouts u = some row → row.tenantID = scope) : (db.clear scope u).lockouts u = none := by
  unfold LockDB.clear
  cases hold : db.lockouts u with
  | none => exact hold
  | some row =>
  dsimp only
  rw [if_pos (hrow row hold)]
  exact Function.update_self ..

/-- `users.email` compares without regard to case. -/
def sameEmail (a b : String) : Bool := Δ.tables.lower a = Δ.tables.lower b

def credentials : Option User → UUID × String
  | none => (UUID.Nil, "")
  | some u => (u.id, u.passwordHash)

def findUser (tenantID : UUID) (email : String) : Option User :=
  Δ.users.find? fun u => u.tenantID = some tenantID && sameEmail Δ u.email email && !u.deactivated

def findMaster (email : String) : Option User :=
  Δ.users.find? fun u => u.tenantID = none && sameEmail Δ u.email email && !u.isSystem

def roleOf (tenantID userID : UUID) : Role :=
  match Δ.users.find? fun u => u.id = userID && u.tenantID = some tenantID with
  | none => .other ""
  | some u => u.role

/-- What a login finds besides the stores: the instant, the draws, and the answers of the session store and the alerter. -/
structure Env where
  now : Time
  sessionID : Except Err UUID
  csrfToken : Except Err String
  created : Except Err Unit
  notified : Except Err Unit

def serve (E : Env) : (q : Req) → LockDB → Resp q × LockDB
  | .tenantFromContext host, db => (Δ.hosts host, db)
  | .resolveByHost host, db => (Δ.hosts host, db)
  | .lookupCredentials tenantID email, db => (.ok (credentials (findUser Δ tenantID email)), db)
  | .lookupMasterCredentials email, db => (.ok (credentials (findMaster Δ email)), db)
  | .roleByUser tenantID userID, db => (.ok (roleOf Δ tenantID userID), db)
  | .isLocked scope userID, db => (.ok (db.isLocked scope userID E.now), db)
  | .lock scope userID lockedUntil reason, db => db.lock scope userID lockedUntil reason
  | .clear scope userID, db => (.ok (), db.clear scope userID)
  | .allow key window max, db => ((db.redis.allow key window max E.now).1, { db with redis := (db.redis.allow key window max E.now).2 })
  | .verifyPassword encoded password, db => (Δ.verify encoded password, db)
  | .dummyVerify _, db => ((), db)
  | .clock, db => (E.now, db)
  | .newSessionID, db => (E.sessionID, db)
  | .generateToken, db => (E.csrfToken, db)
  | .createSession _, db => (E.created, db)
  | .notify _, db => (E.notified, db)
  | .scheduleRehash _ _ _, db => ((), db)

/-! ## The account of a call -/

/-- The tenant of the host, or nothing for the master console.  A host that is not known belongs to no realm. -/
def Call.realm : Call → Option (Option UUID)
  | .login host _ _ _ =>
    match Δ.hosts host with
    | .ok tenantID => some (some tenantID)
    | .error _ => none
  | .masterLogin _ _ _ => some none

def Call.user : Call → Option User
  | .login host email _ _ =>
    match Δ.hosts host with
    | .ok tenantID => findUser Δ tenantID email
    | .error _ => none
  | .masterLogin email _ _ => findMaster Δ email

def Call.password : Call → String
  | .login _ _ password _ => password
  | .masterLogin _ password _ => password

/-- The policy under which the failures of a user are counted. -/
def policyOf (u : User) : Policy :=
  match u.tenantID with
  | some _ => Δ.login
  | none => Δ.mLogin

structure Serves (u : User) (S : Service) : Prop where
  limiter : S.limiter = true
  policy : S.loginPolicy = policyOf Δ u
  scope : S.lockouts = some u.tenantID

/-- A lockout of the user is one of the user's realm. -/
def Homed (u : User) (db : LockDB) : Prop := ∀ row, db.lockouts u.id = some row → row.tenantID = u.tenantID

section Account

variable {Δ} {c : Call} {u : User}

theorem Call.user_realm (h : c.user Δ = some u) : u ∈ Δ.users ∧ c.realm Δ = some u.tenantID := by
  cases c with
  | login host email password req =>
    rw [Call.user] at h
    rw [Call.realm]
    cases hhost : Δ.hosts host with
    | error e =>
      rw [hhost] at h
      cases h
    | ok tenantID =>
    rw [hhost] at h
    have hp := find?_some h
    simp only [Bool.and_eq_true, decide_eq_true_eq] at hp
    exact ⟨mem_of_find?_eq_some h, by rw [hp.1.1]⟩
  | masterLogin email password req =>
  have hp := find?_some h
  simp only [Bool.and_eq_true, decide_eq_true_eq] at hp
  exact ⟨mem_of_find?_eq_some h, by rw [hp.1.1]; rfl⟩

/-- The counter of an account does not depend on how its e-mail is spelled. -/
theorem Call.user_key (h : c.user Δ = some u) : failedLoginKey Δ c.email = failedLoginKey Δ u.email := by
  have hsame : sameEmail Δ u.email c.email = true := by
    cases c with
    | login host email password req =>
      rw [Call.user] at h
      cases hhost : Δ.hosts host with
      | error e =>
        rw [hhost] at h
        cases h
      | ok tenantID =>
      rw [hhost] at h
      have hp := find?_some h
      simp only [Bool.and_eq_true] at hp
      exact hp.1.2
    | masterLogin email password req =>
    have hp := find?_some h
    simp only [Bool.and_eq_true] at hp
    exact hp.1.2
  have hlower : Δ.tables.lower u.email = Δ.tables.lower c.email := of_decide_eq_true hsame
  have htrim : Δ.tables.lower (trimSpace c.email) = Δ.tables.lower (trimSpace u.email) := by
    rw [CaseTables.lower_trimSpace _ Δ.space, CaseTables.lower_trimSpace _ Δ.space, hlower]
  exact congrArg (fun x => "failed_login:email:" ++ Δ.sha256 x) htrim

end Account

end Crm.Iam
