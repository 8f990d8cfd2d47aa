import Mathlib.Data.List.Nodup
import Crm.CustomDomain.Host
import Crm.CustomDomain.Validation
import Crm.Lib.Uuid

/-!
# Crm.CustomDomain.Management — the domains of a tenant

The use case of `internal/customdomain/management` as a client of `tenant_custom_domains`, wired as in `cmd/server/customdomain_wire.go`: the
quota gate of `internal/customdomain/enrollment` in front of an enrolment, and the validator of `Crm.CustomDomain.Validation` behind the
host check and the DNS check.  Every SQL statement, DNS lookup and counter is one atomic step; the lookups, the counters and the
circuit breaker answer anything.
-/

namespace Crm.CustomDomain

open Interleave Text List Prog

/-! ## The table -/

structure Domain where
  id : UUID
  tenantID : UUID
  host : String
  verificationToken : String
  verifiedAt : Option Time
  verifiedWithDNSSEC : Bool
  tlsPausedAt : Option Time
  deletedAt : Option Time
  dnsResolutionLogID : Option UUID
  tokenIssuedAt : Time
  createdAt : Time
  updatedAt : Time
  deriving DecidableEq, Repr

/-- `LOWER(host)`, the key of the unique index. -/
def hostKey (d : Domain) : String := String.ofList (d.host.toList.map Char.toLower)

/-- The rows the unique index and the count of a tenant range over. -/
def Domain.active (d : Domain) : Bool := d.deletedAt.isNone

/-- `tenant_custom_domains` with its primary key and its unique index over the rows that are not deleted. -/
structure DomainDB where
  rows : List Domain
  ids : (rows.map Domain.id).Nodup
  hosts : ((rows.filter Domain.active).map hostKey).Nodup

inductive Update : Type
  | markVerified (expectedToken : String) (at_ : Time) (withDNSSEC : Bool) (dnsLogID : Option UUID)
  | setPaused (pausedAt : Option Time) (now : Time)
  | softDelete (at_ : Time)
  | rotateToken (newToken : String) (issuedAt : Time)
  deriving DecidableEq, Repr

namespace Update

/-- The `WHERE` clause, the id apart. -/
def guard : Update → Domain → Bool
  | .markVerified expectedToken _ _ _, d => d.active && d.verificationToken = expectedToken
  | .setPaused _ _, d => d.active
  | .softDelete _, d => d.active
  | .rotateToken _ _, d => d.verifiedAt.isNone && d.active

def set : Update → Domain → Domain
  | .markVerified _ at_ withDNSSEC dnsLogID, d => { d with
      verifiedAt := some (timestamptz at_), verifiedWithDNSSEC := withDNSSEC, dnsResolutionLogID := dnsLogID, updatedAt := timestamptz at_ }
  | .setPaused pausedAt now, d => { d with tlsPausedAt := pausedAt.map timestamptz, updatedAt := timestamptz now }
  | .softDelete at_, d => { d with deletedAt := some (timestamptz at_), updatedAt := timestamptz at_ }
  | .rotateToken newToken issuedAt, d => { d with
      verificationToken := newToken, tokenIssuedAt := timestamptz issuedAt, updatedAt := timestamptz issuedAt }

/-- The row after the statement for `id`. -/
def apply (u : Update) (id : UUID) (d : Domain) : Domain := if d.id = id ∧ u.guard d then u.set d else d

variable (u : Update) (id : UUID) (d : Domain)

@[simp] theorem apply_id : (u.apply id d).id = d.id := by
  unfold apply
  split_ifs
  · cases u <;> rfl
  · rfl

@[simp] theorem apply_tenantID : (u.apply id d).tenantID = d.tenantID := by
  unfold apply
  split_ifs
  · cases u <;> rfl
  · rfl

@[simp] theorem apply_host : (u.apply id d).host = d.host := by
  unfold apply
  split_ifs
  · cases u <;> rfl
  · rfl

theorem apply_active (h : (u.apply id d).active = true) : d.active = true := by
  unfold apply at h
  split_ifs at h with hg
  · cases u with
    | markVerified expectedToken at_ withDNSSEC dnsLogID => exact h
    | setPaused pausedAt now => exact h
    | softDelete at_ => cases h
    | rotateToken newToken issuedAt => exact h
  · exact h

end Update

namespace DomainDB

variable (s : DomainDB)

/-- `GetByID`: also a deleted row. -/
def getByID (id : UUID) : Except Err Domain :=
  match s.rows.find? fun d => d.id = id with
  | some d => .ok d
  | none => .error .domainStoreNotFound

/-- The probe behind a statement that found no row: is there a row with this id that is not deleted? -/
def probe (id : UUID) : Bool := s.rows.any fun d => d.id = id && d.active

def activeCount (tenantID : UUID) : ℕ := s.rows.countP fun d => d.tenantID = tenantID && d.active

/-- The row an insert writes: the columns it does not name take their defaults. -/
def inserted (d : Domain) : Domain where
  id := d.id
  tenantID := d.tenantID
  host := d.host
  verificationToken := d.verificationToken
  verifiedAt := none
  verifiedWithDNSSEC := false
  tlsPausedAt := none
  deletedAt := none
  dnsResolutionLogID := none
  tokenIssuedAt := timestamptz d.createdAt
  createdAt := timestamptz d.createdAt
  updatedAt := timestamptz d.createdAt

def add (d : Domain) (hid : ∀ r ∈ s.rows, r.id ≠ d.id) (hhost : ∀ r ∈ s.rows, r.active = true → hostKey r ≠ hostKey d) : DomainDB where
  rows := s.rows ++ [inserted d]
  ids := by
    rw [map_append, map_singleton, ← concat_eq_append, nodup_concat]
    refine ⟨fun hm => ?_, s.ids⟩
    obtain ⟨r, hr, he⟩ := mem_map.mp hm
    exact hid r hr he
  hosts := by
    have hact : [inserted d].filter Domain.active = [inserted d] := rfl
    rw [filter_append, hact, map_append, map_singleton, ← concat_eq_append, nodup_concat]
    refine ⟨fun hm => ?_, s.hosts⟩
    obtain ⟨r, hr, he⟩ := mem_map.mp hm
    exact hhost r (mem_filter.mp hr).1 (mem_filter.mp hr).2 he

def insert (d : Domain) : Except Err (Domain × DomainDB) :=
  if h : (∀ r ∈ s.rows, r.id ≠ d.id) ∧ ∀ r ∈ s.rows, r.active = true → hostKey r ≠ hostKey d then .ok (inserted d, s.add d h.1 h.2)
  else .error (.other "custom_domain scan: duplicate key value violates unique constraint")

def change (id : UUID) (u : Update) : DomainDB where
  rows := s.rows.map (u.apply id)
  ids := by
    have hid : Domain.id ∘ u.apply id = Domain.id := funext fun d => u.apply_id id d
    rw [map_map, hid]
    exact s.ids
  hosts := by
    -- the rows that are still active were active before, under the same key
    have hkey : hostKey ∘ u.apply id = hostKey := funext fun d => by simp [hostKey]
    rw [filter_map, map_map, hkey]
    refine s.hosts.sublist (List.Sublist.map _ (monotone_filter_right _ fun d hd => ?_))
    exact u.apply_active id d hd

def update (id : UUID) (u : Update) : Except Err (Domain × DomainDB) :=
  match s.rows.find? fun d => d.id = id && u.guard d with
  | some d => .ok (u.set d, s.change id u)
  | none => .error .domainStoreNotFound

end DomainDB

/-! ## The ports -/

inductive Window : Type
  | hour
  | day
  | month
  deriving DecidableEq, Repr

inductive Req : Type
  | clock
  | newUUID
  | random
  | lookupIP (host : String)
  | lookupTXT (name : String)
  | activeCount (tenantID : UUID)
  | countAndRecord (tenantID : UUID) (window : Window) (now : Time)
  | isOpen (tenantID : UUID) (now : Time)
  | releaseSlug (slug : String) (byTenantID : UUID)
  | getByID (id : UUID)
  | probe (id : UUID)
  | insert (d : Domain)
  | update (id : UUID) (u : Update)

abbrev Resp : Req → Type
  | .clock => Time
  | .newUUID => UUID
  -- 16 bytes
  | .random => Except Err (BitVec 128)
  | .lookupIP _ => Except Err (List Validation.IPAnswer)
  | .lookupTXT _ => Except Err (List String)
  | .activeCount _ => Except Err ℤ
  | .countAndRecord _ _ _ => Except Err ℤ
  | .isOpen _ _ => Except Err Bool
  | .releaseSlug _ _ => Except Err Unit
  | .getByID _ => Except Err Domain
  | .probe _ => Except Err Bool
  | .insert _ => Except Err Domain
  | .update _ _ => Except Err Domain

abbrev Client (α : Type) : Type := Prog Req Resp α

/-- What one request does to the table.  Clock, random numbers, DNS, the counters in Redis, the breaker and the slug reservations are outside
it and answer anything. -/
def exec : (q : Req) → DomainDB → Resp q → DomainDB → Prop
  | .activeCount tenantID, s, r, s' => Read Err.fault s (.ok (s.activeCount tenantID : ℤ)) r s'
  | .getByID id, s, r, s' => Read Err.fault s (s.getByID id) r s'
  | .probe id, s, r, s' => Read Err.fault s (.ok (s.probe id)) r s'
  | .insert d, s, r, s' => Tx Err.fault s (s.insert d) r s'
  | .update id u, s, r, s' => Tx Err.fault s (s.update id u) r s'
  | _, s, _, s' => s' = s

namespace Port

abbrev clock : Client Time := .send Req.clock

abbrev newUUID : Client UUID := .send Req.newUUID

abbrev getByID (id : UUID) : Client (Except Err Domain) := .send (Req.getByID id)

abbrev insert (d : Domain) : Client (Except Err Domain) := .send (Req.insert d)

abbrev countAndRecord (tenantID : UUID) (window : Window) (now : Time) : Client (Except Err ℤ) := .send (Req.countAndRecord tenantID window now)

abbrev isOpen (tenantID : UUID) (now : Time) : Client (Except Err Bool) := .send (Req.isOpen tenantID now)

def activeCount (tenantID : UUID) : Client (Except Err ℤ) := do
  if tenantID = UUID.Nil then return .error (.other "enrollment_count: tenantID must not be uuid.Nil")
  .send (Req.activeCount tenantID)

/-- `MarkVerified`: a statement without a row is followed by a look at what has become of the row. -/
def markVerified (id : UUID) (expectedToken : String) (at_ : Time) (withDNSSEC : Bool) (dnsLogID : Option UUID) : Client (Except Err Domain) := do
  match ← .send (Req.update id (.markVerified expectedToken at_ withDNSSEC dnsLogID)) with
  | .ok d => return .ok d
  | .error e =>
    if ¬ e.is .domainStoreNotFound then return .error e
    match ← .send (Req.probe id) with
    | .ok true => return .error .domainTokenRotated
    | .ok false => return .error .domainStoreNotFound
    | .error e => return .error (.wrap "custom_domain mark verified probe" e)

/-- `SetPaused`: the store has a clock of its own for a row that is resumed. -/
def setPaused (id : UUID) (pausedAt : Option Time) : Client (Except Err Domain) := do
  let now ← clock
  .send (Req.update id (.setPaused pausedAt (pausedAt.getD now)))

abbrev softDelete (id : UUID) (at_ : Time) : Client (Except Err Domain) := .send (Req.update id (.softDelete at_))

def rotateToken (id : UUID) (newToken : String) (issuedAt : Time) : Client (Except Err Domain) := do
  match ← .send (Req.update id (.rotateToken newToken issuedAt)) with
  | .ok d => return .ok d
  | .error e =>
    if ¬ e.is .domainStoreNotFound then return .error e
    match ← .send (Req.probe id) with
    | .ok true => return .error .domainAlreadyVerified
    | .ok false => return .error .domainStoreNotFound
    | .error e => return .error (.wrap "custom_domain rotate token probe" e)

end Port

/-! ## The enrolment gate -/

structure Quota where
  hourly : ℤ
  daily : ℤ
  monthly : ℤ
  hardCap : ℤ
  deriving DecidableEq, Repr

def defaultQuota : Quota := ⟨5, 20, 50, 25⟩

/-- The quota that `New` takes over from the configuration. -/
def Quota.orDefault (quota : Quota) : Quota :=
  if quota.hourly ≤ 0 ∨ quota.daily ≤ 0 ∨ quota.monthly ≤ 0 ∨ quota.hardCap ≤ 0 then defaultQuota else quota

def oneHour : ℤ := 3600000000000

def Window.duration : Window → ℤ
  | .hour => oneHour
  | .day => 24 * oneHour
  | .month => 30 * 24 * oneHour

inductive Decision : Type
  | allowed
  | deniedHardCap
  | deniedHourlyQuota
  | deniedDailyQuota
  | deniedMonthlyQuota
  | deniedCircuitBreaker
  | error
  deriving DecidableEq, Repr

structure GateResult where
  decision : Decision
  resetAfter : ℤ := 0
  err : Option Err := none
  deriving DecidableEq, Repr

/-- What the use case is configured with; the optional ports may be missing. -/
structure UseCase where
  tables : CaseTables
  quota : Quota
  breaker : Bool
  validator : Bool
  dns : Bool
  slug : Bool
  /-- `Config.TokenTTL`. -/
  ttl : ℤ

/-- One of the three rolling windows of `Allow`: the call is counted, then the quota decides. -/
def checkWindow (tenantID : UUID) (window : Window) (now : Time) (quota : ℤ) (denied : Decision) (next : Client GateResult) :
    Client GateResult := do
  match ← Port.countAndRecord tenantID window now with
  | .error e => return { decision := .error, err := some e }
  | .ok count => if quota < count then return { decision := denied, resetAfter := window.duration } else next

variable (U : UseCase)

def checkBreaker (tenantID : UUID) (now : Time) : Client GateResult := do
  if ¬ U.breaker then return { decision := .allowed }
  match ← Port.isOpen tenantID now with
  | .error e => return { decision := .error, err := some e }
  | .ok open_ => return { decision := if open_ then .deniedCircuitBreaker else .allowed }

/-- `Allow` of the enrolment use case: the first check that denies decides. -/
def allow (tenantID : UUID) : Client GateResult := do
  if tenantID = UUID.Nil then return { decision := .error, err := some .enrollmentZeroTenant }
  let quota := U.quota.orDefault
  let now ← Port.clock
  match ← Port.activeCount tenantID with
  | .error e => return { decision := .error, err := some e }
  | .ok active =>
    if quota.hardCap ≤ active then return { decision := .deniedHardCap }
    checkWindow tenantID .hour now quota.hourly .deniedHourlyQuota <|
      checkWindow tenantID .day now quota.daily .deniedDailyQuota <|
        checkWindow tenantID .month now quota.monthly .deniedMonthlyQuota <|
          checkBreaker U tenantID now

inductive Reason : Type
  | none
  | invalidHost
  | privateIP
  | tokenMismatch
  | dnsResolutionFailed
  | rateLimited
  | slugReserved
  | notFound
  | alreadyVerified
  | forbidden
  | internal
  | tokenExpired
  | tokenRotated
  deriving DecidableEq, Repr

structure EnrollmentDecision where
  allowed : Bool := false
  reason : Reason := .none
  retryAfter : ℤ := 0
  err : Option Err := .none
  deriving DecidableEq, Repr

def enrollmentGate (tenantID : UUID) : Client EnrollmentDecision := do
  let res ← allow U tenantID
  match res.decision with
  | .allowed => return { allowed := true }
  | .deniedHardCap => return { reason := .rateLimited }
  | .deniedHourlyQuota | .deniedDailyQuota | .deniedMonthlyQuota => return { reason := .rateLimited, retryAfter := res.resetAfter }
  | .deniedCircuitBreaker => return { reason := .internal }
  | .error => return { err := some (.wrap "gate" (res.err.getD (.other "enrollment: unknown decision"))) }

/-! ## The validator behind the use case -/

def ofValidation : Validation.Req → Req
  | .clock => .clock
  | .lookupIP host => .lookupIP host
  | .lookupTXT name => .lookupTXT name

def toValidation : (q : Validation.Req) → Resp (ofValidation q) → Validation.Resp q
  | .clock, r => r
  | .lookupIP _, r => r
  | .lookupTXT _, r => r

def validation {α : Type} (p : Validation.Client α) : Client α := p.embed ofValidation toValidation

/-- `hostValidatorAdapter`; a use case without validator takes every host. -/
def hostValidator (host : String) : Client (Except Err Unit) := do
  if ¬ U.validator then return .ok ()
  match ← validation (Validation.validateHostOnly U.tables host) with
  | .ok () => return .ok ()
  | .error e =>
    if e.is .validationPrivateIP then return .error (.join .domainPrivateIP e)
    else if e.is .validationEmptyHost then return .error (.join .domainInvalidHost e)
    else return .error e

structure DNSCheckResult where
  withDNSSEC : Bool
  logID : Option UUID
  deriving DecidableEq, Repr

/-- `dnsCheckerAdapter`: the stored token itself is what the validator looks for. -/
def dnsChecker (host expectedToken : String) : Client (Except Err DNSCheckResult) := do
  match ← validation (Validation.validate U.tables host expectedToken) with
  | .ok res => return .ok ⟨res.verifiedWithDNSSEC, none⟩
  | .error e =>
    if e.is .validationTokenMismatch then return .error (.join .domainTokenMismatch e)
    else if e.is .validationPrivateIP then return .error (.join .domainPrivateIP e)
    else return .error e

def classifyValidationError (e : Err) : Reason :=
  if e.is .domainInvalidHost then .invalidHost
  else if e.is .domainPrivateIP then .privateIP
  else if e.is .domainTokenMismatch then .tokenMismatch
  else if e.is .domainSlugReserved then .slugReserved
  else .dnsResolutionFailed

/-! ## The use case -/

def txtRecordFor (host : String) : String := "_crm-verify." ++ host

def txtValueFor (token : String) : String := "crm-verify=" ++ token

def tokenText (bytes : BitVec 128) : String := String.ofList (UUID.hexDigits bytes.toNat 32)

def defaultTokenGen : Client (Except Err String) := do
  match ← .send Req.random with
  | .error e => return .error e
  | .ok bytes => return .ok (tokenText bytes)

def UseCase.tokenTTL : ℤ := if U.ttl ≤ 0 then 24 * oneHour else U.ttl

def get (tenantID id : UUID) : Client (Except Err Domain) := do
  if tenantID = UUID.Nil then return .error .domainTenantMismatch
  match ← Port.getByID id with
  | .error e => return .error e
  | .ok d =>
    if d.tenantID ≠ tenantID then return .error .domainTenantMismatch
    return .ok d

structure EnrollResult where
  domain : Option Domain := none
  txtRecord : String := ""
  txtValue : String := ""
  reason : Reason := .none
  retryAfter : ℤ := 0
  deriving DecidableEq, Repr

def enroll (tenantID : UUID) (rawHost : String) : Client (EnrollResult × Option Err) := do
  if tenantID = UUID.Nil then return ({ reason := .forbidden }, some .domainTenantMismatch)
  match normalizeHost U.tables rawHost with
  | .error _ => return ({ reason := .invalidHost }, some .domainInvalidHost)
  | .ok host =>
    match ← hostValidator U host with
    | .error e => return ({ reason := classifyValidationError e }, some e)
    | .ok () =>
      let dec ← enrollmentGate U tenantID
      match dec.err with
      | some e => return ({ reason := .internal }, some e)
      | none =>
        if ¬ dec.allowed then return ({ reason := dec.reason, retryAfter := dec.retryAfter }, none)
        match ← defaultTokenGen with
        | .error e => return ({ reason := .internal }, some (.wrap "management: token" e))
        | .ok token =>
          let now ← Port.clock
          let id ← Port.newUUID
          match ← Port.insert ⟨id, tenantID, host, token, none, false, none, none, none, now, now, now⟩ with
          | .error e => return ({ reason := .internal }, some (.wrap "management: insert" e))
          | .ok saved => return ({ domain := some saved, txtRecord := txtRecordFor host, txtValue := txtValueFor token }, none)

structure VerifyOutcome where
  domain : Option Domain := none
  verified : Bool := false
  reason : Reason := .none
  err : Option Err := .none
  deriving DecidableEq, Repr

def verify (tenantID id : UUID) : Client (VerifyOutcome × Option Err) := do
  match ← get tenantID id with
  | .error e =>
    if e.is .domainStoreNotFound then return ({ reason := .notFound }, some e)
    if e.is .domainTenantMismatch then return ({ reason := .forbidden }, some e)
    return ({ reason := .internal }, some e)
  | .ok d =>
    if d.verifiedAt ≠ none then return ({ domain := some d, verified := true, reason := .alreadyVerified }, none)
    let now ← Port.clock
    if U.tokenTTL < now - d.tokenIssuedAt then return ({ domain := some d, reason := .tokenExpired }, some .domainTokenExpired)
    if ¬ U.dns then return ({ domain := some d, reason := .internal }, some (.other "management: DNSChecker not configured"))
    match ← dnsChecker U d.host d.verificationToken with
    | .error e => return ({ domain := some d, reason := classifyValidationError e, err := some e }, some e)
    | .ok res =>
      match ← Port.markVerified id d.verificationToken now res.withDNSSEC res.logID with
      | .error e =>
        if e.is .domainTokenRotated then return ({ domain := some d, reason := .tokenRotated, err := some e }, some e)
        return ({ domain := some d, reason := .internal }, some (.wrap "management: mark verified" e))
      | .ok saved => return ({ domain := some saved, verified := true }, none)

/-- When a row was paused; no time for one that is resumed. -/
def pauseTime : Bool → Client (Option Time)
  | true => do return some (← Port.clock)
  | false => return none

def setPaused (tenantID id : UUID) (paused : Bool) : Client (Except Err Domain) := do
  match ← get tenantID id with
  | .error e => return .error e
  | .ok d =>
    let pausedAt ← pauseTime paused
    match ← Port.setPaused d.id pausedAt with
    | .error e => return .error (.wrap "management: set paused" e)
    | .ok saved => return .ok saved

def firstLabel (host : String) : String := String.ofList (host.toList.takeWhile fun c => c != '.')

/-- `Delete`: the row stays deleted when the slug cannot be released. -/
def delete (U : UseCase) (tenantID id : UUID) : Client (Except Err Unit) := do
  match ← get tenantID id with
  | .error e => return .error e
  | .ok d =>
    let now ← Port.clock
    match ← Port.softDelete d.id now with
    | .error e => return .error (.wrap "management: soft delete" e)
    | .ok _ =>
      if ¬ U.slug then return .ok ()
      match ← .send (Req.releaseSlug (firstLabel d.host) tenantID) with
      | .error e => return .error (.wrap "management: release slug" e)
      | .ok () => return .ok ()

def regenerateToken (tenantID id : UUID) : Client (Except Err Domain) := do
  match ← get tenantID id with
  | .error e => return .error e
  | .ok d =>
    if d.verifiedAt ≠ none then return .error .domainAlreadyVerified
    match ← defaultTokenGen with
    | .error e => return .error (.wrap "management: generate token" e)
    | .ok newToken =>
      let now ← Port.clock
      match ← Port.rotateToken d.id newToken now with
      | .error e => return .error (.wrap "management: rotate token" e)
      | .ok saved => return .ok saved

inductive Call : Type
  | enroll (tenantID : UUID) (rawHost : String)
  | verify (tenantID id : UUID)
  | setPaused (tenantID id : UUID) (paused : Bool)
  | delete (tenantID id : UUID)
  | regenerateToken (tenantID id : UUID)

abbrev Res : Call → Type
  | .enroll _ _ => EnrollResult × Option Err
  | .verify _ _ => VerifyOutcome × Option Err
  | .setPaused _ _ _ => Except Err Domain
  | .delete _ _ => Except Err Unit
  | .regenerateToken _ _ => Except Err Domain

def body : (c : Call) → Client (Res c)
  | .enroll tenantID rawHost => enroll U tenantID rawHost
  | .verify tenantID id => verify U tenantID id
  | .setPaused tenantID id paused => setPaused tenantID id paused
  | .delete tenantID id => delete U tenantID id
  | .regenerateToken tenantID id => regenerateToken tenantID id

abbrev W : Type := World Req Resp DomainDB Call Res

abbrev Ev : Type := Event Req Resp DomainDB Call Res

/-- Any number of calls of the use case, interleaved; `may` says which events are considered. -/
def system (may : W → Ev → Prop) : System Req Resp DomainDB Call Res where
  exec := exec
  body := body U
  allow := may

/-! ## What a step can do -/

namespace DomainDB

variable {s s' : DomainDB}

theorem insert_ok {d d' : Domain} (h : s.insert d = .ok (d', s')) : d' = inserted d ∧ s'.rows = s.rows ++ [inserted d] := by
  unfold insert at h
  split_ifs at h
  cases h
  exact ⟨rfl, rfl⟩

theorem update_ok {id : UUID} {u : Update} {d' : Domain} (h : s.update id u = .ok (d', s')) :
    ∃ d ∈ s.rows, d.id = id ∧ u.guard d = true ∧ d' = u.set d ∧ s' = s.change id u := by
  unfold update at h
  cases hf : s.rows.find? fun d => d.id = id && u.guard d with
  | none =>
    rw [hf] at h
    cases h
  | some d =>
  rw [hf] at h
  cases h
  have hd := find?_some hf
  simp only [Bool.and_eq_true, decide_eq_true_eq] at hd
  exact ⟨d, mem_of_find?_eq_some hf, hd.1, hd.2, rfl, rfl⟩

end DomainDB

/-- **The steps of the table**: a request leaves it, adds the row of an insert, or changes rows by a statement. -/
theorem exec_cases {q : Req} {s s' : DomainDB} {r : Resp q} (h : exec q s r s') :
    s' = s ∨ (∃ d, q = .insert d ∧ s'.rows = s.rows ++ [DomainDB.inserted d]) ∨ ∃ id u, q = .update id u ∧ s' = s.change id u := by
  cases q with
  | insert d =>
    rcases Tx.store_cases h with rfl | ⟨a, ha⟩
    · exact .inl rfl
    · exact .inr (.inl ⟨d, rfl, (DomainDB.insert_ok ha).2⟩)
  | update id u =>
    rcases Tx.store_cases h with rfl | ⟨a, ha⟩
    · exact .inl rfl
    · obtain ⟨d, -, -, -, -, rfl⟩ := DomainDB.update_ok ha
      exact .inr (.inr ⟨id, u, rfl, rfl⟩)
  | activeCount tenantID => exact .inl h.1
  | getByID id => exact .inl h.1
  | probe id => exact .inl h.1
  | clock => exact .inl h
  | newUUID => exact .inl h
  | random => exact .inl h
  | lookupIP host => exact .inl h
  | lookupTXT name => exact .inl h
  | countAndRecord tenantID window now => exact .inl h
  | isOpen tenantID now => exact .inl h
  | releaseSlug slug byTenantID => exact .inl h

/-! ### The requests of each call -/

def Req.writes : Req → Bool
  | .insert _ => true
  | .update _ _ => true
  | _ => false

section Sends

variable {P : Req → Prop} (hP : ∀ q : Req, q.writes = false → P q) (tenantID id : UUID)
include hP

theorem sends_get : (get tenantID id).Sends P := by
  simp only [get, send_bind, pure_eq]
  split_ifs
  · exact .ret _
  refine .ask (hP _ rfl) fun r => ?_
  cases r with
  | error e => exact .ret _
  | ok d =>
  dsimp only
  split_ifs <;> exact .ret _

theorem sends_validation {α : Type} (p : Validation.Client α) : (validation p).Sends P := .embed (fun q => hP _ (by cases q <;> rfl)) p

theorem sends_defaultTokenGen : defaultTokenGen.Sends P := by
  refine .ask (hP _ rfl) fun r => ?_
  cases r <;> exact .ret _

theorem sends_hostValidator (U : UseCase) (host : String) : (hostValidator U host).Sends P := by
  simp only [hostValidator, pure_eq]
  split_ifs
  · refine .bind (sends_validation hP _) fun r => ?_
    cases r with
    | ok => exact .ret _
    | error e =>
    dsimp only
    split_ifs <;> exact .ret _
  · exact .ret _

theorem sends_dnsChecker (U : UseCase) (host expectedToken : String) : (dnsChecker U host expectedToken).Sends P := by
  refine .bind (sends_validation hP _) fun r => ?_
  cases r with
  | ok res => exact .ret _
  | error e =>
  simp only [pure_eq]
  split_ifs <;> exact .ret _

theorem sends_checkWindow (window : Window) (now : Time) (quota : ℤ) (denied : Decision) {next : Client GateResult} (h : next.Sends P) :
    (checkWindow tenantID window now quota denied next).Sends P := by
  simp only [checkWindow, send_bind, pure_eq]
  refine .ask (hP _ rfl) fun r => ?_
  cases r with
  | error e => exact .ret _
  | ok count =>
  dsimp only
  split_ifs
  · exact .ret _
  · exact h

theorem sends_checkBreaker (U : UseCase) (now : Time) : (checkBreaker U tenantID now).Sends P := by
  simp only [checkBreaker, send_bind, pure_eq]
  split_ifs
  · refine .ask (hP _ rfl) fun r => ?_
    cases r <;> exact .ret _
  · exact .ret _

theorem sends_activeCount : (Port.activeCount tenantID).Sends P := by
  simp only [Port.activeCount, pure_eq]
  split_ifs
  · exact .ret _
  · exact .ask (hP _ rfl) fun r => .ret r

theorem sends_enrollmentGate (U : UseCase) : (enrollmentGate U tenantID).Sends P := by
  refine .bind ?_ fun res => ?_
  · simp only [allow, send_bind, pure_eq]
    split_ifs
    · exact .ret _
    refine .ask (hP _ rfl) fun now => .bind (sends_activeCount hP tenantID) fun r => ?_
    cases r with
    | error e => exact .ret _
    | ok active =>
    dsimp only
    split_ifs
    · exact .ret _
    · exact sends_checkWindow hP tenantID _ _ _ _ <| sends_checkWindow hP tenantID _ _ _ _ <| sends_checkWindow hP tenantID _ _ _ _ <|
        sends_checkBreaker hP tenantID U now
  · cases res with
    | mk decision resetAfter err => cases decision <;> exact .ret _

theorem sends_enroll (hi : ∀ d, P (.insert d)) (U : UseCase) (rawHost : String) : (enroll U tenantID rawHost).Sends P := by
  simp only [enroll, send_bind, pure_eq]
  split_ifs
  · exact .ret _
  cases normalizeHost U.tables rawHost with
  | error e => exact .ret _
  | ok host =>
  refine .bind (sends_hostValidator hP U host) fun r => ?_
  cases r with
  | error e => exact .ret _
  | ok =>
  refine .bind (sends_enrollmentGate hP tenantID U) fun dec => ?_
  cases dec.err with
  | some e => exact .ret _
  | none =>
  dsimp only
  split_ifs
  · refine .bind (sends_defaultTokenGen hP) fun r => ?_
    cases r with
    | error e => exact .ret _
    | ok token =>
    refine .ask (hP _ rfl) fun now => .ask (hP _ rfl) fun id => .ask (hi _) fun r => ?_
    cases r <;> exact .ret _
  · exact .ret _

theorem sends_markVerified {expectedToken : String} {at_ : Time} {withDNSSEC : Bool} {dnsLogID : Option UUID}
    (hu : P (.update id (.markVerified expectedToken at_ withDNSSEC dnsLogID))) :
    (Port.markVerified id expectedToken at_ withDNSSEC dnsLogID).Sends P := by
  simp only [Port.markVerified, send_bind, pure_eq]
  refine .ask hu fun r => ?_
  cases r with
  | ok d => exact .ret _
  | error e =>
  dsimp only
  split_ifs
  · refine .ask (hP _ rfl) fun r => ?_
    rcases r with e | (_ | _) <;> exact .ret _
  · exact .ret _

theorem sends_rotateToken {newToken : String} {issuedAt : Time} (hu : P (.update id (.rotateToken newToken issuedAt))) :
    (Port.rotateToken id newToken issuedAt).Sends P := by
  simp only [Port.rotateToken, send_bind, pure_eq]
  refine .ask hu fun r => ?_
  cases r with
  | ok d => exact .ret _
  | error e =>
  dsimp only
  split_ifs
  · refine .ask (hP _ rfl) fun r => ?_
    rcases r with e | (_ | _) <;> exact .ret _
  · exact .ret _

theorem sends_verify (hu : ∀ id token t dnssec log, P (.update id (.markVerified token t dnssec log))) (U : UseCase) :
    (verify U tenantID id).Sends P := by
  refine .bind (sends_get hP tenantID id) fun r => ?_
  cases r with
  | error e =>
    simp only [pure_eq]
    split_ifs <;> exact .ret _
  | ok d =>
  simp only [send_bind, pure_eq]
  by_cases hv : d.verifiedAt = none
  · rw [if_neg (not_not.mpr hv)]
    refine .ask (hP _ rfl) fun now => ?_
    split_ifs
    · exact .ret _
    · refine .bind (sends_dnsChecker hP U _ _) fun r => ?_
      cases r with
      | error e => exact .ret _
      | ok res =>
      refine .bind (sends_markVerified hP id (hu _ _ _ _ _)) fun r => ?_
      cases r with
      | ok saved => exact .ret _
      | error e =>
      dsimp only
      split_ifs <;> exact .ret _
    · exact .ret _
  · rw [if_pos hv]
    exact .ret _

theorem sends_setPaused (hu : ∀ id t now, P (.update id (.setPaused t now))) (paused : Bool) : (setPaused tenantID id paused).Sends P := by
  refine .bind (sends_get hP tenantID id) fun r => ?_
  cases r with
  | error e => exact .ret _
  | ok d =>
  have hclock : (pauseTime paused).Sends P := by
    cases paused
    · exact .ret _
    · exact .ask (hP .clock rfl) fun t => .ret _
  have hport : ∀ pausedAt, (Port.setPaused d.id pausedAt).Sends P := fun pausedAt =>
    .ask (hP .clock rfl) fun now => .ask (hu _ _ _) fun r => .ret r
  refine .bind hclock fun pausedAt => .bind (hport pausedAt) fun r => ?_
  cases r <;> exact .ret _

theorem sends_delete (hu : ∀ id t, P (.update id (.softDelete t))) (U : UseCase) : (delete U tenantID id).Sends P := by
  refine .bind (sends_get hP tenantID id) fun r => ?_
  cases r with
  | error e => exact .ret _
  | ok d =>
  refine .ask (hP .clock rfl) fun now => .ask (hu _ _) fun r => ?_
  cases r with
  | error e => exact .ret _
  | ok d' =>
  simp only [send_bind, pure_eq]
  split_ifs
  · refine .ask (hP _ rfl) fun r => ?_
    cases r <;> exact .ret _
  · exact .ret _

theorem sends_regenerateToken (hu : ∀ id token t, P (.update id (.rotateToken token t))) : (regenerateToken tenantID id).Sends P := by
  refine .bind (sends_get hP tenantID id) fun r => ?_
  cases r with
  | error e => exact .ret _
  | ok d =>
  simp only [send_bind, pure_eq]
  split_ifs
  · exact .ret _
  refine .bind (sends_defaultTokenGen hP) fun r => ?_
  cases r with
  | error e => exact .ret _
  | ok newToken =>
  refine .ask (hP _ rfl) fun now => .bind (sends_rotateToken hP d.id (hu _ _ _)) fun r => ?_
  cases r <;> exact .ret _

end Sends

/-! ### Answers that do not change -/

/-- Ports that answer every request alike; the identifiers are numbered by the rows there are. -/
structure Ports where
  now : Time
  id : ℕ → UUID
  bytes : BitVec 128
  lookupIP : String → Except Err (List Validation.IPAnswer)
  lookupTXT : String → Except Err (List String)
  count : ℤ
  isOpen : Bool

/-- The requests as a table serves them whose connection holds, next to such ports. -/
def serve (E : Ports) : (q : Req) → DomainDB → Resp q × DomainDB
  | .clock, s => (E.now, s)
  | .newUUID, s => (E.id s.rows.length, s)
  | .random, s => (.ok E.bytes, s)
  | .lookupIP host, s => (E.lookupIP host, s)
  | .lookupTXT name, s => (E.lookupTXT name, s)
  | .activeCount tenantID, s => (.ok (s.activeCount tenantID : ℤ), s)
  | .countAndRecord _ _ _, s => (.ok E.count, s)
  | .isOpen _ _, s => (.ok E.isOpen, s)
  | .releaseSlug _ _, s => (.ok (), s)
  | .getByID id, s => (s.getByID id, s)
  | .probe id, s => (.ok (s.probe id), s)
  | .insert d, s => Tx.run s (s.insert d)
  | .update id u, s => Tx.run s (s.update id u)

theorem exec_serve (E : Ports) (q : Req) (s : DomainDB) : exec q s (serve E q s).1 (serve E q s).2 := by
  cases q with
  | insert d => exact Tx.of_run s (s.insert d)
  | update id u => exact Tx.of_run s (s.update id u)
  | activeCount tenantID => exact ⟨rfl, .inl rfl⟩
  | getByID id => exact ⟨rfl, .inl rfl⟩
  | probe id => exact ⟨rfl, .inl rfl⟩
  | _ => rfl

/-- Every host has one public address, and every TXT record the values `txts`. -/
def publicPorts (txts : List String) : Ports where
  now := 1000
  id := fun n => n + 1
  bytes := 6
  lookupIP := fun _ => .ok [⟨.v4 (Netip.ip4 203 0 113 5), true⟩]
  lookupTXT := fun _ => .ok txts
  count := 1
  isOpen := false

def emptyDB : DomainDB := ⟨[], by decide, by decide⟩

def fullyWired : UseCase := ⟨.ascii, defaultQuota, true, true, true, true, 0⟩

end Crm.CustomDomain
