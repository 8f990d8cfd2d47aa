import Crm.Store.Interface

/-!
# Crm.Wallet.Usecase — the wallet service and the two stores that write wallets directly

`Service.Reserve`, `Commit`, `Release` and `Grant` of `internal/wallet/usecase/usecase.go` as clients of the store.
Each is a bounded loop over one attempt: load the wallet, look the idempotency key up, mutate the loaded copy, and hand copy and
ledger line to `ApplyWithLock`; a version or key conflict makes the next attempt start from a fresh load.

`AllocateMonthlyQuota` and `CourtesyStore.Issue` check their arguments and run one transaction.
-/

namespace Crm.Wallet

open Int64Arith Interleave Interleave.Prog Crm.Store

def maxAttempts : ℕ := 256

def maxIdempotencyKeyLen : ℕ := 128

/-- The error of a bad idempotency key; the length is in bytes. -/
def validateIdempotencyKey (key : String) : Option Err :=
  if key = "" then some .emptyIdempotencyKey
  else if maxIdempotencyKeyLen < key.utf8ByteSize then some .idempotencyKeyTooLong
  else none

/-- How one pass of a retry loop ends: `return` or `continue` with the error it keeps. -/
inductive Attempt (α : Type) : Type
  | done (a : α)
  | again (lastErr : Err)

/-- `for attempt := 0; attempt < n; attempt++`, failing with the last error when all passes are used up. -/
def retry {α : Type} (exhausted : String) (attempt : Client (Attempt (Except Err α))) :
    ℕ → Option Err → Client (Except Err α)
  | 0, lastErr => .ret (.error (Err.errorf exhausted lastErr))
  | n + 1, _ => attempt >>= fun
    | .done a => .ret a
    | .again e => retry exhausted attempt n (some e)

def retryable (e : Err) : Bool := e.is .versionConflict || e.is .idempotencyConflict

/-- The end of a pass whose `ApplyWithLock` answered `r`. -/
def settle {α : Type} (r : Except Err Unit) (a : α) : Attempt (Except Err α) :=
  match r with
  | .error e => if retryable e then .again e else .done (.error e)
  | .ok () => .done (.ok a)

/-! ## Reserve -/

/-- What a pass returns when the key already has the row `prior`. -/
def replayReserve (prior : LedgerEntry) (amount : ℤ) (key : String) : Except Err Reservation :=
  if prior.kind ≠ .reserve then .error .idempotencyConflict
  else if wrap (-prior.amount) ≠ amount then .error .idempotencyConflict
  else match UUID.parse prior.externalRef with
    | none => .error (.other "wallet/usecase: malformed external_ref on retried reserve")
    | some rid => .ok
      { id := rid, walletID := prior.walletID, tenantID := prior.tenantID, amount, idempotencyKey := key,
        createdAt := prior.occurredAt }

def reserveEntry (w : TokenWallet) (amount : ℤ) (key : String) (now : Time) (rid entryID : UUID) : LedgerEntry where
  id := entryID
  walletID := w.id
  tenantID := w.tenantID
  kind := .reserve
  amount := signedAmount .reserve amount
  idempotencyKey := key
  externalRef := rid.string
  source := none
  masterGrantID := none
  occurredAt := now
  createdAt := now

def reserveAttempt (tenantID : UUID) (amount : ℤ) (key : String) : Client (Attempt (Except Err Reservation)) := do
  match ← Port.loadByTenant tenantID with
  | .error e => return .done (.error e)
  | .ok w =>
    match ← Port.lookupByIdempotencyKey tenantID w.id key with
    | .ok prior => return .done (replayReserve prior amount key)
    | .error e =>
      if ¬ e.is .notFound then return .done (.error e)
      let now ← Port.clock
      match w.reserve amount now with
      | .error e => return .done (.error e)
      | .ok w =>
        let rid ← Port.newUUID
        let entryID ← Port.newUUID
        let r ← Port.applyWithLock w [reserveEntry w amount key now rid entryID]
        return settle r
          { id := rid, walletID := w.id, tenantID := w.tenantID, amount, idempotencyKey := key, createdAt := now }

def reserve (tenantID : UUID) (amount : ℤ) (key : String) : Client (Except Err Reservation) :=
  if tenantID = UUID.Nil then .ret (.error .zeroTenant)
  else if amount ≤ 0 then .ret (.error .invalidAmount)
  else match validateIdempotencyKey key with
    | some e => .ret (.error e)
    | none => retry "wallet/usecase: reserve exhausted retries" (reserveAttempt tenantID amount key) maxAttempts none

/-! ## Commit -/

def defaultBalanceDepletedPolicyScope : String := "tenant:default"

/-- Best effort: the answer of the publisher is only logged. -/
def maybePublishDepleted (w : TokenWallet) (lastCharge : ℤ) (occurredAt : Time) : Client Unit := do
  if w.balance = 0 then
    let _ ← Port.publishBalanceDepleted
      { tenantID := w.tenantID, policyScope := defaultBalanceDepletedPolicyScope, lastChargeTokens := lastCharge,
        occurredAt }

def replayCommit (prior : LedgerEntry) (r : Reservation) (actualAmount : ℤ) : Except Err Unit :=
  if prior.kind ≠ .commit then .error .idempotencyConflict
  else if prior.externalRef ≠ r.id.string then .error .idempotencyConflict
  else if wrap (-prior.amount) ≠ actualAmount then .error .idempotencyConflict
  else .ok ()

def settlementEntry (w : TokenWallet) (kind : LedgerKind) (r : Reservation) (amount : ℤ) (key : String) (now : Time)
    (entryID : UUID) : LedgerEntry where
  id := entryID
  walletID := w.id
  tenantID := w.tenantID
  kind := kind
  amount := signedAmount kind amount
  idempotencyKey := key
  externalRef := r.id.string
  source := none
  masterGrantID := none
  occurredAt := now
  createdAt := now

/-- The head that the passes of `Commit` and `Release` share: load the wallet, answer a key that is already used by
`replay`, and go on with the loaded wallet if no row settles the reservation. -/
def settlingPass (r : Reservation) (key : String) (replay : LedgerEntry → Except Err Unit)
    (k : TokenWallet → Client (Attempt (Except Err Unit))) : Client (Attempt (Except Err Unit)) := do
  match ← Port.loadByTenant r.tenantID with
  | .error e => return .done (.error e)
  | .ok w =>
    if w.id ≠ r.walletID then return .done (.error .notFound)
    match ← Port.lookupByIdempotencyKey r.tenantID w.id key with
    | .ok prior => return .done (replay prior)
    | .error e =>
      if ¬ e.is .notFound then return .done (.error e)
      match ← Port.lookupCompletedByExternalRef r.tenantID w.id r.id.string with
      | .ok _ => return .done (.error .reservationCompleted)
      | .error e =>
        if ¬ e.is .notFound then return .done (.error e)
        k w

def commitAttempt (r : Reservation) (actualAmount : ℤ) (key : String) : Client (Attempt (Except Err Unit)) :=
  settlingPass r key (replayCommit · r actualAmount) fun w => do
    let now ← Port.clock
    match w.commit actualAmount r.amount now with
    | .error e => return if e.is .versionConflict then .again e else .done (.error e)
    | .ok w =>
      let entryID ← Port.newUUID
      match ← Port.applyWithLock w [settlementEntry w .commit r actualAmount key now entryID] with
      | .error e => return settle (.error e) ()
      | .ok () =>
        maybePublishDepleted w actualAmount now
        return .done (.ok ())

def commit (r : Option Reservation) (actualAmount : ℤ) (key : String) : Client (Except Err Unit) :=
  match r with
  | none => .ret (.error (.other "wallet/usecase: reservation is nil"))
  | some r =>
    if actualAmount ≤ 0 then .ret (.error .invalidAmount)
    else if r.amount < actualAmount then .ret (.error .invalidAmount)
    else match validateIdempotencyKey key with
      | some e => .ret (.error e)
      | none => retry "wallet/usecase: commit exhausted retries" (commitAttempt r actualAmount key) maxAttempts none

/-! ## Release -/

def replayRelease (prior : LedgerEntry) (r : Reservation) : Except Err Unit :=
  if prior.kind ≠ .release then .error .idempotencyConflict
  else if prior.externalRef ≠ r.id.string then .error .idempotencyConflict
  else if prior.amount ≠ r.amount then .error .idempotencyConflict
  else .ok ()

def releaseAttempt (r : Reservation) (key : String) : Client (Attempt (Except Err Unit)) :=
  settlingPass r key (replayRelease · r) fun w => do
    let now ← Port.clock
    match w.release r.amount now with
    | .error e => return if e.is .versionConflict then .again e else .done (.error e)
    | .ok w =>
      let entryID ← Port.newUUID
      let ans ← Port.applyWithLock w [settlementEntry w .release r r.amount key now entryID]
      return settle ans ()

def release (r : Option Reservation) (key : String) : Client (Except Err Unit) :=
  match r with
  | none => .ret (.error (.other "wallet/usecase: reservation is nil"))
  | some r =>
    match validateIdempotencyKey key with
    | some e => .ret (.error e)
    | none => retry "wallet/usecase: release exhausted retries" (releaseAttempt r key) maxAttempts none

/-! ## Grant -/

def replayGrant (prior : LedgerEntry) (amount : ℤ) : Except Err Unit :=
  if prior.kind ≠ .grant then .error .idempotencyConflict
  else if prior.amount ≠ amount then .error .idempotencyConflict
  else .ok ()

def grantEntry (w : TokenWallet) (amount : ℤ) (key externalRef : String) (source : Option LedgerSource)
    (masterGrantID : Option UUID) (now : Time) (entryID : UUID) : LedgerEntry where
  id := entryID
  walletID := w.id
  tenantID := w.tenantID
  kind := .grant
  amount := signedAmount .grant amount
  idempotencyKey := key
  externalRef := externalRef
  source := source
  masterGrantID := masterGrantID
  occurredAt := now
  createdAt := now

def grantAttempt (tenantID : UUID) (amount : ℤ) (key externalRef : String) : Client (Attempt (Except Err Unit)) := do
  match ← Port.loadByTenant tenantID with
  | .error e => return .done (.error e)
  | .ok w =>
    match ← Port.lookupByIdempotencyKey tenantID w.id key with
    | .ok prior => return .done (replayGrant prior amount)
    | .error e =>
      if ¬ e.is .notFound then return .done (.error e)
      let now ← Port.clock
      match w.grant amount now with
      | .error e => return .done (.error e)
      | .ok w =>
        let entryID ← Port.newUUID
        let ans ← Port.applyWithLock w [grantEntry w amount key externalRef none none now entryID]
        return settle ans ()

def grant (tenantID : UUID) (amount : ℤ) (key externalRef : String) : Client (Except Err Unit) :=
  if tenantID = UUID.Nil then .ret (.error .zeroTenant)
  else if amount ≤ 0 then .ret (.error .invalidAmount)
  else match validateIdempotencyKey key with
    | some e => .ret (.error e)
    | none => retry "wallet/usecase: grant exhausted retries" (grantAttempt tenantID amount key externalRef)
        maxAttempts none

/-! ## Direct writers -/

/-- `MonthlyAllocatorStore.AllocateMonthlyQuota`; the period is carried by the key. -/
def allocateMonthlyQuota (tenantID : UUID) (_periodStart : Time) (amount : ℤ) (key : String) :
    Client (Except Err Bool) :=
  if tenantID = UUID.Nil then .ret (.error .zeroTenant)
  else if amount ≤ 0 then .ret (.error .invalidAmount)
  else if key = "" then .ret (.error .emptyIdempotencyKey)
  else Port.allocateMonthlyQuota tenantID amount key

/-- `CourtesyStore.Issue`. -/
def issueCourtesy (tenantID actorID : UUID) (amount : ℤ) : Client (Except Err Issued) :=
  if tenantID = UUID.Nil then .ret (.error .zeroTenant)
  else if actorID = UUID.Nil then .ret (.error .postgresZeroActor)
  else if amount ≤ 0 then .ret (.error .invalidAmount)
  else Port.issueCourtesy tenantID actorID amount

end Crm.Wallet
