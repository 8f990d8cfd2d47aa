import Crm.Wallet.Domain
import Crm.Grant.Domain
import Crm.Billing.Subscription

/-!
# Crm.Store.Schema — the tables and what each statement sequence does to them

`DB` holds the rows of `token_wallet`, `token_ledger` (the wallet-aware ones), `courtesy_grant`, `master_grant` and
`subscription`, oldest first.  Every transaction of the adapters is one function `DB → Except Err (α × DB)`: the
statements it runs, with the constraints they meet (primary keys, unique indexes, `CHECK`s, row-level security) and
the error the adapter makes of a violation.  What the database supplies itself (`now()`, `gen_random_uuid()`) is an
argument.  `Crm.Store.Interface` says how clients see these functions.
-/

namespace Crm.Store

open Int64Arith Crm.Wallet Crm.Grant
open Crm.Billing (Subscription SubscriptionStatus)

structure LedgerRow where
  id : UUID
  walletID : UUID
  tenantID : UUID
  kind : LedgerKind
  amount : ℤ
  idempotencyKey : String
  externalRef : Option String
  source : LedgerSource
  masterGrantID : Option UUID
  occurredAt : Time
  createdAt : Time
  deriving DecidableEq, Repr

structure CourtesyGrant where
  id : UUID
  tenantID : UUID
  amount : ℤ
  grantedByUserID : UUID
  deriving DecidableEq, Repr

structure MasterGrantRow where
  id : UUID
  externalID : String
  tenantID : UUID
  kind : MasterGrantKind
  payload : JsonObject
  reason : String
  createdByUserID : UUID
  createdAt : Time
  consumedAt : Option Time
  consumedRef : Option String
  revokedAt : Option Time
  revokedByUserID : Option UUID
  revokeReason : Option String
  deriving DecidableEq

structure DB where
  wallets : List TokenWallet
  ledger : List LedgerRow
  courtesy : List CourtesyGrant
  grants : List MasterGrantRow
  subs : List Subscription
  deriving DecidableEq

structure Issued where
  granted : Bool
  grantID : UUID
  walletID : UUID
  deriving DecidableEq, Repr

/-! ## token_wallet and token_ledger -/

def nullIfEmpty (s : String) : Option String := if s = "" then none else some s

/-- The row an entry is stored as.  Without a source the shorter insert runs and the columns take their defaults. -/
def LedgerRow.ofEntry (e : LedgerEntry) : LedgerRow where
  id := e.id
  walletID := e.walletID
  tenantID := e.tenantID
  kind := e.kind
  amount := e.amount
  idempotencyKey := e.idempotencyKey
  externalRef := nullIfEmpty e.externalRef
  source := e.source.getD .consumption
  masterGrantID := if e.source.isSome then e.masterGrantID else none
  occurredAt := timestamptz e.occurredAt
  createdAt := timestamptz e.createdAt

/-- The entry read back from a row; source and grant are not selected. -/
def LedgerRow.decode (r : LedgerRow) : LedgerEntry where
  id := r.id
  walletID := r.walletID
  tenantID := r.tenantID
  kind := r.kind
  amount := r.amount
  idempotencyKey := r.idempotencyKey
  externalRef := r.externalRef.getD ""
  source := none
  masterGrantID := none
  occurredAt := r.occurredAt
  createdAt := r.createdAt

/-- A commit or release row under the reservation reference `ref`. -/
def LedgerRow.settles (ref : String) (r : LedgerRow) : Bool :=
  r.externalRef = some ref ∧ (r.kind = .commit ∨ r.kind = .release)

namespace DB

def rows (db : DB) (walletID : UUID) : List LedgerRow := db.ledger.filter fun r => r.walletID = walletID

def loadByTenant (tenantID : UUID) (db : DB) : Except Err TokenWallet :=
  if tenantID = UUID.Nil then .error .zeroTenant
  else match db.wallets.find? fun w => w.tenantID = tenantID with
    | some w => .ok w
    | none => .error .notFound

/-- The unique row with this key on the wallet; row-level security hides other tenants' rows. -/
def lookupByIdempotencyKey (tenantID walletID : UUID) (key : String) (db : DB) : Except Err LedgerEntry :=
  if tenantID = UUID.Nil ∨ walletID = UUID.Nil ∨ key = "" then .error .notFound
  else match db.ledger.find? fun r => r.tenantID = tenantID ∧ r.walletID = walletID ∧ r.idempotencyKey = key with
    | some r => .ok r.decode
    | none => .error .notFound

/-- A row that settled the reservation. -/
def lookupCompletedByExternalRef (tenantID walletID : UUID) (ref : String) (db : DB) : Except Err LedgerEntry :=
  if tenantID = UUID.Nil ∨ walletID = UUID.Nil ∨ ref = "" then .error .notFound
  else match db.ledger.find? fun r => r.tenantID = tenantID ∧ r.walletID = walletID ∧ r.settles ref with
    | some r => .ok r.decode
    | none => .error .notFound

/-- The `UNIQUE (wallet_id, idempotency_key)` index has an entry. -/
def keyUsed (db : DB) (walletID : UUID) (key : String) : Bool :=
  db.ledger.any fun r => r.walletID = walletID ∧ r.idempotencyKey = key

/-- One insert of `ApplyWithLock`, in the tenant scope `tenantID`. -/
def insertLedger (tenantID : UUID) (row : LedgerRow) (db : DB) : Except Err DB :=
  if row.tenantID ≠ tenantID ∨ (row.source = .masterGrant ∧ row.masterGrantID = none) ∨
      (row.source ≠ .masterGrant ∧ row.masterGrantID ≠ none) then .error (.other "wallet/postgres: insert ledger")
  else if (db.ledger.any fun r => r.id = row.id) ∨ db.keyUsed row.walletID row.idempotencyKey then
    .error .idempotencyConflict
  else .ok { db with ledger := db.ledger ++ [row] }

/-- The update of one wallet row; the trigger stamps `updated_at`. -/
def updateWallet (w : TokenWallet) (dbNow : Time) (db : DB) : DB :=
  { db with wallets := db.wallets.map fun r =>
      if r.id = w.id then
        { r with balance := w.balance, reserved := w.reserved, version := w.version, updatedAt := timestamptz dbNow }
      else r }

def applyWithLock (w : TokenWallet) (entries : List LedgerEntry) (dbNow : Time) (db : DB) : Except Err (Unit × DB) :=
  if w.tenantID = UUID.Nil then .error (.other "postgres: tenantID must not be uuid.Nil")
  else match db.wallets.find? fun r => r.id = w.id ∧ r.tenantID = w.tenantID with
    | none => .error .notFound
    | some persisted =>
      if persisted.version ≠ wrap (w.version - 1) then .error .versionConflict
      else
        match entries.foldlM (fun db e => db.insertLedger w.tenantID (.ofEntry e)) db with
        | .error e => .error e
        | .ok db' =>
          -- CHECK (balance >= 0), CHECK (reserved >= 0)
          if w.balance < 0 ∨ w.reserved < 0 then .error (.other "wallet/postgres: update wallet")
          else .ok ((), db'.updateWallet w dbNow)

/-- The transaction of `AllocateMonthlyQuota`; `ledgerID` is the minted row id. -/
def allocateMonthlyQuota (tenantID : UUID) (amount : ℤ) (key : String) (ledgerID : UUID) (now dbNow : Time) (db : DB) :
    Except Err (Bool × DB) :=
  match db.wallets.find? fun w => w.tenantID = tenantID with
  | none => .error .notFound
  | some w =>
    -- ON CONFLICT (wallet_id, idempotency_key) DO NOTHING
    if db.keyUsed w.id key then .ok (false, db)
    else if db.ledger.any fun r => r.id = ledgerID then
      .error (.other "wallet/postgres: insert monthly_alloc ledger")
    -- bigint out of range
    else if maxInt64 < w.balance + amount ∨ maxInt64 < w.version + 1 then
      .error (.other "wallet/postgres: update wallet balance for monthly alloc")
    else
      let row : LedgerRow :=
        { id := ledgerID, walletID := w.id, tenantID, kind := .grant, amount := signedAmount .grant amount,
          idempotencyKey := key, externalRef := none, source := .monthlyAlloc, masterGrantID := none,
          occurredAt := timestamptz now, createdAt := timestamptz now }
      .ok (true, { db with ledger := db.ledger ++ [row] }.updateWallet
        { w with balance := w.balance + amount, version := w.version + 1 } dbNow)

def courtesyIdempotencyKey (tenantID : UUID) : String := "courtesy:" ++ tenantID.string

/-- The transaction of `CourtesyStore.Issue`; the identifiers are those the database and the process draw. -/
def issueCourtesy (tenantID actorID : UUID) (amount : ℤ) (grantID walletID ledgerID : UUID) (now dbNow : Time)
    (db : DB) : Except Err (Issued × DB) :=
  match db.courtesy.find? fun g => g.tenantID = tenantID with
  | some g =>
    match db.wallets.find? fun w => w.tenantID = tenantID with
    | some w => .ok (⟨false, g.id, w.id⟩, db)
    | none => .error (.other "wallet/postgres: load existing courtesy grant")
  | none =>
    if amount ≤ 0 ∨ db.courtesy.any fun g => g.id = grantID then
      .error (.other "wallet/postgres: insert courtesy grant")
    else if db.wallets.any fun w => w.id = walletID ∨ w.tenantID = tenantID then
      .error (.other "wallet/postgres: insert wallet")
    else if (db.ledger.any fun r => r.id = ledgerID) ∨ db.keyUsed walletID (courtesyIdempotencyKey tenantID) then
      .error (.other "wallet/postgres: insert ledger grant")
    else
      let row : LedgerRow :=
        { id := ledgerID, walletID, tenantID, kind := .grant, amount := signedAmount .grant amount,
          idempotencyKey := courtesyIdempotencyKey tenantID, externalRef := some grantID.string,
          source := .consumption, masterGrantID := none,
          occurredAt := timestamptz now, createdAt := timestamptz now }
      .ok (⟨true, grantID, walletID⟩,
        { db with
          courtesy := db.courtesy ++ [⟨grantID, tenantID, amount, actorID⟩]
          wallets := db.wallets ++ [{ id := walletID, tenantID, balance := amount, reserved := 0, version := 1,
                                      createdAt := timestamptz dbNow, updatedAt := timestamptz dbNow }]
          ledger := db.ledger ++ [row] })

end DB

/-! ## master_grant -/

/-- The aggregate of a row; it fails when the payload does not decode. -/
def MasterGrantRow.decode (r : MasterGrantRow) : Except Err MasterGrant :=
  match unmarshal r.payload with
  | none => .error (.other "wallet/postgres: unmarshal master_grant payload")
  | some payload => .ok
    { id := r.id, externalID := r.externalID, tenantID := r.tenantID, kind := r.kind, payload, reason := r.reason,
      createdByUserID := r.createdByUserID, createdAt := r.createdAt, consumedAt := r.consumedAt,
      consumedRef := r.consumedRef.getD "", revokedAt := r.revokedAt, revokedByUserID := r.revokedByUserID,
      revokeReason := r.revokeReason.getD "" }

namespace DB

def findGrant (id : UUID) (db : DB) : Option MasterGrantRow := db.grants.find? fun g => g.id = id

def getGrantByID (id : UUID) (db : DB) : Except Err MasterGrant :=
  match db.findGrant id with
  | none => .error .notFound
  | some r => r.decode

def listGrantsByTenant (tenantID : UUID) (db : DB) : Except Err (List MasterGrant) :=
  ((db.grants.filter fun g => g.tenantID = tenantID).mergeSort
    fun a b => decide (b.createdAt ≤ a.createdAt)).mapM MasterGrantRow.decode

def createGrant (g : MasterGrant) (db : DB) : Except Err (Unit × DB) :=
  if (g.kind ≠ .freeSubscriptionPeriod ∧ g.kind ≠ .extraTokens) ∨ g.reason.length < 10 then
    .error (.other "wallet/postgres: insert master_grant")
  else if db.grants.any fun r => r.id = g.id ∨ r.externalID = g.externalID then .error .idempotencyConflict
  else
    let row : MasterGrantRow :=
      { id := g.id, externalID := g.externalID, tenantID := g.tenantID, kind := g.kind, payload := marshal g.payload,
        reason := g.reason, createdByUserID := g.createdByUserID, createdAt := timestamptz g.createdAt,
        consumedAt := none, consumedRef := none, revokedAt := none, revokedByUserID := none, revokeReason := none }
    .ok ((), { db with grants := db.grants ++ [row] })

def updateGrant (id : UUID) (f : MasterGrantRow → MasterGrantRow) (db : DB) : DB :=
  { db with grants := db.grants.map fun r => if r.id = id then f r else r }

def consumeGrant (id : UUID) (ref : String) (now : Time) (db : DB) : Except Err (Unit × DB) := do
  let g ← db.getGrantByID id
  let _ ← g.consume ref now
  .ok ((), db.updateGrant id fun r => { r with consumedAt := some (timestamptz now), consumedRef := some ref })

def revokeGrant (id revokedByUserID : UUID) (reason : String) (now : Time) (db : DB) : Except Err (Unit × DB) := do
  let g ← db.getGrantByID id
  let _ ← g.revoke revokedByUserID reason now
  -- CHECK (char_length(revoke_reason) >= 10)
  if reason.length < 10 then .error (.other "wallet/postgres: update master_grant revoke")
  else .ok ((), db.updateGrant id fun r =>
    { r with revokedAt := some (timestamptz now), revokedByUserID := some revokedByUserID, revokeReason := some reason })

/-! ## subscription -/

def getSubscription (tenantID : UUID) (db : DB) : Except Err Subscription :=
  if tenantID = UUID.Nil then .error .billingZeroTenant
  else match db.subs.find? fun s => s.tenantID = tenantID ∧ s.status = .active with
    | some s => .ok s
    | none => .error .billingNotFound

/-- The columns an upsert of `sub` writes over the row with its id. -/
def overwriteSubscription (sub r : Subscription) : Subscription :=
  { r with status := sub.status, planID := sub.planID, currentPeriodStart := timestamptz sub.currentPeriodStart,
           currentPeriodEnd := timestamptz sub.currentPeriodEnd, updatedAt := timestamptz sub.updatedAt }

/-- `SaveSubscription`: an upsert by id under one active subscription per tenant. -/
def saveSubscription (sub : Subscription) (db : DB) : Except Err (Unit × DB) :=
  if timestamptz sub.currentPeriodEnd ≤ timestamptz sub.currentPeriodStart then
    .error (.other "billing/postgres: save subscription")
  else if sub.status = .active ∧
      db.subs.any fun r => r.id ≠ sub.id ∧ r.tenantID = sub.tenantID ∧ r.status = .active then
    .error .billingInvalidTransition
  else if db.subs.any fun r => r.id = sub.id then
    .ok ((), { db with subs := db.subs.map fun r => if r.id = sub.id then overwriteSubscription sub r else r })
  else
    .ok ((), { db with subs := db.subs ++
      [overwriteSubscription sub { sub with createdAt := timestamptz sub.createdAt }] })

end DB

end Crm.Store
