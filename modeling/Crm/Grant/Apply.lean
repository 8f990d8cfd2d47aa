import Crm.Wallet.Usecase

/-!
# Crm.Grant.Apply — the applier of master grants

`ApplyMasterGrantService` of `internal/wallet/usecase/apply_master_grant.go`.  `apply` reads the grant, performs the
side effect of its kind and marks it consumed; each of these steps is a transaction of its own.
-/

namespace Crm.Grant

open Int64Arith Crm.Wallet Crm.Store

def hour : ℤ := 3600000000000

/-- `time.Duration(days) * 24 * time.Hour`. -/
def daysDuration (days : ℤ) : ℤ := wrap (wrap (days * 24) * hour)

/-- Extend the active subscription; the result is the subscription's id. -/
def applyFreePeriod (g : MasterGrant) (now : Time) : Client (Except Err String) := do
  let days := readInt64Payload g.payload "period_days"
  if days ≤ 0 then return .error (.wrap "period_days must be a positive integer" .invalidGrantPayload)
  match ← Port.getGrantByID g.id with
  | .error e => return .error (.wrap "wallet/usecase: refresh master grant" e)
  | .ok fresh =>
    if fresh.isConsumed then return .error .grantAlreadyConsumed
    if fresh.isRevoked then return .error .grantAlreadyRevoked
    match ← Port.getSubscription g.tenantID with
    | .error e => return .error (.wrap "wallet/usecase: load active subscription" e)
    | .ok sub =>
      match sub.extendPeriod (daysDuration days) now with
      | .error e => return .error (.wrap "wallet/usecase: extend subscription period" e)
      | .ok sub =>
        match ← Port.saveSubscription sub with
        | .error e => return .error (.wrap "wallet/usecase: persist subscription extension" e)
        | .ok () => return .ok sub.id.string

def idempotencyKeyForGrant (externalID : String) : String := "master_grant:" ++ externalID

/-- Credit the wallet; the result is the id of the ledger line. -/
def applyExtraTokens (g : MasterGrant) (now : Time) : Client (Except Err String) := do
  let amount := readInt64Payload g.payload "amount"
  if amount ≤ 0 then return .error (.wrap "amount must be a positive integer" .invalidGrantPayload)
  match ← Port.loadByTenant g.tenantID with
  | .error e => return .error (.wrap "wallet/usecase: load wallet for grant apply" e)
  | .ok w =>
    match w.grant amount now with
    | .error e => return .error (.wrap "wallet/usecase: grant amount" e)
    | .ok w =>
      let entryID ← Port.newUUID
      let entry := grantEntry w amount (idempotencyKeyForGrant g.externalID) g.externalID (some .masterGrant) (some g.id)
        now entryID
      match ← Port.applyWithLock w [entry] with
      | .error e => return .error (.wrap "wallet/usecase: apply ledger entry" e)
      | .ok () => return .ok entryID.string

def sideEffect (g : MasterGrant) (now : Time) : Client (Except Err String) :=
  match g.kind with
  | .freeSubscriptionPeriod => applyFreePeriod g now
  | .extraTokens => applyExtraTokens g now
  | .unknown text => .ret (.error (.other ("wallet/usecase: unknown master grant kind " ++ text.quote)))

def apply (grantID : UUID) : Client (Except Err Bool) := do
  if grantID = UUID.Nil then return .error .notFound
  match ← Port.getGrantByID grantID with
  | .error e => return .error e
  | .ok g =>
    if g.isConsumed ∨ g.isRevoked then return .ok false
    let now ← Port.clock
    match ← sideEffect g now with
    | .error e => return .error e
    | .ok ref =>
      match ← Port.consumeGrant grantID ref now with
      | .error e => return .error (.wrap "wallet/usecase: mark grant consumed" e)
      | .ok () => return .ok true

end Crm.Grant
