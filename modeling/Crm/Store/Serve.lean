import Crm.Store.Interface

/-!
# Crm.Store.Serve — the store without failures

`serve` answers every request by its own transaction: nothing fails on the way, the process clock and the database's stand at
`now`, and the identifiers drawn are `u` and `ulid`.  `exec_serve` says that the store of `Crm.Store.Interface` may
answer so; `Prog.eval serve` then runs a call alone.
-/

namespace Crm.Store

open Interleave Crm.Wallet Crm.Grant
open Crm.Billing (Subscription SubscriptionStatus)

/-- The answer and the tables after a transaction that computes `f` in `s`. -/
def outcome {α : Type} (s : DB) : Except Err (α × DB) → Except Err α × DB
  | .ok (a, s') => (.ok a, s')
  | .error e => (.error e, s)

theorem tx_outcome {α : Type} (s : DB) (f : Except Err (α × DB)) : Tx Err.fault s f (outcome s f).1 (outcome s f).2 := by
  cases f with
  | error e => exact .refused rfl
  | ok x => exact .done rfl

def serve (now : Time) (u : UUID) (ulid : String) : (q : Req) → DB → Resp q × DB
  | .loadByTenant t, s => (s.loadByTenant t, s)
  | .lookupByIdempotencyKey t w k, s => (s.lookupByIdempotencyKey t w k, s)
  | .lookupCompletedByExternalRef t w ref, s => (s.lookupCompletedByExternalRef t w ref, s)
  | .applyWithLock w entries, s => outcome s (s.applyWithLock w entries now)
  | .allocateMonthlyQuota t a k, s => outcome s (s.allocateMonthlyQuota t a k u now now)
  | .issueCourtesy t actor a, s => outcome s (s.issueCourtesy t actor a u u u now now)
  | .getGrantByID id, s => (s.getGrantByID id, s)
  | .listGrantsByTenant t, s => (s.listGrantsByTenant t, s)
  | .createGrant g, s => outcome s (s.createGrant g)
  | .consumeGrant id ref t, s => outcome s (s.consumeGrant id ref t)
  | .revokeGrant id by' reason t, s => outcome s (s.revokeGrant id by' reason t)
  | .getSubscription t, s => (s.getSubscription t, s)
  | .saveSubscription sub, s => outcome s (s.saveSubscription sub)
  | .newUUID, s => (u, s)
  | .newULID, s => (ulid, s)
  | .clock, s => (now, s)
  | .publishBalanceDepleted _, s => (.ok (), s)

theorem exec_serve {now : Time} {u : UUID} {ulid : String} (hu : u ≠ UUID.Nil) (q : Req) (s : DB) :
    exec q s (serve now u ulid q s).1 (serve now u ulid q s).2 := by
  cases q with
  | applyWithLock w es => exact ⟨now, tx_outcome _ _⟩
  | allocateMonthlyQuota t a k => exact ⟨u, now, now, tx_outcome _ _⟩
  | issueCourtesy t actor a => exact ⟨u, u, u, now, now, hu, tx_outcome _ _⟩
  | createGrant g => exact tx_outcome _ _
  | consumeGrant id ref t => exact tx_outcome _ _
  | revokeGrant id by' reason t => exact tx_outcome _ _
  | saveSubscription sub => exact tx_outcome _ _
  | newUUID => rfl
  | newULID => rfl
  | clock => rfl
  | publishBalanceDepleted evt => rfl
  | _ => exact ⟨rfl, .inl rfl⟩

end Crm.Store
