import Crm.Lib.Interleave
import Crm.Store.Schema

/-!
# Crm.Store.Interface — the requests a call can make

A `Req` is one call of a port: a read, a transaction, the process clock, the random source or the publisher.  `exec` says
what it may answer.  Reads and transactions go over a connection that can fail: a failure before the commit changes nothing, one
after it leaves the effect without an answer (`Interleave.Tx`).  Violations of constraints on tables that are not modelled
(foreign keys to tenants, users and plans) are failures before the commit.
-/

namespace Crm.Store

open Interleave Crm.Wallet Crm.Grant
open Crm.Billing (Subscription SubscriptionStatus)

structure BalanceDepletedEvent where
  tenantID : UUID
  policyScope : String
  lastChargeTokens : ℤ
  occurredAt : Time
  deriving DecidableEq, Repr

inductive Req : Type
  | loadByTenant (tenantID : UUID)
  | lookupByIdempotencyKey (tenantID walletID : UUID) (key : String)
  | lookupCompletedByExternalRef (tenantID walletID : UUID) (ref : String)
  | applyWithLock (w : TokenWallet) (entries : List LedgerEntry)
  | allocateMonthlyQuota (tenantID : UUID) (amount : ℤ) (key : String)
  | issueCourtesy (tenantID actorID : UUID) (amount : ℤ)
  | getGrantByID (id : UUID)
  | listGrantsByTenant (tenantID : UUID)
  | createGrant (g : MasterGrant)
  | consumeGrant (id : UUID) (ref : String) (now : Time)
  | revokeGrant (id revokedByUserID : UUID) (reason : String) (now : Time)
  | getSubscription (tenantID : UUID)
  | saveSubscription (sub : Subscription)
  | newUUID
  | newULID
  | clock
  | publishBalanceDepleted (evt : BalanceDepletedEvent)

abbrev Resp : Req → Type
  | .loadByTenant _ => Except Err TokenWallet
  | .lookupByIdempotencyKey _ _ _ => Except Err LedgerEntry
  | .lookupCompletedByExternalRef _ _ _ => Except Err LedgerEntry
  | .applyWithLock _ _ => Except Err Unit
  | .allocateMonthlyQuota _ _ _ => Except Err Bool
  | .issueCourtesy _ _ _ => Except Err Issued
  | .getGrantByID _ => Except Err MasterGrant
  | .listGrantsByTenant _ => Except Err (List MasterGrant)
  | .createGrant _ => Except Err Unit
  | .consumeGrant _ _ _ => Except Err Unit
  | .revokeGrant _ _ _ _ => Except Err Unit
  | .getSubscription _ => Except Err Subscription
  | .saveSubscription _ => Except Err Unit
  | .newUUID => UUID
  | .newULID => String
  | .clock => Time
  | .publishBalanceDepleted _ => Except Err Unit

/-- Request `q`, taken in store `s`, may answer `r` and leave `s'`. -/
def exec : (q : Req) → DB → Resp q → DB → Prop
  | .loadByTenant t, s, r, s' => Read Err.fault s (s.loadByTenant t) r s'
  | .lookupByIdempotencyKey t w k, s, r, s' => Read Err.fault s (s.lookupByIdempotencyKey t w k) r s'
  | .lookupCompletedByExternalRef t w ref, s, r, s' => Read Err.fault s (s.lookupCompletedByExternalRef t w ref) r s'
  | .applyWithLock w entries, s, r, s' => ∃ dbNow, Tx Err.fault s (s.applyWithLock w entries dbNow) r s'
  | .allocateMonthlyQuota t a k, s, r, s' =>
    ∃ ledgerID now dbNow, Tx Err.fault s (s.allocateMonthlyQuota t a k ledgerID now dbNow) r s'
  -- a drawn identifier is never the nil one
  | .issueCourtesy t actor a, s, r, s' => ∃ grantID walletID ledgerID now dbNow, walletID ≠ UUID.Nil ∧
      Tx Err.fault s (s.issueCourtesy t actor a grantID walletID ledgerID now dbNow) r s'
  | .getGrantByID id, s, r, s' => Read Err.fault s (s.getGrantByID id) r s'
  | .listGrantsByTenant t, s, r, s' => Read Err.fault s (s.listGrantsByTenant t) r s'
  | .createGrant g, s, r, s' => Tx Err.fault s (s.createGrant g) r s'
  | .consumeGrant id ref now, s, r, s' => Tx Err.fault s (s.consumeGrant id ref now) r s'
  | .revokeGrant id by' reason now, s, r, s' => Tx Err.fault s (s.revokeGrant id by' reason now) r s'
  | .getSubscription t, s, r, s' => Read Err.fault s (s.getSubscription t) r s'
  | .saveSubscription sub, s, r, s' => Tx Err.fault s (s.saveSubscription sub) r s'
  | .newUUID, s, _, s' => s' = s
  | .newULID, s, _, s' => s' = s
  | .clock, s, _, s' => s' = s
  | .publishBalanceDepleted _, s, _, s' => s' = s

abbrev Client (α : Type) : Type := Prog Req Resp α

/-! ## The ports, one request each -/

namespace Port

abbrev loadByTenant (tenantID : UUID) : Client (Except Err TokenWallet) := .send (Req.loadByTenant tenantID)

abbrev lookupByIdempotencyKey (tenantID walletID : UUID) (key : String) : Client (Except Err LedgerEntry) :=
  .send (Req.lookupByIdempotencyKey tenantID walletID key)

abbrev lookupCompletedByExternalRef (tenantID walletID : UUID) (ref : String) : Client (Except Err LedgerEntry) :=
  .send (Req.lookupCompletedByExternalRef tenantID walletID ref)

abbrev applyWithLock (w : TokenWallet) (entries : List LedgerEntry) : Client (Except Err Unit) :=
  .send (Req.applyWithLock w entries)

abbrev allocateMonthlyQuota (tenantID : UUID) (amount : ℤ) (key : String) : Client (Except Err Bool) :=
  .send (Req.allocateMonthlyQuota tenantID amount key)

abbrev issueCourtesy (tenantID actorID : UUID) (amount : ℤ) : Client (Except Err Issued) :=
  .send (Req.issueCourtesy tenantID actorID amount)

abbrev getGrantByID (id : UUID) : Client (Except Err MasterGrant) := .send (Req.getGrantByID id)

abbrev listGrantsByTenant (tenantID : UUID) : Client (Except Err (List MasterGrant)) :=
  .send (Req.listGrantsByTenant tenantID)

abbrev createGrant (g : MasterGrant) : Client (Except Err Unit) := .send (Req.createGrant g)

abbrev consumeGrant (id : UUID) (ref : String) (now : Time) : Client (Except Err Unit) :=
  .send (Req.consumeGrant id ref now)

abbrev revokeGrant (id revokedByUserID : UUID) (reason : String) (now : Time) : Client (Except Err Unit) :=
  .send (Req.revokeGrant id revokedByUserID reason now)

abbrev getSubscription (tenantID : UUID) : Client (Except Err Subscription) := .send (Req.getSubscription tenantID)

abbrev saveSubscription (sub : Subscription) : Client (Except Err Unit) := .send (Req.saveSubscription sub)

abbrev newUUID : Client UUID := .send Req.newUUID

abbrev newULID : Client String := .send Req.newULID

abbrev clock : Client Time := .send Req.clock

abbrev publishBalanceDepleted (evt : BalanceDepletedEvent) : Client (Except Err Unit) :=
  .send (Req.publishBalanceDepleted evt)

end Port

end Crm.Store
