import Crm.Grant.Issuer

/-!
# Crm.System — calls in flight

`Call` lists the operations callers can start, `body` gives each its program and `system` closes them into an
interleaving semantics over the tables.  The environment of `system` is a parameter; `Honest` is the one of the wallet
results: identifiers drawn by `uuid.New` are fresh, amounts are 64-bit integers, and a reservation handed to `Commit`
or `Release` is one that a `Reserve` has returned.
-/

namespace Crm

open Int64Arith Interleave Crm.Wallet Crm.Grant Crm.Store

inductive Call : Type
  | issueCourtesy (tenantID actorID : UUID) (amount : ℤ)
  | reserve (tenantID : UUID) (amount : ℤ) (key : String)
  | commit (r : Option Reservation) (actualAmount : ℤ) (key : String)
  | release (r : Option Reservation) (key : String)
  | grant (tenantID : UUID) (amount : ℤ) (key externalRef : String)
  | allocateMonthlyQuota (tenantID : UUID) (periodStart : Time) (amount : ℤ) (key : String)
  | applyGrant (grantID : UUID)
  | issueGrant (applier : Bool) (inp : IssueGrantInput)
  | revokeGrant (inp : RevokeGrantInput)
  deriving DecidableEq

abbrev Res : Call → Type
  | .issueCourtesy _ _ _ => Except Err Issued
  | .reserve _ _ _ => Except Err Reservation
  | .commit _ _ _ => Except Err Unit
  | .release _ _ => Except Err Unit
  | .grant _ _ _ _ => Except Err Unit
  | .allocateMonthlyQuota _ _ _ _ => Except Err Bool
  | .applyGrant _ => Except Err Bool
  | .issueGrant _ _ => Except Err GrantRow
  | .revokeGrant _ => Except Err Unit

def body : (c : Call) → Client (Res c)
  | .issueCourtesy t actor a => Wallet.issueCourtesy t actor a
  | .reserve t a k => Wallet.reserve t a k
  | .commit r a k => Wallet.commit r a k
  | .release r k => Wallet.release r k
  | .grant t a k ref => Wallet.grant t a k ref
  | .allocateMonthlyQuota t start a k => Wallet.allocateMonthlyQuota t start a k
  | .applyGrant id => Grant.apply id
  | .issueGrant applier inp => Grant.issueGrant applier inp
  | .revokeGrant inp => Grant.revokeGrant inp

abbrev Ev : Type := Event Req Resp DB Call Res

abbrev W : Type := World Req Resp DB Call Res

abbrev Cfg : Type := Conf Req Resp DB Call Res

def system (allow : W → Ev → Prop) : System Req Resp DB Call Res where
  exec := exec
  body := body
  allow := allow

/-! ## The environment -/

/-- The identifiers drawn so far, with the calls that drew them. -/
def minted (i : ℕ) (u : UUID) (w : W) : Prop := ∃ pre post, .act i .newUUID u pre post ∈ w.hist

/-- Reservation `r` was returned by a `Reserve` for tenant `t`, amount `a` and key `k`. -/
def Returned (t : UUID) (a : ℤ) (k : String) (r : Reservation) (w : W) : Prop :=
  ∃ i, .respond i (.reserve t a k) (.ok r) ∈ w.hist

def Call.Int64Args : Call → Prop
  | .issueCourtesy _ _ a => InRange a
  | .reserve _ a _ => InRange a
  | .commit _ a _ => InRange a
  | .grant _ a _ _ => InRange a
  | .allocateMonthlyQuota _ _ a _ => InRange a
  | .issueGrant _ inp => InRange inp.amount ∧ InRange inp.periodDays
  | _ => True

/-- The reservation of a settling call was returned by a `Reserve`. -/
def Call.Settles (w : W) : Call → Prop
  | .commit (some r) _ _ => ∃ t a k, Returned t a k r w
  | .release (some r) _ => ∃ t a k, Returned t a k r w
  | _ => True

/-- What callers and the random source promise. -/
def Honest (w : W) : Ev → Prop
  | .invoke _ c => c.Int64Args ∧ c.Settles w
  | .act _ .newUUID u _ _ => ∀ i, ¬ minted i u w
  | _ => True

/-- The tables before any wallet exists; grants and subscriptions are arbitrary. -/
structure Initial (db : DB) : Prop where
  wallets : db.wallets = []
  ledger : db.ledger = []
  courtesy : db.courtesy = []
  grantIDs : (db.grants.map MasterGrantRow.id).Nodup

end Crm
