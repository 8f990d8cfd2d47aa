import Crm.Store.Interface
import Crm.Store.Spec

/-!
# Crm.Store.Frame — the tables a request leaves alone

Only `SaveSubscription` writes `subscription`, only `Create`, `Consume` and `Revoke` write `master_grant`, and the wallet
transactions are the only ones that write `token_ledger`.
-/

namespace Crm.Store

open Interleave Crm.Wallet Crm.Grant List
open Crm.Billing (Subscription SubscriptionStatus)

namespace Req

def writesSubs : Req → Bool
  | .saveSubscription _ => true
  | _ => false

def writesGrants : Req → Bool
  | .createGrant _ => true
  | .consumeGrant _ _ _ => true
  | .revokeGrant _ _ _ _ => true
  | _ => false

def writesLedger : Req → Bool
  | .applyWithLock _ _ => true
  | .allocateMonthlyQuota _ _ _ => true
  | .issueCourtesy _ _ _ => true
  | _ => false

end Req

namespace DB

variable {db db' : DB}
variable {t : UUID} {now : Time}

theorem insertLedgers_frame : ∀ {entries : List LedgerEntry} {db : DB},
    entries.foldlM (fun db e => db.insertLedger t (.ofEntry e)) db = .ok db' →
    db' = { db with ledger := db.ledger ++ entries.map .ofEntry }
  | [], db, h => by
    cases h
    simp
  | e :: entries, db, h => by
    rw [foldlM_cons] at h
    obtain ⟨db₁, h1, h2⟩ := bind_eq_ok h
    obtain ⟨-, -, rfl⟩ := insertLedger_ok h1
    rw [insertLedgers_frame h2]
    simp

theorem applyWithLock_frame {w : TokenWallet} {entries : List LedgerEntry} {u : Unit} (h : db.applyWithLock w entries now = .ok (u, db')) :
    db'.ledger = db.ledger ++ entries.map .ofEntry ∧ db'.grants = db.grants ∧ db'.subs = db.subs := by
  unfold applyWithLock at h
  split at h
  · cases h
  split at h
  · cases h
  split at h
  · cases h
  split at h
  · cases h
  rename_i db₁ hins
  split_ifs at h
  cases h
  rw [insertLedgers_frame hins]
  exact ⟨rfl, rfl, rfl⟩

theorem allocateMonthlyQuota_frame {a : ℤ} {k : String} {ledgerID : UUID} {dbNow : Time} {b : Bool}
    (h : db.allocateMonthlyQuota t a k ledgerID now dbNow = .ok (b, db')) : db'.grants = db.grants ∧ db'.subs = db.subs := by
  unfold allocateMonthlyQuota at h
  split at h
  · cases h
  · split_ifs at h <;> cases h <;> exact ⟨rfl, rfl⟩

theorem issueCourtesy_frame {actor : UUID} {a : ℤ} {grantID walletID ledgerID : UUID} {dbNow : Time} {out : Issued}
    (h : db.issueCourtesy t actor a grantID walletID ledgerID now dbNow = .ok (out, db')) : db'.grants = db.grants ∧ db'.subs = db.subs := by
  unfold issueCourtesy at h
  split at h
  · split at h
    · cases h
      exact ⟨rfl, rfl⟩
    · cases h
  · split_ifs at h
    cases h
    exact ⟨rfl, rfl⟩

end DB

section Exec

variable {q : Req} {s s' : DB} {r : Resp q}

/-- **What a request writes**: nothing; the ledger with its wallets and courtesies; the grants; or the subscriptions. -/
theorem exec_writes (he : exec q s r s') : s' = s ∨ (q.writesLedger = true ∧ s'.grants = s.grants ∧ s'.subs = s.subs) ∨
    Regranted s s' ∧ (q.writesGrants = true ∧ s'.subs = s.subs ∨ q.writesSubs = true ∧ s'.grants = s.grants) := by
  cases q with
  | applyWithLock w es => exact he.choose_spec.store_cases.imp_right fun ⟨_, h⟩ => .inl ⟨rfl, (DB.applyWithLock_frame h).2⟩
  | allocateMonthlyQuota t a k =>
    obtain ⟨_, _, _, he⟩ := he
    exact he.store_cases.imp_right fun ⟨_, h⟩ => .inl ⟨rfl, DB.allocateMonthlyQuota_frame h⟩
  | issueCourtesy t actor a =>
    obtain ⟨_, _, _, _, _, _, he⟩ := he
    exact he.store_cases.imp_right fun ⟨_, h⟩ => .inl ⟨rfl, DB.issueCourtesy_frame h⟩
  | createGrant g =>
    refine (Tx.store_cases he).imp_right fun ⟨_, h⟩ => .inr ⟨DB.createGrant_regranted h, .inl ⟨rfl, ?_⟩⟩
    obtain ⟨_, -, -, -, -, -, -, -, -, -, rfl⟩ := DB.createGrant_ok h
    rfl
  | consumeGrant id ref now =>
    refine (Tx.store_cases he).imp_right fun ⟨_, h⟩ => .inr ⟨DB.consumeGrant_regranted h, .inl ⟨rfl, ?_⟩⟩
    obtain ⟨_, -, -, -, rfl⟩ := DB.consumeGrant_ok h
    rfl
  | revokeGrant id u reason now =>
    refine (Tx.store_cases he).imp_right fun ⟨_, h⟩ => .inr ⟨DB.revokeGrant_regranted h, .inl ⟨rfl, ?_⟩⟩
    obtain ⟨_, -, -, -, rfl⟩ := DB.revokeGrant_ok h
    rfl
  | saveSubscription sub =>
    refine (Tx.store_cases he).imp_right fun ⟨_, h⟩ => .inr ⟨DB.saveSubscription_regranted h, .inr ⟨rfl, ?_⟩⟩
    obtain ⟨_, rfl, -⟩ := DB.saveSubscription_ok h
    rfl
  | newUUID | newULID | clock | publishBalanceDepleted evt => exact .inl he
  | _ => exact .inl he.1

theorem exec_subs (he : exec q s r s') (hq : q.writesSubs = false) : s'.subs = s.subs := by
  rcases exec_writes he with rfl | ⟨-, -, h⟩ | ⟨-, ⟨-, h⟩ | ⟨h, -⟩⟩
  · rfl
  · exact h
  · exact h
  · simp [hq] at h

theorem exec_grants (he : exec q s r s') (hq : q.writesGrants = false) : s'.grants = s.grants := by
  rcases exec_writes he with rfl | ⟨-, h, -⟩ | ⟨-, ⟨h, -⟩ | ⟨-, h⟩⟩
  · rfl
  · exact h
  · simp [hq] at h
  · exact h

theorem exec_regranted (he : exec q s r s') (hq : q.writesLedger = false) : Regranted s s' := by
  rcases exec_writes he with rfl | ⟨h, -⟩ | ⟨h, -⟩
  · exact .refl _
  · simp [hq] at h
  · exact h

end Exec

/-! ## The row of one grant -/

namespace DB

variable {db : DB}

theorem findGrant_updateGrant {id : UUID} {f : MasterGrantRow → MasterGrantRow} (hf : ∀ r, (f r).id = r.id) :
    (db.updateGrant id f).findGrant id = (db.findGrant id).map f := by
  have hcomp : ((fun r : MasterGrantRow => decide (r.id = id)) ∘ fun r => if r.id = id then f r else r) =
      fun r => decide (r.id = id) := by
    funext r
    by_cases h : r.id = id
    · simp [h, hf]
    · simp [h]
  rw [findGrant, updateGrant, find?_map, hcomp, findGrant]
  cases hr : db.grants.find? fun r => decide (r.id = id) with
  | none => rfl
  | some r =>
  have hid : r.id = id := by simpa using find?_some hr
  simp [hid]

theorem getGrantByID_of_find {id : UUID} {g : MasterGrant} (h : db.getGrantByID id = .ok g) :
    ∃ r, db.findGrant id = some r ∧ r.decode = .ok g := by
  obtain ⟨r, hr, -, -, hd⟩ := getGrantByID_ok h
  exact ⟨r, hr, hd⟩

end DB

theorem MasterGrantRow.decode_ok {r : MasterGrantRow} {g : MasterGrant} (h : r.decode = .ok g) :
    g.id = r.id ∧ g.tenantID = r.tenantID ∧ g.kind = r.kind ∧ unmarshal r.payload = some g.payload ∧
      g.createdAt = r.createdAt ∧ g.consumedAt = r.consumedAt ∧ g.revokedAt = r.revokedAt := by
  unfold MasterGrantRow.decode at h
  split at h
  · cases h
  · rename_i p hp
    cases h
    exact ⟨rfl, rfl, rfl, hp, rfl, rfl, rfl⟩

namespace DB

variable {db db' : DB} {id : UUID} {now : Time} {u : Unit}

theorem consumeGrant_find {ref : String} (h : db.consumeGrant id ref now = .ok (u, db')) :
    ∃ r, db.findGrant id = some r ∧ r.revokedAt = none ∧ r.consumedAt = none ∧
      db'.findGrant id = some { r with consumedAt := some (timestamptz now), consumedRef := some ref } := by
  obtain ⟨g, hg, hrev, hcon, rfl⟩ := consumeGrant_ok h
  obtain ⟨r, hr, hd⟩ := getGrantByID_of_find hg
  obtain ⟨-, -, -, -, -, hc, hv⟩ := MasterGrantRow.decode_ok hd
  refine ⟨r, hr, hv ▸ hrev, hc ▸ hcon, ?_⟩
  rw [findGrant_updateGrant (by intro r; rfl), hr]
  rfl

theorem revokeGrant_find {revokedBy : UUID} {reason : String} (h : db.revokeGrant id revokedBy reason now = .ok (u, db')) :
    ∃ r, db.findGrant id = some r ∧ r.revokedAt = none ∧ r.consumedAt = none ∧
      db'.findGrant id = some { r with revokedAt := some (timestamptz now), revokedByUserID := some revokedBy,
                                       revokeReason := some reason } := by
  obtain ⟨g, hg, hrev, hcon, rfl⟩ := revokeGrant_ok h
  obtain ⟨r, hr, hd⟩ := getGrantByID_of_find hg
  obtain ⟨-, -, -, -, -, hc, hv⟩ := MasterGrantRow.decode_ok hd
  refine ⟨r, hr, hv ▸ hrev, hc ▸ hcon, ?_⟩
  rw [findGrant_updateGrant (by intro r; rfl), hr]
  rfl

end DB

end Crm.Store
