import Mathlib.Data.List.Nodup
import Crm.Store.Schema

/-!
# Crm.Store.Spec — what the transactions leave behind

One inversion lemma per transaction.  `Appended` is the shape of every write to an existing wallet: one row is added to
the ledger and the wallet row moves to its next version.  `Opened` is the shape of the onboarding grant.
-/

namespace Crm.Store

open Int64Arith Crm.Wallet Crm.Grant List
open Crm.Billing (Subscription SubscriptionStatus)

theorem nodup_append_singleton {α : Type} {l : List α} {x : α} : (l ++ [x]).Nodup ↔ x ∉ l ∧ l.Nodup := by
  rw [← concat_eq_append, nodup_concat]

/-- The wallet row `w` becomes `w'` and `row` is added to its ledger. -/
structure Appended (db : DB) (w w' : TokenWallet) (row : LedgerRow) (db' : DB) : Prop where
  mem : w ∈ db.wallets
  id : w'.id = w.id
  tenantID : w'.tenantID = w.tenantID
  rowWallet : row.walletID = w.id
  rowTenant : row.tenantID = w.tenantID
  keyFree : ∀ r ∈ db.ledger, r.walletID = w.id → r.idempotencyKey ≠ row.idempotencyKey
  wallets : db'.wallets = db.wallets.map fun r => if r.id = w.id then w' else r
  ledger : db'.ledger = db.ledger ++ [row]
  grants : db'.grants = db.grants

section Appended

variable {s s' : DB} {w w' : TokenWallet} {row : LedgerRow}

theorem Appended.mem_wallets (h : Appended s w w' row s') : w' ∈ s'.wallets := by
  rw [h.wallets]
  exact mem_map.mpr ⟨w, h.mem, if_pos rfl⟩

theorem Appended.map_wallets {α : Type} (h : Appended s w w' row s') (hids : (s.wallets.map TokenWallet.id).Nodup)
    (f : TokenWallet → α) (hf : f w' = f w) : s'.wallets.map f = s.wallets.map f := by
  rw [h.wallets, map_map]
  refine map_congr_left fun v hv => ?_
  by_cases hid : v.id = w.id
  · rw [inj_on_of_nodup_map hids hv h.mem hid, Function.comp_apply, if_pos rfl, hf]
  · rw [Function.comp_apply, if_neg hid]

theorem Appended.wallets_cases (h : Appended s w w' row s') {v : TokenWallet} (hv : v ∈ s'.wallets) : v = w' ∨ v ∈ s.wallets := by
  rw [h.wallets] at hv
  obtain ⟨u, hu, rfl⟩ := mem_map.mp hv
  split_ifs
  · exact .inl rfl
  · exact .inr hu

end Appended

structure Opened (db : DB) (w : TokenWallet) (row : LedgerRow) (db' : DB) : Prop where
  idFree : ∀ r ∈ db.wallets, r.id ≠ w.id
  tenantFree : ∀ r ∈ db.wallets, r.tenantID ≠ w.tenantID
  rowWallet : row.walletID = w.id
  rowTenant : row.tenantID = w.tenantID
  kind : row.kind = .grant
  amount : row.amount = w.balance
  masterGrantID : row.masterGrantID = none
  pos : 0 < w.balance
  reserved : w.reserved = 0
  version : w.version = 1
  keyFree : ∀ r ∈ db.ledger, r.walletID = w.id → r.idempotencyKey ≠ row.idempotencyKey
  wallets : db'.wallets = db.wallets ++ [w]
  ledger : db'.ledger = db.ledger ++ [row]
  grants : db'.grants = db.grants

/-- The columns of a grant row that no statement updates. -/
structure SameGrant (g g' : MasterGrantRow) : Prop where
  id : g'.id = g.id
  externalID : g'.externalID = g.externalID
  tenantID : g'.tenantID = g.tenantID
  kind : g'.kind = g.kind
  payload : g'.payload = g.payload
  createdAt : g'.createdAt = g.createdAt

theorem SameGrant.refl (g : MasterGrantRow) : SameGrant g g := ⟨rfl, rfl, rfl, rfl, rfl, rfl⟩

theorem SameGrant.trans {g₁ g₂ g₃ : MasterGrantRow} (h1 : SameGrant g₁ g₂) (h2 : SameGrant g₂ g₃) : SameGrant g₁ g₃ :=
  ⟨h2.id.trans h1.id, h2.externalID.trans h1.externalID, h2.tenantID.trans h1.tenantID, h2.kind.trans h1.kind,
    h2.payload.trans h1.payload, h2.createdAt.trans h1.createdAt⟩

/-- Only `master_grant` and `subscription` move; no grant is lost or rewritten. -/
structure Regranted (db db' : DB) : Prop where
  wallets : db'.wallets = db.wallets
  ledger : db'.ledger = db.ledger
  kept : ∀ g ∈ db.grants, ∃ g' ∈ db'.grants, SameGrant g g'
  grantIDs : (db.grants.map MasterGrantRow.id).Nodup → (db'.grants.map MasterGrantRow.id).Nodup

theorem Regranted.refl (db : DB) : Regranted db db := ⟨rfl, rfl, fun g hg => ⟨g, hg, .refl g⟩, id⟩

namespace DB

variable {db db' : DB}

def balance (db : DB) (tenantID : UUID) : Option ℤ :=
  (db.wallets.find? fun w => w.tenantID = tenantID).map TokenWallet.balance

theorem keyUsed_eq_false {walletID : UUID} {key : String} :
    db.keyUsed walletID key = false ↔ ∀ r ∈ db.ledger, r.walletID = walletID → r.idempotencyKey ≠ key := by
  simp [keyUsed]

variable {t id : UUID} {w : TokenWallet} {ref : String} {now : Time} {u : Unit} {g : MasterGrant} {sub : Subscription}

theorem loadByTenant_ok (h : db.loadByTenant t = .ok w) : t ≠ UUID.Nil ∧ w ∈ db.wallets ∧ w.tenantID = t := by
  unfold loadByTenant at h
  split_ifs at h with ht
  split at h
  · rename_i w' hf
    cases h
    exact ⟨ht, mem_of_find?_eq_some hf, by simpa using find?_some hf⟩
  · cases h

theorem lookupByIdempotencyKey_ok {w : UUID} {k : String} {e : LedgerEntry} (h : db.lookupByIdempotencyKey t w k = .ok e) :
    ∃ r ∈ db.ledger, r.tenantID = t ∧ r.walletID = w ∧ r.idempotencyKey = k ∧ e = r.decode := by
  unfold lookupByIdempotencyKey at h
  split_ifs at h
  split at h
  · rename_i r hf
    cases h
    have hr := find?_some hf
    simp only [decide_eq_true_eq] at hr
    exact ⟨r, mem_of_find?_eq_some hf, hr.1, hr.2.1, hr.2.2, rfl⟩
  · cases h

theorem lookupCompleted_notFound {w : UUID} {e : Err} (ht : t ≠ UUID.Nil) (hw : w ≠ UUID.Nil) (hr : ref ≠ "")
    (h : db.lookupCompletedByExternalRef t w ref = .error e) : ∀ r ∈ db.ledger, r.tenantID = t → r.walletID = w → r.settles ref = false := by
  unfold lookupCompletedByExternalRef at h
  rw [if_neg (by simp [ht, hw, hr])] at h
  split at h
  · cases h
  rename_i hf
  intro r hmem h1 h2
  have := find?_eq_none.mp hf r hmem
  simpa [h1, h2] using this

theorem find?_wallet {p : TokenWallet → Bool} (h : db.wallets.find? p = some w) :
    w ∈ db.wallets ∧ p w = true := ⟨mem_of_find?_eq_some h, find?_some h⟩

/-- With distinct ids, the update touches the one row it is aimed at. -/
theorem updateWallet_wallets {d : DB} (hids : (d.wallets.map TokenWallet.id).Nodup) {w p : TokenWallet} (hp : p ∈ d.wallets)
    (hid : p.id = w.id) (now : Time) :
    (d.updateWallet w now).wallets = d.wallets.map fun r =>
      if r.id = p.id then
        { p with balance := w.balance, reserved := w.reserved, version := w.version, updatedAt := timestamptz now }
      else r := by
  refine map_congr_left fun r hr => ?_
  by_cases h : r.id = w.id
  · have hrp : r = p := inj_on_of_nodup_map hids hr hp (h.trans hid.symm)
    rw [if_pos h, if_pos (h.trans hid.symm), hrp]
  · rw [if_neg h, if_neg fun hrp => h (hrp.trans hid)]

theorem insertLedger_ok {row : LedgerRow} (h : db.insertLedger t row = .ok db') :
    row.tenantID = t ∧ (∀ r ∈ db.ledger, r.walletID = row.walletID → r.idempotencyKey ≠ row.idempotencyKey) ∧
      db' = { db with ledger := db.ledger ++ [row] } := by
  unfold insertLedger at h
  split_ifs at h with h1 h2
  cases h
  push Not at h1 h2
  exact ⟨h1.1, keyUsed_eq_false.mp (by simpa using h2.2), rfl⟩

/-- **ApplyWithLock**: the stored version is one behind the caller's, and both tables move together. -/
theorem applyWithLock_ok (hids : (db.wallets.map TokenWallet.id).Nodup) {e : LedgerEntry} (he : e.walletID = w.id)
    (h : db.applyWithLock w [e] now = .ok (u, db')) :
    ∃ p, p.version = wrap (w.version - 1) ∧ 0 ≤ w.balance ∧ 0 ≤ w.reserved ∧ p.id = w.id ∧ p.tenantID = w.tenantID ∧
      Appended db p { p with balance := w.balance, reserved := w.reserved, version := w.version,
                             updatedAt := timestamptz now } (.ofEntry e) db' := by
  unfold applyWithLock at h
  split at h
  · cases h
  split at h
  · cases h
  rename_i p hf
  obtain ⟨hp, hpw⟩ := find?_wallet hf
  simp only [decide_eq_true_eq] at hpw
  split at h
  · cases h
  rename_i hv
  split at h
  · cases h
  rename_i db₁ hins
  split_ifs at h with hneg
  cases h
  simp only [foldlM_cons, foldlM_nil] at hins
  obtain ⟨db₂, hins, hpure⟩ : ∃ db₂, db.insertLedger w.tenantID (.ofEntry e) = .ok db₂ ∧
      (pure db₂ : Except Err DB) = .ok db₁ := by
    cases hi : db.insertLedger w.tenantID (.ofEntry e) with
    | error e => rw [hi] at hins; cases hins
    | ok db₂ => rw [hi] at hins; exact ⟨db₂, rfl, hins⟩
  cases hpure
  obtain ⟨htenant, hkey, rfl⟩ := insertLedger_ok hins
  push Not at hneg hv
  have hwal : (LedgerRow.ofEntry e).walletID = p.id := he.trans hpw.1.symm
  exact ⟨p, hv, hneg.1, hneg.2, hpw.1, hpw.2,
    { mem := hp
      id := rfl
      tenantID := rfl
      rowWallet := hwal
      rowTenant := htenant.trans hpw.2.symm
      keyFree := fun r hr hrw => hkey r hr (hrw.trans hwal.symm)
      wallets := updateWallet_wallets (d := { db with ledger := _ }) hids hp hpw.1 now
      ledger := rfl
      grants := rfl }⟩

/-- A copy whose version is the stored one plus one is accepted. -/
theorem applyWithLock_eq {w p : TokenWallet} {e : LedgerEntry} {now : Time} (ht : w.tenantID ≠ UUID.Nil)
    (hp : db.wallets.find? (fun r => r.id = w.id ∧ r.tenantID = w.tenantID) = some p)
    (hver : p.version = wrap (w.version - 1)) (hb : 0 ≤ w.balance) (hr : 0 ≤ w.reserved) (het : e.tenantID = w.tenantID)
    (hpair : e.source = none ∨ e.source = some .masterGrant ∧ e.masterGrantID ≠ none)
    (heid : ∀ r ∈ db.ledger, r.id ≠ e.id)
    (hkey : ∀ r ∈ db.ledger, r.walletID = e.walletID → r.idempotencyKey ≠ e.idempotencyKey) :
    db.applyWithLock w [e] now = .ok ((), { db with ledger := db.ledger ++ [LedgerRow.ofEntry e] }.updateWallet w now) := by
  have hins : db.insertLedger w.tenantID (.ofEntry e) = .ok { db with ledger := db.ledger ++ [.ofEntry e] } := by
    unfold insertLedger
    rw [if_neg, if_neg]
    · rw [not_or, any_eq_true, Bool.not_eq_true, keyUsed_eq_false]
      refine ⟨?_, hkey⟩
      rintro ⟨r, hmem, heq⟩
      exact heid r hmem (of_decide_eq_true heq)
    · rcases hpair with hs | ⟨hs, hg⟩ <;> simp [LedgerRow.ofEntry, hs, het]
      exact hg
  unfold applyWithLock
  rw [if_neg ht, hp]
  simp only [hver, ne_eq, not_true_eq_false, if_false, foldlM_cons, foldlM_nil, hins]
  rw [show (Except.ok { db with ledger := db.ledger ++ [.ofEntry e] } >>= fun s : DB => pure s : Except Err DB) =
    .ok { db with ledger := db.ledger ++ [.ofEntry e] } from rfl]
  simp only [not_lt.mpr hb, not_lt.mpr hr, or_self, if_false]

/-- **AllocateMonthlyQuota**: nothing for a key the wallet has, or one credit row and the balance with it. -/
theorem allocateMonthlyQuota_ok (hids : (db.wallets.map TokenWallet.id).Nodup) {a : ℤ} {k : String} {ledgerID : UUID} {dbNow : Time} {b : Bool}
    (h : db.allocateMonthlyQuota t a k ledgerID now dbNow = .ok (b, db')) :
    ∃ p ∈ db.wallets, p.tenantID = t ∧
      ((db' = db ∧ ∃ r ∈ db.ledger, r.walletID = p.id ∧ r.idempotencyKey = k) ∨
        ∃ row, row.kind = .grant ∧ row.amount = a ∧ row.masterGrantID = none ∧ row.idempotencyKey = k ∧ row.source = .monthlyAlloc ∧
          p.balance + a ≤ maxInt64 ∧ p.version + 1 ≤ maxInt64 ∧
          Appended db p { p with balance := p.balance + a, version := p.version + 1, updatedAt := timestamptz dbNow }
            row db') := by
  unfold allocateMonthlyQuota at h
  split at h
  · cases h
  rename_i p hf
  obtain ⟨hp, hpt⟩ := find?_wallet hf
  simp only [decide_eq_true_eq] at hpt
  refine ⟨p, hp, hpt, ?_⟩
  split_ifs at h with hk hid hov
  · cases h
    refine .inl ⟨rfl, ?_⟩
    simpa [keyUsed] using hk
  cases h
  push Not at hov
  have hk' := keyUsed_eq_false.mp (by simpa using hk)
  refine .inr ⟨_, rfl, rfl, rfl, rfl, rfl, hov.1, hov.2,
    { mem := hp
      id := rfl
      tenantID := rfl
      rowWallet := rfl
      rowTenant := hpt.symm
      keyFree := fun r hr hrw => hk' r hr hrw
      wallets := ?_
      ledger := rfl
      grants := rfl }⟩
  exact updateWallet_wallets (d := { db with ledger := _ })
    (w := { p with balance := p.balance + a, version := p.version + 1 }) hids hp rfl dbNow

/-- **CourtesyStore.Issue**: nothing, or a new wallet with its first row. -/
theorem issueCourtesy_ok {actor : UUID} {a : ℤ} {grantID walletID ledgerID : UUID} {dbNow : Time} {out : Issued}
    (h : db.issueCourtesy t actor a grantID walletID ledgerID now dbNow = .ok (out, db')) :
    db' = db ∨ ∃ w row, w.id = walletID ∧ w.tenantID = t ∧ w.balance = a ∧ Opened db w row db' := by
  unfold issueCourtesy at h
  split at h
  · split at h
    · cases h
      exact .inl rfl
    · cases h
  split_ifs at h with h1 h2 h3
  cases h
  push Not at h1 h3
  have hkey := keyUsed_eq_false.mp (by simpa using h3.2)
  simp only [any_eq_true, not_exists, not_and, decide_eq_true_eq, not_or] at h2
  exact .inr ⟨{ id := walletID, tenantID := t, balance := a, reserved := 0, version := 1,
                createdAt := timestamptz dbNow, updatedAt := timestamptz dbNow }, _, rfl, rfl, rfl,
    { idFree := fun r hr => (h2 r hr).1
      tenantFree := fun r hr => (h2 r hr).2
      rowWallet := rfl
      rowTenant := rfl
      kind := rfl
      amount := rfl
      masterGrantID := rfl
      pos := h1.1
      reserved := rfl
      version := rfl
      keyFree := fun r hr hrw => hkey r hr hrw
      wallets := rfl
      ledger := rfl
      grants := rfl }⟩

/-! ## Grants and subscriptions -/

theorem bind_eq_ok {α β : Type} {x : Except Err α} {f : α → Except Err β} {b : β} (h : (x >>= f) = .ok b) :
    ∃ a, x = .ok a ∧ f a = .ok b := by
  cases x with
  | error e => cases h
  | ok a => exact ⟨a, rfl, h⟩

theorem getGrantByID_ok (h : db.getGrantByID id = .ok g) : ∃ r, db.findGrant id = some r ∧ r ∈ db.grants ∧ r.id = id ∧ r.decode = .ok g := by
  unfold getGrantByID at h
  split at h
  · cases h
  · rename_i r hf
    exact ⟨r, hf, mem_of_find?_eq_some hf, by simpa using find?_some hf, h⟩

theorem updateGrant_regranted {f : MasterGrantRow → MasterGrantRow} (hf : ∀ r, SameGrant r (f r)) : Regranted db (db.updateGrant id f) where
  wallets := rfl
  ledger := rfl
  kept := by
    intro g hg
    refine ⟨if g.id = id then f g else g, mem_map_of_mem hg, ?_⟩
    split_ifs
    · exact hf g
    · exact .refl g
  grantIDs := by
    intro h
    have : (db.updateGrant id f).grants.map MasterGrantRow.id = db.grants.map MasterGrantRow.id := by
      simp only [updateGrant, map_map]
      refine map_congr_left fun r _ => ?_
      show (if r.id = id then f r else r).id = r.id
      split_ifs
      · exact (hf r).id
      · rfl
    rwa [this]

theorem consumeGrant_ok (h : db.consumeGrant id ref now = .ok (u, db')) :
    ∃ g, db.getGrantByID id = .ok g ∧ g.revokedAt = none ∧ g.consumedAt = none ∧
      db' = db.updateGrant id fun r => { r with consumedAt := some (timestamptz now), consumedRef := some ref } := by
  obtain ⟨g, hg, h⟩ := bind_eq_ok h
  obtain ⟨g', hc, h⟩ := bind_eq_ok h
  cases h
  unfold MasterGrant.consume at hc
  split_ifs at hc with h1 h2
  exact ⟨g, hg, by simpa [MasterGrant.isRevoked] using h1, by simpa [MasterGrant.isConsumed] using h2, rfl⟩

theorem revokeGrant_ok {revokedBy : UUID} {reason : String} (h : db.revokeGrant id revokedBy reason now = .ok (u, db')) :
    ∃ g, db.getGrantByID id = .ok g ∧ g.revokedAt = none ∧ g.consumedAt = none ∧
      db' = db.updateGrant id fun r =>
        { r with revokedAt := some (timestamptz now), revokedByUserID := some revokedBy, revokeReason := some reason } := by
  obtain ⟨g, hg, h⟩ := bind_eq_ok h
  obtain ⟨g', hc, h⟩ := bind_eq_ok h
  split_ifs at h
  cases h
  unfold MasterGrant.revoke at hc
  split_ifs at hc with h1 h2
  exact ⟨g, hg, by simpa [MasterGrant.isRevoked] using h2, by simpa [MasterGrant.isConsumed] using h1, rfl⟩

theorem createGrant_ok (h : db.createGrant g = .ok (u, db')) :
    ∃ row : MasterGrantRow, row.id = g.id ∧ row.externalID = g.externalID ∧ row.tenantID = g.tenantID ∧
      row.kind = g.kind ∧ row.payload = marshal g.payload ∧ row.createdAt = timestamptz g.createdAt ∧
      row.consumedAt = none ∧ row.revokedAt = none ∧ (∀ r ∈ db.grants, r.id ≠ g.id) ∧
      db' = { db with grants := db.grants ++ [row] } := by
  unfold createGrant at h
  split_ifs at h with h1 h2
  cases h
  refine ⟨_, rfl, rfl, rfl, rfl, rfl, rfl, rfl, rfl, ?_, rfl⟩
  simp only [any_eq_true, not_exists, not_and, decide_eq_true_eq, not_or] at h2
  exact fun r hr => (h2 r hr).1

theorem consumeGrant_regranted (h : db.consumeGrant id ref now = .ok (u, db')) : Regranted db db' := by
  obtain ⟨g, -, -, -, rfl⟩ := consumeGrant_ok h
  exact updateGrant_regranted fun r => ⟨rfl, rfl, rfl, rfl, rfl, rfl⟩

theorem revokeGrant_regranted {revokedBy : UUID} {reason : String} (h : db.revokeGrant id revokedBy reason now = .ok (u, db')) : Regranted db db' := by
  obtain ⟨g, -, -, -, rfl⟩ := revokeGrant_ok h
  exact updateGrant_regranted fun r => ⟨rfl, rfl, rfl, rfl, rfl, rfl⟩

theorem createGrant_regranted (h : db.createGrant g = .ok (u, db')) : Regranted db db' := by
  obtain ⟨row, hid, -, -, -, -, -, -, -, hfree, rfl⟩ := createGrant_ok h
  refine ⟨rfl, rfl, fun r hr => ⟨r, mem_append_left _ hr, .refl r⟩, fun hn => ?_⟩
  rw [map_append]
  refine nodup_append_singleton.mpr ⟨?_, hn⟩
  simp only [mem_map, not_exists, not_and, hid]
  exact hfree

theorem saveSubscription_ok (h : db.saveSubscription sub = .ok (u, db')) :
    ∃ subs, db' = { db with subs } ∧
      ((∃ r ∈ db.subs, r.id = sub.id) → subs = db.subs.map fun r => if r.id = sub.id then overwriteSubscription sub r else r) := by
  unfold saveSubscription at h
  split_ifs at h with h1 h2 h3
  · cases h
    exact ⟨_, rfl, fun _ => rfl⟩
  · cases h
    refine ⟨_, rfl, fun ⟨r, hr, hid⟩ => absurd ?_ h3⟩
    simpa using ⟨r, hr, hid⟩

theorem saveSubscription_regranted (h : db.saveSubscription sub = .ok (u, db')) : Regranted db db' := by
  obtain ⟨subs, rfl, -⟩ := saveSubscription_ok h
  exact ⟨rfl, rfl, fun g hg => ⟨g, hg, .refl g⟩, id⟩

end DB

end Crm.Store
