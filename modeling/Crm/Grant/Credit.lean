import Crm.Grant.Extension
import Crm.Wallet.Conservation

/-!
# Crm.Grant.Credit — the tokens of a grant are credited once

`applyExtraTokens` writes its ledger row under a key derived from the grant, so the unique index lets one row per grant in,
however often and concurrently `Apply` runs.  That the balance carries this row is conservation, and has its bound.
-/

namespace Crm.Grant

open Int64Arith Interleave Crm.Wallet Crm.Store List

def creditsOf (db : DB) (grantID : UUID) : List LedgerRow := db.ledger.filter fun r => r.masterGrantID = some grantID

/-- The amounts of the wallet's grant and commit rows, without those that name the grant. -/
def creditedBesides (db : DB) (walletID grantID : UUID) : ℤ :=
  (((db.rows walletID).filter fun r =>
    (r.kind = .grant ∨ r.kind = .commit) ∧ r.masterGrantID ≠ some grantID).map LedgerRow.amount).sum

section Once

variable {db : DB} {g : MasterGrantRow}
variable {r : LedgerRow}

theorem mem_creditsOf {grantID : UUID} : r ∈ creditsOf db grantID ↔ r ∈ db.ledger ∧ r.masterGrantID = some grantID := by
  simp [creditsOf]

theorem creditOf_of_mem (h : Ledgered db) (hg : g ∈ db.grants) (hr : r ∈ creditsOf db g.id) : CreditOf g r := by
  obtain ⟨hmem, hid⟩ := mem_creditsOf.mp hr
  obtain ⟨g', hg', hid', hc⟩ := h.credits r hmem g.id hid
  obtain rfl : g' = g := inj_on_of_nodup_map h.grantIDs hg' hg hid'
  exact hc

/-- One tenant has one wallet, and the key determines the row. -/
theorem credit_unique (h : Ledgered db) (hg : g ∈ db.grants) {r' : LedgerRow} (hr : r ∈ creditsOf db g.id) (hr' : r' ∈ creditsOf db g.id) :
    r = r' := by
  have hc := creditOf_of_mem h hg hr
  have hc' := creditOf_of_mem h hg hr'
  obtain ⟨hmem, -⟩ := mem_creditsOf.mp hr
  obtain ⟨hmem', -⟩ := mem_creditsOf.mp hr'
  obtain ⟨w, hw, hid, ht⟩ := h.owner r hmem
  obtain ⟨w', hw', hid', ht'⟩ := h.owner r' hmem'
  have hww : w = w' := h.eq_of_tenantID hw hw' (by rw [ht, ht', hc.tenantID, hc'.tenantID])
  exact h.eq_of_key hmem hmem' (by rw [← hid, ← hid', hww]) (hc.key.trans hc'.key.symm)

theorem length_le_one {α : Type} : ∀ {l : List α}, l.Nodup → (∀ x ∈ l, ∀ y ∈ l, x = y) → l.length ≤ 1
  | [], _, _ => Nat.zero_le 1
  | [_], _, _ => le_rfl
  | a :: b :: l, hn, he => by
    have hab : a = b := he a (by simp) b (by simp)
    simp [hab] at hn

theorem length_creditsOf (h : Ledgered db) (hg : g ∈ db.grants) : (creditsOf db g.id).length ≤ 1 :=
  length_le_one ((List.Nodup.of_map _ h.keys).filter _) fun _ hr _ hr' => credit_unique h hg hr hr'

/-- The wallet's credits are those of the grant and the others. -/
theorem credited_split (h : Ledgered db) (hg : g ∈ db.grants) {w : TokenWallet} (hw : w ∈ db.wallets)
    (ht : w.tenantID = g.tenantID) {n : ℤ} (hn : ∀ r ∈ creditsOf db g.id, r.amount = n) :
    credited db w.id = n * (creditsOf db g.id).length + creditedBesides db w.id g.id := by
  -- every row that names the grant is a grant row of this wallet
  have hown : ∀ r ∈ creditsOf db g.id, r.walletID = w.id := by
    intro r hr
    obtain ⟨hmem, -⟩ := mem_creditsOf.mp hr
    obtain ⟨w', hw', hid, ht'⟩ := h.owner r hmem
    rw [← hid, h.eq_of_tenantID hw' hw (by rw [ht', (creditOf_of_mem h hg hr).tenantID, ht])]
  have hrows : (db.rows w.id).filter (fun r => r.masterGrantID = some g.id) = creditsOf db g.id := by
    rw [DB.rows, filter_filter, creditsOf]
    refine filter_congr fun r hr => ?_
    rw [Bool.eq_iff_iff, Bool.and_eq_true, and_iff_left_iff_imp]
    intro hid
    simpa using hown r (mem_creditsOf.mpr ⟨hr, by simpa using hid⟩)
  have hsum : ((creditsOf db g.id).map LedgerRow.amount).sum = n * (creditsOf db g.id).length := by
    rw [map_congr_left hn, map_const', sum_replicate, nsmul_eq_mul, mul_comm]
  rw [← hsum, ← hrows, credited, creditedBesides, sum_map_filter, sum_map_filter, sum_map_filter, ← sum_map_add]
  congr 1
  refine map_congr_left fun r hr => ?_
  by_cases hid : r.masterGrantID = some g.id
  · have hk := (creditOf_of_mem h hg (mem_creditsOf.mpr ⟨(mem_rows.mp hr).1, hid⟩)).kind
    simp [hid, hk]
  · simp [hid]

end Once

/-! ## A run in which a grant is applied -/

def tokenRow : MasterGrantRow where
  id := uid 1
  externalID := "token"
  tenantID := uid 1
  kind := .extraTokens
  payload := marshal [("amount", .int64 1)]
  reason := "one free token"
  createdByUserID := uid 1
  createdAt := 0
  consumedAt := none
  consumedRef := none
  revokedAt := none
  revokedByUserID := none
  revokeReason := none

def tokenGrant : MasterGrant where
  id := uid 1
  externalID := "token"
  tenantID := uid 1
  kind := .extraTokens
  payload := [("amount", .float64 1)]
  reason := "one free token"
  createdByUserID := uid 1
  createdAt := 0
  consumedAt := none
  consumedRef := ""
  revokedAt := none
  revokedByUserID := none
  revokeReason := ""

theorem tokenRow_payload : unmarshal tokenRow.payload = some tokenGrant.payload := by
  have hp : unmarshal [("amount", .num (1 : ℤ))] = some [("amount", .float64 (1 : ℤ))] :=
    unmarshal_int (Float64.exact_of_abs_lt (by decide)) ⟨by decide, by decide⟩
  exact hp

theorem tokenGrant_amount : readInt64Payload tokenGrant.payload "amount" = 1 :=
  readInt64Payload_float64 ⟨by decide, by decide⟩

/-- **One credit per grant.**  In every reachable state at most one ledger row names the grant and it has the amount of the
payload; and on a wallet of its tenant with at most `2 ^ 64 + 1` rows the balance is this credit, once if it is
there, on top of all other credits. -/
theorem credited_once {db : DB} (h0 : Initial db) {σ : Cfg} (hr : WalletReach db σ) {g : MasterGrantRow}
    (hg : g ∈ σ.world.store.grants) {p : Payload} (hp : unmarshal g.payload = some p) :
    (creditsOf σ.world.store g.id).length ≤ 1 ∧
      (∀ r ∈ creditsOf σ.world.store g.id, r.amount = readInt64Payload p "amount") ∧
      ∀ w ∈ σ.world.store.wallets, w.tenantID = g.tenantID → (σ.world.store.rows w.id).length ≤ versionHorizon →
        w.balance = readInt64Payload p "amount" * (creditsOf σ.world.store g.id).length +
          creditedBesides σ.world.store w.id g.id := by
  have hinv := (worldInv_of_reach h0 hr).store
  have hamount : ∀ r ∈ creditsOf σ.world.store g.id, r.amount = readInt64Payload p "amount" := by
    intro r hr
    obtain ⟨p', hp', ha⟩ := (creditOf_of_mem hinv hg hr).amount
    rw [ha, Option.some.inj (hp'.symm.trans hp)]
  refine ⟨length_creditsOf hinv hg, hamount, fun w hw ht hlen => ?_⟩
  rw [(hinv.conserved hw hlen).balance, credited_split hinv hg hw ht hamount]

theorem credited_once_token : ∃ σ, WalletReach (freshDB [tokenRow]) σ ∧ (creditsOf σ.world.store tokenRow.id) ≠ [] ∧
    (creditsOf σ.world.store tokenRow.id).length ≤ 1 ∧ ∀ r ∈ creditsOf σ.world.store tokenRow.id, r.amount = 1 := by
  have h0 : Initial (freshDB [tokenRow]) := initial_freshDB (nodup_singleton _)
  obtain ⟨hf, hg, hland⟩ : fairly (Conf.start (freshDB [tokenRow])) 0 (onboarding ++ starts 1 (.applyGrant (uid 1)) 5) ∧
      (let s := (plays (Conf.start (freshDB [tokenRow])) 0 (onboarding ++ starts 1 (.applyGrant (uid 1)) 5)).world.store
       tokenRow ∈ s.grants ∧ creditsOf s tokenRow.id ≠ []) := by decide +kernel
  have hr := steps_plays _ _ _ hf
  obtain ⟨hlen, hamount, -⟩ := credited_once h0 hr hg tokenRow_payload
  refine ⟨_, hr, hland, hlen, ?_⟩
  rwa [tokenGrant_amount] at hamount

/-- The bound is needed: a grant that was left standing before the credit landed, and goes on when the version has come around,
writes a balance without the credit. -/
theorem credit_lost_after_wraparound : ∃ db σ g p w, Initial db ∧ WalletReach db σ ∧ g ∈ σ.world.store.grants ∧
    unmarshal g.payload = some p ∧ 0 < readInt64Payload p "amount" ∧ w ∈ σ.world.store.wallets ∧ w.tenantID = g.tenantID ∧
    creditsOf σ.world.store g.id ≠ [] ∧
    w.balance ≠ readInt64Payload p "amount" * (creditsOf σ.world.store g.id).length +
      creditedBesides σ.world.store w.id g.id := by
  have h0 : Initial (freshDB [tokenRow]) := initial_freshDB (nodup_singleton _)
  obtain ⟨σ, h, hgrants, ⟨r, hrow, hrid⟩, hp⟩ : ∃ σ, Run (freshDB [tokenRow]) σ ⟨uid 1, uid 1, 4, 0, 3, 0, 0⟩ 3 20 4 ∧
      σ.world.store.grants = [tokenRow] ∧ (∃ r ∈ σ.world.store.ledger, r.masterGrantID = some tokenRow.id) ∧
      Parked σ 1 ⟨uid 1, uid 1, 3, 0, 2, 0, 0⟩ (grantEntry ⟨uid 1, uid 1, 3, 0, 2, 0, 0⟩ 1 lateKey "" none none 0) :=
    ⟨plays (Conf.start (freshDB [tokenRow])) 0 (onboarding ++ starts 1 (.grant (uid 1) 1 lateKey "") 3 ++
      (starts 2 (.applyGrant (uid 1)) 5 ++ starts 3 (.grant (uid 1) 1 "more" "") 6)), Run.played (by decide +kernel), by decide +kernel, by decide +kernel,
      ⟨_, _, by rw [plays_append, pool_plays _ _ _ (by decide)]; rfl⟩, fun _ => ⟨rfl, rfl, rfl, rfl⟩⟩
  obtain ⟨σ', w, hr, hon, hw, ht, hbal, hcred⟩ :=
    Run.lostUpdate h0 h (by decide) ⟨by decide, by decide, by decide⟩ (by decide) (by decide) hp rfl rfl (by decide) (by decide) (by decide)
  have hg : tokenRow ∈ σ'.world.store.grants := by
    rw [hon.grants, hgrants]
    exact mem_singleton_self _
  have hinv := (worldInv_of_reach h0 hr).store
  have hamount : ∀ r ∈ creditsOf σ'.world.store tokenRow.id, r.amount = readInt64Payload tokenGrant.payload "amount" := by
    intro r hr
    obtain ⟨p, hp, ha⟩ := (creditOf_of_mem hinv hg hr).amount
    rw [ha, Option.some.inj (hp.symm.trans tokenRow_payload)]
  refine ⟨freshDB [tokenRow], σ', tokenRow, tokenGrant.payload, w, h0, hr, hg, tokenRow_payload, by rw [tokenGrant_amount]; decide, hw, ht,
    ne_nil_of_mem (mem_creditsOf.mpr ⟨hon.ledger r hrow, hrid⟩), ?_⟩
  rw [← credited_split hinv hg hw ht hamount, hbal, hcred]
  decide

end Crm.Grant
