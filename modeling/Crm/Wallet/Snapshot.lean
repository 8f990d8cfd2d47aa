import Crm.Wallet.Rely

/-!
# Crm.Wallet.Snapshot — stale copies and the version check

A call works on a copy `w` of the wallet row that it loaded when the wallet had `n` ledger rows.  `Snap w n` is what it still
knows later, whatever the others do: the wallet has at least `n` rows now, and if it has exactly `n` the copy is the stored row.
The version check of `ApplyWithLock` then decides which case holds (`Snap.applied`), as long as fewer than `2 ^ 64` rows
were added in between.
-/

namespace Crm.Wallet

open Int64Arith Interleave HoldLedger Crm.Store Crm.Grant List

/-- What a call knows of a copy `w` loaded when the wallet had `n` ledger rows. -/
structure Snap (w : TokenWallet) (n : ℕ) (v : W) : Prop where
  pos : 1 ≤ n
  version : w.version = stamp n
  nonNil : w.id ≠ UUID.Nil ∧ w.tenantID ≠ UUID.Nil
  le : n ≤ (v.store.rows w.id).length
  mem : (v.store.rows w.id).length = n → w ∈ v.store.wallets

def Unsettled (w : TokenWallet) (n : ℕ) (ref : String) (v : W) : Prop :=
  (v.store.rows w.id).length = n → ∀ r ∈ v.store.rows w.id, r.settles ref = false

section Snapshots

variable {i n : ℕ} {w w' : TokenWallet} {u v : W}

theorem Snap.of_load (hv : WorldInv v) {t : UUID} (h : v.store.loadByTenant t = .ok w) :
    w.tenantID = t ∧ Snap w (v.store.rows w.id).length v := by
  obtain ⟨-, hw, ht⟩ := DB.loadByTenant_ok h
  obtain ⟨h1, h2⟩ := hv.store.version w hw
  exact ⟨ht, h1, h2, hv.store.nonNil w hw, le_rfl, fun _ => hw⟩

theorem Snap.later (h : Snap w n u) (hl : Later i u v) : Snap w n v := by
  have hle := (hl.store.rows w.id).length_le
  refine ⟨h.pos, h.version, h.nonNil, h.le.trans hle, fun hlen => ?_⟩
  have hu : (u.store.rows w.id).length = n := le_antisymm (hlen ▸ hle) h.le
  obtain ⟨w', hw', -, -, heq⟩ := hl.store.wallets w (h.mem hu)
  exact heq (hlen.trans hu.symm) ▸ hw'

theorem Unsettled.later {ref : String} (h : Unsettled w n ref u) (hs : Snap w n u) (hl : Later i u v) :
    Unsettled w n ref v := by
  intro hlen
  have hle := (hl.store.rows w.id).length_le
  have hu : (u.store.rows w.id).length = n := le_antisymm (hlen ▸ hle) hs.le
  rw [hl.store.rows_eq (hlen.trans hu.symm)]
  exact h hu

theorem Unsettled.of_lookup (hs : Snap w n v) {t : UUID} {ref : String} {e : Err} (ht : w.tenantID = t)
    (hr : ref ≠ "") (hv : WorldInv v) (h : v.store.lookupCompletedByExternalRef t w.id ref = .error e) :
    Unsettled w n ref v := by
  intro hlen r hr'
  obtain ⟨hmem, hw⟩ := mem_rows.mp hr'
  have htenant := hv.store.tenantID_of_mem hmem (hs.mem hlen) hw.symm
  exact DB.lookupCompleted_notFound (ht ▸ hs.nonNil.2) hs.nonNil.1 hr h r hmem (htenant.symm.trans ht) hw

/-- The stored row `p` and its successor `p'` in a write by a copy with the counters `balance` and `reserved`. -/
structure Fits (w : TokenWallet) (n : ℕ) (balance reserved : ℤ) (s : DB) (p p' : TokenWallet) : Prop where
  id : p.id = w.id
  tenantID : p.tenantID = w.tenantID
  version : p'.version = wrap (p.version + 1)
  balance : p'.balance = balance
  reserved : p'.reserved = reserved
  current : (s.rows w.id).length < versionHorizon → p = w ∧ (s.rows w.id).length = n

/-- **The version check.**  A write that passes it was computed from the stored row, unless the version has wrapped
around. -/
theorem Snap.applied (hv : WorldInv v) (hs : Snap w n v) {balance reserved : ℤ} (hb : w.Bumped balance reserved w')
    {e : LedgerEntry} (he : e.walletID = w.id) {now : Time} {x : Unit} {s' : DB}
    (h : v.store.applyWithLock w' [e] now = .ok (x, s')) :
    ∃ p p', Appended v.store p p' (.ofEntry e) s' ∧ Fits w n balance reserved v.store p p' := by
  obtain ⟨p, hver, -, -, hid, ht, ha⟩ := DB.applyWithLock_ok hv.store.walletIDs (he.trans hb.id.symm) h
  have hid' : p.id = w.id := hid.trans hb.id
  have hpn : p.version = stamp n := by
    rw [hver, hb.version, wrap_wrap_sub, hs.version, add_sub_cancel_right]
    exact wrap_of_inRange (inRange_stamp n)
  have hprow : p.version = stamp (v.store.rows w.id).length := by rw [← hid']; exact (hv.store.version p ha.mem).2
  refine ⟨p, _, ha, hid', ht.trans hb.tenantID, ?_, hb.balance, hb.reserved, fun hlen => ?_⟩
  · show w'.version = wrap (p.version + 1)
    rw [hb.version, hpn, hs.version]
  have hn : n = (v.store.rows w.id).length := by
    refine stamp_inj hs.le ?_ (hpn.symm.trans hprow)
    have := hs.pos
    unfold versionHorizon at hlen
    omega
  exact ⟨hv.store.eq_of_id ha.mem (hs.mem hn.symm) hid', hn.symm⟩

end Snapshots

/-! ## Proof rules -/

abbrev Sf {α : Type} (i : ℕ) (Q : α → W → Prop) (p : Client α) (w : W) : Prop :=
  Safe (system Honest) walletSpec i Q p w

section Rules

variable {α : Type} {i : ℕ} {Q : α → W → Prop} {u : W}

theorem safe_ret {a : α} (h : ∀ v, Later i u v → WorldInv v → Q a v) : Sf i Q (.ret a) u := h

theorem safe_read {q : Req} {k : Resp q → Client α} (hq : ∀ s r s', exec q s r s' → s' = s) (hn : q ≠ .newUUID)
    (H : ∀ v r, Later i u v → WorldInv v → exec q v.store r v.store → Sf i Q (k r) v) : Sf i Q (.ask q k) u := by
  intro v huv hv r s' he _
  obtain rfl := hq _ _ _ he
  refine ⟨keeps_quiet hv ?_, (H v r huv hv he).rely (Later.own rfl)⟩
  intro x hx
  cases hx
  exact absurd rfl hn

/-- A drawn identifier belongs to the call and is on no reserve row. -/
theorem safe_newUUID {k : UUID → Client α}
    (H : ∀ v x, Later i u v → WorldInv v → minted i x v → (∀ r ∈ v.store.ledger, ¬ Holds (some x.string) r) →
      Sf i Q (k x) v) : Sf i Q (.ask .newUUID k) u := by
  intro v huv hv x s' he hfresh
  obtain rfl : s' = v.store := he
  have hk : walletSpec.Keeps i v (.act i .newUUID x v.store v.store) := by
    refine keeps_quiet hv fun y hy => ?_
    cases hy
    exact hfresh
  refine ⟨hk, H _ x (huv.trans (Later.own rfl)) hk.1 ⟨_, _, mem_cons_self⟩ fun r hr hx => ?_⟩
  obtain ⟨j, hj⟩ := hv.refs r hr x hx
  exact hfresh j hj

/-- A transaction: it keeps the tables, and the client goes on from what it left. -/
theorem safe_write {q : Req} {k : Resp q → Client α} (hn : q ≠ .newUUID)
    (H : ∀ v r s', Later i u v → WorldInv v → exec q v.store r s' →
      (Ledgered s' ∧ StoreLater v.store s' ∧
        ∀ row ∈ s'.ledger, row ∈ v.store.ledger ∨ ∀ x : UUID, Holds (some x.string) row → minted i x v) ∧
      ∀ v', v'.store = s' → WorldInv v' → (s' = v.store → Later i u v') → Sf i Q (k r) v') :
    Sf i Q (.ask q k) u := by
  intro v huv hv r s' he _
  obtain ⟨⟨hL, hS, hrefs⟩, hk⟩ := H v r s' huv hv he
  have hkeep : walletSpec.Keeps i v (.act i q r v.store s') := by
    refine keeps_act hv hL hS ?_ hrefs
    intro x hx
    cases hx
    exact absurd rfl hn
  exact ⟨hkeep, hk _ rfl hkeep.1 fun hs => huv.trans (Later.own hs)⟩

/-- **ApplyWithLock by a stale copy.**  The new row has to fit the stored wallet; an error that is no connection failure left
the store alone. -/
theorem safe_apply {w w' : TokenWallet} {n : ℕ} {balance reserved : ℤ} {e : LedgerEntry}
    {k : Except Err Unit → Client α} (hs : Snap w n u) (hb : w.Bumped balance reserved w') (he : e.walletID = w.id)
    (hown : ∀ x : UUID, Holds (some x.string) (.ofEntry e) → minted i x u)
    (hok : ∀ v p p', Later i u v → WorldInv v → Fits w n balance reserved v.store p p' →
      Ledgered.RowOK v.store p p' (.ofEntry e))
    (hyes : ∀ v, WorldInv v → .ofEntry e ∈ v.store.ledger → Sf i Q (k (.ok ())) v)
    (hno : ∀ v err, WorldInv v → err.fault ∨ Later i u v → Sf i Q (k (.error err)) v) :
    Sf i Q (.ask (.applyWithLock w' [e]) k) u := by
  refine safe_write (by simp) fun v r s' huv hv ⟨now, htx⟩ => ?_
  have hstep : ∀ x, v.store.applyWithLock w' [e] now = .ok (x, s') →
      (Ledgered s' ∧ StoreLater v.store s' ∧
        ∀ row ∈ s'.ledger, row ∈ v.store.ledger ∨ ∀ x : UUID, Holds (some x.string) row → minted i x v) ∧
      .ofEntry e ∈ s'.ledger := by
    intro x hx
    obtain ⟨p, p', ha, hf⟩ := (hs.later huv).applied hv hb he hx
    refine ⟨⟨hv.store.append ha (hok v p p' huv hv hf), .of_append hv.store.walletIDs ha, ?_⟩, by simp [ha.ledger]⟩
    intro row hrow
    rw [ha.ledger, mem_append, mem_singleton] at hrow
    rcases hrow with hrow | rfl
    · exact .inl hrow
    · exact .inr fun x hx => minted_mono huv.hist (hown x hx)
  have hsame : Ledgered v.store ∧ StoreLater v.store v.store ∧
      ∀ row ∈ v.store.ledger, row ∈ v.store.ledger ∨ ∀ x : UUID, Holds (some x.string) row → minted i x v :=
    ⟨hv.store, .refl _, fun _ h => .inl h⟩
  cases htx with
  | done h =>
    obtain ⟨h1, h2⟩ := hstep _ h
    exact ⟨h1, fun v' hv' hi _ => hyes v' hi (hv' ▸ h2)⟩
  | refused h => exact ⟨hsame, fun v' _ hi hl => hno v' _ hi (.inr (hl rfl))⟩
  | down h => exact ⟨hsame, fun v' _ hi hl => hno v' _ hi (.inr (hl rfl))⟩
  | ackLost h hf =>
  obtain ⟨h1, -⟩ := hstep _ h
  exact ⟨h1, fun v' _ hi _ => hno v' _ hi (.inl hf)⟩

end Rules

end Crm.Wallet
