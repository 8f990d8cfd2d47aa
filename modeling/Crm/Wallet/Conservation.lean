import Crm.Wallet.Runs

/-!
# Crm.Wallet.Conservation — balances follow the ledger in every interleaving

The two counters of a wallet row against the rows of `token_ledger`, in the ledger's own terms: `credited` sums the
signed amounts of grant and commit rows, `outstanding` the magnitudes of the reserve rows that no commit or release row
settles.  `conservation` is the result for every reachable state.
-/

namespace Crm.Wallet

open Int64Arith Interleave HoldLedger Crm.Store Crm.Grant List

/-- The amounts of the wallet's grant and commit rows. -/
def credited (db : DB) (walletID : UUID) : ℤ :=
  (((db.rows walletID).filter fun r => r.kind = .grant ∨ r.kind = .commit).map LedgerRow.amount).sum

/-- A reserve row whose reference no commit or release row carries. -/
def isOpen (db : DB) (r : LedgerRow) : Bool :=
  r.kind = .reserve ∧ ∀ ref, r.externalRef = some ref → db.ledger.any (LedgerRow.settles ref) = false

/-- The magnitudes of the wallet's open reserve rows. -/
def outstanding (db : DB) (walletID : UUID) : ℤ :=
  (((db.rows walletID).filter (isOpen db)).map fun r => |r.amount|).sum

/-! ## The journal's totals in the ledger's terms -/

theorem sum_map_filter {α : Type} (l : List α) (p : α → Bool) (f : α → ℤ) :
    ((l.filter p).map f).sum = (l.map fun x => if p x then f x else 0).sum := by
  induction l with
  | nil => rfl
  | cons x l ih =>
    cases hx : p x <;> simp [hx, ih]

theorem funds_journal (db : DB) (walletID : UUID) : funds (journal db walletID) = credited db walletID := by
  rw [credited, sum_map_filter, funds, journal, map_map]
  congr 1
  refine map_congr_left fun r _ => ?_
  cases hk : r.kind <;> simp [entryOf, hk, Entry.delta]

variable {db : DB} {w : TokenWallet}

/-- All rows that settle the reference of a reserve row are on its wallet. -/
theorem any_settles_rows (h : Ledgered db) {r : LedgerRow} {ref : String} (hr : r ∈ db.ledger) (hh : Holds (some ref) r) :
    db.ledger.any (LedgerRow.settles ref) = (db.rows r.walletID).any (LedgerRow.settles ref) := by
  rw [Bool.eq_iff_iff, any_eq_true, any_eq_true]
  constructor
  · rintro ⟨x, hx, hset⟩
    have hset' := settles_iff.mp hset
    obtain ⟨h0, hmem, hh0, hw⟩ := h.settled x hx hset'.2
    rw [hset'.1] at hh0
    exact ⟨x, mem_rows.mpr ⟨hx, by rw [← hw, h.eq_of_ref hmem hr hh0 hh]⟩, hset⟩
  · rintro ⟨x, hx, hset⟩
    exact ⟨x, (mem_rows.mp hx).1, hset⟩

theorem openAmount_entryOf (h : Ledgered db) (hb : Balanced w (journal db w.id)) {r : LedgerRow} (hr : r ∈ db.rows w.id) :
    openAmount (journal db w.id) (entryOf r) = if isOpen db r then |r.amount| else 0 := by
  obtain ⟨hmem, hw⟩ := mem_rows.mp hr
  cases hk : r.kind with
  | reserve =>
    obtain ⟨u, hu⟩ := h.refs r hmem hk
    have hhold : Holds (some u.string) r := ⟨hk, hu⟩
    have hpos : 0 < -r.amount := hb.valid.hold_pos (hold_mem_journal.mpr ⟨r, hr, hhold, rfl⟩)
    have hset : HoldLedger.settled (journal db w.id) (some u.string) = db.ledger.any (LedgerRow.settles u.string) := by
      rw [settled_journal, any_settles_rows h hmem hhold, hw]
    have hopen : isOpen db r = !db.ledger.any (LedgerRow.settles u.string) := by
      rw [Bool.eq_iff_iff]
      simp [isOpen, hk, hu]
    simp only [entryOf, hk, openAmount, hu, hset, hopen, abs_of_neg (by omega : r.amount < 0)]
    cases db.ledger.any (LedgerRow.settles u.string) <;> rfl
  | commit => simp [entryOf, hk, openAmount, isOpen]
  | release => simp [entryOf, hk, openAmount, isOpen]
  | grant => simp [entryOf, hk, openAmount, isOpen]

theorem held_journal (h : Ledgered db) (hb : Balanced w (journal db w.id)) : held (journal db w.id) = outstanding db w.id := by
  rw [outstanding, sum_map_filter, held]
  nth_rewrite 2 [journal]
  rw [map_map]
  congr 1
  exact map_congr_left fun r hr => openAmount_entryOf h hb hr

/-! ## Conservation -/

/-- The counters of the wallet row against its ledger, and their bounds. -/
structure Conserved (db : DB) (w : TokenWallet) : Prop where
  balance : w.balance = credited db w.id
  reserved : w.reserved = outstanding db w.id
  reserved_nonneg : 0 ≤ w.reserved
  reserved_le : w.reserved ≤ w.balance
  balance_le : w.balance ≤ maxInt64

/-- No addition or subtraction on the counters overflows in a mutation of the copy `w`, whatever its arguments. -/
def CountersExact (w : TokenWallet) : Prop :=
  ∀ amount commitAmount reservedAtCall,
    (∀ x ∈ w.reserveArith amount, InRange x) ∧ (∀ x ∈ w.commitArith commitAmount reservedAtCall, InRange x) ∧
      (∀ x ∈ w.releaseArith amount, InRange x) ∧ ∀ x ∈ w.grantArith amount, InRange x

theorem Ledgered.conserved (h : Ledgered db) (hw : w ∈ db.wallets) (hlen : (db.rows w.id).length ≤ versionHorizon) : Conserved db w := by
  have hb := h.acct w hw hlen
  obtain ⟨h1, h2, h3⟩ := hb.wf
  exact ⟨by rw [hb.balance, funds_journal], by rw [hb.reserved, held_journal h hb], h1, h2, h3⟩

theorem Ledgered.version_succ (h : Ledgered db) (hw : w ∈ db.wallets) (hlen : (db.rows w.id).length < 2 ^ 63 - 1) : InRange (w.version + 1) := by
  rw [(h.version w hw).2, stamp_of_lt (by omega)]
  unfold InRange minInt64 maxInt64
  omega

/-- **Conservation.**  Start before any wallet exists and interleave onboarding, reserve, commit, release, grant,
monthly allocation and grant application in any way.  Every wallet with at most `2 ^ 64 + 1` ledger rows has the balance and the
reserved amount that its ledger says, within bounds; and no counter operation overflows on any copy that was
loaded from such a wallet, nor its version stamp while there are fewer than `2 ^ 63 - 1` rows. -/
theorem conservation {db : DB} (h0 : Initial db) {σ : Cfg} (hr : WalletReach db σ) :
    (∀ w ∈ σ.world.store.wallets, (σ.world.store.rows w.id).length ≤ versionHorizon → Conserved σ.world.store w) ∧
      ∀ i t w pre post, .act i (.loadByTenant t) (.ok w) pre post ∈ σ.world.hist →
        (pre.rows w.id).length ≤ versionHorizon →
        CountersExact w ∧ ((pre.rows w.id).length < 2 ^ 63 - 1 → InRange (w.version + 1)) := by
  refine ⟨fun w hw hlen => (worldInv_of_reach h0 hr).store.conserved hw hlen, ?_⟩
  intro i t w pre post hload hlen
  obtain ⟨σ', hr', rfl⟩ := hr.act_pre hload
  have hstore := (worldInv_of_reach h0 hr').store
  obtain ⟨-, hw, -⟩ := DB.loadByTenant_ok (Read.of_ok (hr.act_exec hload))
  exact ⟨(hstore.acct w hw hlen).wf.arith_inRange, hstore.version_succ hw⟩

theorem conservation_onboarded : ∃ σ, WalletReach (freshDB []) σ ∧ σ.world.store = onboardedDB [] ∧
    ∀ w ∈ σ.world.store.wallets, (σ.world.store.rows w.id).length ≤ versionHorizon → Conserved σ.world.store w := by
  have h0 : Initial (freshDB []) := initial_freshDB .nil
  obtain ⟨hf, hst⟩ : fairly (Conf.start (freshDB [])) 0 onboarding ∧ (plays (Conf.start (freshDB [])) 0 onboarding).world.store = onboardedDB [] := by
    decide +kernel
  have hr := steps_plays _ _ _ hf
  exact ⟨_, hr, hst, (conservation h0 hr).1⟩

theorem credited_append {db' : DB} {row : LedgerRow} (h : db'.ledger = db.ledger ++ [row]) (hk : row.kind = .grant) :
    credited db' row.walletID = credited db row.walletID + row.amount := by
  rw [credited, rows_append_self h, filter_append, map_append, sum_append, credited]
  simp [hk]

/-- A grant of one token stands with a copy it took at version 1, two rows ago.  When the version has come around its write is
accepted: the ledger says one token more than the wallet had, the wallet what the copy says. -/
theorem Run.lostUpdate {σ : Cfg} {wal w' : TokenWallet} {m N j : ℕ}
    (h0 : Initial db) (h : Run db σ wal 3 m N) (hm : m ≤ 2 ^ 64) (hwf : wal.WF) (hle : wal.reserved + 1 ≤ wal.balance) (hj : j < N)
    (hpark : Parked σ j w' (grantEntry w' 1 lateKey "" none none 0)) (hid : w'.id = wal.id) (ht : w'.tenantID = wal.tenantID)
    (hver : w'.version = stamp 2) (hb0 : 0 ≤ w'.balance) (hr0 : 0 ≤ w'.reserved) :
    ∃ σ' w, WalletReach db σ' ∧ Onward σ.world σ'.world ∧ w ∈ σ'.world.store.wallets ∧ w.tenantID = wal.tenantID ∧
      w.balance = w'.balance ∧ credited σ'.world.store w.id = wal.balance + 1 := by
  obtain ⟨σ₁, wal₁, m₁, N₁, σ₂, u, h1, hx, hf, hr2, hh2, hst⟩ := h.wraparound h0 hm hwf hle hj hpark hid ht hver hb0 hr0
  have hlast : σ₂.world.store.ledger = σ₁.world.store.ledger ++ [.ofEntry (grantEntry w' 1 lateKey "" none none 0 u)] := by
    rw [hst]
    rfl
  have honward : Onward σ.world σ₂.world := by
    refine ⟨fun e he => hh2 e (hx.onward.hist e he), fun r hr => ?_, by rw [hst]; exact hx.onward.grants⟩
    rw [hlast]
    exact mem_append_left _ (hx.onward.ledger r hr)
  refine ⟨σ₂, { wal₁ with balance := w'.balance, reserved := w'.reserved, version := w'.version, updatedAt := 0 }, hr2, honward,
    by rw [hst]; exact mem_singleton_self _, hf.tenantID, rfl, ?_⟩
  have hw1 : wal₁ ∈ σ₁.world.store.wallets := by
    rw [h1.calm.wallets]
    exact mem_singleton_self _
  have hcons := (worldInv_of_reach h0 h1.reach).store.conserved hw1 (by rw [h1.calm.rows, h1.calm.count]; decide)
  have hcred : credited σ₂.world.store w'.id = credited σ₁.world.store w'.id + 1 := credited_append hlast rfl
  show credited σ₂.world.store wal₁.id = _
  rw [hf.id, ← hid, hcred, hid, ← hf.id, ← hcons.balance, hf.balance]

/-- The bound is needed.  A grant of one token reads the wallet at version 1 and is left standing; two more grants and
`2 ^ 63 - 1` pairs of reserve and release bring the version back to 1.  Now its write is accepted: the two grants are
lost from the balance. -/
theorem conservation_fails_after_wraparound :
    ∃ db σ, Initial db ∧ WalletReach db σ ∧ ∃ w ∈ σ.world.store.wallets, w.balance ≠ credited σ.world.store w.id := by
  have h0 : Initial (freshDB []) := initial_freshDB .nil
  obtain ⟨σ, h, hp⟩ : ∃ σ, Run (freshDB []) σ ⟨uid 1, uid 1, 4, 0, 3, 0, 0⟩ 3 21 4 ∧
      Parked σ 1 ⟨uid 1, uid 1, 3, 0, 2, 0, 0⟩ (grantEntry ⟨uid 1, uid 1, 3, 0, 2, 0, 0⟩ 1 lateKey "" none none 0) :=
    ⟨plays (Conf.start (freshDB [])) 0 (onboarding ++ starts 1 (.grant (uid 1) 1 lateKey "") 3 ++ starts 2 (.grant (uid 1) 1 "first" "") 6 ++
      starts 3 (.grant (uid 1) 1 "second" "") 6), Run.played (by decide +kernel), ⟨_, _, rfl⟩, fun _ => ⟨rfl, rfl, rfl, rfl⟩⟩
  obtain ⟨σ', w, hr, -, hw, -, hbal, hcred⟩ :=
    Run.lostUpdate h0 h (by decide) ⟨by decide, by decide, by decide⟩ (by decide) (by decide) hp rfl rfl (by decide) (by decide) (by decide)
  refine ⟨freshDB [], σ', h0, hr, w, hw, ?_⟩
  rw [hbal, hcred]
  decide

end Crm.Wallet
