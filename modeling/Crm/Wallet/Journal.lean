import Crm.Lib.HoldLedger
import Crm.Grant.Apply
import Crm.Store.Spec

/-!
# Crm.Wallet.Journal — the ledger as a journal of holds, and the invariant of the tables

Each ledger row stands for one entry of a `HoldLedger` journal: a grant credits, a reserve row holds under its
`external_ref`, a commit row captures part of the hold and a release row voids it.  `Balanced w j` says that the wallet row `w`
carries the journal's funds and open holds; `Ledgered db` is the invariant of the tables.

The optimistic lock identifies a state of the wallet by a 64-bit version, which is the number of its ledger rows modulo
`2 ^ 64` (`Ledgered.version`).  A stale copy can pass for a fresh one only after `2 ^ 64` further writes, so the accounting
half of the invariant (`Ledgered.acct`) is stated for wallets with at most `versionHorizon` rows; every other half is
unconditional.
-/

namespace Crm.Wallet

open Int64Arith HoldLedger Crm.Store Crm.Grant List

def entryOf (r : LedgerRow) : Entry (Option String) :=
  match r.kind with
  | .grant => .credit r.amount
  | .reserve => .hold r.externalRef (-r.amount)
  | .commit => .capture r.externalRef (-r.amount)
  | .release => .void r.externalRef

def journal (db : DB) (walletID : UUID) : List (Entry (Option String)) := (db.rows walletID).map entryOf

/-- The wallet row carries the journal's totals. -/
structure Balanced (w : TokenWallet) (j : List (Entry (Option String))) : Prop where
  valid : Valid j
  balance : w.balance = funds j
  reserved : w.reserved = held j
  le_max : w.balance ≤ maxInt64

theorem Balanced.wf {w : TokenWallet} {j : List (Entry (Option String))} (h : Balanced w j) : w.WF := by
  refine ⟨?_, ?_, h.le_max⟩
  · rw [h.reserved]
    exact h.valid.held_nonneg
  · rw [h.reserved, h.balance]
    exact h.valid.held_le_funds

/-! ## The journal under the four mutations -/

section Mutations

variable {w w' : TokenWallet} {j : List (Entry (Option String))} {ref : Option String} {a b : ℤ}

theorem Balanced.credit (h : Balanced w j) (ha : 0 < a) (hle : a ≤ maxInt64 - w.balance)
    (hb : w'.balance = w.balance + a) (hr : w'.reserved = w.reserved) : Balanced w' (j ++ [.credit a]) where
  valid := h.valid.credit ha
  balance := by rw [hb, h.balance, funds_append]; rfl
  reserved := by rw [hr, h.reserved, held_credit]
  le_max := by omega

theorem Balanced.hold (h : Balanced w j) (ha : 0 < a) (hle : a ≤ w.balance - w.reserved)
    (hfree : ∀ b, .hold ref b ∉ j) (hb : w'.balance = w.balance) (hr : w'.reserved = w.reserved + a) :
    Balanced w' (j ++ [.hold ref a]) where
  valid := h.valid.hold ha (by rw [← h.balance, ← h.reserved]; exact hle) hfree
  balance := by rw [hb, h.balance, funds_append]; exact (add_zero _).symm
  reserved := by rw [hr, h.reserved, held_hold (h.valid.not_settled_of_no_hold hfree)]
  le_max := hb ▸ h.le_max

theorem Balanced.capture (h : Balanced w j) (hmem : .hold ref b ∈ j) (hopen : settled j ref = false) (ha : 0 < a)
    (hab : a ≤ b) (hb : w'.balance = w.balance - a) (hr : w'.reserved = w.reserved - b) :
    Balanced w' (j ++ [.capture ref a]) where
  valid := h.valid.capture hmem hopen ha hab
  balance := by rw [hb, h.balance, funds_append]; rfl
  reserved := by rw [hr, h.reserved, h.valid.held_capture hmem hopen]
  le_max := by have := h.le_max; omega

theorem Balanced.void (h : Balanced w j) (hmem : .hold ref b ∈ j) (hopen : settled j ref = false)
    (hb : w'.balance = w.balance) (hr : w'.reserved = w.reserved - b) : Balanced w' (j ++ [.void ref]) where
  valid := h.valid.void hmem hopen
  balance := by rw [hb, h.balance, funds_append]; exact (add_zero _).symm
  reserved := by rw [hr, h.reserved, h.valid.held_void hmem hopen]
  le_max := hb ▸ h.le_max

end Mutations

/-! ## The invariant of the tables -/

/-- Up to this many ledger rows a version identifies one state of a wallet. -/
def versionHorizon : ℕ := 2 ^ 64 + 1

def Holds (ref : Option String) (r : LedgerRow) : Prop := r.kind = .reserve ∧ r.externalRef = ref

structure CreditOf (g : MasterGrantRow) (r : LedgerRow) : Prop where
  kind : r.kind = .grant
  tenantID : r.tenantID = g.tenantID
  key : r.idempotencyKey = idempotencyKeyForGrant g.externalID
  amount : ∃ p, unmarshal g.payload = some p ∧ r.amount = readInt64Payload p "amount"

structure Ledgered (db : DB) : Prop where
  walletIDs : (db.wallets.map TokenWallet.id).Nodup
  tenants : (db.wallets.map TokenWallet.tenantID).Nodup
  nonNil : ∀ w ∈ db.wallets, w.id ≠ UUID.Nil ∧ w.tenantID ≠ UUID.Nil
  keys : (db.ledger.map fun r => (r.walletID, r.idempotencyKey)).Nodup
  owner : ∀ r ∈ db.ledger, ∃ w ∈ db.wallets, w.id = r.walletID ∧ w.tenantID = r.tenantID
  amounts : ∀ r ∈ db.ledger, InRange r.amount
  refs : ∀ r ∈ db.ledger, r.kind = .reserve → ∃ u : UUID, r.externalRef = some u.string
  refsOnce : ((db.ledger.filter fun r => r.kind = .reserve).map LedgerRow.externalRef).Nodup
  settled : ∀ r ∈ db.ledger, r.kind = .commit ∨ r.kind = .release →
    ∃ h ∈ db.ledger, Holds r.externalRef h ∧ h.walletID = r.walletID
  version : ∀ w ∈ db.wallets, 1 ≤ (db.rows w.id).length ∧ w.version = stamp (db.rows w.id).length
  acct : ∀ w ∈ db.wallets, (db.rows w.id).length ≤ versionHorizon → Balanced w (journal db w.id)
  grantIDs : (db.grants.map MasterGrantRow.id).Nodup
  credits : ∀ r ∈ db.ledger, ∀ g, r.masterGrantID = some g → ∃ gr ∈ db.grants, gr.id = g ∧ CreditOf gr r

section Rows

variable {db db' : DB} {row : LedgerRow}
variable {walletID : UUID}

theorem mem_rows {r : LedgerRow} : r ∈ db.rows walletID ↔ r ∈ db.ledger ∧ r.walletID = walletID := by
  simp [DB.rows]

theorem rows_append (h : db'.ledger = db.ledger ++ [row]) (walletID : UUID) :
    db'.rows walletID = db.rows walletID ++ if row.walletID = walletID then [row] else [] := by
  rw [DB.rows, h, filter_append, DB.rows]
  by_cases hr : row.walletID = walletID <;> simp [hr]

theorem rows_append_self (h : db'.ledger = db.ledger ++ [row]) :
    db'.rows row.walletID = db.rows row.walletID ++ [row] := by
  rw [rows_append h, if_pos rfl]

theorem rows_append_of_ne (h : db'.ledger = db.ledger ++ [row]) (hne : row.walletID ≠ walletID) : db'.rows walletID = db.rows walletID := by
  rw [rows_append h, if_neg hne, append_nil]

theorem journal_append_self (h : db'.ledger = db.ledger ++ [row]) :
    journal db' row.walletID = journal db row.walletID ++ [entryOf row] := by
  rw [journal, rows_append_self h, map_append]
  rfl

theorem journal_append_of_ne (h : db'.ledger = db.ledger ++ [row]) (hne : row.walletID ≠ walletID) : journal db' walletID = journal db walletID := by
  rw [journal, rows_append_of_ne h hne, journal]

theorem hold_mem_journal {ref : Option String} {b : ℤ} : .hold ref b ∈ journal db walletID ↔ ∃ r ∈ db.rows walletID, Holds ref r ∧ b = -r.amount := by
  simp only [journal, mem_map, Holds]
  constructor
  · rintro ⟨r, hr, h⟩
    cases hk : r.kind <;> simp only [entryOf, hk, reduceCtorEq] at h
    cases h
    exact ⟨r, hr, ⟨hk, rfl⟩, rfl⟩
  · rintro ⟨r, hr, ⟨hk, rfl⟩, rfl⟩
    exact ⟨r, hr, by simp [entryOf, hk]⟩

theorem settles_iff {ref : String} :
    row.settles ref = true ↔ row.externalRef = some ref ∧ (row.kind = .commit ∨ row.kind = .release) := by
  simp [LedgerRow.settles]

/-- The journal settles `ref` when some commit or release row carries it. -/
theorem settled_journal {ref : String} : HoldLedger.settled (journal db walletID) (some ref) = (db.rows walletID).any (LedgerRow.settles ref) := by
  simp only [HoldLedger.settled, journal, any_map]
  congr 1
  funext r
  cases hk : r.kind <;> simp [entryOf, hk, Entry.settles, LedgerRow.settles]

end Rows

namespace Ledgered

variable {db db' : DB} {w w' : TokenWallet} {row : LedgerRow}

theorem eq_of_id (h : Ledgered db) {a b : TokenWallet} (ha : a ∈ db.wallets) (hb : b ∈ db.wallets) (hab : a.id = b.id) :
    a = b := inj_on_of_nodup_map h.walletIDs ha hb hab

theorem eq_of_tenantID (h : Ledgered db) {a b : TokenWallet} (ha : a ∈ db.wallets) (hb : b ∈ db.wallets)
    (hab : a.tenantID = b.tenantID) : a = b := inj_on_of_nodup_map h.tenants ha hb hab

theorem eq_of_key (h : Ledgered db) {a b : LedgerRow} (ha : a ∈ db.ledger) (hb : b ∈ db.ledger)
    (hw : a.walletID = b.walletID) (hk : a.idempotencyKey = b.idempotencyKey) : a = b :=
  inj_on_of_nodup_map h.keys ha hb (Prod.ext hw hk)

theorem eq_of_ref (h : Ledgered db) {ref : Option String} {a b : LedgerRow} (ha : a ∈ db.ledger) (hb : b ∈ db.ledger)
    (hha : Holds ref a) (hhb : Holds ref b) : a = b :=
  inj_on_of_nodup_map h.refsOnce (mem_filter.mpr ⟨ha, by simp [hha.1]⟩)
    (mem_filter.mpr ⟨hb, by simp [hhb.1]⟩) (hha.2.trans hhb.2.symm)

theorem tenantID_of_mem (h : Ledgered db) {r : LedgerRow} (hr : r ∈ db.ledger) (hw : w ∈ db.wallets)
    (hid : w.id = r.walletID) : w.tenantID = r.tenantID := by
  obtain ⟨w₀, hw0, hid0, ht0⟩ := h.owner r hr
  rwa [h.eq_of_id hw hw0 (hid.trans hid0.symm)]

/-- What the new row must satisfy, by its kind. -/
structure RowOK (db : DB) (w w' : TokenWallet) (row : LedgerRow) : Prop where
  amount : InRange row.amount
  ref : row.kind = .reserve →
    (∃ u : UUID, row.externalRef = some u.string) ∧ ∀ r ∈ db.ledger, ¬ Holds row.externalRef r
  settled : row.kind = .commit ∨ row.kind = .release →
    ∃ h ∈ db.ledger, Holds row.externalRef h ∧ h.walletID = row.walletID
  version : w'.version = wrap (w.version + 1)
  acct : (db.rows w.id).length < versionHorizon → Balanced w (journal db w.id) →
    Balanced w' (journal db w.id ++ [entryOf row])
  credit : ∀ g, row.masterGrantID = some g → ∃ gr ∈ db.grants, gr.id = g ∧ CreditOf gr row

/-- One more row of the ledger, and `w'` in the place of `w` or as a wallet without any row so far. -/
theorem extend (h : Ledgered db) (hl : db'.ledger = db.ledger ++ [row]) (hg : db'.grants = db.grants) (hok : RowOK db w w' row)
    (hwallet : row.walletID = w.id) (hid : w'.id = w.id) (hversion : w.version = stamp (db.rows w.id).length)
    (hacct : (db.rows w.id).length ≤ versionHorizon → Balanced w (journal db w.id))
    (hkey : ∀ r ∈ db.ledger, r.walletID = w.id → r.idempotencyKey ≠ row.idempotencyKey) (hids : (db'.wallets.map TokenWallet.id).Nodup)
    (htenants : (db'.wallets.map TokenWallet.tenantID).Nodup) (hnil : w'.id ≠ UUID.Nil ∧ w'.tenantID ≠ UUID.Nil)
    (hcases : ∀ v ∈ db'.wallets, v = w' ∨ v ∈ db.wallets ∧ v.id ≠ w.id)
    (hkeep : ∀ v ∈ db.wallets, ∃ v' ∈ db'.wallets, v'.id = v.id ∧ v'.tenantID = v.tenantID)
    (howner : ∃ v ∈ db'.wallets, v.id = row.walletID ∧ v.tenantID = row.tenantID) : Ledgered db' := by
  have hrow : ∀ r ∈ db'.ledger, r ∈ db.ledger ∨ r = row := by
    intro r hr
    rw [hl] at hr
    simpa using hr
  have hself : db'.rows w.id = db.rows w.id ++ [row] := hwallet ▸ rows_append_self hl
  have hne : ∀ {v : TokenWallet}, v.id ≠ w.id → row.walletID ≠ v.id := fun hv => by rw [hwallet]; exact hv.symm
  constructor
  case walletIDs => exact hids
  case tenants => exact htenants
  case nonNil =>
    intro v hv
    rcases hcases v hv with rfl | ⟨hv, -⟩
    · exact hnil
    · exact h.nonNil v hv
  case keys =>
    rw [hl, map_append]
    refine nodup_append_singleton.mpr ⟨?_, h.keys⟩
    simp only [mem_map, not_exists, not_and]
    intro r hr heq
    have heq := Prod.mk.inj heq
    exact hkey r hr (heq.1.trans hwallet) heq.2
  case owner =>
    intro r hr
    rcases hrow r hr with hr | rfl
    · obtain ⟨v, hv, h1, h2⟩ := h.owner r hr
      obtain ⟨v', hv', h1', h2'⟩ := hkeep v hv
      exact ⟨v', hv', h1'.trans h1, h2'.trans h2⟩
    · exact howner
  case amounts =>
    intro r hr
    rcases hrow r hr with hr | rfl
    · exact h.amounts r hr
    · exact hok.amount
  case refs =>
    intro r hr hk
    rcases hrow r hr with hr | rfl
    · exact h.refs r hr hk
    · exact (hok.ref hk).1
  case refsOnce =>
    rw [hl, filter_append]
    by_cases hk : row.kind = .reserve
    · have hf : [row].filter (fun r => r.kind = .reserve) = [row] := by simp [hk]
      rw [hf, map_append]
      refine nodup_append_singleton.mpr ⟨?_, h.refsOnce⟩
      simp only [mem_map, mem_filter, not_exists, not_and]
      intro r hr heq
      exact (hok.ref hk).2 r hr.1 ⟨by simpa using hr.2, heq⟩
    · have hf : [row].filter (fun r => r.kind = .reserve) = [] := by simp [hk]
      rw [hf, append_nil]
      exact h.refsOnce
  case settled =>
    intro r hr hk
    obtain ⟨h0, hmem, h1, h2⟩ : ∃ h ∈ db.ledger, Holds r.externalRef h ∧ h.walletID = r.walletID := by
      rcases hrow r hr with hr | rfl
      · exact h.settled r hr hk
      · exact hok.settled hk
    exact ⟨h0, hl ▸ mem_append_left _ hmem, h1, h2⟩
  case version =>
    intro v hv
    rcases hcases v hv with rfl | ⟨hv, hv'⟩
    · rw [hid, hself, length_append, length_singleton, hok.version, hversion, stamp_succ]
      exact ⟨by omega, rfl⟩
    · rw [rows_append_of_ne hl (hne hv')]
      exact h.version v hv
  case acct =>
    intro v hv hlen
    rcases hcases v hv with rfl | ⟨hv, hv'⟩
    · rw [hid, hself, length_append, length_singleton] at hlen
      rw [hid, ← hwallet, journal_append_self hl, hwallet]
      exact hok.acct hlen (hacct (by omega))
    · rw [rows_append_of_ne hl (hne hv')] at hlen
      rw [journal_append_of_ne hl (hne hv')]
      exact h.acct v hv hlen
  case grantIDs => rw [hg]; exact h.grantIDs
  case credits =>
    intro r hr g hr'
    rw [hg]
    rcases hrow r hr with hr | rfl
    · exact h.credits r hr g hr'
    · exact hok.credit g hr'

/-- **One write keeps the invariant.** -/
theorem append (h : Ledgered db) (ha : Appended db w w' row db') (hok : RowOK db w w' row) : Ledgered db' := by
  refine h.extend ha.ledger ha.grants hok ha.rowWallet ha.id (h.version w ha.mem).2 (h.acct w ha.mem) ha.keyFree ?_ ?_ ?_ (fun v hv => ?_) (fun v hv => ?_)
    ⟨w', ha.mem_wallets, ha.id.trans ha.rowWallet.symm, ha.tenantID.trans ha.rowTenant.symm⟩
  · rw [ha.map_wallets h.walletIDs _ ha.id]
    exact h.walletIDs
  · rw [ha.map_wallets h.walletIDs _ ha.tenantID]
    exact h.tenants
  · rw [ha.id, ha.tenantID]
    exact h.nonNil w ha.mem
  · rw [ha.wallets, mem_map] at hv
    obtain ⟨r, hr, rfl⟩ := hv
    by_cases hc : r.id = w.id
    · exact .inl (if_pos hc)
    · rw [if_neg hc]
      exact .inr ⟨hr, hc⟩
  by_cases hc : v.id = w.id
  · obtain rfl := h.eq_of_id hv ha.mem hc
    exact ⟨w', ha.mem_wallets, ha.id, ha.tenantID⟩
  · exact ⟨v, ha.wallets ▸ mem_map.mpr ⟨v, hv, if_neg hc⟩, rfl, rfl⟩

/-- **Onboarding keeps the invariant.**  The wallet stands for one that had nothing and no row. -/
theorem opened (h : Ledgered db) (ho : Opened db w row db') (hw : w.id ≠ UUID.Nil) (ht : w.tenantID ≠ UUID.Nil)
    (hle : w.balance ≤ maxInt64) : Ledgered db' := by
  have hnil : db.rows w.id = [] := by
    rw [DB.rows, filter_eq_nil_iff]
    intro r hr hrw
    obtain ⟨v, hv, hid, -⟩ := h.owner r hr
    exact ho.idFree v hv (hid.trans (by simpa using hrw))
  have hjournal : journal db w.id = [] := by rw [journal, hnil, map_nil]
  let blank : TokenWallet := { w with balance := 0, reserved := 0, version := 0 }
  have hblank : Balanced blank [] := ⟨.nil, rfl, rfl, show (0 : ℤ) ≤ maxInt64 by decide⟩
  have hok : RowOK db blank w row := by
    refine ⟨?_, by simp [ho.kind], by simp [ho.kind], ho.version, fun _ hb => ?_, by simp [ho.masterGrantID]⟩
    · rw [ho.amount]
      exact ⟨le_trans (by decide) ho.pos.le, hle⟩
    · rw [entryOf, ho.kind, ho.amount]
      exact hb.credit ho.pos (by simpa [blank] using hle) (by simp [blank]) ho.reserved
  have hmem : w ∈ db'.wallets := by rw [ho.wallets]; exact mem_append_right _ (mem_singleton_self w)
  refine h.extend (w := blank) ho.ledger ho.grants hok ho.rowWallet rfl (by rw [hnil]; rfl) (fun _ => hjournal ▸ hblank) ho.keyFree ?_ ?_ ⟨hw, ht⟩
    (fun v hv => ?_) (fun v hv => ⟨v, by rw [ho.wallets]; exact mem_append_left _ hv, rfl, rfl⟩) ⟨w, hmem, ho.rowWallet.symm, ho.rowTenant.symm⟩
  · rw [ho.wallets, map_append]
    exact nodup_append_singleton.mpr ⟨by simpa using ho.idFree, h.walletIDs⟩
  · rw [ho.wallets, map_append]
    exact nodup_append_singleton.mpr ⟨by simpa using ho.tenantFree, h.tenants⟩
  rw [ho.wallets] at hv
  rcases mem_append.mp hv with hv | hv
  · exact .inr ⟨hv, ho.idFree v hv⟩
  · exact .inl (by simpa using hv)

/-- **Writes to grants and subscriptions keep the invariant.** -/
theorem regranted (h : Ledgered db) (hr : Regranted db db') : Ledgered db' := by
  have hrows : ∀ id, db'.rows id = db.rows id := fun id => by rw [DB.rows, hr.ledger, DB.rows]
  have hj : ∀ id, journal db' id = journal db id := fun id => by rw [journal, hrows, journal]
  constructor
  case credits =>
    rw [hr.ledger]
    intro r hmem g hg
    obtain ⟨gr, hgr, hid, hc⟩ := h.credits r hmem g hg
    obtain ⟨gr', hgr', hs⟩ := hr.kept gr hgr
    exact ⟨gr', hgr', hs.id.trans hid,
      ⟨hc.kind, hc.tenantID.trans hs.tenantID.symm, by rw [hs.externalID]; exact hc.key, by rw [hs.payload]; exact hc.amount⟩⟩
  case grantIDs => exact hr.grantIDs h.grantIDs
  all_goals simp only [hr.wallets, hr.ledger, hrows, hj]
  · exact h.walletIDs
  · exact h.tenants
  · exact h.nonNil
  · exact h.keys
  · exact h.owner
  · exact h.amounts
  · exact h.refs
  · exact h.refsOnce
  · exact h.settled
  · exact h.version
  · exact h.acct

end Ledgered

end Crm.Wallet
