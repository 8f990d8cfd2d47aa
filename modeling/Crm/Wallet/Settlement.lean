import Crm.Wallet.Conservation

/-!
# Crm.Wallet.Settlement — a reservation is settled once

The check that a reservation is still open runs outside the transaction that settles it, and no index forbids two
settlement rows.  What forbids them is the version check: a copy that passes it had seen all rows of its wallet.
-/

namespace Crm.Wallet

open Int64Arith Interleave HoldLedger Crm.Store Crm.Grant List

def settlements (db : DB) (id : UUID) : List LedgerRow := db.ledger.filter (LedgerRow.settles id.string)

variable {db : DB} {id : UUID} {row : LedgerRow}

theorem settlements_eq (h : Ledgered db) (hrow : row ∈ db.ledger) (hh : Holds (some id.string) row) :
    settlements db id = (db.rows row.walletID).filter (LedgerRow.settles id.string) := by
  rw [settlements, DB.rows, filter_filter]
  refine filter_congr fun x hx => ?_
  rw [Bool.eq_iff_iff, Bool.and_eq_true, iff_self_and]
  intro hset
  obtain ⟨href, hk⟩ := settles_iff.mp hset
  obtain ⟨h0, hmem, hh0, hw⟩ := h.settled x hx hk
  rw [href] at hh0
  simp only [decide_eq_true_eq]
  rw [← hw, h.eq_of_ref hmem hrow hh0 hh]

theorem length_settlements (h : Ledgered db) (hrow : row ∈ db.ledger) (hh : Holds (some id.string) row)
    (hlen : (db.rows row.walletID).length ≤ versionHorizon) : (settlements db id).length ≤ 1 := by
  obtain ⟨w, hw, hid, -⟩ := h.owner row hrow
  rw [← hid] at hlen
  have honce := (h.acct w hw hlen).valid.settled_once (some id.string)
  have hcomp : Entry.settles (some id.string) ∘ entryOf = LedgerRow.settles id.string := by
    funext r
    cases hk : r.kind <;> simp [entryOf, hk, Entry.settles, LedgerRow.settles]
  rw [journal, filter_map, length_map, hcomp] at honce
  rw [settlements_eq h hrow hh, ← hid]
  exact honce

theorem settlements_singleton (hlen : (settlements db id).length ≤ 1) (hrow : row ∈ db.ledger) (hset : row.settles id.string = true) :
    settlements db id = [row] := by
  have hmem : row ∈ settlements db id := mem_filter.mpr ⟨hrow, hset⟩
  obtain ⟨x, hx⟩ := length_eq_one_iff.mp (le_antisymm hlen (length_pos_of_mem hmem))
  rw [hx, mem_singleton] at hmem
  rw [hx, hmem]

/-- **Exactly-once settlement.**  A reservation on a wallet with at most `2 ^ 64 + 1` ledger rows has at most one commit
or release row.  A commit or release of it that has responded either returned an error, or that single row has
its kind, key and amount. -/
theorem settled_exactly_once {db : DB} (h0 : Initial db) {σ : Cfg} (hr : WalletReach db σ) {t : UUID} {a : ℤ} {k : String}
    {r : Reservation} (hret : Returned t a k r σ.world)
    (hlen : (σ.world.store.rows r.walletID).length ≤ versionHorizon) :
    (settlements σ.world.store r.id).length ≤ 1 ∧
      (∀ i r' a' k' x, r'.id = r.id → .respond i (.commit (some r') a' k') x ∈ σ.world.hist →
        (∃ e, x = .error e) ∨ ∃ row, settlements σ.world.store r.id = [row] ∧
          row.kind = .commit ∧ row.idempotencyKey = k' ∧ row.amount = -a') ∧
      ∀ i r' k' x, r'.id = r.id → .respond i (.release (some r') k') x ∈ σ.world.hist →
        (∃ e, x = .error e) ∨ ∃ row, settlements σ.world.store r.id = [row] ∧
          row.kind = .release ∧ row.idempotencyKey = k' ∧ row.amount = r'.amount := by
  have hinv := worldInv_of_reach h0 hr
  obtain ⟨j, hj⟩ := hret
  obtain ⟨row₀, hb⟩ := hinv.kept j _ _ hj
  have hone := length_settlements hinv.store hb.mem hb.holds (hb.walletID ▸ hlen)
  refine ⟨hone, ?_, ?_⟩
  · intro i r' a' k' x hid hx
    cases x with
    | error e => exact .inl ⟨e, rfl⟩
    | ok _ =>
    obtain ⟨row, hrow, hs⟩ := hinv.kept i _ _ hx
    refine .inr ⟨row, settlements_singleton hone hrow ?_, hs.kind, hs.key, hs.amount⟩
    exact settles_iff.mpr ⟨hid ▸ hs.ref, .inl hs.kind⟩
  intro i r' k' x hid hx
  cases x with
  | error e => exact .inl ⟨e, rfl⟩
  | ok _ =>
  obtain ⟨row, hrow, hs⟩ := hinv.kept i _ _ hx
  refine .inr ⟨row, settlements_singleton hone hrow ?_, hs.kind, hs.key, hs.amount⟩
  exact settles_iff.mpr ⟨hid ▸ hs.ref, .inr hs.kind⟩

/-- The reservation of one token that a reserve after the onboarding returns. -/
def heldToken : Reservation := ⟨uid 7, uid 1, uid 1, 1, "hold", 0⟩

def holding : List (Turn Call) := onboarding ++ starts 1 (.reserve (uid 1) 1 "hold") 7

theorem settled_exactly_once_committed : ∃ σ r k, WalletReach (freshDB []) σ ∧
    (∃ t k, Returned t 1 k r σ.world) ∧ (∃ i, .respond i (.commit (some r) 1 k) (.ok ()) ∈ σ.world.hist) ∧
    ∃ row, settlements σ.world.store r.id = [row] ∧ row.kind = .commit ∧ row.idempotencyKey = k ∧ row.amount = -1 := by
  have h0 : Initial (freshDB []) := initial_freshDB .nil
  obtain ⟨hf, hret, hres, hlen⟩ : fairly (Conf.start (freshDB [])) 0 (holding ++ starts 2 (.commit (some heldToken) 1 "pay") 7) ∧
      (let w := (plays (Conf.start (freshDB [])) 0 (holding ++ starts 2 (.commit (some heldToken) 1 "pay") 7)).world
       w.result 1 (.reserve (uid 1) 1 "hold") = some (.ok heldToken) ∧ w.result 2 (.commit (some heldToken) 1 "pay") = some (.ok ()) ∧
        (w.store.rows (uid 1)).length ≤ versionHorizon) := by decide +kernel
  have hr := steps_plays _ _ _ hf
  have hmem := World.mem_of_result hres
  have hret' : Returned (uid 1) 1 "hold" heldToken _ := ⟨1, World.mem_of_result hret⟩
  rcases (settled_exactly_once h0 hr hret' hlen).2.1 _ _ _ _ _ rfl hmem with ⟨e, he⟩ | hrow
  · cases he
  · exact ⟨_, _, _, hr, ⟨_, _, hret'⟩, ⟨_, hmem⟩, hrow⟩

/-- The bound is needed.  A commit of a reservation has found it open at version 2 and is left standing; another commit settles
it, a grant follows, and `2 ^ 63 - 1` pairs of reserve and release bring the version back to 2.  Now the first commit's write
is accepted and settles the reservation again. -/
theorem settled_twice_after_wraparound : ∃ db σ t a k r, Initial db ∧ WalletReach db σ ∧ Returned t a k r σ.world ∧
    ¬ (settlements σ.world.store r.id).length ≤ 1 := by
  have h0 : Initial (freshDB []) := initial_freshDB .nil
  obtain ⟨σ, h, hret, ⟨row, hrow, href, hkey, hkind⟩, hp⟩ : ∃ σ, Run (freshDB []) σ ⟨uid 1, uid 1, 2, 0, 4, 0, 0⟩ 4 31 5 ∧
      σ.world.result 1 (.reserve (uid 1) 1 "hold") = some (.ok heldToken) ∧
      (∃ r ∈ σ.world.store.ledger, r.externalRef = some heldToken.id.string ∧ r.idempotencyKey = "pay" ∧ r.kind = .commit) ∧
      Parked σ 2 ⟨uid 1, uid 1, 1, 0, 3, 0, 0⟩ (settlementEntry ⟨uid 1, uid 1, 1, 0, 3, 0, 0⟩ .commit heldToken 1 lateKey 0) :=
    ⟨plays (Conf.start (freshDB [])) 0 (holding ++ starts 2 (.commit (some heldToken) 1 lateKey) 4 ++ starts 3 (.commit (some heldToken) 1 "pay") 7 ++
      starts 4 (.grant (uid 1) 1 "more" "") 6), Run.played (by decide +kernel), by decide +kernel, by decide +kernel, ⟨_, _, rfl⟩, fun _ => ⟨rfl, rfl, rfl, rfl⟩⟩
  obtain ⟨σ₁, wal₁, m₁, N₁, σ₂, u, h1, hx, -, hr2, hh2, hst⟩ := h.wraparound h0 (by decide) ⟨by decide, by decide, by decide⟩
    (by decide) (by decide) hp rfl rfl (by decide) (by decide) (by decide)
  refine ⟨freshDB [], σ₂, _, _, _, heldToken, h0, hr2, ⟨1, hh2 _ (hx.onward.hist _ (World.mem_of_result hret))⟩, fun hle => ?_⟩
  -- the row of the commit in between, and the one written last
  have hrow2 : row ∈ σ₂.world.store.ledger := by
    rw [hst]
    exact mem_append_left _ (hx.onward.ledger row hrow)
  have hfirst := settlements_singleton hle hrow2 (settles_iff.mpr ⟨href, .inl hkind⟩)
  have hmem : LedgerRow.ofEntry (settlementEntry ⟨uid 1, uid 1, 1, 0, 3, 0, 0⟩ .commit heldToken 1 lateKey 0 u) ∈ σ₂.world.store.ledger := by
    rw [hst]
    exact mem_append_right _ (mem_singleton_self _)
  have hlast := settlements_singleton hle hmem (settles_iff.mpr ⟨nullIfEmpty_string heldToken.id, .inl rfl⟩)
  rw [hfirst] at hlast
  have hlate := congrArg LedgerRow.idempotencyKey (List.cons.inj hlast).1
  exact absurd (hkey.symm.trans hlate) (by decide : "pay" ≠ lateKey)

end Crm.Wallet
