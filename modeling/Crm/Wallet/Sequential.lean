import Crm.Store.Spec
import Crm.Wallet.Replay

/-!
# Crm.Wallet.Sequential — wallet operations one after another

What `Reserve`, `Commit` and `Release` leave behind when nothing else runs while they do.  The copy of the wallet row that a pass
has loaded is then the stored row, so the counters it writes are exact (`apply_alone`), a pass that is repeated has left the
tables alone (`retry_ensures`), and a call has written at most one ledger row (`Posted`).
-/

namespace Crm.Wallet

open Int64Arith Interleave Interleave.Prog Crm.Store List

/-- An identifier drawn is none that the ledger refers to. -/
def FreshDraw : (q : Req) → Resp q → DB → Prop
  | .newUUID, u, s => ∀ row ∈ s.ledger, row.externalRef ≠ some u.string
  | _, _, _ => True

/-- The store under a random source that does not repeat itself. -/
def freshExec (q : Req) (s : DB) (r : Resp q) (s' : DB) : Prop := exec q s r s' ∧ FreshDraw q r s

/-- The constraints of the two tables and the invariants of the wallets. -/
structure Sound (db : DB) : Prop where
  walletIDs : (db.wallets.map TokenWallet.id).Nodup
  tenants : (db.wallets.map TokenWallet.tenantID).Nodup
  nonNil : ∀ w ∈ db.wallets, w.id ≠ UUID.Nil ∧ w.tenantID ≠ UUID.Nil
  wf : ∀ w ∈ db.wallets, w.WF
  owner : ∀ r ∈ db.ledger, ∃ w ∈ db.wallets, w.id = r.walletID ∧ w.tenantID = r.tenantID
  refs : ∀ r ∈ db.ledger, r.kind = .reserve → ∃ u : UUID, r.externalRef = some u.string

/-- Nothing was written, or one row together with its well-formed wallet. -/
def Posted (s s' : DB) : Prop :=
  s' = s ∨ ∃ w w' row, Appended s w w' row s' ∧ w'.WF ∧ (row.kind = .reserve → ∃ u : UUID, row.externalRef = some u.string)

section Sound

variable {s s' : DB} {w w' : TokenWallet} {row : LedgerRow}

theorem Sound.eq_of_tenantID (h : Sound s) {a b : TokenWallet} (ha : a ∈ s.wallets) (hb : b ∈ s.wallets)
    (hab : a.tenantID = b.tenantID) : a = b := inj_on_of_nodup_map h.tenants ha hb hab

theorem Sound.balance_eq (h : Sound s) (hw : w ∈ s.wallets) : s.balance w.tenantID = some w.balance := by
  unfold DB.balance
  cases hf : s.wallets.find? fun v => v.tenantID = w.tenantID with
  | none =>
    have := find?_eq_none.mp hf w hw
    simp at this
  | some v =>
  have hv : v.tenantID = w.tenantID := by simpa using find?_some hf
  rw [h.eq_of_tenantID (mem_of_find?_eq_some hf) hw hv]
  rfl

theorem Sound.append (h : Sound s) (ha : Appended s w w' row s') (hwf : w'.WF)
    (href : row.kind = .reserve → ∃ u : UUID, row.externalRef = some u.string) : Sound s' where
  walletIDs := by
    rw [ha.map_wallets h.walletIDs _ ha.id]
    exact h.walletIDs
  tenants := by
    rw [ha.map_wallets h.walletIDs _ ha.tenantID]
    exact h.tenants
  nonNil := by
    intro v hv
    rcases ha.wallets_cases hv with rfl | hv
    · rw [ha.id, ha.tenantID]
      exact h.nonNil w ha.mem
    · exact h.nonNil v hv
  wf := by
    intro v hv
    rcases ha.wallets_cases hv with rfl | hv
    · exact hwf
    · exact h.wf v hv
  owner := by
    -- the owner of a row is still there, updated if it is the wallet of the write
    have hkeep : ∀ v ∈ s.wallets, ∃ v' ∈ s'.wallets, v'.id = v.id ∧ v'.tenantID = v.tenantID := by
      intro v hv
      by_cases hid : v.id = w.id
      · rw [inj_on_of_nodup_map h.walletIDs hv ha.mem hid]
        exact ⟨w', ha.mem_wallets, ha.id, ha.tenantID⟩
      · refine ⟨v, ?_, rfl, rfl⟩
        rw [ha.wallets]
        exact mem_map.mpr ⟨v, hv, if_neg hid⟩
    intro r hr
    rw [ha.ledger] at hr
    rcases mem_append.mp hr with hr | hr
    · obtain ⟨v, hv, hid, ht⟩ := h.owner r hr
      obtain ⟨v', hv', hid', ht'⟩ := hkeep v hv
      exact ⟨v', hv', hid'.trans hid, ht'.trans ht⟩
    · obtain rfl := mem_singleton.mp hr
      exact ⟨w', ha.mem_wallets, ha.id.trans ha.rowWallet.symm, ha.tenantID.trans ha.rowTenant.symm⟩
  refs := by
    intro r hr
    rw [ha.ledger] at hr
    rcases mem_append.mp hr with hr | hr
    · exact h.refs r hr
    · obtain rfl := mem_singleton.mp hr
      exact href

theorem Posted.sound (h : Posted s s') (hs : Sound s) : Sound s' := by
  rcases h with rfl | ⟨w, w', row, ha, hwf, href⟩
  · exact hs
  · exact hs.append ha hwf href

end Sound

/-! ## One write -/

/-- The write of a pass that has loaded `w` and computed the counters `balance` and `reserved`. -/
def Lands (s : DB) (w : TokenWallet) (balance reserved : ℤ) (e : LedgerEntry) (s' : DB) : Prop :=
  ∃ w', Appended s w w' (.ofEntry e) s' ∧ w'.balance = balance ∧ w'.reserved = reserved

section Apply

variable {s s' : DB} {w w₁ : TokenWallet} {balance reserved : ℤ} {e : LedgerEntry} {r : Except Err Unit}

/-- **Alone**, a write lands on the row it was computed from. -/
theorem apply_alone (hs : Sound s) (hw : w ∈ s.wallets) (hb : w.Bumped balance reserved w₁) (he : e.walletID = w.id)
    (h : exec (.applyWithLock w₁ [e]) s r s') :
    (s' = s ∨ Lands s w balance reserved e s') ∧ (r = .ok () → Lands s w balance reserved e s') ∧
      ∀ err, r = .error err → retryable err = true → s' = s := by
  obtain ⟨dbNow, htx⟩ := h
  have hok : ∀ u, s.applyWithLock w₁ [e] dbNow = .ok (u, s') → Lands s w balance reserved e s' := by
    intro u hu
    obtain ⟨p, -, -, -, hid, -, ha⟩ := DB.applyWithLock_ok hs.walletIDs (he.trans hb.id.symm) hu
    obtain rfl : p = w := inj_on_of_nodup_map hs.walletIDs ha.mem hw (hid.trans hb.id)
    exact ⟨_, ha, hb.balance, hb.reserved⟩
  refine ⟨?_, ?_, ?_⟩
  · rcases htx.store_cases with h | ⟨u, hu⟩
    · exact .inl h
    · exact .inr (hok u hu)
  · rintro rfl
    exact hok _ htx.of_ok
  · rintro err rfl hr
    exact (htx.of_error (not_fault_of_retryable hr)).2

theorem Lands.posted (h : Lands s w balance reserved e s') (hwf : 0 ≤ reserved ∧ reserved ≤ balance ∧ balance ≤ maxInt64)
    (href : e.kind = .reserve → ∃ u : UUID, e.externalRef = u.string) : Posted s s' := by
  obtain ⟨w', ha, rfl, rfl⟩ := h
  refine .inr ⟨w, w', _, ha, hwf, fun hk => ?_⟩
  obtain ⟨u, hu⟩ := href hk
  refine ⟨u, ?_⟩
  rw [LedgerRow.ofEntry, hu, nullIfEmpty_string]

end Apply

/-! ## The retry loop -/

/-- A pass that is repeated has left the tables alone; one that is not has done its work. -/
def PassEnds {α : Type} (s : DB) (P : Except Err α → DB → Prop) : Attempt (Except Err α) → DB → Prop
  | .again _, s' => s' = s
  | .done x, s' => P x s'

variable {α : Type} {s s' : DB} {P : Except Err α → DB → Prop} {attempt : Client (Attempt (Except Err α))} {a : ℤ} {t : UUID} {k : String}
  {r : Reservation}

theorem retry_ensures {msg : String} (h : Ensures freshExec attempt s fun _ => PassEnds s P) (hexhausted : ∀ e, P (.error e) s) :
    ∀ (n : ℕ) (last : Option Err), Ensures freshExec (retry msg attempt n last) s fun _ => P
  | 0, _ => .ret (hexhausted _)
  | n + 1, _ => by
    refine Ensures.bind h fun _ x s' hx => ?_
    cases x with
    | done x => exact .ret hx
    | again e =>
    rw [show s' = s from hx]
    exact retry_ensures h hexhausted n _

theorem settle_ends {r : Except Err Unit} {a : α} (hagain : ∀ e, r = .error e → retryable e = true → s' = s) (hok : r = .ok () → P (.ok a) s')
    (herr : ∀ e, P (.error e) s') : PassEnds s P (settle r a) s' := by
  cases r with
  | ok u => exact hok rfl
  | error e =>
  unfold settle
  dsimp only
  split_ifs with hr
  · exact hagain e rfl hr
  · exact herr e

/-! ## Reserve -/

/-- What a `Reserve` that answered `r` has left: the row it found under the key, or a new one under a new identifier. -/
inductive Reserved (t : UUID) (k : String) (r : Reservation) (s : DB) : DB → Prop
  | found {row : LedgerRow} (mem : row ∈ s.ledger) (tenantID : row.tenantID = t) (key : row.idempotencyKey = k)
      (holds : Holds (some r.id.string) row) : Reserved t k r s s
  | opened {w w' : TokenWallet} {row : LedgerRow} {s' : DB} (h : Appended s w w' row s') (tenantID : w.tenantID = t)
      (balance : w'.balance = w.balance) (kind : row.kind = .reserve)
      (fresh : ∀ row ∈ s.ledger, row.externalRef ≠ some r.id.string) : Reserved t k r s s'

def ReserveEnds (t : UUID) (a : ℤ) (k : String) (s : DB) (x : Except Err Reservation) (s' : DB) : Prop :=
  Posted s s' ∧ ∀ r, x = .ok r → r.tenantID = t ∧ r.amount = a ∧ 0 < a ∧ Reserved t k r s s'

theorem ReserveEnds.error {e : Err} (h : Posted s s') : ReserveEnds t a k s (.error e) s' :=
  ⟨h, fun _ hr => nomatch hr⟩

theorem replayReserve_ends (hs : Sound s) (ha : 0 < a) {row : LedgerRow} (hmem : row ∈ s.ledger) (ht : row.tenantID = t) (hk : row.idempotencyKey = k) :
    ReserveEnds t a k s (replayReserve row.decode a k) s := by
  refine ⟨.inl rfl, fun r hr => ?_⟩
  unfold replayReserve at hr
  split_ifs at hr with hkind hamount
  push Not at hkind
  obtain ⟨u, hu⟩ := hs.refs row hmem hkind
  have hparse : UUID.parse row.decode.externalRef = some u := by
    rw [← UUID.parse_string u]
    simp [LedgerRow.decode, hu]
  rw [hparse] at hr
  cases hr
  exact ⟨ht, rfl, ha, .found hmem ht hk ⟨hkind, hu⟩⟩

theorem reserveAttempt_ensures (hs : Sound s) (hpos : 0 < a) :
    Ensures freshExec (reserveAttempt t a k) s fun _ => PassEnds s (ReserveEnds t a k s) := by
  simp only [reserveAttempt, send_bind, pure_eq]
  refine .ask ?_
  rintro r s₁ ⟨hx, -⟩
  obtain rfl : s₁ = s := hx.1
  cases r with
  | error e => exact .ret (ReserveEnds.error (.inl rfl))
  | ok w =>
  obtain ⟨-, hw, ht⟩ := DB.loadByTenant_ok hx.of_ok
  refine .ask ?_
  rintro r s₂ ⟨hx2, -⟩
  obtain rfl : s₂ = s₁ := hx2.1
  cases r with
  | ok prior =>
    obtain ⟨row, hmem, hrt, -, hrk, rfl⟩ := DB.lookupByIdempotencyKey_ok hx2.of_ok
    exact .ret (replayReserve_ends hs hpos hmem hrt hrk)
  | error e =>
  dsimp only
  split_ifs
  swap
  · exact .ret (ReserveEnds.error (.inl rfl))
  refine .ask ?_
  rintro now s₃ ⟨hx3, -⟩
  obtain rfl : s₃ = s₂ := hx3
  split
  · exact .ret (ReserveEnds.error (.inl rfl))
  rename_i w₁ hres
  obtain ⟨-, hle, hb⟩ := TokenWallet.reserve_bumped hres
  refine .ask ?_
  rintro rid s₄ ⟨hx4, hfresh⟩
  obtain rfl : s₄ = s₃ := hx4
  refine .ask ?_
  rintro entryID s₅ ⟨hx5, -⟩
  obtain rfl : s₅ = s₄ := hx5
  refine .ask ?_
  rintro r s' ⟨hx6, -⟩
  obtain ⟨hstore, hok, hagain⟩ := apply_alone hs hw hb (show (reserveEntry w₁ a k now rid entryID).walletID = w.id from hb.id) hx6
  have hwf := hs.wf w hw
  have hwrap : wrap (w.balance - w.reserved) = w.balance - w.reserved := wrap_of_inRange hwf.inRange.1
  rw [hwrap] at hle
  obtain ⟨h0, h1, h2⟩ := hwf
  have hadd : wrap (w.reserved + a) = w.reserved + a := wrap_of_inRange ⟨by unfold minInt64; omega, by omega⟩
  have hposted : Posted s₅ s' := by
    rcases hstore with rfl | hl
    · exact .inl rfl
    · exact hl.posted ⟨by omega, by omega, h2⟩ fun _ => ⟨rid, rfl⟩
  refine .ret (settle_ends hagain (fun hr => ⟨hposted, fun r hr' => ?_⟩) fun e => .error hposted)
  cases hr'
  obtain ⟨w', ha, hbal, -⟩ := hok hr
  exact ⟨hb.tenantID.trans ht, rfl, hpos, .opened ha ht hbal rfl hfresh⟩

theorem reserve_ensures (hs : Sound s) (t : UUID) (a : ℤ) (k : String) : Ensures freshExec (reserve t a k) s fun _ => ReserveEnds t a k s := by
  unfold reserve
  split_ifs with _ ha
  · exact .ret (.error (.inl rfl))
  · exact .ret (.error (.inl rfl))
  · split
    · exact .ret (.error (.inl rfl))
    · exact retry_ensures (reserveAttempt_ensures hs (not_le.mp ha)) (fun _ => .error (.inl rfl)) _ _

/-! ## Commit and Release -/

/-- The head that `Commit` and `Release` share. -/
theorem settlingPass_ensures {key : String} {replay : LedgerEntry → Except Err Unit} {k : TokenWallet → Client (Attempt (Except Err Unit))}
    {P : Except Err Unit → DB → Prop} (herr : ∀ e, P (.error e) s) (hreplay : ∀ row ∈ s.ledger, P (replay row.decode) s)
    (hk : ∀ w ∈ s.wallets, w.tenantID = r.tenantID → Ensures freshExec (k w) s fun _ => PassEnds s P) :
    Ensures freshExec (settlingPass r key replay k) s fun _ => PassEnds s P := by
  simp only [settlingPass, send_bind, pure_eq]
  refine .ask ?_
  rintro x s₁ ⟨hx, -⟩
  obtain rfl : s₁ = s := hx.1
  cases x with
  | error e => exact .ret (herr _)
  | ok w =>
  obtain ⟨-, hw, ht⟩ := DB.loadByTenant_ok hx.of_ok
  dsimp only
  split_ifs
  · exact .ret (herr _)
  refine .ask ?_
  rintro x s₂ ⟨hx2, -⟩
  obtain rfl : s₂ = s₁ := hx2.1
  cases x with
  | ok prior =>
    obtain ⟨row, hmem, -, -, -, rfl⟩ := DB.lookupByIdempotencyKey_ok hx2.of_ok
    exact .ret (hreplay row hmem)
  | error e =>
  dsimp only
  split_ifs
  swap
  · exact .ret (herr _)
  refine .ask ?_
  rintro x s₃ ⟨hx3, -⟩
  obtain rfl : s₃ = s₂ := hx3.1
  cases x with
  | ok prior => exact .ret (herr _)
  | error e =>
  dsimp only
  split_ifs
  · exact hk w hw ht
  · exact .ret (herr _)

/-- What a `Commit` of `r` that answered without error has left, if `r` was open: a commit row, paid from the balance. -/
structure Committed (r : Reservation) (a : ℤ) (s : DB) (w w' : TokenWallet) (row : LedgerRow) (s' : DB) : Prop where
  appended : Appended s w w' row s'
  tenantID : w.tenantID = r.tenantID
  balance : w'.balance = w.balance - a
  kind : row.kind = .commit
  ref : row.externalRef = some r.id.string
  amount : row.amount = -a

def CommitEnds (r : Reservation) (a : ℤ) (s : DB) (x : Except Err Unit) (s' : DB) : Prop :=
  Posted s s' ∧ (x = .ok () → (∃ row ∈ s.ledger, row.settles r.id.string = true) ∨ ∃ w w' row, Committed r a s w w' row s')

theorem CommitEnds.error {e : Err} (h : Posted s s') : CommitEnds r a s (.error e) s' :=
  ⟨h, fun hr => nomatch hr⟩

theorem replayCommit_ends {row : LedgerRow} (hmem : row ∈ s.ledger) : CommitEnds r a s (replayCommit row.decode r a) s := by
  refine ⟨.inl rfl, fun hr => .inl ⟨row, hmem, ?_⟩⟩
  unfold replayCommit at hr
  split_ifs at hr with hkind href
  push Not at hkind href
  have hsome : row.externalRef = some r.id.string := by
    cases hext : row.externalRef with
    | none =>
      simp only [LedgerRow.decode, hext, Option.getD_none] at href
      exact absurd href.symm (string_ne_empty r.id)
    | some ref =>
    simp only [LedgerRow.decode, hext, Option.getD_some] at href
    rw [href]
  exact decide_eq_true ⟨hsome, .inl hkind⟩

theorem commitAttempt_ensures (hs : Sound s) : Ensures freshExec (commitAttempt r a k) s fun _ => PassEnds s (CommitEnds r a s) := by
  refine settlingPass_ensures (fun _ => .error (.inl rfl)) (fun row hmem => replayCommit_ends hmem) fun w hw ht => ?_
  simp only [send_bind, pure_eq]
  refine .ask ?_
  rintro now s₁ ⟨hx1, -⟩
  obtain rfl : s₁ = s := hx1
  split
  · refine .ret ?_
    split_ifs
    · rfl
    · exact CommitEnds.error (.inl rfl)
  rename_i w₁ hcom
  obtain ⟨hpos, hle, hres, hb⟩ := TokenWallet.commit_bumped hcom
  refine .ask ?_
  rintro entryID s₂ ⟨hx2, -⟩
  obtain rfl : s₂ = s₁ := hx2
  refine .ask ?_
  rintro x s' ⟨hx3, -⟩
  obtain ⟨hstore, hok, hagain⟩ := apply_alone hs hw hb
    (show (settlementEntry w₁ .commit r a k now entryID).walletID = w.id from hb.id) hx3
  obtain ⟨h0, h1, h2⟩ := hs.wf w hw
  have hbal : wrap (w.balance - a) = w.balance - a := wrap_of_inRange ⟨by unfold minInt64; omega, by omega⟩
  have hrest : wrap (w.reserved - r.amount) = w.reserved - r.amount := wrap_of_inRange ⟨by unfold minInt64; omega, by omega⟩
  have hneg : wrap (-a) = -a := wrap_of_inRange ⟨by unfold minInt64; unfold maxInt64 at h2; omega, by unfold maxInt64; omega⟩
  have hposted : Posted s₂ s' := by
    rcases hstore with rfl | hl
    · exact .inl rfl
    · exact hl.posted ⟨by omega, by omega, by omega⟩ (by rintro ⟨⟩)
  cases x with
  | error e => exact .ret (settle_ends hagain (by rintro ⟨⟩) fun e => .error hposted)
  | ok u =>
  have hdone : CommitEnds r a s₂ (.ok ()) s' := by
    refine ⟨hposted, fun _ => .inr ?_⟩
    obtain ⟨w', ha, hb', -⟩ := hok rfl
    refine ⟨w, w', _, ha, ht, hb'.trans hbal, rfl, ?_, hneg⟩
    exact nullIfEmpty_string r.id
  simp only [maybePublishDepleted]
  split_ifs
  · refine .ask ?_
    rintro _ s'' ⟨hx4, -⟩
    obtain rfl : s'' = s' := hx4
    exact .ret hdone
  · exact .ret hdone

theorem commit_ensures (hs : Sound s) (r : Reservation) (a : ℤ) (k : String) :
    Ensures freshExec (commit (some r) a k) s fun _ => CommitEnds r a s := by
  unfold commit
  dsimp only
  split_ifs
  · exact .ret (.error (.inl rfl))
  · exact .ret (.error (.inl rfl))
  · split
    · exact .ret (.error (.inl rfl))
    · exact retry_ensures (commitAttempt_ensures hs) (fun _ => .error (.inl rfl)) _ _

theorem releaseAttempt_ensures (hs : Sound s) : Ensures freshExec (releaseAttempt r k) s fun _ => PassEnds s fun _ => Posted s := by
  refine settlingPass_ensures (fun _ => .inl rfl) (fun _ _ => .inl rfl) fun w hw _ => ?_
  simp only [send_bind, pure_eq]
  refine .ask ?_
  rintro now s₁ ⟨hx1, -⟩
  obtain rfl : s₁ = s := hx1
  split
  · refine .ret ?_
    split_ifs
    · rfl
    · exact .inl rfl
  rename_i w₁ hrel
  obtain ⟨hpos, hle, hb⟩ := TokenWallet.release_bumped hrel
  refine .ask ?_
  rintro entryID s₂ ⟨hx2, -⟩
  obtain rfl : s₂ = s₁ := hx2
  refine .ask ?_
  rintro x s' ⟨hx3, -⟩
  obtain ⟨hstore, -, hagain⟩ := apply_alone hs hw hb
    (show (settlementEntry w₁ .release r r.amount k now entryID).walletID = w.id from hb.id) hx3
  obtain ⟨h0, h1, h2⟩ := hs.wf w hw
  have hrest : wrap (w.reserved - r.amount) = w.reserved - r.amount := wrap_of_inRange ⟨by unfold minInt64; omega, by omega⟩
  have hposted : Posted s₂ s' := by
    rcases hstore with rfl | hl
    · exact .inl rfl
    · exact hl.posted ⟨by omega, by omega, h2⟩ (by rintro ⟨⟩)
  exact .ret (settle_ends hagain (fun _ => hposted) fun _ => hposted)

theorem release_ensures (hs : Sound s) (r : Reservation) (k : String) : Ensures freshExec (release (some r) k) s fun _ _ => Posted s := by
  unfold release
  dsimp only
  split
  · exact .ret (.inl rfl)
  · exact retry_ensures (releaseAttempt_ensures hs) (fun _ => .inl rfl) _ _

end Crm.Wallet
