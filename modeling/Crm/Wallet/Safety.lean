import Crm.Wallet.Snapshot

/-!
# Crm.Wallet.Safety — every wallet operation keeps the specification

Along the text of each operation: the copy it loaded, what its lookups told it, and the row it writes.  The rows come first
(`rowOK_credit`, `rowOK_hold`, `rowOK_capture`, `rowOK_void`): under which conditions the ledger line and the counters of a
copy fit the stored wallet.
-/

namespace Crm.Wallet

open Int64Arith Interleave HoldLedger Crm.Store Crm.Grant List Prog

theorem string_ne_empty (u : UUID) : u.string ≠ "" := by
  intro h
  have hu := UUID.parse_string u
  rw [h] at hu
  cases hu

theorem nullIfEmpty_string (u : UUID) : nullIfEmpty u.string = some u.string := if_neg (string_ne_empty u)

variable {a : ℤ} {α : Type} {i : ℕ} {P : W → Prop} {Q : Except Err α → W → Prop} {u v : W} {s : DB} {t : UUID} {k ref : String} {row : LedgerRow}
  {r : Reservation} {now : Time} {g : MasterGrant}

theorem inRange_neg (h0 : 0 < a) (hr : InRange a) : InRange (-a) := by
  unfold InRange minInt64 maxInt64 at *
  omega

theorem wrap_neg (h0 : 0 < a) (hr : InRange a) : wrap (-a) = -a := wrap_of_inRange (inRange_neg h0 hr)

/-- Negating a column value and finding a positive amount determines the value. -/
theorem eq_neg_of_wrap_neg {x : ℤ} (hx : InRange x) (h0 : 0 < a) (h : wrap (-x) = a) : x = -a := by
  unfold InRange minInt64 maxInt64 at hx
  unfold wrap at h
  omega

theorem wrap_of_bounds {x : ℤ} (h0 : 0 ≤ x) (h1 : x ≤ maxInt64) : wrap x = x :=
  wrap_of_inRange ⟨le_trans (by decide) h0, h1⟩

/-! ## Rows that fit -/

section Rows

variable {w p p' : TokenWallet} {n : ℕ} {s : DB} {row : LedgerRow} {a b : ℤ} {rid : UUID}

theorem rowOK_credit (hf : Fits w n (wrap (w.balance + a)) w.reserved s p p') (ha : 0 < a)
    (hle : a ≤ wrap (maxInt64 - w.balance)) (hin : InRange a) (hk : row.kind = .grant) (hamount : row.amount = a)
    (hcredit : ∀ g, row.masterGrantID = some g → ∃ gr ∈ s.grants, gr.id = g ∧ CreditOf gr row) :
    Ledgered.RowOK s p p' row where
  amount := hamount ▸ hin
  ref := fun h => by rw [hk] at h; cases h
  settled := fun h => by rw [hk] at h; rcases h with h | h <;> cases h
  version := hf.version
  credit := hcredit
  acct := by
    intro hlen hbal
    obtain ⟨rfl, -⟩ := hf.current (hf.id ▸ hlen)
    obtain ⟨h0, h1, h2⟩ := hbal.wf
    rw [wrap_of_inRange hbal.wf.inRange.2] at hle
    have hb := hf.balance
    rw [wrap_of_bounds (by omega) (by omega)] at hb
    have hentry : entryOf row = .credit a := by rw [entryOf, hk, ← hamount]
    rw [hentry]
    exact hbal.credit ha hle hb hf.reserved

theorem rowOK_hold (hf : Fits w n w.balance (wrap (w.reserved + a)) s p p') (ha : 0 < a)
    (hle : a ≤ wrap (w.balance - w.reserved)) (hin : InRange a) (hk : row.kind = .reserve) (hamount : row.amount = -a)
    (href : row.externalRef = some rid.string) (hg : row.masterGrantID = none)
    (hfree : ∀ r ∈ s.ledger, ¬ Holds (some rid.string) r) : Ledgered.RowOK s p p' row where
  amount := hamount ▸ inRange_neg ha hin
  ref := fun _ => ⟨⟨rid, href⟩, by rw [href]; exact hfree⟩
  settled := fun h => by rw [hk] at h; rcases h with h | h <;> cases h
  version := hf.version
  credit := fun g h => by rw [hg] at h; cases h
  acct := by
    intro hlen hbal
    obtain ⟨rfl, -⟩ := hf.current (hf.id ▸ hlen)
    obtain ⟨h0, h1, h2⟩ := hbal.wf
    rw [wrap_of_inRange hbal.wf.inRange.1] at hle
    have hr := hf.reserved
    rw [wrap_of_bounds (by omega) (by omega)] at hr
    have hentry : entryOf row = .hold (some rid.string) a := by simp only [entryOf, hk, href, hamount, neg_neg]
    rw [hentry]
    refine hbal.hold ha hle ?_ hf.balance hr
    intro b hb
    obtain ⟨r, hr, hh, -⟩ := hold_mem_journal.mp hb
    exact hfree r (mem_rows.mp hr).1 hh

variable {v : W} {h₀ : LedgerRow}

/-- The hold a settlement is aimed at is open in the journal of a current copy. -/
theorem open_hold {ref : String} (hmem : h₀ ∈ v.store.ledger) (hh : Holds (some ref) h₀) (hw : h₀.walletID = w.id) (hamount : h₀.amount = -b)
    (hun : Unsettled w n ref v) (hn : (v.store.rows w.id).length = n) :
    .hold (some ref) b ∈ journal v.store w.id ∧ HoldLedger.settled (journal v.store w.id) (some ref) = false := by
  constructor
  · exact hold_mem_journal.mpr ⟨h₀, mem_rows.mpr ⟨hmem, hw⟩, hh, by rw [hamount, neg_neg]⟩
  · rw [settled_journal, any_eq_false]
    intro r hr
    simpa using hun hn r hr

theorem rowOK_capture (hf : Fits w n (wrap (w.balance - a)) (wrap (w.reserved - b)) v.store p p') (ha : 0 < a) (hab : a ≤ b) (hbr : b ≤ w.reserved)
    (hin : InRange a) (hk : row.kind = .commit) (hamount : row.amount = -a) (href : row.externalRef = some rid.string) (hg : row.masterGrantID = none)
    (hrow : row.walletID = w.id) (hmem : h₀ ∈ v.store.ledger) (hh : Holds (some rid.string) h₀) (hw : h₀.walletID = w.id) (hb : h₀.amount = -b)
    (hun : Unsettled w n rid.string v) : Ledgered.RowOK v.store p p' row where
  amount := hamount ▸ inRange_neg ha hin
  ref := fun h => by rw [hk] at h; cases h
  settled := fun _ => ⟨h₀, hmem, by rw [href]; exact hh, hw.trans hrow.symm⟩
  version := hf.version
  credit := fun g h => by rw [hg] at h; cases h
  acct := by
    intro hlen hbal
    obtain ⟨rfl, hn⟩ := hf.current (hf.id ▸ hlen)
    obtain ⟨h0, h1, h2⟩ := hbal.wf
    obtain ⟨hopen, hset⟩ := open_hold hmem hh hw hb hun hn
    have hbal' := hf.balance
    have hres' := hf.reserved
    rw [wrap_of_bounds (by omega) (by omega)] at hbal' hres'
    have hentry : entryOf row = .capture (some rid.string) a := by simp only [entryOf, hk, href, hamount, neg_neg]
    rw [hentry]
    exact hbal.capture hopen hset ha hab hbal' hres'

theorem rowOK_void (hf : Fits w n w.balance (wrap (w.reserved - b)) v.store p p') (hbr : b ≤ w.reserved) (hpos : 0 < b) (hin : InRange b)
    (hk : row.kind = .release) (hamount : row.amount = b) (href : row.externalRef = some rid.string) (hg : row.masterGrantID = none)
    (hrow : row.walletID = w.id) (hmem : h₀ ∈ v.store.ledger) (hh : Holds (some rid.string) h₀) (hw : h₀.walletID = w.id) (hb : h₀.amount = -b)
    (hun : Unsettled w n rid.string v) : Ledgered.RowOK v.store p p' row where
  amount := hamount ▸ hin
  ref := fun h => by rw [hk] at h; cases h
  settled := fun _ => ⟨h₀, hmem, by rw [href]; exact hh, hw.trans hrow.symm⟩
  version := hf.version
  credit := fun g h => by rw [hg] at h; cases h
  acct := by
    intro hlen hbal
    obtain ⟨rfl, hn⟩ := hf.current (hf.id ▸ hlen)
    obtain ⟨h0, h1, h2⟩ := hbal.wf
    obtain ⟨hopen, hset⟩ := open_hold hmem hh hw hb hun hn
    have hres' := hf.reserved
    rw [wrap_of_bounds (by omega) (by omega)] at hres'
    have hentry : entryOf row = .void (some rid.string) := by rw [entryOf, hk, href]
    rw [hentry]
    exact hbal.void hopen hset hf.balance hres'

end Rows

/-! ## The retry loop -/

/-- The result of a pass: `return` satisfies `Q`, and `continue` still has `P`. -/
def PassPost {α : Type} (P : W → Prop) (Q : Except Err α → W → Prop) : Attempt (Except Err α) → W → Prop
  | .done a, w => Q a w
  | .again _, w => P w

theorem safe_retry {msg : String} {attempt : Client (Attempt (Except Err α))} (herr : ∀ e w, Q (.error e) w)
    (hQ : ∀ a v w, Later i v w → Q a v → Q a w) (H : ∀ v, WorldInv v → P v → Sf i (PassPost P Q) attempt v) :
    ∀ (m : ℕ) (last : Option Err) (v : W), WorldInv v → P v → Sf i Q (retry msg attempt m last) v := by
  intro m
  induction m with
  | zero => exact fun last v _ _ => safe_ret fun _ _ _ => herr _ _
  | succ m ih =>
    intro last v hv hP
    refine Safe.bind ?_ hv (H v hv hP)
    intro x w hw hx
    cases x with
    | done a => exact safe_ret fun w' hl _ => hQ a w w' hl hx
    | again e => exact ih _ _ hw hx

/-- The end of a pass after `ApplyWithLock` failed: only failures of the connection can have changed the store, and they
are not retried. -/
theorem safe_settle_error {err : Err} {a : α} (herr : ∀ e w, Q (.error e) w) (hP : ∀ w, Later i u w → P w) (h : err.fault ∨ Later i u v) :
    Sf i (PassPost P Q) (.ret (settle (.error err) a)) v := by
  refine safe_ret fun w hl _ => ?_
  rcases h with h | h
  · have : retryable err = false := by
      simp [retryable, Err.not_is_of_fault h Err.not_fault_versionConflict,
        Err.not_is_of_fault h Err.not_fault_idempotencyConflict]
    simp only [settle, this]
    exact herr _ _
  simp only [settle]
  split_ifs
  · exact hP w (h.trans hl)
  · exact herr _ _

theorem safe_settle_ok {a : α} (hQ : ∀ a v w, Later i v w → Q a v → Q a w) (h : Q (.ok a) v) : Sf i (PassPost P Q) (.ret (settle (.ok ()) a)) v :=
  safe_ret fun w hl _ => hQ (.ok a) v w hl h

/-! ## Reserve -/

theorem kept_replayReserve (hs : Ledgered s) (hrow : row ∈ s.ledger) (ht : row.tenantID = t) (hk : row.idempotencyKey = k) (ha : 0 < a)
    (hin : InRange a) : Kept s (.reserve t a k) (replayReserve row.decode a k) := by
  unfold replayReserve
  split_ifs with h1 h2
  · trivial
  · trivial
  have h1 : row.kind = .reserve := by simpa [LedgerRow.decode] using h1
  obtain ⟨u, hu⟩ := hs.refs row hrow h1
  have hparse : UUID.parse row.decode.externalRef = some u := by
    simp only [LedgerRow.decode, hu, Option.getD_some]
    exact UUID.parse_string u
  rw [hparse]
  exact ⟨row,
    { mem := hrow
      holds := ⟨h1, hu⟩
      walletID := rfl
      tenantID := ht
      resTenant := ht
      amount := eq_neg_of_wrap_neg (hs.amounts row hrow) ha (by simpa [LedgerRow.decode] using h2)
      resAmount := rfl
      pos := ha
      inRange := hin
      key := hk }⟩

theorem safe_reserveAttempt (ha : 0 < a) (hin : InRange a) (u : W) :
    Sf i (PassPost (fun _ => True) fun x w => Kept w.store (.reserve t a k) x) (reserveAttempt t a k) u := by
  simp only [reserveAttempt, send_bind, pure_eq]
  refine safe_read (fun _ _ _ h => h.1) (by simp) fun v₁ r _ hv1 he => ?_
  cases r with
  | error e => exact .done fun _ => trivial
  | ok w =>
  obtain ⟨ht, hs⟩ := Snap.of_load hv1 he.of_ok
  refine safe_read (fun _ _ _ h => h.1) (by simp) fun v₂ r h2 hv2 he => ?_
  cases r with
  | ok prior =>
    obtain ⟨row, hrow, hrt, -, hrk, rfl⟩ := DB.lookupByIdempotencyKey_ok he.of_ok
    exact safe_ret fun v hl _ => (kept_replayReserve hv2.store hrow hrt hrk ha hin).mono hl.store
  | error e =>
  dsimp only
  split_ifs
  swap
  · exact .done fun _ => trivial
  refine safe_read (fun _ _ _ h => h) (by simp) fun v₃ now h3 _ _ => ?_
  cases hres : w.reserve a now with
  | error e => exact .done fun _ => trivial
  | ok w' =>
  obtain ⟨-, hle, hb⟩ := TokenWallet.reserve_bumped hres
  refine safe_newUUID fun v₄ rid h4 _ hmint hfree => ?_
  refine safe_newUUID fun v₅ entryID h5 _ _ _ => ?_
  have href : (LedgerRow.ofEntry (reserveEntry w' a k now rid entryID)).externalRef = some rid.string :=
    nullIfEmpty_string rid
  have hamount : (LedgerRow.ofEntry (reserveEntry w' a k now rid entryID)).amount = -a := wrap_neg ha hin
  refine safe_apply (hs.later (((h2.trans h3).trans h4).trans h5)) hb hb.id ?_ ?_ ?_ ?_
  · intro x hx
    have : x = rid := UUID.string_injective (Option.some.inj (hx.2.symm.trans href))
    exact this ▸ minted_mono h5.hist hmint
  · intro v p p' hl hv hf
    exact rowOK_hold hf ha hle hin rfl hamount href rfl ((h5.trans hl).fresh rid hmint hfree)
  · intro v hv hmem
    exact safe_settle_ok (fun _ _ _ hl h => h.mono hl.store) ⟨_,
      { mem := hmem
        holds := ⟨rfl, href⟩
        walletID := rfl
        tenantID := hb.tenantID.trans ht
        resTenant := hb.tenantID.trans ht
        amount := hamount
        resAmount := rfl
        pos := ha
        inRange := hin
        key := rfl }⟩
  · exact fun v err _ h => safe_settle_error (fun _ _ => trivial) (fun _ _ => trivial) h

theorem safe_reserve (hin : InRange a) (hu : WorldInv u) : Sf i (fun x w => Kept w.store (.reserve t a k) x) (reserve t a k) u := by
  unfold reserve
  split_ifs with h1 h2
  · exact .done fun _ => trivial
  · exact .done fun _ => trivial
  split
  · exact .done fun _ => trivial
  · exact safe_retry (P := fun _ => True) (fun _ _ => trivial) (fun _ _ _ hl h => h.mono hl.store)
      (fun v _ _ => safe_reserveAttempt (by omega) hin v) _ _ _ hu trivial

/-! ## Commit and Release -/

def Backed (r : Reservation) (v : W) : Prop := ∃ t a k row, Backs v.store t a k r row

theorem Backed.later (h : Backed r u) (hl : Later i u v) : Backed r v := by
  obtain ⟨t, a, k, row, hb⟩ := h
  exact ⟨t, a, k, row, { hb with mem := hl.store.ledger.subset hb.mem }⟩

/-- A failed read that matches a sentinel answered what the store holds. -/
theorem read_of_is {s' : DB} {f : Except Err α} {e t : Err} (h : Read Err.fault s f (.error e) s') (ht : ¬ t.fault) (he : e.is t = true) :
    f = .error e := by
  refine h.of_error fun hf => ?_
  rw [Err.not_is_of_fault hf ht] at he
  cases he

theorem externalRef_of_decode {u : UUID} (h : row.decode.externalRef = u.string) : row.externalRef = some u.string := by
  cases hr : row.externalRef with
  | none =>
    simp only [LedgerRow.decode, hr, Option.getD_none] at h
    exact absurd h.symm (string_ne_empty u)
  | some ref =>
  simp only [LedgerRow.decode, hr, Option.getD_some] at h
  rw [h]

theorem kept_replayCommit (hs : Ledgered s) (hrow : row ∈ s.ledger) (hw : row.walletID = r.walletID) (hk : row.idempotencyKey = k) (ha : 0 < a) :
    Kept s (.commit (some r) a k) (replayCommit row.decode r a) := by
  unfold replayCommit
  split_ifs with h1 h2 h3
  · trivial
  · trivial
  · trivial
  exact ⟨row, hrow,
    { kind := by simpa [LedgerRow.decode] using h1
      walletID := hw
      ref := externalRef_of_decode (by simpa using h2)
      amount := eq_neg_of_wrap_neg (hs.amounts row hrow) ha (by simpa [LedgerRow.decode] using h3)
      key := hk }⟩

theorem kept_replayRelease (hrow : row ∈ s.ledger) (hw : row.walletID = r.walletID) (hk : row.idempotencyKey = k) :
    Kept s (.release (some r) k) (replayRelease row.decode r) := by
  unfold replayRelease
  split_ifs with h1 h2 h3
  · trivial
  · trivial
  · trivial
  exact ⟨row, hrow,
    { kind := by simpa [LedgerRow.decode] using h1
      walletID := hw
      ref := externalRef_of_decode (by simpa using h2)
      amount := by simpa [LedgerRow.decode] using h3
      key := hk }⟩

theorem safe_maybePublishDepleted {Q : α → W → Prop} {w : TokenWallet} {p : Client α} (h : ∀ v, Later i u v → Sf i Q p v) :
    Sf i Q (maybePublishDepleted w a now >>= fun _ => p) u := by
  unfold maybePublishDepleted
  split_ifs
  · exact safe_read (fun _ _ _ h => h) (by simp) fun v _ hl _ _ => h v hl
  · exact h u (walletSpec.refl i u)

/-- The head of a settling pass leaves a copy on which, if it is current, the reservation is open. -/
theorem safe_settlingPass {replay : LedgerEntry → Except Err Unit} {rest : TokenWallet → Client (Attempt (Except Err Unit))}
    {Q : Except Err Unit → W → Prop} (herr : ∀ e w, Q (.error e) w)
    (hreplay : ∀ v w row, Later i v w → WorldInv v → row ∈ v.store.ledger → row.walletID = r.walletID →
      row.idempotencyKey = k → Q (replay row.decode) w) (hrest : ∀ v w n, Later i u v → Snap w n v → w.id = r.walletID → Unsettled w n r.id.string v →
      Sf i (PassPost (Backed r) Q) (rest w) v) : Sf i (PassPost (Backed r) Q) (settlingPass r k replay rest) u := by
  simp only [settlingPass, send_bind, pure_eq]
  refine safe_read (fun _ _ _ h => h.1) (by simp) fun v₁ x h1 hv1 he => ?_
  cases x with
  | error e => exact safe_ret fun _ _ _ => herr _ _
  | ok w =>
  obtain ⟨ht, hs⟩ := Snap.of_load hv1 he.of_ok
  dsimp only
  split_ifs with hw
  · exact safe_ret fun _ _ _ => herr _ _
  push Not at hw
  refine safe_read (fun _ _ _ h => h.1) (by simp) fun v₂ x h2 hv2 he => ?_
  cases x with
  | ok prior =>
    obtain ⟨row, hrow, -, hrw, hrk, rfl⟩ := DB.lookupByIdempotencyKey_ok he.of_ok
    exact safe_ret fun v hl _ => hreplay v₂ v row hl hv2 hrow (hrw.trans hw) hrk
  | error e =>
  dsimp only
  split_ifs
  swap
  · exact safe_ret fun _ _ _ => herr _ _
  refine safe_read (fun _ _ _ h => h.1) (by simp) fun v₃ x h3 hv3 he => ?_
  cases x with
  | ok prior => exact safe_ret fun _ _ _ => herr _ _
  | error e =>
  dsimp only
  split_ifs with hnf
  swap
  · exact safe_ret fun _ _ _ => herr _ _
  have hs3 := hs.later (h2.trans h3)
  exact hrest v₃ w _ (h1.trans (h2.trans h3)) hs3 hw
    (Unsettled.of_lookup hs3 ht (string_ne_empty _) hv3 (read_of_is he Err.not_fault_notFound hnf))

theorem safe_commitAttempt (ha : 0 < a) (hin : InRange a) (hr : Backed r u) :
    Sf i (PassPost (Backed r) fun x w => Kept w.store (.commit (some r) a k) x) (commitAttempt r a k) u := by
  refine safe_settlingPass (fun _ _ => trivial) ?_ fun v₁ w n h1 hs hw hun => ?_
  · intro v v' row hl hv hrow hrw hrk
    exact (kept_replayCommit hv.store hrow hrw hrk ha).mono hl.store
  simp only [send_bind, pure_eq]
  have hr1 := hr.later h1
  refine safe_read (fun _ _ _ h => h) (by simp) fun v₂ now h2 _ _ => ?_
  cases hc : w.commit a r.amount now with
  | error e =>
    refine safe_ret fun v hl _ => ?_
    split_ifs
    · exact hr1.later (h2.trans hl)
    · trivial
  | ok w' =>
  obtain ⟨-, hab, hbr, hb⟩ := TokenWallet.commit_bumped hc
  refine safe_newUUID fun v₃ entryID h3 _ _ _ => ?_
  have h13 := h2.trans h3
  have href : (LedgerRow.ofEntry (settlementEntry w' .commit r a k now entryID)).externalRef = some r.id.string :=
    nullIfEmpty_string r.id
  have hamount : (LedgerRow.ofEntry (settlementEntry w' .commit r a k now entryID)).amount = -a := wrap_neg ha hin
  refine safe_apply (hs.later h13) hb hb.id ?_ ?_ ?_ ?_
  · intro x hx
    exact absurd hx.1 (by simp [LedgerRow.ofEntry, settlementEntry])
  · intro v p p' hl hv hf
    obtain ⟨t, a₀, k₀, row, hrow⟩ := hr1.later (h13.trans hl)
    exact rowOK_capture hf ha hab hbr hin rfl hamount href rfl hb.id hrow.mem hrow.holds (hrow.walletID.trans hw.symm)
      (by rw [hrow.amount, hrow.resAmount]) (hun.later hs (h13.trans hl))
  · intro v hv hmem
    have hkept : Kept v.store (.commit (some r) a k) (.ok ()) :=
      ⟨_, hmem, { kind := rfl, walletID := hb.id.trans hw, ref := href, amount := hamount, key := rfl }⟩
    exact safe_maybePublishDepleted fun v' hl => safe_ret fun v'' hl' _ => hkept.mono (hl.trans hl').store
  · exact fun v err _ h => safe_settle_error (fun _ _ => trivial) (fun _ hl => hr1.later (h13.trans hl)) h

theorem safe_commit {r : Option Reservation} (hin : InRange a) (hu : WorldInv u) (hr : ∀ r', r = some r' → Backed r' u) :
    Sf i (fun x w => Kept w.store (.commit r a k) x) (commit r a k) u := by
  cases r with
  | none => exact .stop
  | some r =>
  simp only [commit]
  split_ifs
  · exact .done fun _ => trivial
  · exact .done fun _ => trivial
  split
  · exact .done fun _ => trivial
  · exact safe_retry (fun _ _ => trivial) (fun _ _ _ hl h => h.mono hl.store)
      (fun v _ hP => safe_commitAttempt (by omega) hin hP) _ _ _ hu (hr r rfl)

theorem safe_releaseAttempt (hr : Backed r u) : Sf i (PassPost (Backed r) fun x w => Kept w.store (.release (some r) k) x) (releaseAttempt r k) u := by
  refine safe_settlingPass (fun _ _ => trivial) ?_ fun v₁ w n h1 hs hw hun => ?_
  · intro v v' row hl hv hrow hrw hrk
    exact (kept_replayRelease hrow hrw hrk).mono hl.store
  simp only [send_bind, pure_eq]
  have hr1 := hr.later h1
  refine safe_read (fun _ _ _ h => h) (by simp) fun v₂ now h2 _ _ => ?_
  cases hc : w.release r.amount now with
  | error e =>
    refine safe_ret fun v hl _ => ?_
    split_ifs
    · exact hr1.later (h2.trans hl)
    · trivial
  | ok w' =>
  obtain ⟨hpos, hbr, hb⟩ := TokenWallet.release_bumped hc
  refine safe_newUUID fun v₃ entryID h3 _ _ _ => ?_
  have h13 := h2.trans h3
  have href : (LedgerRow.ofEntry (settlementEntry w' .release r r.amount k now entryID)).externalRef =
      some r.id.string := nullIfEmpty_string r.id
  refine safe_apply (hs.later h13) hb hb.id ?_ ?_ ?_ ?_
  · intro x hx
    exact absurd hx.1 (by simp [LedgerRow.ofEntry, settlementEntry])
  · intro v p p' hl hv hf
    obtain ⟨t, a₀, k₀, row, hrow⟩ := hr1.later (h13.trans hl)
    have hin : InRange r.amount := hrow.resAmount ▸ hrow.inRange
    exact rowOK_void hf hbr hpos hin rfl rfl href rfl hb.id hrow.mem hrow.holds (hrow.walletID.trans hw.symm)
      (by rw [hrow.amount, hrow.resAmount]) (hun.later hs (h13.trans hl))
  · intro v hv hmem
    exact safe_settle_ok (fun _ _ _ hl h => h.mono hl.store)
      ⟨_, hmem, { kind := rfl, walletID := hb.id.trans hw, ref := href, amount := rfl, key := rfl }⟩
  · exact fun v err _ h => safe_settle_error (fun _ _ => trivial) (fun _ hl => hr1.later (h13.trans hl)) h

theorem safe_release {r : Option Reservation} (hu : WorldInv u) (hr : ∀ r', r = some r' → Backed r' u) :
    Sf i (fun x w => Kept w.store (.release r k) x) (release r k) u := by
  cases r with
  | none => exact .stop
  | some r =>
  simp only [release]
  split
  · exact .done fun _ => trivial
  · exact safe_retry (fun _ _ => trivial) (fun _ _ _ hl h => h.mono hl.store)
      (fun v _ hP => safe_releaseAttempt hP) _ _ _ hu (hr r rfl)

/-! ## Credits -/

/-- A credit computed from a copy, with the grant it may name. -/
theorem safe_credit {Q : α → W → Prop} {w w' : TokenWallet} {n : ℕ} {key : String} {source : Option LedgerSource} {g : Option UUID} {entryID : UUID}
    {k : Except Err Unit → Client α} (hs : Snap w n u) (hg : w.grant a now = .ok w')
    (hcredit : ∀ v, Later i u v → ∀ id, (LedgerRow.ofEntry (grantEntry w' a key ref source g now entryID)).masterGrantID =
      some id → ∃ gr ∈ v.store.grants, gr.id = id ∧ CreditOf gr (.ofEntry (grantEntry w' a key ref source g now entryID)))
    (hyes : ∀ v, WorldInv v → Sf i Q (k (.ok ())) v) (hno : ∀ v err, WorldInv v → err.fault ∨ Later i u v → Sf i Q (k (.error err)) v) :
    Sf i Q (.ask (.applyWithLock w' [grantEntry w' a key ref source g now entryID]) k) u := by
  obtain ⟨ha, hle, hb⟩ := TokenWallet.grant_bumped hg
  have hin : InRange a := ⟨le_trans (by decide) ha.le, hle.trans (inRange_wrap _).2⟩
  refine safe_apply hs hb hb.id ?_ ?_ (fun v hv _ => hyes v hv) hno
  · intro x hx
    exact absurd hx.1 (by simp [LedgerRow.ofEntry, grantEntry])
  · exact fun v p p' hl _ hf => rowOK_credit hf ha hle hin rfl rfl (hcredit v hl)

theorem safe_grantAttempt (u : W) : Sf i (PassPost (fun _ => True) fun _ _ => True) (grantAttempt t a k ref) u := by
  simp only [grantAttempt, send_bind, pure_eq]
  refine safe_read (fun _ _ _ h => h.1) (by simp) fun v₁ r _ hv1 he => ?_
  cases r with
  | error e => exact .done fun _ => trivial
  | ok w =>
  obtain ⟨-, hs⟩ := Snap.of_load hv1 he.of_ok
  refine safe_read (fun _ _ _ h => h.1) (by simp) fun v₂ r h2 hv2 he => ?_
  cases r with
  | ok prior => exact .done fun _ => trivial
  | error e =>
  dsimp only
  split_ifs
  swap
  · exact .done fun _ => trivial
  refine safe_read (fun _ _ _ h => h) (by simp) fun v₃ now h3 _ _ => ?_
  cases hg : w.grant a now with
  | error e => exact .done fun _ => trivial
  | ok w' =>
  refine safe_newUUID fun v₄ entryID h4 _ _ _ => ?_
  refine safe_credit (hs.later ((h2.trans h3).trans h4)) hg ?_ ?_ ?_
  · rintro v _ id ⟨⟩
  · exact fun v _ => safe_settle_ok (fun _ _ _ _ _ => trivial) trivial
  · exact fun v err _ h => safe_settle_error (fun _ _ => trivial) (fun _ _ => trivial) h

theorem safe_grant (hu : WorldInv u) : Sf i (fun _ _ => True) (grant t a k ref) u := by
  unfold grant
  split_ifs
  · exact .stop
  · exact .stop
  split
  · exact .stop
  · exact safe_retry (P := fun _ => True) (fun _ _ => trivial) (fun _ _ _ _ _ => trivial)
      (fun v _ _ => safe_grantAttempt v) _ _ _ hu trivial

theorem safe_allocateMonthlyQuota (start : Time) (hin : InRange a) : Sf i (fun _ _ => True) (allocateMonthlyQuota t start a k) u := by
  unfold allocateMonthlyQuota
  split_ifs with h1 h2 h3
  · exact .stop
  · exact .stop
  · exact .stop
  refine safe_write (by simp) fun v r s' _ hv ⟨ledgerID, now, dbNow, htx⟩ => ⟨?_, fun _ _ _ _ => .stop⟩
  rcases htx.store_cases with rfl | ⟨b, hb⟩
  · exact ⟨hv.store, .refl _, fun _ h => .inl h⟩
  obtain ⟨p, -, -, ⟨rfl, -⟩ | ⟨row, hk, hamount, hg, -, -, hbal, hver, ha⟩⟩ := DB.allocateMonthlyQuota_ok hv.store.walletIDs hb
  · exact ⟨hv.store, .refl _, fun _ h => .inl h⟩
  refine ⟨hv.store.append ha ?_, .of_append hv.store.walletIDs ha, ?_⟩
  · have hpv := (hv.store.version p ha.mem).2
    have hwrap : p.version + 1 = wrap (p.version + 1) := by
      refine (wrap_of_inRange ⟨?_, hver⟩).symm
      have := (inRange_stamp (v.store.rows p.id).length).1
      omega
    refine
      { amount := hamount ▸ hin
        ref := fun h => by rw [hk] at h; cases h
        settled := fun h => by rw [hk] at h; rcases h with h | h <;> cases h
        version := hwrap
        acct := fun _ hB => ?_
        credit := fun g h => by rw [hg] at h; cases h }
    have hentry : entryOf row = .credit a := by rw [entryOf, hk, ← hamount]
    rw [hentry]
    exact hB.credit (by omega) (by omega) rfl rfl
  intro r hr
  rw [ha.ledger, mem_append, mem_singleton] at hr
  rcases hr with hr | rfl
  · exact .inl hr
  · exact .inr fun x hx => by rw [Holds, hk] at hx; cases hx.1

theorem safe_issueCourtesy {actor : UUID} (hin : InRange a) : Sf i (fun _ _ => True) (issueCourtesy t actor a) u := by
  unfold issueCourtesy
  split_ifs with h1 h2 h3
  · exact .stop
  · exact .stop
  · exact .stop
  refine safe_write (by simp) fun v r s' _ hv ⟨grantID, walletID, ledgerID, now, dbNow, hnil, htx⟩ =>
    ⟨?_, fun _ _ _ _ => .stop⟩
  rcases htx.store_cases with rfl | ⟨b, hb⟩
  · exact ⟨hv.store, .refl _, fun _ h => .inl h⟩
  rcases DB.issueCourtesy_ok hb with rfl | ⟨w, row, hid, ht, hbal, ho⟩
  · exact ⟨hv.store, .refl _, fun _ h => .inl h⟩
  refine ⟨hv.store.opened ho (hid ▸ hnil) (ht ▸ h1) (hbal ▸ hin.2), .of_open ho, ?_⟩
  intro r hr
  rw [ho.ledger, mem_append, mem_singleton] at hr
  rcases hr with hr | rfl
  · exact .inl hr
  · exact .inr fun x hx => by rw [Holds, ho.kind] at hx; cases hx.1

/-! ## Master grants -/

def Known (g : MasterGrant) (v : W) : Prop :=
  ∃ r ∈ v.store.grants, r.id = g.id ∧ r.externalID = g.externalID ∧ r.tenantID = g.tenantID ∧
    unmarshal r.payload = some g.payload

theorem Known.later (h : Known g u) (hl : Later i u v) : Known g v := by
  obtain ⟨r, hr, h1, h2, h3, h4⟩ := h
  obtain ⟨r', hr', hs⟩ := hl.store.grants r hr
  exact ⟨r', hr', hs.id.trans h1, hs.externalID.trans h2, hs.tenantID.trans h3, by rw [hs.payload, h4]⟩

theorem Known.of_get {id : UUID} (h : v.store.getGrantByID id = .ok g) : g.id = id ∧ Known g v := by
  obtain ⟨r, -, hr, hid, hd⟩ := DB.getGrantByID_ok h
  unfold MasterGrantRow.decode at hd
  split at hd
  · cases hd
  · rename_i p hp
    cases hd
    exact ⟨hid, r, hr, rfl, rfl, rfl, hp⟩

theorem safe_plain {Q : α → W → Prop} {q : Req} {k : Resp q → Client α} (hq : Resp q → q.writesLedger = false)
    (H : ∀ v r, WorldInv v → Sf i Q (k r) v) : Sf i Q (.ask q k) u := by
  by_cases hn : q = .newUUID
  · subst hn
    exact safe_newUUID fun v x _ hv _ _ => H v x hv
  refine safe_write hn fun v r s' _ hv he => ⟨?_, fun v' _ hi _ => H v' r hi⟩
  have hr := exec_regranted he (hq r)
  refine ⟨hv.store.regranted hr, .of_regrant hr, fun row hrow => .inl ?_⟩
  rwa [hr.ledger] at hrow

theorem safe_sends {p : Client α} (hp : p.Sends fun q => q.writesLedger = false) : Sf i (fun _ _ => True) p u := by
  induction p generalizing u with
  | ret a => exact .stop
  | ask q k ih => exact safe_plain (fun r => (hp r).1) fun v r _ => ih r (hp r).2

theorem safe_applyExtraTokens (hg : Known g u) : Sf i (fun _ _ => True) (applyExtraTokens g now) u := by
  simp only [applyExtraTokens, send_bind, pure_eq]
  split_ifs
  · exact .stop
  refine safe_read (fun _ _ _ h => h.1) (by simp) fun v₁ r hl1 hv1 he => ?_
  cases r with
  | error e => exact .stop
  | ok w =>
  obtain ⟨ht, hs⟩ := Snap.of_load hv1 he.of_ok
  dsimp only
  cases hw : w.grant (readInt64Payload g.payload "amount") now with
  | error e => exact .stop
  | ok w' =>
  obtain ⟨-, -, hb⟩ := TokenWallet.grant_bumped hw
  refine safe_newUUID fun v₂ entryID hl2 _ _ _ => ?_
  refine safe_credit (hs.later hl2) hw ?_ ?_ ?_
  · intro v hl id hid
    obtain ⟨gr, hgr, h1, h2, h3, h4⟩ := hg.later (hl1.trans (hl2.trans hl))
    have hid : g.id = id := Option.some.inj hid
    exact ⟨gr, hgr, h1.trans hid,
      { kind := rfl
        tenantID := hb.tenantID.trans (ht.trans h3.symm)
        key := by rw [h2]; rfl
        amount := ⟨g.payload, h4, rfl⟩ }⟩
  · exact fun v _ => .stop
  · exact fun v err _ _ => .stop

theorem safe_sideEffect (hg : Known g u) : Sf i (fun _ _ => True) (sideEffect g now) u := by
  unfold sideEffect
  split
  · exact safe_sends ((sends_applyFreePeriod _ _).mono fun _ h => h.2)
  · exact safe_applyExtraTokens hg
  · exact .stop

theorem safe_applyGrant {id : UUID} : Sf i (fun _ _ => True) (apply id) u := by
  simp only [apply, send_bind, pure_eq]
  split_ifs
  · exact .stop
  refine safe_read (fun _ _ _ h => h.1) (by simp) fun v₁ r _ _ he => ?_
  cases r with
  | error e => exact .stop
  | ok g =>
  obtain ⟨-, hg⟩ := Known.of_get he.of_ok
  dsimp only
  split_ifs
  · exact .stop
  refine safe_read (fun _ _ _ h => h) (by simp) fun v₂ now h2 hv2 _ => ?_
  refine Safe.bind ?_ hv2 (safe_sideEffect (hg.later h2))
  intro r w _ _
  cases r with
  | error e => exact .stop
  | ok ref =>
  refine safe_plain (fun _ => rfl) fun v r _ => ?_
  cases r <;> exact .stop

theorem safe_issueGrant {applier : Bool} {inp : IssueGrantInput} : Sf i (fun _ _ => True) (issueGrant applier inp) u := by
  simp only [issueGrant, send_bind, pure_eq]
  refine safe_plain (fun _ => rfl) fun v₁ now _ => safe_plain (fun _ => rfl) fun v₂ r _ => ?_
  cases r with
  | error e => exact .stop
  | ok existing =>
  dsimp only
  split
  · exact .stop
  refine safe_plain (fun _ => rfl) fun v₃ id _ => safe_plain (fun _ => rfl) fun v₄ externalID _ => ?_
  split
  · exact .stop
  refine safe_plain (fun _ => rfl) fun v r hv => ?_
  cases r with
  | error e => exact .stop
  | ok x =>
  dsimp only
  split_ifs
  · refine Safe.bind ?_ hv safe_applyGrant
    intro r w _ _
    cases r <;> exact .stop
  · exact .stop

/-! ## All calls -/

theorem backed_of_settles {w : W} (hw : WorldInv w) (h : ∃ t a k, Returned t a k r w) : Backed r w := by
  obtain ⟨t, a, k, i, hi⟩ := h
  obtain ⟨row, hb⟩ := hw.kept i _ _ hi
  exact ⟨t, a, k, row, hb⟩

theorem settles_mono {c : Call} (h : ∀ e ∈ u.hist, e ∈ v.hist) (hc : c.Settles u) : c.Settles v := by
  have key : ∀ {r : Reservation}, (∃ t a k, Returned t a k r u) → ∃ t a k, Returned t a k r v := by
    rintro r ⟨t, a, k, i, hi⟩
    exact ⟨t, a, k, i, h _ hi⟩
  unfold Call.Settles at hc ⊢
  split at hc
  · exact key hc
  · exact key hc
  · trivial

theorem safe_body {c : Call} (hu : WorldInv u) (hint : c.Int64Args) (hs : c.Settles u) : Sf i (fun x w => Kept w.store c x) (body c) u := by
  cases c with
  | issueCourtesy t actor a => exact safe_issueCourtesy hint
  | reserve t a k => exact safe_reserve hint hu
  | commit r a k =>
    refine safe_commit hint hu fun r' h => ?_
    subst h
    exact backed_of_settles hu hs
  | release r k =>
    refine safe_release hu fun r' h => ?_
    subst h
    exact backed_of_settles hu hs
  | grant t a k ref => exact safe_grant hu
  | allocateMonthlyQuota t start a k => exact safe_allocateMonthlyQuota start hint
  | applyGrant id => exact safe_applyGrant
  | issueGrant applier inp => exact safe_issueGrant
  | revokeGrant inp => exact safe_sends ((sends_revokeGrant inp).mono fun _ h => h.2)

theorem verified : Verified (system Honest) walletSpec := by
  intro w i c hw _ hallow
  obtain ⟨hint, hset⟩ : c.Int64Args ∧ c.Settles w := hallow
  have hk : walletSpec.Keeps i w (.invoke i c) := keeps_invoke hw
  refine ⟨hk, ?_⟩
  have hbody := safe_body (i := i) hk.1 hint (settles_mono (fun e he => mem_cons_of_mem _ he) hset)
  exact hbody.mono fun a v hv ha _ => keeps_respond hv ha

theorem worldInv_start {db : DB} (h : Initial db) : WorldInv ⟨db, []⟩ where
  store :=
    { walletIDs := by simp [h.wallets]
      tenants := by simp [h.wallets]
      nonNil := by simp [h.wallets]
      keys := by simp [h.ledger]
      owner := by simp [h.ledger]
      amounts := by simp [h.ledger]
      refs := by simp [h.ledger]
      refsOnce := by simp [h.ledger]
      settled := by simp [h.ledger]
      version := by simp [h.wallets]
      acct := by simp [h.wallets]
      grantIDs := h.grantIDs
      credits := by simp [h.ledger] }
  mints := fun _ _ _ ⟨_, _, h⟩ => nomatch h
  refs := by simp [h.ledger]
  kept := (by rintro _ _ _ ⟨⟩)

/-- The configurations of the wallet system that any interleaving of calls can reach. -/
abbrev WalletReach (db : DB) (σ : Cfg) : Prop := Reach (system Honest) db σ

theorem worldInv_of_reach {db : DB} (h : Initial db) {σ : Cfg} (hr : WalletReach db σ) : WorldInv σ.world :=
  verified.inv (worldInv_start h) hr

end Crm.Wallet
