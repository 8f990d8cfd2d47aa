import Crm.Billing.Tiling
import Crm.Store.Spec
import Crm.Store.Frame

/-!
# Crm.Billing.Allocation — one monthly credit per renewed period

The renewal workers publish under a text made of the subscription and the new period start, and `Handle` passes that text on as the
idempotency key of the credit.  The text determines the pair (`buildMsgID_injective`), the key is unique in the wallet, and a message never
names another tenant than its subscription does: however the messages of the stream are duplicated, reordered and redelivered, each
pair is credited once (`quota_credited_once`).
-/

namespace Crm.Billing

open Interleave Crm.Store Crm.Wallet List Prog

/-- **The key determines the renewal.** -/
theorem buildMsgID_injective {sub sub' : UUID} {t t' : Time} (h : buildMsgID sub t = buildMsgID sub' t') : sub = sub' ∧ t = t' := by
  have hl := congrArg String.toList h
  simp only [buildMsgID, String.toList_append] at hl
  obtain ⟨hsub, ht⟩ := append_inj hl (by rw [UUID.length_string, UUID.length_string])
  refine ⟨UUID.string_injective (String.toList_injective hsub), Calendar.rfc3339Nano_injective (String.toList_injective ?_)⟩
  exact append_cancel_left ht

/-- A message as the renewal workers publish it for a subscription of the tables `s₀`. -/
structure Genuine (s₀ : BillingDB) (m : Message) : Prop where
  msgID : m.msgID = buildMsgID m.body.subscriptionID m.body.newPeriodStart
  tenantID : ∃ sub ∈ s₀.core.subs, sub.id = m.body.subscriptionID ∧ sub.tenantID = m.body.tenantID

/-- The tables under their constraints: primary keys, one wallet per tenant, one ledger row per wallet and key; keys of renewals are
used by the allocator only, and the stream holds messages of renewals. -/
structure Start (s₀ : BillingDB) : Prop where
  subIDs : (s₀.core.subs.map Subscription.id).Nodup
  walletIDs : (s₀.core.wallets.map TokenWallet.id).Nodup
  tenants : (s₀.core.wallets.map TokenWallet.tenantID).Nodup
  keys : s₀.core.ledger.Pairwise fun r r' => r.walletID = r'.walletID → r.idempotencyKey ≠ r'.idempotencyKey
  source : ∀ r ∈ s₀.core.ledger, ∀ sub t, r.idempotencyKey = buildMsgID sub t → r.source = .monthlyAlloc
  stream : ∀ m ∈ s₀.stream, Genuine s₀ m

/-- Renewal workers, and allocators that are handed messages of the stream, each any number of times. -/
def Deliveries (w : W) : Ev → Prop
  | .invoke _ c => (∃ r, c = .tick r) ∨ ∃ m ∈ w.store.stream, c = .handle ⟨m.msgID, some m.body⟩
  | _ => True

/-- Some `Handle` of the renewal has had its `AllocateMonthlyQuota` succeed. -/
def Reached (sub : UUID) (t : Time) (w : W) : Prop :=
  ∃ i d ev amount b pre post, .invoke i (.handle d) ∈ w.hist ∧ d.data = some ev ∧ ev.subscriptionID = sub ∧ ev.newPeriodStart = t ∧
    .act i (.core (.allocateMonthlyQuota ev.tenantID amount d.msgID)) (.ok b) pre post ∈ w.hist

/-- The row was inserted by the transaction of a `Handle` of the renewal, over the quota of the plan that it had read. -/
def Credited (row : LedgerRow) (sub : UUID) (t : Time) (w : W) : Prop :=
  ∃ i d ev plan x y pre post pre' post', .invoke i (.handle d) ∈ w.hist ∧ d.data = some ev ∧ ev.subscriptionID = sub ∧
    ev.newPeriodStart = t ∧ .act i (.getPlanByID ev.planID) x pre' post' ∈ w.hist ∧ x = .ok plan ∧
    .act i (.core (.allocateMonthlyQuota ev.tenantID plan.monthlyTokenQuota d.msgID)) y pre post ∈ w.hist ∧
    post.core.ledger = pre.core.ledger ++ [row] ∧ row.amount = plan.monthlyTokenQuota

/-! ## The books -/

/-- The ledger has grown by the monthly credits `new`, each key is used once in a wallet, and the balances have grown with it. -/
structure Books (s₀ s : BillingDB) (new : List LedgerRow) : Prop where
  ledger : s.core.ledger = s₀.core.ledger ++ new
  keys : s.core.ledger.Pairwise fun r r' => r.walletID = r'.walletID → r.idempotencyKey ≠ r'.idempotencyKey
  source : ∀ r ∈ new, r.source = .monthlyAlloc
  wallets : ∃ f, s.core.wallets = s₀.core.wallets.map f ∧ ∀ p ∈ s₀.core.wallets, (f p).id = p.id ∧ (f p).tenantID = p.tenantID ∧
    (f p).balance = p.balance + ((new.filter fun r => r.walletID = p.id).map LedgerRow.amount).sum

section Tables

variable {s₀ s s' : BillingDB} {new : List LedgerRow}

theorem Books.start (hs : Start s₀) : Books s₀ s₀ [] where
  ledger := (append_nil _).symm
  keys := hs.keys
  source := (by rintro _ ⟨⟩)
  wallets := ⟨fun p => p, by simp, fun _ _ => ⟨rfl, rfl, by simp⟩⟩

theorem Books.of_eq (h : Books s₀ s new) (hl : s'.core.ledger = s.core.ledger) (hw : s'.core.wallets = s.core.wallets) :
    Books s₀ s' new := by
  obtain ⟨h1, h2, h3, h4⟩ := h
  exact ⟨hl.trans h1, hl ▸ h2, h3, hw ▸ h4⟩

theorem Books.walletIDs (h : Books s₀ s new) (hs : Start s₀) : (s.core.wallets.map TokenWallet.id).Nodup := by
  obtain ⟨f, hf, hp⟩ := h.wallets
  rw [hf, map_map, map_congr_left (f := TokenWallet.id ∘ f) (g := TokenWallet.id) fun p hm => (hp p hm).1]
  exact hs.walletIDs

theorem Books.rows_le_one (h : Books s₀ s new) (walletID : UUID) (k : String) :
    (s.core.ledger.filter fun r => r.walletID = walletID ∧ r.idempotencyKey = k).length ≤ 1 := by
  have hpair := h.keys.filter fun r => r.walletID = walletID ∧ r.idempotencyKey = k
  have hmem : ∀ r ∈ s.core.ledger.filter fun r => r.walletID = walletID ∧ r.idempotencyKey = k, r.walletID = walletID ∧ r.idempotencyKey = k :=
    fun r hr => by simpa using (mem_filter.mp hr).2
  generalize s.core.ledger.filter _ = rows at hpair hmem
  match rows with
  | [] => exact Nat.zero_le 1
  | [_] => exact le_rfl
  | r :: r' :: _ =>
    have hr := hmem r (by simp)
    have hr' := hmem r' (by simp)
    exact absurd (hr.2.trans hr'.2.symm) ((pairwise_cons.mp hpair).1 r' (by simp) (hr.1.trans hr'.1.symm))

/-- A committed allocation finds its key in the tenant's wallet, or adds the one row with it. -/
theorem Books.allocate (h : Books s₀ s new) (hs : Start s₀) {t : UUID} {a : ℤ} {k : String} {ledgerID : UUID} {now dbNow : Time}
    {b : Bool} {core' : DB} (hc : s.core.allocateMonthlyQuota t a k ledgerID now dbNow = .ok (b, core')) :
    ∃ p ∈ s₀.core.wallets, p.tenantID = t ∧ (∃ r ∈ core'.ledger, r.walletID = p.id ∧ r.idempotencyKey = k) ∧
      (core' = s.core ∨ ∃ row, row.idempotencyKey = k ∧ row.amount = a ∧ core'.ledger = s.core.ledger ++ [row] ∧
        Books s₀ { s with core := core' } (new ++ [row])) := by
  obtain ⟨f, hf, hp⟩ := h.wallets
  obtain ⟨p', hp', ht, hcases⟩ := DB.allocateMonthlyQuota_ok (h.walletIDs hs) hc
  rw [hf] at hp'
  obtain ⟨p, hpm, rfl⟩ := mem_map.mp hp'
  obtain ⟨hid, htenant, hbal⟩ := hp p hpm
  refine ⟨p, hpm, htenant.symm.trans ht, ?_⟩
  rcases hcases with ⟨rfl, r, hr, hrw, hrk⟩ | ⟨row, -, hamount, -, hkey, hsource, -, -, ha⟩
  · exact ⟨⟨r, hr, hrw.trans hid, hrk⟩, .inl rfl⟩
  have hrow : row.walletID = p.id := ha.rowWallet.trans hid
  refine ⟨⟨row, by rw [ha.ledger]; exact mem_append_right _ mem_cons_self, hrow, hkey⟩,
    .inr ⟨row, hkey, hamount, ha.ledger, ?_, ?_, ?_, ?_⟩⟩
  · show core'.ledger = _
    rw [ha.ledger, h.ledger, append_assoc]
  · show core'.ledger.Pairwise _
    rw [ha.ledger, pairwise_append]
    refine ⟨h.keys, pairwise_singleton _ _, fun r hr r' hr' hrw => ?_⟩
    obtain rfl := mem_singleton.mp hr'
    exact ha.keyFree r hr (hrw.trans ha.rowWallet)
  · intro r hr
    rcases mem_append.mp hr with hr | hr
    · exact h.source r hr
    · rw [mem_singleton.mp hr, hsource]
  refine ⟨fun q => if (f q).id = (f p).id then
    { f p with balance := (f p).balance + a, version := (f p).version + 1, updatedAt := timestamptz dbNow } else f q, ?_, ?_⟩
  · show core'.wallets = _
    rw [ha.wallets, hf, map_map]
    rfl
  intro q hq
  obtain ⟨hqid, hqt, hqb⟩ := hp q hq
  dsimp only
  split_ifs with heq
  · obtain rfl : q = p := inj_on_of_nodup_map hs.walletIDs hq hpm (hqid.symm.trans (heq.trans hid))
    refine ⟨hid, htenant, ?_⟩
    simp [hrow, hqb, hamount, add_assoc]
  · refine ⟨hqid, hqt, ?_⟩
    have hne : row.walletID ≠ q.id := fun he => heq (hqid.trans (he.symm.trans (hrow.trans hid.symm)))
    simp [hne, hqb]

end Tables

/-! ## Workers and allocators -/

structure AllocInv (s₀ : BillingDB) (w : W) : Prop where
  books : ∃ new, Books s₀ w.store new ∧ ∀ r ∈ new, ∃ sub t, r.idempotencyKey = buildMsgID sub t ∧ Credited r sub t w
  subs : ∃ f, w.store.core.subs = s₀.core.subs.map f ∧ ∀ r ∈ s₀.core.subs, (f r).id = r.id ∧ (f r).tenantID = r.tenantID
  stream : ∀ m ∈ w.store.stream, Genuine s₀ m
  handles : ∀ i d, .invoke i (.handle d) ∈ w.hist → ∃ m, Genuine s₀ m ∧ d = ⟨m.msgID, some m.body⟩
  reached : ∀ i t a k b pre post, .act i (.core (.allocateMonthlyQuota t a k)) (.ok b) pre post ∈ w.hist →
    ∃ p ∈ s₀.core.wallets, p.tenantID = t ∧ ∃ r ∈ w.store.core.ledger, r.walletID = p.id ∧ r.idempotencyKey = k

abbrev allocSpec (s₀ : BillingDB) : Spec Req Resp BillingDB Call Res := .ofHistory (AllocInv s₀)

section Calls

variable {s₀ : BillingDB} {i : ℕ} {u v w : W} {e : Ev} {α : Type} {Q : α → W → Prop}

abbrev Sa (s₀ : BillingDB) (i : ℕ) (Q : α → W → Prop) (p : Client α) (w : W) : Prop := Safe (system Deliveries) (allocSpec s₀) i Q p w

theorem Credited.after {row : LedgerRow} {sub : UUID} {t : Time} (h : Credited row sub t w) : Credited row sub t (w.after e) := by
  obtain ⟨i, d, ev, plan, x, y, pre, post, pre', post', h1, h2, h3, h4, h5, h6, h7, h8⟩ := h
  exact ⟨i, d, ev, plan, x, y, pre, post, pre', post', mem_cons_of_mem _ h1, h2, h3, h4, mem_cons_of_mem _ h5, h6,
    mem_cons_of_mem _ h7, h8⟩

/-- What the requests of the renewal workers and the other requests of `Handle` leave alone. -/
theorem exec_quiet {q : Req} {x : Resp q} {s s' : BillingDB} (hq : q.ofRenewer) (he : exec q s x s') :
    s'.core.ledger = s.core.ledger ∧ s'.core.wallets = s.core.wallets ∧
      (∃ g, s'.core.subs = s.core.subs.map g ∧ ∀ r, (g r).id = r.id ∧ (g r).tenantID = r.tenantID) ∧
      ∀ m ∈ s'.stream, m ∈ s.stream ∨ q = .publish m := by
  have hsame : ∀ s : BillingDB, s.core.ledger = s.core.ledger ∧ s.core.wallets = s.core.wallets ∧
      (∃ g, s.core.subs = s.core.subs.map g ∧ ∀ r, (g r).id = r.id ∧ (g r).tenantID = r.tenantID) ∧
      ∀ m ∈ s.stream, m ∈ s.stream ∨ q = .publish m :=
    fun s => ⟨rfl, rfl, ⟨fun r => r, by simp, fun _ => ⟨rfl, rfl⟩⟩, fun _ h => .inl h⟩
  cases q with
  | core q =>
    obtain rfl : q = .clock := hq
    obtain ⟨_, rfl, rfl⟩ := he
    exact hsame _
  | listDueSubscriptions asOf limit =>
    obtain rfl := he.1
    exact hsame _
  | renewSubscription id old price t =>
    obtain ⟨_, htx⟩ := he
    rcases Tx.store_cases htx with rfl | ⟨_, hc⟩
    · exact hsame _
    · obtain ⟨_, -, -, -, -, -, -, rfl⟩ := BillingDB.renewSubscription_ok hc
      refine ⟨rfl, rfl, ⟨_, rfl, fun r => ?_⟩, fun _ h => .inl h⟩
      split_ifs <;> exact ⟨rfl, rfl⟩
  | publish m' =>
    rcases he with (rfl | ⟨rfl, -⟩) | ⟨rfl, -⟩
    · refine ⟨rfl, rfl, (hsame s).2.2.1, fun m hm => ?_⟩
      rcases mem_append.mp hm with hm | hm
      · exact .inl hm
      · exact .inr (congrArg Req.publish (mem_singleton.mp hm).symm)
    · exact hsame _
    · exact hsame _
  | getPlanByID id =>
    obtain ⟨_, rfl, -⟩ := he
    exact hsame _
  | _ =>
  obtain rfl : s' = s := he
  exact hsame _

theorem AllocInv.quiet (h : AllocInv s₀ w) (hl : (w.after e).store.core.ledger = w.store.core.ledger)
    (hw : (w.after e).store.core.wallets = w.store.core.wallets)
    (hsubs : ∃ g, (w.after e).store.core.subs = w.store.core.subs.map g ∧ ∀ r, (g r).id = r.id ∧ (g r).tenantID = r.tenantID)
    (hstream : ∀ m ∈ (w.after e).store.stream, Genuine s₀ m)
    (hinv : ∀ i d, e = .invoke i (.handle d) → ∃ m, Genuine s₀ m ∧ d = ⟨m.msgID, some m.body⟩)
    (hact : ∀ i t a k b pre post, e ≠ .act i (.core (.allocateMonthlyQuota t a k)) (.ok b) pre post) : AllocInv s₀ (w.after e) where
  books := by
    obtain ⟨new, hb, hc⟩ := h.books
    refine ⟨new, hb.of_eq hl hw, fun r hr => ?_⟩
    obtain ⟨sub, t, hk, hcr⟩ := hc r hr
    exact ⟨sub, t, hk, hcr.after⟩
  subs := by
    obtain ⟨f, hf, hid⟩ := h.subs
    obtain ⟨g, hg, hgid⟩ := hsubs
    refine ⟨g ∘ f, by rw [hg, hf, map_map], fun r hr => ?_⟩
    exact ⟨(hgid _).1.trans (hid r hr).1, (hgid _).2.trans (hid r hr).2⟩
  stream := hstream
  handles := by
    intro i d hm
    rcases mem_cons.mp hm with hm | hm
    · exact hinv i d hm.symm
    · exact h.handles i d hm
  reached := by
    intro i t a k b pre post hm
    rw [hl]
    rcases mem_cons.mp hm with hm | hm
    · exact absurd hm.symm (hact i t a k b pre post)
    · exact h.reached i t a k b pre post hm

theorem safe_quiet {q : Req} {k : Resp q → Client α} (hq : q.ofRenewer) (hpub : ∀ m, q = .publish m → Genuine s₀ m)
    (H : ∀ v x s', AllocInv s₀ v → exec q v.store x s' → (∀ e ∈ u.hist, e ∈ v.hist) → AllocInv s₀ (v.after (.act i q x v.store s')) →
      Sa s₀ i Q (k x) (v.after (.act i q x v.store s'))) : Sa s₀ i Q (.ask q k) u := by
  intro v hr hv x s' he _
  obtain ⟨hl, hw, hsubs, hstream⟩ := exec_quiet hq he
  have hk : AllocInv s₀ (v.after (.act i q x v.store s')) := by
    refine hv.quiet hl hw hsubs (fun m hm => ?_) (by rintro _ _ ⟨⟩) ?_
    · rcases hstream m hm with hm | rfl
      · exact hv.stream m hm
      · exact hpub m rfl
    · rintro _ _ _ _ _ _ _ ⟨⟩
      cases hq
  exact ⟨Spec.ofHistory_keeps rfl hk, H v x s' hv he hr.1 hk⟩

theorem safe_publish {m : Message} {maxDelay : ℤ} (hm : Genuine s₀ m) :
    ∀ (left : ℕ) (delay : ℤ) (u : W), Sa s₀ i (fun _ _ => True) (publishLoop maxDelay m left delay) u
  | 0, _, _ => .stop
  | left + 1, delay, u => by
    simp only [publishLoop, send_bind, pure_eq]
    refine safe_quiet trivial (by rintro _ ⟨⟩; exact hm) fun v x s' _ _ _ _ => ?_
    cases x with
    | ok _ => exact .stop
    | error e =>
    dsimp only
    split
    · exact .stop
    refine safe_quiet trivial (by rintro _ ⟨⟩) fun v x s' _ _ _ _ => ?_
    cases x with
    | error e => exact .stop
    | ok _ => exact safe_publish hm left _ _

variable {r : Renewer}

theorem safe_renews {d : DueSubscription} {now : Time} : Sa s₀ i (fun _ _ => True) (renewOne r d now) u := by
  simp only [renewOne, send_bind, pure_eq]
  refine safe_quiet trivial (by rintro _ ⟨⟩) fun v x s' hv he _ hv' => ?_
  cases x with
  | error e => exact .stop
  | ok res =>
  obtain ⟨invoiceID, htx⟩ := he
  obtain ⟨sub, hsub, hid, -, -, -, rfl, -⟩ := BillingDB.renewSubscription_ok (Tx.of_ok htx)
  obtain ⟨f, hf, hkept⟩ := hv.subs
  rw [hf] at hsub
  obtain ⟨sub₀, hsub0, rfl⟩ := mem_map.mp hsub
  have hm : Genuine s₀ (renewedMessage d (BillingDB.renewResult (f sub₀) d.currentPeriodEnd d.planPriceCents invoiceID now) now) :=
    ⟨congrArg (buildMsgID · d.currentPeriodEnd) hid.symm, sub₀, hsub0, (hkept sub₀ hsub0).1.symm, (hkept sub₀ hsub0).2.symm⟩
  exact Safe.bind (R := fun _ _ => True) (fun _ _ _ _ => .stop) hv' (safe_publish hm _ _ _)

theorem safe_sweep {now : Time} : ∀ (due : List DueSubscription) (u : W), AllocInv s₀ u →
    Sa s₀ i (fun _ _ => True) (renewAll r now due) u
  | [], _, _ => .stop
  | _ :: due, _, hu => Safe.bind (fun _ w hw _ => safe_sweep due w hw) hu safe_renews

theorem safe_worker : Sa s₀ i (fun _ _ => True) (tick r) u := by
  simp only [tick, send_bind, pure_eq]
  refine safe_quiet rfl (by rintro _ ⟨⟩) fun v₁ now s₁ _ _ _ _ => ?_
  refine safe_quiet trivial (by rintro _ ⟨⟩) fun v₂ x s₂ _ _ _ hv2 => ?_
  cases x with
  | error e => exact .stop
  | ok due => exact Safe.bind (R := fun _ _ => True) (fun _ _ _ _ => .stop) hv2 (safe_sweep due _ hv2)

/-- The allocation of a delivery of call `i` over the plan that it has read. -/
theorem AllocInv.allocate (hs : Start s₀) (h : AllocInv s₀ w) {d : Delivery} {ev : RenewedEvent} {plan : Plan} {pre' post' : BillingDB}
    (hinv : .invoke i (.handle d) ∈ w.hist) (hev : d.data = some ev)
    (hplan : .act i (.getPlanByID ev.planID) (.ok plan) pre' post' ∈ w.hist) {x : Except Err Bool} {core' : DB}
    (he : Store.exec (.allocateMonthlyQuota ev.tenantID plan.monthlyTokenQuota d.msgID) w.store.core x core') :
    AllocInv s₀ (w.after (.act i (.core (.allocateMonthlyQuota ev.tenantID plan.monthlyTokenQuota d.msgID)) x w.store
      { w.store with core := core' })) := by
  obtain ⟨m, hm, rfl⟩ := h.handles i d hinv
  obtain rfl : m.body = ev := Option.some.inj hev
  obtain ⟨new, hb, hc⟩ := h.books
  obtain ⟨f, hf, hkept⟩ := h.subs
  have hsubs : core'.subs = w.store.core.subs := exec_subs he rfl
  obtain ⟨ledgerID, now, dbNow, htx⟩ := he
  -- the ledger either stands or has the one new row, and an answer without error found its key there
  have hledger : (core' = w.store.core ∨ ∃ row, row.idempotencyKey = m.msgID ∧ row.amount = plan.monthlyTokenQuota ∧
        core'.ledger = w.store.core.ledger ++ [row] ∧ Books s₀ { w.store with core := core' } (new ++ [row])) ∧
      ∀ b, x = .ok b → ∃ p ∈ s₀.core.wallets, p.tenantID = m.body.tenantID ∧ ∃ r ∈ core'.ledger, r.walletID = p.id ∧ r.idempotencyKey = m.msgID := by
    by_cases hcommit : ∃ b, w.store.core.allocateMonthlyQuota m.body.tenantID plan.monthlyTokenQuota m.msgID ledgerID now dbNow = .ok (b, core')
    · obtain ⟨b, hcommit⟩ := hcommit
      obtain ⟨p, hp, ht, hr, hrow⟩ := hb.allocate hs hcommit
      exact ⟨hrow, fun _ _ => ⟨p, hp, ht, hr⟩⟩
    refine ⟨.inl ?_, ?_⟩
    · rcases htx.store_cases with hsame | hok
      · exact hsame
      · exact absurd hok hcommit
    · rintro b rfl
      exact absurd ⟨b, htx.of_ok⟩ hcommit
  obtain ⟨hgrow, hfound⟩ := hledger
  have hmono : ∀ r ∈ w.store.core.ledger, r ∈ core'.ledger := by
    intro r hr
    rcases hgrow with rfl | ⟨row, -, -, hl, -⟩
    · exact hr
    · rw [hl]
      exact mem_append_left _ hr
  refine ⟨?_, ⟨f, hsubs.trans hf, hkept⟩, h.stream, ?_, ?_⟩
  · have hold : ∀ r ∈ new, ∃ sub t, r.idempotencyKey = buildMsgID sub t ∧ Credited r sub t (w.after (.act i
        (.core (.allocateMonthlyQuota m.body.tenantID plan.monthlyTokenQuota m.msgID)) x w.store { w.store with core := core' })) := by
      intro r hr
      obtain ⟨sub, t, hk, hcr⟩ := hc r hr
      exact ⟨sub, t, hk, hcr.after⟩
    rcases hgrow with rfl | ⟨row, hkey, hamount, hl, hb'⟩
    · exact ⟨new, hb, hold⟩
    refine ⟨new ++ [row], hb', fun r hr => ?_⟩
    rcases mem_append.mp hr with hr | hr
    · exact hold r hr
    · obtain rfl := mem_singleton.mp hr
      exact ⟨m.body.subscriptionID, m.body.newPeriodStart, hkey.trans hm.msgID, i, _, m.body, plan, .ok plan, x, w.store, _, pre', post',
        mem_cons_of_mem _ hinv, rfl, rfl, rfl, mem_cons_of_mem _ hplan, rfl, mem_cons_self, hl, hamount⟩
  · intro j d hd
    rcases mem_cons.mp hd with hd | hd
    · cases hd
    · exact h.handles j d hd
  intro j t a k b pre post hd
  rcases mem_cons.mp hd with hd | hd
  · cases hd
    exact hfound b rfl
  · obtain ⟨p, hp, ht, r, hr, hrk⟩ := h.reached j t a k b pre post hd
    exact ⟨p, hp, ht, r, hmono r hr, hrk⟩

theorem safe_handle (hs : Start s₀) {d : Delivery} (hinv : .invoke i (.handle d) ∈ u.hist) :
    Sa s₀ i (fun _ _ => True) (handle d) u := by
  have answered : ∀ {q : Req} {k : Resp q → Client Outcome} {u : W}, q.ofRenewer → (∀ m, q ≠ .publish m) → (∀ x, ∃ o, k x = .ret o) →
      Sa s₀ i (fun _ _ => True) (.ask q k) u := by
    intro q k u hq hp hk
    refine safe_quiet hq (fun m hm => absurd hm (hp m)) fun v x s' _ _ _ _ => ?_
    obtain ⟨o, ho⟩ := hk x
    rw [ho]
    exact .stop
  simp only [handle, send_bind, pure_eq]
  split
  · exact answered trivial (by rintro _ ⟨⟩) fun x => ⟨_, rfl⟩
  split
  · exact answered trivial (by rintro _ ⟨⟩) fun x => ⟨_, rfl⟩
  rename_i ev hev
  refine safe_quiet trivial (by rintro _ ⟨⟩) fun v₁ x s₁ hv1 _ hh1 hv₁' => ?_
  cases x with
  | error e => exact answered trivial (by rintro _ ⟨⟩) fun x => ⟨_, rfl⟩
  | ok plan =>
  dsimp only
  unfold Wallet.allocateMonthlyQuota
  split_ifs
  · exact answered trivial (by rintro _ ⟨⟩) fun x => ⟨_, rfl⟩
  · exact answered trivial (by rintro _ ⟨⟩) fun x => ⟨_, rfl⟩
  rintro v₂ ⟨hh2, -⟩ hv2 x _ ⟨core', he, rfl⟩ -
  have hk := hv2.allocate hs (hh2 _ (mem_cons_of_mem _ (hh1 _ hinv))) hev (hh2 _ mem_cons_self) he
  refine ⟨Spec.ofHistory_keeps rfl hk, ?_⟩
  cases x <;> exact answered trivial (by rintro _ ⟨⟩) fun x => ⟨_, rfl⟩

theorem allocVerified (hs : Start s₀) : Verified (system Deliveries) (allocSpec s₀) := by
  intro w i c hw _ ha
  have hkeep : ∀ {w : W} {e : Ev}, AllocInv s₀ w → e.storeAfter w.store = w.store →
      (∀ i d, e = .invoke i (.handle d) → ∃ m, Genuine s₀ m ∧ d = ⟨m.msgID, some m.body⟩) →
      (∀ i q x pre post, e ≠ .act i q x pre post) → AllocInv s₀ (w.after e) := by
    intro w e hw hst hinv hact
    have hstore : (w.after e).store = w.store := hst
    refine hw.quiet (by rw [hstore]) (by rw [hstore]) ⟨fun r => r, by rw [hstore]; simp, fun _ => ⟨rfl, rfl⟩⟩ ?_ hinv
      (fun _ _ _ _ _ _ _ => hact _ _ _ _ _)
    rw [hstore]
    exact hw.stream
  have hinv : AllocInv s₀ (w.after (.invoke i c)) := by
    refine hkeep hw rfl ?_ (by rintro _ _ _ _ _ ⟨⟩)
    rintro _ d ⟨⟩
    rcases ha with ⟨r, ⟨⟩⟩ | ⟨m, hm, hc⟩
    cases hc
    exact ⟨m, hw.stream m hm, rfl⟩
  have hres : ∀ (a : Res c) (v : W), AllocInv s₀ v → Responds (system Deliveries) (allocSpec s₀) i c a v := by
    intro a v hv _
    exact Spec.ofHistory_keeps rfl (hkeep hv rfl (by rintro _ _ ⟨⟩) (by rintro _ _ _ _ _ ⟨⟩))
  refine ⟨Spec.ofHistory_keeps rfl hinv, ?_⟩
  rcases ha with ⟨r, rfl⟩ | ⟨m, -, rfl⟩
  · exact safe_worker.mono fun a v hv _ => hres a v hv
  · exact (safe_handle hs mem_cons_self).mono fun a v hv _ => hres a v hv

/-- A `Handle` that has succeeded left its key in the wallet of the subscription's tenant. -/
theorem AllocInv.row (h : AllocInv s₀ w) (hs : Start s₀) {p : TokenWallet} (hp : p ∈ s₀.core.wallets) {sub : Subscription}
    (hsub : sub ∈ s₀.core.subs) (ht : sub.tenantID = p.tenantID) {t : Time} (hr : Reached sub.id t w) :
    ∃ r ∈ w.store.core.ledger, r.walletID = p.id ∧ r.idempotencyKey = buildMsgID sub.id t := by
  obtain ⟨j, d, ev, amount, b, pre, post, hinv, hev, hsubID, hstart, hact⟩ := hr
  obtain ⟨m, hm, rfl⟩ := h.handles j d hinv
  obtain rfl : m.body = ev := Option.some.inj hev
  obtain ⟨p', hp', ht', r, hmem, hrw, hrk⟩ := h.reached _ _ _ _ _ _ _ hact
  obtain ⟨sub', hsub', hid', htenant'⟩ := hm.tenantID
  obtain rfl : sub' = sub := inj_on_of_nodup_map hs.subIDs hsub' hsub (hid'.trans hsubID)
  obtain rfl : p' = p := inj_on_of_nodup_map hs.tenants hp' hp (ht'.trans (htenant'.symm.trans ht))
  refine ⟨r, hmem, hrw, ?_⟩
  rw [hrk, hm.msgID, hsubID, hstart]

theorem allocInv_start (hs : Start s₀) : AllocInv s₀ ⟨s₀, []⟩ where
  books := ⟨[], .start hs, by rintro _ ⟨⟩⟩
  subs := ⟨fun r => r, by simp, fun _ _ => ⟨rfl, rfl⟩⟩
  stream := hs.stream
  handles := (by rintro _ _ ⟨⟩)
  reached := (by rintro _ _ _ _ _ _ _ ⟨⟩)

end Calls

/-- **One credit per renewal.**  In every reachable state of any number of renewal workers and allocators, and for the wallet of a
tenant: its new rows are monthly credits, each inserted by a `Handle` of the renewal that its key names over the quota of the plan read
there, and its balance has grown by them; for every subscription of the tenant and every period start the key stands at most once in
the wallet, and exactly once, as a monthly credit, when some `Handle` has succeeded; and no two renewals share a key. -/
theorem quota_credited_once {s₀ : BillingDB} (hs : Start s₀) {σ : Cfg} (hr : Reach (system Deliveries) s₀ σ) {p : TokenWallet}
    (hp : p ∈ s₀.core.wallets) :
    ∃ new, σ.world.store.core.ledger = s₀.core.ledger ++ new ∧
      (∀ r ∈ new, r.source = .monthlyAlloc ∧ ∃ sub t, r.idempotencyKey = buildMsgID sub t ∧ Credited r sub t σ.world) ∧
      (∃ p' ∈ σ.world.store.core.wallets, p'.id = p.id ∧
        p'.balance = p.balance + ((new.filter fun r => r.walletID = p.id).map LedgerRow.amount).sum) ∧
      (∀ sub ∈ s₀.core.subs, sub.tenantID = p.tenantID → ∀ t,
        let rows := σ.world.store.core.ledger.filter fun r => r.walletID = p.id ∧ r.idempotencyKey = buildMsgID sub.id t
        rows.length ≤ 1 ∧ (Reached sub.id t σ.world → ∃ r, rows = [r] ∧ r.source = .monthlyAlloc)) ∧
      ∀ sub sub' t t', buildMsgID sub t = buildMsgID sub' t' → sub = sub' ∧ t = t' := by
  have hinv := (allocVerified hs).inv (allocInv_start hs) hr
  obtain ⟨new, hb, hc⟩ := hinv.books
  obtain ⟨f, hf, hw⟩ := hb.wallets
  refine ⟨new, hb.ledger, fun r hr => ⟨hb.source r hr, hc r hr⟩, ⟨f p, by rw [hf]; exact mem_map_of_mem hp, (hw p hp).1, (hw p hp).2.2⟩,
    ?_, fun _ _ _ _ => buildMsgID_injective⟩
  intro sub hsub htenant t
  refine ⟨hb.rows_le_one _ _, fun hreached => ?_⟩
  obtain ⟨r, hmem, hrw, hrk⟩ := hinv.row hs hp hsub htenant hreached
  have hrow : r ∈ σ.world.store.core.ledger.filter fun r => r.walletID = p.id ∧ r.idempotencyKey = buildMsgID sub.id t :=
    mem_filter.mpr ⟨hmem, by simp [hrw, hrk]⟩
  obtain ⟨r', hrows⟩ := length_eq_one_iff.mp ((hb.rows_le_one p.id (buildMsgID sub.id t)).antisymm (length_pos_of_mem hrow))
  refine ⟨r', hrows, ?_⟩
  rw [hrows, mem_singleton] at hrow
  subst hrow
  rw [hb.ledger] at hmem
  rcases mem_append.mp hmem with hold | hnew
  · exact hs.source r hold sub.id t hrk
  · exact hb.source r hnew

def emptyWallet : TokenWallet := ⟨5, 2, 0, 0, 0, 0, 0⟩

def creditDB : BillingDB := ⟨⟨[emptyWallet], [], [], [], [januarySub]⟩, [], []⟩

def januaryMessage : Message where
  msgID := buildMsgID 3 (30 * Calendar.day)
  body :=
    { subscriptionID := 3, tenantID := 2, planID := 4, invoiceID := 7, previousPeriodEnd := 30 * Calendar.day,
      newPeriodStart := 30 * Calendar.day, newPeriodEnd := 61 * Calendar.day, amountCentsBRL := 9900, renewedAt := 40 * Calendar.day }

def januaryDelivery : Call := .handle ⟨januaryMessage.msgID, some januaryMessage.body⟩

def listed (w : W) : Ev → Bool
  | .invoke _ (.tick _) => true
  | .invoke _ (.handle d) => w.store.stream.any fun m => d = ⟨m.msgID, some m.body⟩
  | .invoke _ _ => false
  | _ => true

theorem deliveries_of_listed (w : W) (e : Ev) (h : listed w e) : Deliveries w e := by
  cases e with
  | invoke i c =>
    cases c with
    | tick r => exact .inl ⟨r, rfl⟩
    | handle d =>
      obtain ⟨m, hm, hd⟩ := any_eq_true.mp h
      exact .inr ⟨m, hm, congrArg Call.handle (of_decide_eq_true hd)⟩
    | _ => cases h
  | _ => trivial

/-- A sweep renews the subscription, and its message is handled twice: one credit. -/
theorem quota_credited_once_january : ∃ σ : Cfg, Start creditDB ∧ Reach (system Deliveries) creditDB σ ∧
    .respond 2 januaryDelivery Outcome.skippedDuplicate ∈ σ.world.hist ∧ σ.world.store.core.ledger.length = 1 ∧
    ∃ new, σ.world.store.core.ledger = [] ++ new ∧
      (∀ r ∈ new, r.source = .monthlyAlloc ∧ ∃ sub t, r.idempotencyKey = buildMsgID sub t ∧ Credited r sub t σ.world) ∧
      (∃ p' ∈ σ.world.store.core.wallets, p'.id = 5 ∧
        p'.balance = 0 + ((new.filter fun r => r.walletID = 5).map LedgerRow.amount).sum) ∧
      (∀ sub ∈ creditDB.core.subs, sub.tenantID = 2 → ∀ t,
        let rows := σ.world.store.core.ledger.filter fun r => r.walletID = 5 ∧ r.idempotencyKey = buildMsgID sub.id t
        rows.length ≤ 1 ∧ (Reached sub.id t σ.world → ∃ r, rows = [r] ∧ r.source = .monthlyAlloc)) ∧
      ∀ sub sub' t t', buildMsgID sub t = buildMsgID sub' t' → sub = sub' ∧ t = t' := by
  have hs : Start creditDB := by
    refine ⟨by decide, by decide, by decide, .nil, ?_, ?_⟩
    all_goals rintro _ ⟨⟩
  let turns := sweep 0 5 ++ .invoke 1 januaryDelivery :: List.replicate 4 (.move 1) ++ .invoke 2 januaryDelivery :: List.replicate 4 (.move 2)
  let serve₀ := serve [basicPlan] (40 * Calendar.day) 7
  obtain ⟨hlisted, hres, hlen⟩ : (Conf.start creditDB).checks (system Deliveries) serve₀ (fun _ _ => true) listed turns = true ∧
      (let w := ((Conf.start creditDB).play (system Deliveries) serve₀ turns).world
       w.result 2 (.handle ⟨januaryMessage.msgID, some januaryMessage.body⟩) = some Outcome.skippedDuplicate ∧ w.store.core.ledger.length = 1) := by decide +kernel
  have hr := Reach.played (exec_serve (by decide)) deliveries_of_listed turns hlisted
  exact ⟨_, hs, hr, World.mem_of_result hres, hlen, quota_credited_once hs hr (mem_singleton_self emptyWallet)⟩

end Crm.Billing
