import Mathlib.Data.List.Find
import Crm.Grant.Credit
import Crm.Grant.Request
import Crm.Store.Serve

/-!
# Crm.Grant.Payload — what the readers of a grant make of what the writers stored

`IssueGrant` and `ApproveGrantRequest` both insert into `master_grant`, each with its own encoder.  `Apply` and the cap
accounting read the column back.  `InsertedBy` lists the rows the two writers insert, `Agrees` says that the two readers
take such a row for the value it was issued with.  They do, except for the tokens of an approved request: these are stored under a
key that neither reader looks at (`payload_agrees_iff`).
-/

namespace Crm.Grant

open Int64Arith Interleave Crm.Wallet Crm.Store List Prog
open Crm.Billing (Subscription SubscriptionStatus)

inductive Writer : Type
  | issueGrant
  | approveGrantRequest
  deriving DecidableEq, Repr

/-- The values the web layer accepts, as far as the column can hold them. -/
def Issuable : GrantKind → ℤ → Prop
  | .freeSubscriptionPeriod, n => 1 ≤ n ∧ n ≤ 366
  | .extraTokens, n => 0 < n ∧ Float64.Exact n ∧ InRange n
  | .unknown _, _ => False

def valueOf (kind : GrantKind) (periodDays amount : ℤ) : ℤ :=
  match kind with
  | .freeSubscriptionPeriod => periodDays
  | .extraTokens => amount
  | .unknown _ => 0

/-- `r` is a row that the writer inserts for a grant of the kind, worth `n`. -/
inductive InsertedBy : Writer → GrantKind → ℤ → MasterGrantRow → Prop
  /-- Whatever the requests of `IssueGrant` are answered, it comes to this `Create`. -/
  | issue {applier : Bool} {inp : IssueGrantInput} {l : List (Σ q, Resp q)} {g : MasterGrant}
      {k : Resp (.createGrant g) → Client (Except Err GrantRow)} {db db' : DB} {r : MasterGrantRow}
      (run : (issueGrant applier inp).Path l (.ask (.createGrant g) k)) (nonNil : g.id ≠ UUID.Nil)
      (create : db.createGrant g = .ok ((), db')) (row : db'.grants = db.grants ++ [r]) :
      InsertedBy .issueGrant inp.kind (valueOf inp.kind inp.periodDays inp.amount) r
  /-- A request is created and, when the tables still hold it as it was, approved. -/
  | approve {inp : CreateGrantRequestInput} {dec : DecideGrantRequestInput} {id grantID : UUID} {ext grantExt : String}
      {now now' : Time} {s s₁ s₂ s₃ : RequestDB} {req : GrantRequest} {out : GrantRow} {r : MasterGrantRow}
      (create : createGrantRequest inp id ext now s = .ok (req, s₁)) (kept : s₂.findRequest dec.requestID = s₁.findRequest id)
      (nonNil : grantID ≠ UUID.Nil) (approve : approveGrantRequest dec grantID grantExt now' s₂ = .ok (out, s₃))
      (row : s₃.db.grants = s₂.db.grants ++ [r]) :
      InsertedBy .approveGrantRequest inp.kind (valueOf inp.kind inp.periodDays inp.amount) r

/-! ## What the readers are asked to do -/

/-- The grant is stored as `r`, and its tenant's wallet `w` has room for `n` tokens and no credit for the grant. -/
structure TokensReady (r : MasterGrantRow) (n : ℤ) (u : UUID) (db : DB) (w : TokenWallet) : Prop where
  grant : db.findGrant r.id = some r
  wallet : db.loadByTenant r.tenantID = .ok w
  walletIDs : (db.wallets.map TokenWallet.id).Nodup
  wf : w.WF
  version : InRange w.version
  room : w.balance + n ≤ maxInt64
  idFree : ∀ row ∈ db.ledger, row.id ≠ u
  keyFree : ∀ row ∈ db.ledger, row.walletID = w.id → row.idempotencyKey ≠ idempotencyKeyForGrant r.externalID

/-- The grant is stored as `r`, and `sub` is its tenant's one active subscription, at the precision of the column. -/
structure DaysReady (r : MasterGrantRow) (db : DB) (sub : Subscription) : Prop where
  grant : db.findGrant r.id = some r
  subscription : db.getSubscription r.tenantID = .ok sub
  subIDs : (db.subs.map Subscription.id).Nodup
  active : ∀ s ∈ db.subs, s.tenantID = r.tenantID → s.status = .active → s.id = sub.id
  ordered : sub.currentPeriodStart < sub.currentPeriodEnd
  aligned : (1000 : ℤ) ∣ sub.currentPeriodEnd

/-- `Apply`, run alone on a store that is ready for it, credits exactly `n`. -/
def Credits (r : MasterGrantRow) : GrantKind → ℤ → Prop
  | .extraTokens, n => ∀ (now : Time) (u : UUID) (ulid : String) (db : DB) (w : TokenWallet), TokensReady r n u db w →
      ∃ db' w', (apply r.id).eval (serve now u ulid) db = (.ok true, db') ∧
        db'.loadByTenant r.tenantID = .ok w' ∧ w'.balance = w.balance + n
  | .freeSubscriptionPeriod, n => ∀ (now : Time) (u : UUID) (ulid : String) (db : DB) (sub : Subscription),
      DaysReady r db sub →
      ∃ db' sub', (apply r.id).eval (serve now u ulid) db = (.ok true, db') ∧
        db'.getSubscription r.tenantID = .ok sub' ∧ sub'.id = sub.id ∧
        sub'.currentPeriodEnd = sub.currentPeriodEnd + n * (24 * hour)
  | .unknown _, _ => False

/-- The two readers take the row for a grant of `kind` worth `n`. -/
structure Agrees (r : MasterGrantRow) (kind : GrantKind) (n : ℤ) : Prop where
  credits : Credits r kind n
  -- wherever the grant stands among those inside the window
  counts : ∃ g, r.decode = .ok g ∧ ∀ gs gs' cutoff, cutoff ≤ r.createdAt →
    cumulativeEquivalentSince (gs ++ g :: gs') cutoff =
      wrap (cumulativeEquivalentSince (gs ++ gs') cutoff + capEquivalence kind n n)

section Stored

variable {wr : Writer} {kind : GrantKind} {n : ℤ} {r : MasterGrantRow}

theorem Issuable.number (h : Issuable kind n) : 0 < n ∧ Float64.Exact n ∧ InRange n := by
  cases kind with
  | freeSubscriptionPeriod =>
    obtain ⟨h1, h2⟩ := h
    exact ⟨by omega, Float64.exact_of_abs_lt (by rw [abs_of_pos (by omega)]; omega), by unfold InRange minInt64 maxInt64; omega⟩
  | extraTokens => exact h
  | unknown text => exact h.elim

def storedKey : Writer → GrantKind → String
  | _, .freeSubscriptionPeriod => "period_days"
  | .issueGrant, .extraTokens => "amount"
  | .approveGrantRequest, .extraTokens => "tokens"
  | _, .unknown _ => ""

/-- What the two writers have in common: a pending row with one number in the payload. -/
structure Stored (wr : Writer) (kind : GrantKind) (n : ℤ) (r : MasterGrantRow) : Prop where
  nonNil : r.id ≠ UUID.Nil
  rowKind : r.kind = kind
  payload : r.payload = [(storedKey wr kind, .num n)]
  unconsumed : r.consumedAt = none
  unrevoked : r.revokedAt = none

theorem buildGrantPayload_eq {inp : IssueGrantInput} (h : Issuable inp.kind n) (hn : valueOf inp.kind inp.periodDays inp.amount = n) :
    marshal (buildGrantPayload inp) = [(storedKey .issueGrant inp.kind, .num n)] := by
  subst hn
  unfold buildGrantPayload
  split <;> rename_i hk <;> rw [hk] at h ⊢
  · rfl
  · rfl
  · exact h.elim

theorem encodePayload_eq {d a : ℤ} (h : Issuable kind n) (hn : valueOf kind d a = n) :
    encodePayload kind d a = .ok [(storedKey .approveGrantRequest kind, .num n)] := by
  subst hn
  cases kind with
  | freeSubscriptionPeriod => rfl
  | extraTokens => rfl
  | unknown text => exact h.elim

def splitValue : GrantKind → ℤ → ℤ × ℤ
  | .freeSubscriptionPeriod, n => (n, 0)
  | .extraTokens, n => (0, n)
  | .unknown _, _ => (0, 0)

/-- The four-eyes path reads back the value it wrote itself. -/
theorem decodePayload_eq (h : Issuable kind n) :
    decodePayload kind [(storedKey .approveGrantRequest kind, .num n)] = .ok (splitValue kind n) := by
  obtain ⟨-, he, hr⟩ := h.number
  unfold decodePayload
  rw [unmarshal_int he hr]
  cases kind with
  | freeSubscriptionPeriod => exact congrArg (fun x => Except.ok (x, 0)) (Float64.toInt64_intCast hr)
  | extraTokens => exact congrArg (fun x => Except.ok (0, x)) (Float64.toInt64_intCast hr)
  | unknown text => exact h.elim

theorem valueOf_splitValue (h : Issuable kind n) : valueOf kind (splitValue kind n).1 (splitValue kind n).2 = n := by
  cases kind with
  | freeSubscriptionPeriod => rfl
  | extraTokens => rfl
  | unknown text => exact h.elim

theorem InsertedBy.stored (hn : Issuable kind n) (h : InsertedBy wr kind n r) : Stored wr kind n r := by
  cases h with
  | issue run nonNil create row =>
    obtain ⟨hk, hp, -⟩ := (run.cons (.ok ())).always_head (issueGrant_creates _ _) _ rfl
    obtain ⟨row', hid, -, -, hkind, hpayload, -, hc, hrev, -, rfl⟩ := DB.createGrant_ok create
    obtain rfl : row' = r := singleton_inj.mp (append_cancel_left row)
    refine ⟨by rwa [hid], hkind.trans hk, ?_, hc, hrev⟩
    rw [hpayload, hp]
    exact buildGrantPayload_eq hn rfl
  | approve create kept nonNil approve row =>
  obtain ⟨payload, req, henc, hfind, hkind, rfl⟩ := createGrantRequest_ok create
  rw [hfind] at kept
  obtain ⟨row', req', d, a, payload', hfind', -, -, hdec, henc', hkind', hgrants⟩ := approveGrantRequest_ok approve
  obtain rfl : req = row' := Option.some.inj (kept.symm.trans hfind')
  obtain rfl : promotedRow req' payload' _ _ _ = r := singleton_inj.mp (append_cancel_left (hgrants.symm.trans row))
  rw [encodePayload_eq hn rfl] at henc
  rw [hkind, ← Except.ok.inj henc, decodePayload_eq hn] at hdec
  obtain ⟨rfl, rfl⟩ : (splitValue _ _).1 = d ∧ (splitValue _ _).2 = a := by simpa [Prod.ext_iff] using hdec
  rw [hkind, encodePayload_eq hn (valueOf_splitValue hn)] at henc'
  exact ⟨nonNil, hkind'.trans hkind, (Except.ok.inj henc').symm, rfl, rfl⟩

end Stored

/-! ## The readers, run alone -/

section Readers

variable {db : DB} {g : MasterGrant} {now : Time} {u : UUID} {ulid : String}

theorem eval_apply_error {e : Err} {db₁ : DB} (hid : g.id ≠ UUID.Nil) (hg : db.getGrantByID g.id = .ok g)
    (hp : g.consumedAt = none ∧ g.revokedAt = none)
    (hs : (sideEffect g now).eval (serve now u ulid) db = (.error e, db₁)) :
    (apply g.id).eval (serve now u ulid) db = (.error e, db₁) := by
  simp only [apply, send_bind, pure_eq, if_neg hid, eval_ask, serve, hg, MasterGrant.isConsumed,
    MasterGrant.isRevoked, hp, Option.isSome_none, Bool.false_eq_true, or_self, if_false, eval_bind, hs, eval_ret]

theorem eval_apply {ref : String} {db₁ : DB} (hid : g.id ≠ UUID.Nil) (hg : db.getGrantByID g.id = .ok g)
    (hp : g.consumedAt = none ∧ g.revokedAt = none)
    (hs : (sideEffect g now).eval (serve now u ulid) db = (.ok ref, db₁)) (hg1 : db₁.getGrantByID g.id = .ok g) :
    (apply g.id).eval (serve now u ulid) db = (.ok true, db₁.updateGrant g.id fun r =>
      { r with consumedAt := some (timestamptz now), consumedRef := some ref }) := by
  have hc : db₁.consumeGrant g.id ref now = .ok ((), db₁.updateGrant g.id fun r =>
      { r with consumedAt := some (timestamptz now), consumedRef := some ref }) := by
    simp [DB.consumeGrant, hg1, MasterGrant.consume, MasterGrant.isRevoked, MasterGrant.isConsumed, hp, Bind.bind, Except.bind]
  simp only [apply, send_bind, pure_eq, if_neg hid, eval_ask, serve, hg, MasterGrant.isConsumed,
    MasterGrant.isRevoked, hp, Option.isSome_none, Bool.false_eq_true, or_self, if_false, eval_bind, hs, hc, outcome,
    eval_ret]

theorem find?_loaded (hids : (db.wallets.map TokenWallet.id).Nodup) {t : UUID} {w : TokenWallet}
    (h : db.loadByTenant t = .ok w) : db.wallets.find? (fun r => r.id = w.id ∧ r.tenantID = w.tenantID) = some w := by
  obtain ⟨-, hw, -⟩ := DB.loadByTenant_ok h
  cases hf : db.wallets.find? fun r => decide (r.id = w.id ∧ r.tenantID = w.tenantID) with
  | none => simpa using find?_eq_none.mp hf w hw
  | some p =>
  obtain ⟨hp, hpw⟩ := DB.find?_wallet hf
  rw [inj_on_of_nodup_map hids hp hw (of_decide_eq_true hpw).1]

theorem loadByTenant_updateWallet {d : DB} (hids : (d.wallets.map TokenWallet.id).Nodup) {t : UUID} {w w' : TokenWallet}
    (h : d.loadByTenant t = .ok w) (hid : w.id = w'.id) (now : Time) :
    (d.updateWallet w' now).loadByTenant t =
      .ok { w with balance := w'.balance, reserved := w'.reserved, version := w'.version, updatedAt := timestamptz now } := by
  obtain ⟨ht, hw, htw⟩ := DB.loadByTenant_ok h
  have hfind : d.wallets.find? (fun x => x.tenantID = t) = some w := by
    unfold DB.loadByTenant at h
    rw [if_neg ht] at h
    split at h
    · rename_i x hx
      cases h
      exact hx
    · cases h
  have hcomp : ∀ x ∈ d.wallets, ((fun x : TokenWallet => decide (x.tenantID = t)) ∘ fun r => if r.id = w.id then
      { w with balance := w'.balance, reserved := w'.reserved, version := w'.version, updatedAt := timestamptz now }
      else r) x = decide (x.tenantID = t) := by
    intro x hx
    by_cases hxw : x.id = w.id
    · obtain rfl : x = w := inj_on_of_nodup_map hids hx hw hxw
      simp
    · simp [hxw]
  rw [DB.loadByTenant, if_neg ht, DB.updateWallet_wallets hids hw hid, find?_map, find?_congr hcomp, hfind]
  simp

theorem grant_ok {a : ℤ} {w : TokenWallet} {t : Time} (ha : 0 < a) (h0 : 0 ≤ w.balance) (hle : w.balance + a ≤ maxInt64) :
    ∃ w', w.grant a t = .ok w' ∧ w.Bumped (w.balance + a) w.reserved w' := by
  have h1 : wrap (maxInt64 - w.balance) = maxInt64 - w.balance := wrap_of_bounds (by omega) (by omega)
  unfold TokenWallet.grant
  rw [if_neg (by omega), h1, if_neg (by omega), wrap_of_bounds (by omega) hle]
  exact ⟨_, rfl, rfl, rfl, rfl, rfl, rfl⟩

theorem eval_extraTokens (now : Time) (u : UUID) (ulid : String) {w : TokenWallet} (ha : 0 < readInt64Payload g.payload "amount")
    (hids : (db.wallets.map TokenWallet.id).Nodup) (hw : db.loadByTenant g.tenantID = .ok w) (hwf : w.WF)
    (hver : InRange w.version) (hroom : w.balance + readInt64Payload g.payload "amount" ≤ maxInt64)
    (hid : ∀ row ∈ db.ledger, row.id ≠ u)
    (hkey : ∀ row ∈ db.ledger, row.walletID = w.id → row.idempotencyKey ≠ idempotencyKeyForGrant g.externalID) :
    ∃ db₁ w₁, (applyExtraTokens g now).eval (serve now u ulid) db = (.ok u.string, db₁) ∧ db₁.grants = db.grants ∧
      db₁.loadByTenant g.tenantID = .ok w₁ ∧ w₁.balance = w.balance + readInt64Payload g.payload "amount" := by
  obtain ⟨w', hg, hb⟩ : ∃ w', w.grant (readInt64Payload g.payload "amount") now = .ok w' ∧
      w.Bumped (w.balance + readInt64Payload g.payload "amount") w.reserved w' :=
    grant_ok ha (by unfold TokenWallet.WF at hwf; omega) hroom
  obtain ⟨ht, -, htw⟩ := DB.loadByTenant_ok hw
  obtain ⟨e, he⟩ : ∃ e, e = grantEntry w' (readInt64Payload g.payload "amount") (idempotencyKeyForGrant g.externalID)
    g.externalID (some .masterGrant) (some g.id) now u := ⟨_, rfl⟩
  have hlock : db.applyWithLock w' [e] now =
      .ok ((), { db with ledger := db.ledger ++ [LedgerRow.ofEntry e] }.updateWallet w' now) := by
    subst he
    refine DB.applyWithLock_eq (p := w) (by rwa [hb.tenantID, htw]) (by rw [hb.id, hb.tenantID]; exact find?_loaded hids hw) ?_
      (by rw [hb.balance]; unfold TokenWallet.WF at hwf; omega) (by rw [hb.reserved]; exact hwf.1) rfl
      (.inr ⟨rfl, by simp [grantEntry]⟩) hid fun row hr heq => hkey row hr (heq.trans hb.id)
    rw [hb.version, wrap_wrap_sub, add_sub_cancel_right, wrap_of_inRange hver]
  have hload := loadByTenant_updateWallet (d := { db with ledger := db.ledger ++ [LedgerRow.ofEntry e] }) hids hw hb.id.symm now
  refine ⟨_, _, ?_, ?_, hload, hb.balance⟩
  · simp only [applyExtraTokens, send_bind, pure_eq, if_neg (not_le.mpr ha), eval_ask, serve, hw, hg, ← he,
      hlock, outcome, eval_ret]
  · rfl

theorem daysDuration_eq {n : ℤ} (h1 : 1 ≤ n) (h2 : n ≤ 366) : daysDuration n = n * (24 * hour) := by
  unfold daysDuration hour
  rw [wrap_of_inRange (x := n * 24) (by unfold InRange minInt64 maxInt64; omega),
    wrap_of_inRange (by unfold InRange minInt64 maxInt64; omega), mul_assoc]

variable {sub : Subscription}

theorem getSubscription_overwrite {d : DB} (hids : (d.subs.map Subscription.id).Nodup) {t : UUID} {e : Subscription}
    (h : d.getSubscription t = .ok sub) (hid : e.id = sub.id) (hst : e.status = sub.status) :
    ({ d with subs := d.subs.map fun r => if r.id = e.id then DB.overwriteSubscription e r else r } : DB).getSubscription t =
      .ok (DB.overwriteSubscription e sub) := by
  obtain ⟨ht, hfind⟩ := getSubscription_ok h
  have hcomp : ∀ x ∈ d.subs, ((fun x : Subscription => decide (x.tenantID = t ∧ x.status = .active)) ∘ fun r =>
      if r.id = e.id then DB.overwriteSubscription e r else r) x = decide (x.tenantID = t ∧ x.status = .active) := by
    intro x hx
    by_cases hxs : x.id = e.id
    · obtain rfl : x = sub := inj_on_of_nodup_map hids hx (mem_of_find?_eq_some hfind) (hxs.trans hid)
      simp [DB.overwriteSubscription, hid, hst]
    · simp [hxs]
  rw [DB.getSubscription, if_neg ht, find?_map, find?_congr hcomp, hfind]
  simp [hid]

theorem eval_freePeriod (now : Time) (u : UUID) (ulid : String) {n : ℤ} (hn : readInt64Payload g.payload "period_days" = n) (h1 : 1 ≤ n)
    (h2 : n ≤ 366) (hg : db.getGrantByID g.id = .ok g) (hp : g.consumedAt = none ∧ g.revokedAt = none)
    (hsub : db.getSubscription g.tenantID = .ok sub) (hids : (db.subs.map Subscription.id).Nodup)
    (hone : ∀ s ∈ db.subs, s.tenantID = g.tenantID → s.status = .active → s.id = sub.id) (hord : sub.currentPeriodStart < sub.currentPeriodEnd)
    (halign : (1000 : ℤ) ∣ sub.currentPeriodEnd) :
    ∃ db₁ sub₁, (applyFreePeriod g now).eval (serve now u ulid) db = (.ok sub.id.string, db₁) ∧ db₁.grants = db.grants ∧
      db₁.getSubscription g.tenantID = .ok sub₁ ∧ sub₁.id = sub.id ∧
      sub₁.currentPeriodEnd = sub.currentPeriodEnd + n * (24 * hour) := by
  obtain ⟨-, hfind⟩ := getSubscription_ok hsub
  have hmem := mem_of_find?_eq_some hfind
  obtain ⟨htenant, hactive⟩ : sub.tenantID = g.tenantID ∧ sub.status = .active := by simpa using find?_some hfind
  have hd := daysDuration_eq h1 h2
  have hpos : (0 : ℤ) < daysDuration n := by
    rw [hd]
    unfold hour
    omega
  have hext : sub.extendPeriod (daysDuration n) now = .ok (extension sub (daysDuration n) now) := by
    rw [Subscription.extendPeriod, if_neg (by omega), if_neg (by simp [hactive])]
    rfl
  have hend : timestamptz (sub.currentPeriodEnd + daysDuration n) = sub.currentPeriodEnd + n * (24 * hour) := by
    rw [hd]
    refine timestamptz_of_dvd ?_
    unfold hour
    omega
  have hsave : db.saveSubscription (extension sub (daysDuration n) now) =
      .ok ((), { db with
        subs := db.subs.map fun r =>
          if r.id = sub.id then DB.overwriteSubscription (extension sub (daysDuration n) now) r else r }) := by
    unfold DB.saveSubscription
    rw [if_neg, if_neg, if_pos]
    · rfl
    · exact any_eq_true.mpr ⟨sub, hmem, decide_eq_true rfl⟩
    · simp only [extension, hactive, true_and, any_eq_true, decide_eq_true_eq, not_exists, not_and]
      intro r hr hne ht hst
      exact hne (hone r hr (ht.trans htenant) hst)
    have hstart := timestamptz_le sub.currentPeriodStart
    show ¬ timestamptz (sub.currentPeriodEnd + daysDuration n) ≤ timestamptz sub.currentPeriodStart
    rw [hend, not_le, ← hd]
    have hlt : (sub.currentPeriodStart : ℤ) < sub.currentPeriodEnd + daysDuration n := lt_add_of_lt_of_pos hord hpos
    exact lt_of_le_of_lt hstart hlt
  have hload := getSubscription_overwrite (e := extension sub (daysDuration n) now) hids hsub rfl rfl
  refine ⟨_, _, ?_, ?_, hload, rfl, hend⟩
  · simp only [applyFreePeriod, send_bind, pure_eq, hn, if_neg (show ¬ n ≤ 0 by omega), eval_ask, serve, hg,
      MasterGrant.isConsumed, MasterGrant.isRevoked, hp, Option.isSome_none, Bool.false_eq_true, if_false, hsub, hext, hsave,
      outcome, eval_ret]
    rfl
  · rfl

end Readers

/-! ## Agreement -/

section Agreement

variable {wr : Writer} {kind : GrantKind} {n : ℤ} {r : MasterGrantRow}

structure Decoded (wr : Writer) (kind : GrantKind) (n : ℤ) (r : MasterGrantRow) (g : MasterGrant) : Prop where
  id : g.id = r.id
  externalID : g.externalID = r.externalID
  tenantID : g.tenantID = r.tenantID
  kindEq : g.kind = kind
  payload : g.payload = [(storedKey wr kind, .float64 n)]
  createdAt : g.createdAt = r.createdAt
  pending : g.consumedAt = none ∧ g.revokedAt = none

theorem Stored.decode (h : Stored wr kind n r) (hn : Issuable kind n) : ∃ g, r.decode = .ok g ∧ Decoded wr kind n r g := by
  obtain ⟨-, he, hr⟩ := hn.number
  rw [MasterGrantRow.decode, h.payload, unmarshal_int he hr]
  exact ⟨_, rfl, rfl, rfl, rfl, h.rowKind, rfl, rfl, h.unconsumed, h.unrevoked⟩

variable {g : MasterGrant} {db : DB}

theorem Decoded.counted (hd : Decoded wr kind n r g) {cutoff : Time} (hc : cutoff ≤ r.createdAt) : counted cutoff g = true := by
  simp [Grant.counted, MasterGrant.isRevoked, hd.pending, hd.createdAt, hc]

theorem getGrantByID_of_stored (hf : db.findGrant r.id = some r) (hr : r.decode = .ok g) (hid : g.id = r.id) : db.getGrantByID g.id = .ok g := by
  rw [DB.getGrantByID, hid, hf]
  exact hr

/-- `Apply` of a stored grant marks it consumed once its side effect has landed. -/
theorem Decoded.applied (hd : Decoded wr kind n r g) (hnil : r.id ≠ UUID.Nil) {now : Time} {u : UUID} {ulid ref : String} {db₁ : DB}
    (hg : db.getGrantByID g.id = .ok g) (hs : (sideEffect g now).eval (serve now u ulid) db = (.ok ref, db₁)) (hgrants : db₁.grants = db.grants) :
    (apply r.id).eval (serve now u ulid) db = (.ok true, db₁.updateGrant g.id fun r =>
      { r with consumedAt := some (timestamptz now), consumedRef := some ref }) := by
  have hg1 : db₁.getGrantByID g.id = .ok g := by
    rw [DB.getGrantByID, DB.findGrant, hgrants]
    exact hg
  rw [← hd.id] at hnil ⊢
  exact eval_apply hnil hg hd.pending hs hg1

theorem Stored.credits_days (h : Stored wr .freeSubscriptionPeriod n r) (hn : Issuable .freeSubscriptionPeriod n) (hr : r.decode = .ok g)
    (hd : Decoded wr .freeSubscriptionPeriod n r g) (hread : readInt64Payload g.payload "period_days" = n) : Credits r .freeSubscriptionPeriod n := by
  intro now u ulid db sub hready
  have hg := getGrantByID_of_stored hready.grant hr hd.id
  obtain ⟨db₁, sub₁, hs, hgrants, hsub, hid, hend⟩ := eval_freePeriod now u ulid hread hn.1 hn.2 hg hd.pending
    (by rw [hd.tenantID]; exact hready.subscription) hready.subIDs (by rw [hd.tenantID]; exact hready.active)
    hready.ordered hready.aligned
  rw [hd.tenantID] at hsub
  have hside : sideEffect g now = applyFreePeriod g now := by rw [sideEffect, hd.kindEq]
  rw [← hside] at hs
  exact ⟨_, sub₁, hd.applied h.nonNil hg hs hgrants, hsub, hid, hend⟩

theorem Stored.credits_tokens (h : Stored wr .extraTokens n r) (hn : Issuable .extraTokens n) (hr : r.decode = .ok g)
    (hd : Decoded wr .extraTokens n r g) (hread : readInt64Payload g.payload "amount" = n) : Credits r .extraTokens n := by
  intro now u ulid db w hready
  have hg := getGrantByID_of_stored hready.grant hr hd.id
  obtain ⟨db₁, w₁, hs, hgrants, hload, hbal⟩ := eval_extraTokens now u ulid (by rw [hread]; exact hn.1) hready.walletIDs
    (by rw [hd.tenantID]; exact hready.wallet) hready.wf hready.version (by rw [hread]; exact hready.room) hready.idFree
    (by rw [hd.externalID]; exact hready.keyFree)
  rw [hd.tenantID] at hload
  rw [hread] at hbal
  have hside : sideEffect g now = applyExtraTokens g now := by rw [sideEffect, hd.kindEq]
  rw [← hside] at hs
  exact ⟨_, w₁, hd.applied h.nonNil hg hs hgrants, hload, hbal⟩

theorem Stored.agrees (h : Stored wr kind n r) (hn : Issuable kind n)
    (hw : ¬ (wr = .approveGrantRequest ∧ kind = .extraTokens)) : Agrees r kind n := by
  obtain ⟨-, -, hrange⟩ := hn.number
  obtain ⟨g, hr, hd⟩ := h.decode hn
  have hstored : readInt64Payload g.payload (storedKey wr kind) = n := by
    rw [hd.payload]
    exact readInt64Payload_float64 hrange
  -- the readers look under the key of `IssueGrant`
  cases kind with
  | unknown text => exact hn.elim
  | freeSubscriptionPeriod =>
    have hread : readInt64Payload g.payload "period_days" = n := hstored
    refine ⟨h.credits_days hn hr hd hread, g, hr, fun gs gs' cutoff hc => ?_⟩
    rw [cumulativeEquivalentSince_insert (hd.counted hc), grantEquivalence, hd.kindEq, hread]
    rfl
  | extraTokens =>
  cases wr with
  | approveGrantRequest => exact absurd ⟨rfl, rfl⟩ hw
  | issueGrant =>
  have hread : readInt64Payload g.payload "amount" = n := hstored
  refine ⟨h.credits_tokens hn hr hd hread, g, hr, fun gs gs' cutoff hc => ?_⟩
  rw [cumulativeEquivalentSince_insert (hd.counted hc), grantEquivalence, hd.kindEq, hread]
  rfl

/-- The tokens of an approved request read as zero. -/
theorem Decoded.approved_amount (hd : Decoded .approveGrantRequest .extraTokens n r g) : readInt64Payload g.payload "amount" = 0 := by
  rw [hd.payload]
  exact readInt64Payload_missing (by decide)

theorem Stored.approved_refused (h : Stored .approveGrantRequest .extraTokens n r) (hn : Issuable .extraTokens n) (now : Time) (u : UUID)
    (ulid : String) (hf : db.findGrant r.id = some r) :
    (apply r.id).eval (serve now u ulid) db =
      (.error (.wrap "amount must be a positive integer" .invalidGrantPayload), db) := by
  obtain ⟨g, hr, hd⟩ := h.decode hn
  have hg := getGrantByID_of_stored hf hr hd.id
  rw [← hd.id]
  refine eval_apply_error (by rw [hd.id]; exact h.nonNil) hg hd.pending ?_
  rw [sideEffect, hd.kindEq]
  simp only [applyExtraTokens, hd.approved_amount, le_refl, if_true]
  rfl

theorem Stored.approved_uncounted (h : Stored .approveGrantRequest .extraTokens n r) (hn : Issuable .extraTokens n) (hr : r.decode = .ok g)
    (cutoff : Time) : cumulativeEquivalentSince [g] cutoff = 0 := by
  obtain ⟨g', hr', hd⟩ := h.decode hn
  obtain rfl : g' = g := Except.ok.inj (hr'.symm.trans hr)
  have hz : grantEquivalence g' = 0 := by
    rw [grantEquivalence, hd.kindEq, hd.approved_amount]
    rfl
  rw [cumulativeEquivalentSince, foldl_cons, foldl_nil, hz]
  split_ifs <;> rfl

end Agreement

/-! ## Two grants for an onboarded wallet -/

theorem tokensReady_onboarded {r : MasterGrantRow} {n : ℤ} (ht : r.tenantID = uid 1) (he : r.externalID.utf8ByteSize ≠ 32)
    (hn : n ≤ 5) : TokensReady r n (uid 2) (onboardedDB [r]) ⟨uid 1, uid 1, 2, 0, 1, 0, 0⟩ where
  grant := by simp [DB.findGrant, onboardedDB]
  wallet := by
    rw [ht]
    rfl
  walletIDs := nodup_singleton _
  wf := ⟨by decide, by decide, by decide⟩
  version := ⟨by decide, by decide⟩
  room := le_trans (add_le_add_right hn 2) (by decide)
  idFree := by
    intro row hrow
    rw [mem_singleton.mp hrow]
    decide
  keyFree := by
    intro row hrow _ heq
    rw [mem_singleton.mp hrow] at heq
    have hsize := congrArg String.utf8ByteSize heq
    rw [courtesyRow, DB.courtesyIdempotencyKey, idempotencyKeyForGrant, String.utf8ByteSize_append,
      String.utf8ByteSize_append, UUID.utf8ByteSize_string] at hsize
    have h1 : "courtesy:".utf8ByteSize = 9 := by decide
    have h2 : "master_grant:".utf8ByteSize = 13 := by decide
    omega

def tokenInput : IssueGrantInput := ⟨uid 1, uid 1, .extraTokens, 0, 1, "one free token"⟩

def tokenAggregate : MasterGrant := { tokenGrant with payload := buildGrantPayload tokenInput }

theorem insertedBy_token : InsertedBy .issueGrant .extraTokens 1 tokenRow := by
  have h1 := (Prog.Path.nil (issueGrant false tokenInput)).cons (q := Req.clock) (0 : Time)
  have h2 := h1.cons (q := Req.listGrantsByTenant (uid 1)) (Except.ok [])
  have h3 := h2.cons (q := Req.newUUID) (uid 1)
  have h4 := h3.cons (q := Req.newULID) "token"
  have hcreate : (freshDB []).createGrant tokenAggregate = .ok ((), freshDB [tokenRow]) := rfl
  exact .issue (g := tokenAggregate) h4 (by decide) hcreate rfl

def fiveInput : CreateGrantRequestInput := ⟨uid 9, uid 1, .extraTokens, 0, 5, "five free tokens"⟩

def fiveRow : MasterGrantRow where
  id := uid 1
  externalID := "five"
  tenantID := uid 1
  kind := .extraTokens
  payload := [("tokens", .num (5 : ℤ))]
  reason := "five free tokens"
  createdByUserID := uid 9
  createdAt := 0
  consumedAt := none
  consumedRef := none
  revokedAt := none
  revokedByUserID := none
  revokeReason := none

theorem issuable_five : Issuable .extraTokens 5 := ⟨by decide, Float64.exact_of_abs_lt (by decide), by decide, by decide⟩

def askRow : GrantRequestRow :=
  ⟨uid 4, "ask", uid 1, .extraTokens, [("tokens", .num (5 : ℤ))], "five free tokens", uid 9, none, .awaiting, none, 0⟩

def askRequest : GrantRequest :=
  ⟨uid 4, "ask", uid 1, .extraTokens, 0, 5, "five free tokens", uid 9, none, .awaiting, none, 0⟩

theorem insertedBy_five : InsertedBy .approveGrantRequest .extraTokens 5 fiveRow := by
  have hcreate : createGrantRequest fiveInput (uid 4) "ask" 0 ⟨[], freshDB []⟩ = .ok (askRequest, ⟨[askRow], freshDB []⟩) := rfl
  have hgrants : ((approveGrantRequest ⟨uid 8, uid 4⟩ (uid 1) "five" 0 ⟨[askRow], freshDB []⟩).toOption.map fun x => x.2.db.grants) = some [fiveRow] := by
    decide +kernel
  cases happrove : approveGrantRequest ⟨uid 8, uid 4⟩ (uid 1) "five" 0 ⟨[askRow], freshDB []⟩ with
  | error e =>
    rw [happrove] at hgrants
    cases hgrants
  | ok x =>
  rw [happrove] at hgrants
  exact .approve hcreate rfl (by decide) happrove (Option.some.inj hgrants)

/-- **Writers and readers.**  The applier credits what a writer stored and the cap accounting counts it, except for the tokens of an
approved request. -/
theorem payload_agrees_iff {wr : Writer} {kind : GrantKind} {n : ℤ} {r : MasterGrantRow} (hn : Issuable kind n)
    (h : InsertedBy wr kind n r) : Agrees r kind n ↔ ¬ (wr = .approveGrantRequest ∧ kind = .extraTokens) := by
  have hs := h.stored hn
  refine ⟨?_, hs.agrees hn⟩
  rintro ha ⟨rfl, rfl⟩
  obtain ⟨g, hr, hc⟩ := ha.counts
  have hcount := hc [] [] r.createdAt le_rfl
  rw [nil_append, hs.approved_uncounted hn hr] at hcount
  have hzero : wrap (0 + n) = 0 := hcount.symm
  obtain ⟨hpos, -, hrange⟩ := hn.number
  rw [zero_add, wrap_of_inRange hrange] at hzero
  omega

theorem payload_agrees_token : Agrees tokenRow .extraTokens 1 ∧ ∃ db' w',
    (apply (uid 1)).eval (serve 0 (uid 2) "") (onboardedDB [tokenRow]) = (.ok true, db') ∧
      db'.loadByTenant (uid 1) = .ok w' ∧ w'.balance = 2 + 1 := by
  have hone : Issuable .extraTokens 1 := ⟨by decide, Float64.exact_of_abs_lt (by decide), by decide, by decide⟩
  have h := (payload_agrees_iff hone insertedBy_token).mpr nofun
  exact ⟨h, h.credits 0 (uid 2) "" _ _ (tokensReady_onboarded rfl (by decide) (by decide))⟩

/-- **Lost tokens.**  Five tokens are requested and approved, and the wallet is ready for them: `Apply` fails and leaves the tables as
they are, and the cap accounting counts nothing. -/
theorem approved_tokens_lost : ∃ n r db w, Issuable .extraTokens n ∧ InsertedBy .approveGrantRequest .extraTokens n r ∧
    TokensReady r n (uid 2) db w ∧
    (apply r.id).eval (serve 0 (uid 2) "") db = (.error (.wrap "amount must be a positive integer" .invalidGrantPayload), db) ∧
    ∃ g, r.decode = .ok g ∧ cumulativeEquivalentSince [g] r.createdAt = 0 ∧ capEquivalence .extraTokens n n = 5 := by
  have hs := insertedBy_five.stored issuable_five
  have hready : TokensReady fiveRow 5 (uid 2) (onboardedDB [fiveRow]) _ := tokensReady_onboarded rfl (by decide) le_rfl
  obtain ⟨g, hr, -⟩ := hs.decode issuable_five
  exact ⟨5, fiveRow, _, _, issuable_five, insertedBy_five, hready, hs.approved_refused issuable_five 0 (uid 2) "" hready.grant,
    g, hr, hs.approved_uncounted issuable_five hr _, rfl⟩

end Crm.Grant
