import Crm.Billing.Renewer

/-!
# Crm.Billing.Tiling — renewals tile time

Only the renewal transaction writes subscriptions and invoices, and its guard lets it run once per period end: whatever the workers have
listed, the invoices of a subscription follow one another month by month and the row stands at the last of them (`renewals_tile`).
-/

namespace Crm.Billing

open Interleave Crm.Store List Prog Calendar

def OnlyTicks (_ : W) : Ev → Prop
  | .invoke _ c => ∃ r, c = .tick r
  | _ => True

def Req.ofRenewer : Req → Prop
  | .core q => q = .clock
  | _ => True

theorem publishLoop_sends {maxDelay : ℤ} {m : Message} :
    ∀ (left : ℕ) (delay : ℤ), (publishLoop maxDelay m left delay).Sends Req.ofRenewer
  | 0, _ => .ret _
  | left + 1, delay => by
    simp only [publishLoop, send_bind, pure_eq]
    refine .ask trivial fun r => ?_
    cases r with
    | ok _ => exact .ret _
    | error e =>
    dsimp only
    split
    · exact .ret _
    refine .ask trivial fun r => ?_
    cases r with
    | error e => exact .ret _
    | ok _ => exact publishLoop_sends left _

variable {r : Renewer} {now : Time} {s₀ : BillingDB}

theorem renewOne_sends {d : DueSubscription} : (renewOne r d now).Sends Req.ofRenewer := by
  simp only [renewOne, send_bind, pure_eq]
  refine .ask trivial fun x => ?_
  cases x with
  | error e => exact .ret _
  | ok res => exact .bind (publishLoop_sends _ _) fun _ => .ret _

theorem renewAll_sends : ∀ due : List DueSubscription, (renewAll r now due).Sends Req.ofRenewer
  | [] => .ret _
  | _ :: due => .bind renewOne_sends fun _ => renewAll_sends due

theorem tick_sends : (tick r).Sends Req.ofRenewer := by
  simp only [tick, send_bind, pure_eq]
  refine .ask rfl fun now => .ask trivial fun x => ?_
  cases x with
  | error e => exact .ret _
  | ok due => exact .bind (renewAll_sends due) fun _ => .ret _

/-- The invoices `mine` cover the months from the end of `sub₀` on, one each, and `sub` is `sub₀` at the last of them. -/
structure Tiles (sub₀ : Subscription) (mine : List InvoiceRow) (sub : Subscription) : Prop where
  id : sub.id = sub₀.id
  periods : ∀ k (h : k < mine.length),
    mine[k].periodStart = dateOf (nextMonth^[k] sub₀.currentPeriodEnd) ∧
      mine[k].periodEnd = dateOf (nextMonth^[k + 1] sub₀.currentPeriodEnd)
  ends : sub.currentPeriodEnd = nextMonth^[mine.length] sub₀.currentPeriodEnd
  unstarted : mine = [] → sub.currentPeriodStart = sub₀.currentPeriodStart
  starts : mine ≠ [] → sub.currentPeriodStart = nextMonth^[mine.length - 1] sub₀.currentPeriodEnd

namespace Tiles

variable {sub₀ sub : Subscription} {mine : List InvoiceRow}

theorem nil (sub₀ : Subscription) : Tiles sub₀ [] sub₀ :=
  ⟨rfl, fun _ h => absurd h (Nat.not_lt_zero _), rfl, fun _ => rfl, fun h => absurd rfl h⟩

theorem concat (h : Tiles sub₀ mine sub) {inv : InvoiceRow} {sub' : Subscription}
    (hs : inv.periodStart = dateOf sub.currentPeriodEnd)
    (he : inv.periodEnd = dateOf (nextMonth sub.currentPeriodEnd)) (hid : sub'.id = sub.id)
    (hs' : sub'.currentPeriodStart = sub.currentPeriodEnd) (he' : sub'.currentPeriodEnd = nextMonth sub.currentPeriodEnd) :
    Tiles sub₀ (mine ++ [inv]) sub' where
  id := hid.trans h.id
  periods := by
    intro k hk
    rcases Nat.lt_succ_iff_lt_or_eq.mp (by simpa using hk) with hk | rfl
    · rw [getElem_append_left hk]
      exact h.periods k hk
    · rw [getElem_concat_length rfl, Function.iterate_succ_apply', ← h.ends]
      exact ⟨hs, he⟩
  ends := by rw [he', h.ends, length_append, length_singleton, Function.iterate_succ_apply']
  unstarted := by simp
  starts := by
    intro _
    rw [hs', h.ends]
    simp

theorem chain (h : Tiles sub₀ mine sub) : ∀ k (hk : k + 1 < mine.length), mine[k].periodEnd = mine[k + 1].periodStart := by
  intro k hk
  rw [(h.periods k (by omega)).2, (h.periods (k + 1) hk).1]

theorem periodStart_lt (h : Tiles sub₀ mine sub) : ∀ inv ∈ mine, inv.periodStart < inv.periodEnd := by
  intro inv hm
  obtain ⟨k, hk, rfl⟩ := mem_iff_getElem.mp hm
  rw [(h.periods k hk).1, (h.periods k hk).2, Function.iterate_succ_apply']
  exact dateOf_nextMonth _

theorem last (h : Tiles sub₀ mine sub) {inv : InvoiceRow} (hl : mine.getLast? = some inv) :
    inv.periodStart = dateOf sub.currentPeriodStart ∧ inv.periodEnd = dateOf sub.currentPeriodEnd := by
  obtain ⟨l, rfl⟩ := getLast?_eq_some_iff.mp hl
  have hp := h.periods l.length (by simp)
  rw [getElem_concat_length rfl] at hp
  rw [h.starts (by simp), h.ends, hp.1, hp.2]
  simp

end Tiles

/-- Every subscription of the first tables is tiled by the invoices created since. -/
def TileInv (s₀ s : BillingDB) : Prop :=
  ∃ l f, s.invoices = s₀.invoices ++ l ∧ s.core.subs = s₀.core.subs.map f ∧
    ∀ r ∈ s₀.core.subs, Tiles r (l.filter fun inv => inv.subscriptionID = r.id) (f r)

theorem TileInv.start (s : BillingDB) : TileInv s s :=
  ⟨[], fun r => r, by simp, by simp, fun r _ => .nil r⟩

theorem TileInv.of_eq {s s' : BillingDB} (h : TileInv s₀ s) (hi : s'.invoices = s.invoices) (hs : s'.core.subs = s.core.subs) : TileInv s₀ s' := by
  obtain ⟨l, f, h1, h2, h3⟩ := h
  exact ⟨l, f, hi.trans h1, hs.trans h2, h3⟩

/-- A renewal that commits adds a month to its subscription and leaves the others. -/
theorem TileInv.renew {s s' : BillingDB} (hids : (s₀.core.subs.map Subscription.id).Nodup) (h : TileInv s₀ s) {subID invoiceID : UUID} {old : Time}
    {price : ℤ} {res : RenewResult} (hr : s.renewSubscription subID old price now invoiceID = .ok (res, s')) : TileInv s₀ s' := by
  obtain ⟨l, f, hl, hf, ht⟩ := h
  obtain ⟨sub, -, hsub, -, ⟨r, hmem, hold⟩, -, -, rfl⟩ := BillingDB.renewSubscription_ok hr
  have hfid : ∀ x ∈ s₀.core.subs, (f x).id = x.id := fun x hx => (ht x hx).id
  -- the row that the guard has found
  obtain ⟨r₀, hr0, rfl⟩ : ∃ r₀ ∈ s₀.core.subs, f r₀ = r := by
    rw [hf] at hmem
    exact mem_map.mp hmem
  have hr₀id : r₀.id = subID := (hfid r₀ hr0).symm.trans hold.1
  refine ⟨l ++ [BillingDB.invoiceFor sub old price invoiceID now],
    fun x => if BillingDB.IsOld subID old (f x) then BillingDB.advanced old now (f x) else f x, ?_, ?_, ?_⟩
  · simp [hl]
  · simp only [hf, map_map]
    rfl
  intro x hx
  rw [filter_append]
  by_cases hxid : x.id = subID
  · obtain rfl := inj_on_of_nodup_map hids hx hr0 (hxid.trans hr₀id.symm)
    have hdate : dateOf old = dateOf (f x).currentPeriodEnd := by rw [hold.2, dateOf_timestamptz]
    have hdate' : dateOf (nextMonth old) = dateOf (nextMonth (f x).currentPeriodEnd) := by
      rw [hold.2, ← timestamptz_nextMonth, dateOf_timestamptz]
    have hmine : (BillingDB.invoiceFor sub old price invoiceID now).subscriptionID = x.id := hsub.trans hxid.symm
    simp only [if_pos hold, filter_cons, hmine, decide_true, if_true, filter_nil]
    rw [BillingDB.advanced_of_isOld hold]
    exact (ht x hx).concat hdate hdate' rfl rfl rfl
  have hother : (BillingDB.invoiceFor sub old price invoiceID now).subscriptionID ≠ x.id :=
    fun he => hxid (he.symm.trans hsub)
  have hnot : ¬ BillingDB.IsOld subID old (f x) := fun ho => hxid ((hfid x hx).symm.trans ho.1)
  simpa [hother, hnot] using ht x hx

theorem exec_tileInv (hids : (s₀.core.subs.map Subscription.id).Nodup) (q : Req) (s : BillingDB) (r : Resp q) (s' : BillingDB) (hq : q.ofRenewer)
    (he : exec q s r s') (h : TileInv s₀ s) : TileInv s₀ s' := by
  cases q with
  | core q =>
    obtain rfl : q = .clock := hq
    obtain ⟨core, rfl, rfl⟩ := he
    exact h
  | listDueSubscriptions asOf limit =>
    obtain rfl := he.1
    exact h
  | renewSubscription id old price now =>
    obtain ⟨invoiceID, htx⟩ := he
    rcases Tx.store_cases htx with rfl | ⟨res, hr⟩
    · exact h
    · exact h.renew hids hr
  | publish m =>
    rcases he with (rfl | ⟨rfl, -⟩) | ⟨rfl, -⟩
    · exact h.of_eq rfl rfl
    · exact h
    · exact h
  | getPlanByID id =>
    obtain ⟨plans, rfl, -⟩ := he
    exact h
  | _ =>
  obtain rfl : s' = s := he
  exact h

def januarySub : Subscription where
  id := 3
  tenantID := 2
  planID := 4
  status := .active
  currentPeriodStart := 0
  currentPeriodEnd := 30 * day
  createdAt := 0
  updatedAt := 0

def januaryDB : BillingDB := ⟨⟨[], [], [], [], [januarySub]⟩, [], []⟩

def basicPlan : Plan := ⟨4, 9900, 1000, by decide, by decide⟩

def worker : Renewer := ⟨9, 100, 5, 100000000, 5000000000, by decide, by decide, by decide⟩

def januaryInvoice : InvoiceRow where
  id := 7
  tenantID := 2
  subscriptionID := 3
  periodStart := 30
  periodEnd := 61
  amountCentsBRL := 9900
  state := .pending
  createdAt := 40 * day
  updatedAt := 40 * day

def sweep (i n : ℕ) : List (Turn Call) := .invoke i (.tick worker) :: List.replicate n (.move i)

theorem mem_sweep {i j n : ℕ} {c : Call} (h : .invoke j c ∈ sweep i n) : c = .tick worker := by
  have hh : j = i ∧ c = .tick worker := by simpa [sweep] using h
  exact hh.2

end Crm.Billing
