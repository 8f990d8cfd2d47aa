import Crm.Lib.Calendar
import Crm.Store.Schema

/-!
# Crm.Billing.Renewal — invoices and the renewal transaction

`plan` and `invoice` of migration 0097 and the statements of `internal/adapter/db/postgres/billing/renewer.go` over them and the
`subscription` rows.  The period columns of an invoice are dates, those of a subscription instants.  `BillingDB` adds the invoices and the
broker's stream of `subscription.renewed` messages to the tables of `Crm.Store.Schema`.
-/

namespace Crm.Billing

open Int64Arith Crm.Store List Calendar

structure Plan where
  id : UUID
  priceCentsBRL : ℤ
  monthlyTokenQuota : ℤ
  price : 0 ≤ priceCentsBRL ∧ priceCentsBRL < 2 ^ 31
  quota : 0 ≤ monthlyTokenQuota ∧ monthlyTokenQuota ≤ maxInt64

inductive InvoiceState : Type
  | pending
  | paid
  | cancelledByMaster
  deriving DecidableEq, Repr

/-- A row of `invoice`; the period runs from one date to another. -/
structure InvoiceRow where
  id : UUID
  tenantID : UUID
  subscriptionID : UUID
  periodStart : ℤ
  periodEnd : ℤ
  amountCentsBRL : ℤ
  state : InvoiceState
  createdAt : Time
  updatedAt : Time
  deriving DecidableEq, Repr

structure Invoice where
  id : UUID
  tenantID : UUID
  subscriptionID : UUID
  periodStart : Time
  periodEnd : Time
  amountCentsBRL : ℤ
  state : InvoiceState
  createdAt : Time
  updatedAt : Time
  deriving DecidableEq, Repr

structure RenewedEvent where
  subscriptionID : UUID
  tenantID : UUID
  planID : UUID
  invoiceID : UUID
  previousPeriodEnd : Time
  newPeriodStart : Time
  newPeriodEnd : Time
  amountCentsBRL : ℤ
  renewedAt : Time
  deriving DecidableEq, Repr

/-- A message on `subscription.renewed` under its `Nats-Msg-Id`. -/
structure Message where
  msgID : String
  body : RenewedEvent
  deriving DecidableEq, Repr

structure BillingDB where
  core : DB
  invoices : List InvoiceRow
  stream : List Message

structure DueSubscription where
  id : UUID
  tenantID : UUID
  planID : UUID
  planPriceCents : ℤ
  currentPeriodEnd : Time
  deriving DecidableEq, Repr

structure RenewResult where
  invoice : Invoice
  subscription : Subscription
  newPeriodStart : Time
  newPeriodEnd : Time
  deriving DecidableEq, Repr

/-- `t.AddDate(0, 1, 0)`; the process keeps its clock in UTC. -/
def nextMonth (t : Time) : Time := addMonths 1 t

namespace BillingDB

def dueRows (plans : List Plan) (asOf : Time) (s : BillingDB) : List DueSubscription :=
  s.core.subs.filterMap fun sub =>
    if sub.status = .active ∧ sub.currentPeriodEnd ≤ timestamptz asOf then
      (plans.find? fun p => p.id = sub.planID).map fun p =>
        { id := sub.id, tenantID := sub.tenantID, planID := sub.planID, planPriceCents := p.priceCentsBRL,
          currentPeriodEnd := sub.currentPeriodEnd }
    else none

/-- `l` is an answer of `ListDueSubscriptions`: the first rows by `current_period_end`, ties in any order. -/
def Due (plans : List Plan) (asOf : Time) (limit : ℕ) (s : BillingDB) (l : List DueSubscription) : Prop :=
  ∃ full : List DueSubscription, full.Perm (s.dueRows plans asOf) ∧ full.Pairwise (fun a b => a.currentPeriodEnd ≤ b.currentPeriodEnd) ∧
    l = full.take (if limit = 0 then 100 else limit)

def advanced (oldPeriodEnd now : Time) (r : Subscription) : Subscription :=
  { r with currentPeriodStart := timestamptz oldPeriodEnd, currentPeriodEnd := timestamptz (nextMonth oldPeriodEnd),
           updatedAt := timestamptz now }

def invoiceFor (sub : Subscription) (oldPeriodEnd : Time) (planPriceCents : ℤ) (invoiceID : UUID) (now : Time) : InvoiceRow :=
  { id := invoiceID, tenantID := sub.tenantID, subscriptionID := sub.id, periodStart := dateOf oldPeriodEnd,
    periodEnd := dateOf (nextMonth oldPeriodEnd), amountCentsBRL := planPriceCents, state := .pending,
    createdAt := timestamptz now, updatedAt := timestamptz now }

def renewResult (sub : Subscription) (oldPeriodEnd : Time) (planPriceCents : ℤ) (invoiceID : UUID) (now : Time) : RenewResult :=
  { invoice := { id := invoiceID, tenantID := sub.tenantID, subscriptionID := sub.id, periodStart := oldPeriodEnd,
                 periodEnd := nextMonth oldPeriodEnd, amountCentsBRL := planPriceCents, state := .pending, createdAt := now,
                 updatedAt := now }
    subscription := { id := sub.id, tenantID := sub.tenantID, planID := sub.planID, status := .active,
                      currentPeriodStart := oldPeriodEnd, currentPeriodEnd := nextMonth oldPeriodEnd, createdAt := now,
                      updatedAt := now }
    newPeriodStart := oldPeriodEnd
    newPeriodEnd := nextMonth oldPeriodEnd }

def IsOld (subID : UUID) (oldPeriodEnd : Time) (r : Subscription) : Prop :=
  r.id = subID ∧ r.currentPeriodEnd = timestamptz oldPeriodEnd

instance (subID : UUID) (oldPeriodEnd : Time) (r : Subscription) : Decidable (IsOld subID oldPeriodEnd r) :=
  inferInstanceAs (Decidable (_ ∧ _))

/-- The transaction of `RenewSubscription`; `invoiceID` is the identifier it draws. -/
def renewSubscription (subID : UUID) (oldPeriodEnd : Time) (planPriceCents : ℤ) (now : Time) (invoiceID : UUID) (s : BillingDB) :
    Except Err (RenewResult × BillingDB) :=
  if subID = UUID.Nil then .error (.other "billing/postgres: subID is required")
  else match s.core.subs.find? fun r => r.id = subID ∧ r.status = .active with
    | none => .error .billingNotFound
    | some sub =>
      let row := invoiceFor sub oldPeriodEnd planPriceCents invoiceID now
      if row.periodEnd ≤ row.periodStart ∨ planPriceCents < 0 ∨ 2 ^ 31 ≤ planPriceCents then
        .error (.other "billing/postgres: insert invoice")
      -- the primary key, and one invoice per tenant and period start that is not cancelled
      else if s.invoices.any fun r => r.id = invoiceID ∨
          (r.tenantID = sub.tenantID ∧ r.periodStart = row.periodStart ∧ r.state ≠ .cancelledByMaster) then
        .error .billingInvoiceAlreadyExists
      else if ¬ s.core.subs.any fun r => IsOld subID oldPeriodEnd r then .error .billingInvoiceAlreadyExists
      else if timestamptz (nextMonth oldPeriodEnd) ≤ timestamptz oldPeriodEnd then
        .error (.other "billing/postgres: advance subscription")
      else .ok (renewResult sub oldPeriodEnd planPriceCents invoiceID now,
        { s with
          core := { s.core with
            subs := s.core.subs.map fun r => if IsOld subID oldPeriodEnd r then advanced oldPeriodEnd now r else r }
          invoices := s.invoices ++ [row] })

end BillingDB

def getPlanByID (plans : List Plan) (id : UUID) : Except Err Plan :=
  if id = UUID.Nil then .error .billingNotFound
  else match plans.find? fun p => p.id = id with
    | some p => .ok p
    | none => .error .billingNotFound

/-! ## What a renewal does -/

theorem timestamptz_add_days (t k : ℤ) : timestamptz (t + k * day) = timestamptz t + k * day := by
  have hday : day = 86400000000000 := rfl
  show t + k * day - (t + k * day) % 1000 = t - t % 1000 + k * day
  rw [hday]
  omega

theorem dateOf_timestamptz (t : ℤ) : dateOf (timestamptz t) = dateOf t := by
  have hday : day = 86400000000000 := rfl
  show (t - t % 1000) / day = t / day
  rw [hday]
  omega

/-- The column's precision does not matter to the month. -/
theorem timestamptz_nextMonth (t : Time) : timestamptz (nextMonth t) = nextMonth (timestamptz t) := by
  unfold nextMonth
  rw [addMonths_eq, addMonths_eq, timestamptz_add_days, dateOf_timestamptz]

theorem lt_nextMonth (t : Time) : t < nextMonth t := lt_addMonths_one t

theorem dateOf_nextMonth (t : Time) : dateOf t < dateOf (nextMonth t) := by
  have := dateOf_addMonths_one t
  exact lt_of_lt_of_le (by omega) this

namespace BillingDB

theorem advanced_of_isOld {subID : UUID} {oldPeriodEnd now : Time} {r : Subscription} (h : IsOld subID oldPeriodEnd r) :
    advanced oldPeriodEnd now r =
      { r with currentPeriodStart := r.currentPeriodEnd, currentPeriodEnd := nextMonth r.currentPeriodEnd,
               updatedAt := timestamptz now } := by
  rw [advanced, timestamptz_nextMonth, ← h.2]

variable {subID invoiceID : UUID} {oldPeriodEnd now : Time} {planPriceCents : ℤ} {s s' : BillingDB} {res : RenewResult}

/-- **The renewal transaction**, when it commits. -/
theorem renewSubscription_ok (h : s.renewSubscription subID oldPeriodEnd planPriceCents now invoiceID = .ok (res, s')) :
    ∃ sub ∈ s.core.subs, sub.id = subID ∧ sub.status = .active ∧ (∃ r ∈ s.core.subs, IsOld subID oldPeriodEnd r) ∧
      (∀ r ∈ s.invoices, r.id ≠ invoiceID) ∧ res = renewResult sub oldPeriodEnd planPriceCents invoiceID now ∧
      s' = { s with
        core := { s.core with
          subs := s.core.subs.map fun r => if IsOld subID oldPeriodEnd r then advanced oldPeriodEnd now r else r }
        invoices := s.invoices ++ [invoiceFor sub oldPeriodEnd planPriceCents invoiceID now] } := by
  unfold renewSubscription at h
  split at h
  · cases h
  split at h
  · cases h
  rename_i sub hsub
  dsimp only at h
  split at h
  · cases h
  split at h
  · cases h
  rename_i hinv
  split at h
  · cases h
  rename_i hold
  split at h
  · cases h
  cases h
  have hfind : sub.id = subID ∧ sub.status = .active := by simpa using find?_some hsub
  refine ⟨sub, mem_of_find?_eq_some hsub, hfind.1, hfind.2, ?_, ?_, rfl, rfl⟩
  · simpa using hold
  · intro r hr he
    exact hinv (any_eq_true.mpr ⟨r, hr, by simp [he]⟩)

end BillingDB

end Crm.Billing
