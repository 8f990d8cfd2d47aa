import Crm.Basic
import Crm.Lib.Uuid

/-!
# Crm.Billing.Subscription — the subscription aggregate

`internal/billing/subscription.go` as far as the grant applier uses it: a courtesy extension moves the end of the
current period and nothing else.
-/

namespace Crm.Billing

inductive SubscriptionStatus : Type
  | active
  | cancelled
  deriving DecidableEq, Repr

structure Subscription where
  id : UUID
  tenantID : UUID
  planID : UUID
  status : SubscriptionStatus
  currentPeriodStart : Time
  currentPeriodEnd : Time
  createdAt : Time
  updatedAt : Time
  deriving DecidableEq, Repr

/-- Advance the end of the period by the positive duration `d` (in nanoseconds) of an active subscription. -/
def Subscription.extendPeriod (s : Subscription) (d : ℤ) (now : Time) : Except Err Subscription :=
  if d ≤ 0 then .error .billingInvalidTransition
  else if s.status ≠ .active then .error .billingInvalidTransition
  else .ok { s with currentPeriodEnd := s.currentPeriodEnd + d, updatedAt := now }

theorem Subscription.extendPeriod_ok {s s' : Subscription} {d : ℤ} {now : Time}
    (h : s.extendPeriod d now = .ok s') :
    0 < d ∧ s.status = .active ∧ s' = { s with currentPeriodEnd := s.currentPeriodEnd + d, updatedAt := now } := by
  unfold extendPeriod at h
  split_ifs at h with h1 h2
  cases h
  exact ⟨by omega, by simpa using h2, rfl⟩

end Crm.Billing
