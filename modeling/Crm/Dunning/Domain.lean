import Crm.Basic
import Crm.Lib.Calendar
import Crm.Lib.Int64
import Crm.Lib.Uuid

/-!
# Crm.Dunning.Domain — the past-due state machine of a subscription

`internal/billing/dunning`: the states with their severity, the thresholds of a policy and the aggregate `DunningState` with its three
transitions.  Each transition works on a copy; `escalate_cases`, `markPaid_ok` and `applyOverride_ok` say what it can do to it.
-/

namespace Crm.Dunning

open Int64Arith

inductive State : Type
  | current
  | warn
  | suspendedOutbound
  | suspendedFull
  | cancelled
  deriving DecidableEq, Repr

def State.severity : State → ℤ
  | .current => 0
  | .warn => 1
  | .suspendedOutbound => 2
  | .suspendedFull => 3
  | .cancelled => 4

theorem State.severity_nonneg (a : State) : 0 ≤ a.severity := by cases a <;> decide

/-! ## Policies -/

/-- Days past the due date at which each state is entered. -/
structure Policy where
  warnDays : ℤ
  outboundBlockDays : ℤ
  readonlyDays : ℤ
  cancelDays : ℤ
  deriving DecidableEq, Repr

def defaultPolicy : Policy := ⟨1, 7, 30, 90⟩

def Policy.validate (p : Policy) : Except Err Unit :=
  if p.warnDays ≤ 0 ∨ p.outboundBlockDays ≤ 0 ∨ p.readonlyDays ≤ 0 ∨ p.cancelDays ≤ 0 then .error .dunningInvalidPolicy
  else if ¬ (p.warnDays < p.outboundBlockDays ∧ p.outboundBlockDays < p.readonlyDays ∧ p.readonlyDays < p.cancelDays) then
    .error .dunningInvalidPolicy
  else .ok ()

def Policy.stateForDaysPastDue (p : Policy) (days : ℤ) : State :=
  if p.cancelDays ≤ days then .cancelled
  else if p.readonlyDays ≤ days then .suspendedFull
  else if p.outboundBlockDays ≤ days then .suspendedOutbound
  else if p.warnDays ≤ days then .warn
  else .current

/-! ## The aggregate -/

/-- A live `free_subscription_period` grant, as the state machine sees it. -/
structure Override where
  untilTime : Time
  reason : String
  deriving DecidableEq, Repr

structure DunningState where
  id : UUID
  tenantID : UUID
  subscriptionID : UUID
  state : State
  enteredStateAt : Time
  -- `uuid.Nil` when the row has never escalated
  lastInvoiceID : UUID
  overrideUntil : Option Time
  overrideReason : String
  deriving DecidableEq, Repr

/-- Full days from `earlier` to `later`; a difference of instants is cut off at the largest duration. -/
def daysSince (earlier later : Time) : ℤ :=
  if later ≤ earlier then 0 else min (later - earlier) maxInt64 / Calendar.day

namespace DunningState

variable {d d' : DunningState} {now : Time}

/-- `subscription_dunning_states_override_consistency`. -/
def Consistent (d : DunningState) : Prop :=
  (d.overrideUntil = none ∧ d.overrideReason = "") ∨ (d.overrideUntil ≠ none ∧ 10 ≤ d.overrideReason.length)

instance (d : DunningState) : Decidable d.Consistent := inferInstanceAs (Decidable (_ ∨ _))

def markPaid (d : DunningState) (now : Time) : Except Err DunningState :=
  if d.state = .cancelled then .error .dunningInvalidTransition
  else .ok { d with state := .current, enteredStateAt := now, lastInvoiceID := UUID.Nil, overrideUntil := none, overrideReason := "" }

def escalate (d : DunningState) (now : Time) (policy : Policy) (invoiceID : UUID) (dueDate : Time) (override : Option Override) :
    Except Err (Bool × DunningState) :=
  match policy.validate with
  | .error e => .error e
  | .ok () =>
    if d.state = .cancelled then .ok (false, d)
    else if ∃ o ∈ override, now < o.untilTime then .ok (false, d)
    else
      let target := policy.stateForDaysPastDue (daysSince dueDate now)
      if target.severity ≤ d.state.severity then .ok (false, d)
      else if invoiceID = UUID.Nil then .error .dunningZeroInvoice
      else .ok (true, { d with state := target, enteredStateAt := now, lastInvoiceID := invoiceID })

def applyOverride (d : DunningState) (untilTime : Time) (reason : String) (now : Time) : Except Err DunningState :=
  if d.state = .cancelled then .error .dunningInvalidTransition
  else if reason.utf8ByteSize < 10 then .error .dunningOverrideReasonTooShort
  else if untilTime ≤ now then .error .dunningOverrideUntilInPast
  else
    let d := { d with overrideUntil := some untilTime, overrideReason := reason }
    .ok (if d.state = .current then d else { d with state := .current, enteredStateAt := now, lastInvoiceID := UUID.Nil })

theorem markPaid_ok (h : d.markPaid now = .ok d') :
    d.state ≠ .cancelled ∧
      d' = { d with state := .current, enteredStateAt := now, lastInvoiceID := UUID.Nil, overrideUntil := none, overrideReason := "" } := by
  unfold markPaid at h
  split_ifs at h with hc
  cases h
  exact ⟨hc, rfl⟩

/-- **Escalate**: the row stands, or moves to the more severe state of its days past due. -/
theorem escalate_cases {policy : Policy} {invoiceID : UUID} {dueDate : Time} {override : Option Override} {b : Bool}
    (h : d.escalate now policy invoiceID dueDate override = .ok (b, d')) :
    (b = false ∧ d' = d) ∨ (b = true ∧ d.state ≠ .cancelled ∧ (∀ o ∈ override, o.untilTime ≤ now) ∧
      d.state.severity < d'.state.severity ∧
      d' = { d with state := policy.stateForDaysPastDue (daysSince dueDate now), enteredStateAt := now, lastInvoiceID := invoiceID }) := by
  unfold escalate at h
  split at h
  · cases h
  dsimp only at h
  split_ifs at h with hc ho hs hi
  · cases h
    exact .inl ⟨rfl, rfl⟩
  · cases h
    exact .inl ⟨rfl, rfl⟩
  · cases h
    exact .inl ⟨rfl, rfl⟩
  · cases h
    refine .inr ⟨rfl, hc, fun o hm => ?_, not_le.mp hs, rfl⟩
    exact not_lt.mp fun hlt => ho ⟨o, hm, hlt⟩

theorem applyOverride_ok {untilTime : Time} {reason : String} (h : d.applyOverride untilTime reason now = .ok d') :
    d.state ≠ .cancelled ∧ now < untilTime ∧ d'.id = d.id ∧ d'.tenantID = d.tenantID ∧ d'.subscriptionID = d.subscriptionID ∧
      d'.state = .current := by
  unfold applyOverride at h
  split_ifs at h with hc hr hu
  cases h
  dsimp only
  refine ⟨hc, not_le.mp hu, ?_⟩
  split_ifs with hs
  · exact ⟨rfl, rfl, rfl, hs⟩
  · exact ⟨rfl, rfl, rfl, rfl⟩

end DunningState

end Crm.Dunning
