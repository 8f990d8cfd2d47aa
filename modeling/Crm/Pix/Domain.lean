import Crm.Basic
import Crm.Lib.Uuid

/-!
# Crm.Pix.Domain — PIX charges and their state machine

The aggregate of `internal/billing/pix/pix.go`, the statuses of `status.go` and the dispatch `applyEvent` of `reconciler.go`.  A charge
starts pending; each transition leaves `pending` for one of three terminal statuses.
-/

namespace Crm.Pix

inductive Status : Type
  | pending
  | paid
  | expired
  | cancelled
  deriving DecidableEq, Repr

def Status.isTerminal : Status → Bool
  | .paid | .expired | .cancelled => true
  | .pending => false

structure PIXCharge where
  id : UUID
  tenantID : UUID
  invoiceID : UUID
  -- empty until the PSP has answered
  externalID : String
  qrCode : String
  copyPaste : String
  status : Status
  paidAt : Option Time
  expiresAt : Time
  createdAt : Time
  updatedAt : Time
  deriving DecidableEq, Repr

def newCharge (id tenantID invoiceID : UUID) (qrCode copyPaste : String) (expiresAt now : Time) : Except Err PIXCharge :=
  if tenantID = UUID.Nil then .error .pixZeroTenant
  else if invoiceID = UUID.Nil then .error .pixZeroInvoice
  else if qrCode = "" then .error .pixEmptyQRCode
  else if copyPaste = "" then .error .pixEmptyCopyPaste
  else if ¬ now < expiresAt then .error .pixExpiresAtInPast
  else .ok
    { id, tenantID, invoiceID, externalID := "", qrCode, copyPaste, status := .pending, paidAt := none, expiresAt,
      createdAt := now, updatedAt := now }

namespace PIXCharge

def attachExternalID (c : PIXCharge) (externalID : String) (now : Time) : Except Err PIXCharge :=
  if externalID = "" then .error .pixEmptyExternalID
  else if c.externalID ≠ "" then .error .pixExternalIDAlreadySet
  else if c.status ≠ .pending then .error .pixInvalidTransition
  else .ok { c with externalID, updatedAt := now }

/-- The transitions return whether the charge has changed, and the charge. -/
def markPaid (c : PIXCharge) (now : Time) : Except Err (Bool × PIXCharge) :=
  match c.status with
  | .pending => .ok (true, { c with status := .paid, paidAt := some now, updatedAt := now })
  | .paid => .ok (false, c)
  | .expired | .cancelled => .error .pixInvalidTransition

def expire (c : PIXCharge) (now : Time) : Except Err (Bool × PIXCharge) :=
  match c.status with
  | .pending =>
    if ¬ c.expiresAt < now then .error .pixTTLNotElapsed
    else .ok (true, { c with status := .expired, updatedAt := now })
  | .expired | .paid | .cancelled => .ok (false, c)

def cancel (c : PIXCharge) (now : Time) : Except Err (Bool × PIXCharge) :=
  match c.status with
  | .pending => .ok (true, { c with status := .cancelled, updatedAt := now })
  | .cancelled => .ok (false, c)
  | .paid | .expired => .error .pixInvalidTransition

/-- `pix_charges_paid_at_consistency`. -/
def Consistent (c : PIXCharge) : Prop := c.status = .paid ↔ c.paidAt ≠ none

instance (c : PIXCharge) : Decidable c.Consistent := inferInstanceAs (Decidable (_ ↔ _))

end PIXCharge

inductive WebhookEventType : Type
  | paid
  | expired
  | cancelled
  | unknown (text : String)
  deriving DecidableEq, Repr

def WebhookEventType.isKnown : WebhookEventType → Bool
  | .paid | .expired | .cancelled => true
  | .unknown _ => false

structure WebhookEvent where
  source : String
  externalID : String
  eventType : WebhookEventType
  payload : String
  occurredAt : Time
  deriving DecidableEq, Repr

structure Outcome where
  duplicate : Bool
  transitioned : Bool
  charge : Option PIXCharge
  stuckPendingSuspected : Bool
  deriving DecidableEq, Repr

/-- The transition of an event.  An `expired` event does not wait for the deadline, as `expire` does. -/
def applyEvent (c : PIXCharge) (eventType : WebhookEventType) (now : Time) : Except Err (Bool × PIXCharge) :=
  match eventType with
  | .paid => c.markPaid now
  | .expired =>
    if c.status = .pending then .ok (true, { c with status := .expired, updatedAt := now })
    else if c.status = .expired then .ok (false, c)
    else .error .pixInvalidTransition
  | .cancelled => c.cancel now
  | .unknown _ => .error .pixUnknownEventType

/-! ## What a transition does -/

/-- The status an event leads to. -/
def WebhookEventType.target : WebhookEventType → Status
  | .paid => .paid
  | .expired => .expired
  | .cancelled => .cancelled
  | .unknown _ => .pending

/-- A transition leaves `pending`, keeps what identifies the charge, and sets `paidAt` when it pays. -/
structure Transition (c c' : PIXCharge) : Prop where
  pending : c.status = .pending
  terminal : c'.status.isTerminal = true
  id : c'.id = c.id
  externalID : c'.externalID = c.externalID
  consistent : c.Consistent → c'.Consistent

section

variable {c c' : PIXCharge} {e : WebhookEventType} {now : Time}

theorem applyEvent_changed (h : applyEvent c e now = .ok (true, c')) : Transition c c' := by
  have hpaid : ∀ {c : PIXCharge}, c.status = .pending → c.Consistent → c.paidAt = none := by
    intro c hp hc
    by_contra hne
    rw [hc.mpr hne] at hp
    cases hp
  unfold applyEvent at h
  cases e with
  | unknown text => cases h
  | paid =>
    simp only [PIXCharge.markPaid] at h
    split at h <;> cases h
    rename_i hp
    exact ⟨hp, rfl, rfl, rfl, fun _ => by simp [PIXCharge.Consistent]⟩
  | expired =>
    dsimp only at h
    split_ifs at h with hp <;> cases h
    exact ⟨hp, rfl, rfl, rfl, fun hc => by simp [PIXCharge.Consistent, hpaid hp hc]⟩
  | cancelled =>
  simp only [PIXCharge.cancel] at h
  split at h <;> cases h
  rename_i hp
  exact ⟨hp, rfl, rfl, rfl, fun hc => by simp [PIXCharge.Consistent, hpaid hp hc]⟩

theorem applyEvent_pending (hp : c.status = .pending) (he : e.isKnown = true) :
    ∃ c', applyEvent c e now = .ok (true, c') ∧ c'.status = e.target := by
  cases e with
  | unknown text => cases he
  | paid => simp [applyEvent, PIXCharge.markPaid, hp, WebhookEventType.target]
  | expired => simp [applyEvent, hp, WebhookEventType.target]
  | cancelled => simp [applyEvent, PIXCharge.cancel, hp, WebhookEventType.target]

theorem applyEvent_unchanged (h : applyEvent c e now = .ok (false, c')) : c' = c ∧ c.status.isTerminal = true := by
  unfold applyEvent at h
  cases e with
  | unknown text => cases h
  | paid =>
    simp only [PIXCharge.markPaid] at h
    split at h <;> cases h
    rename_i hp
    exact ⟨rfl, by rw [hp]; rfl⟩
  | expired =>
    dsimp only at h
    split_ifs at h with hp hx <;> cases h
    exact ⟨rfl, by rw [hx]; rfl⟩
  | cancelled =>
  simp only [PIXCharge.cancel] at h
  split at h <;> cases h
  rename_i hp
  exact ⟨rfl, by rw [hp]; rfl⟩

theorem applyEvent_error {err : Err} (he : e.isKnown = true) (h : applyEvent c e now = .error err) :
    c.status.isTerminal = true := by
  cases hs : c.status with
  | pending =>
    obtain ⟨c', hc, -⟩ : ∃ c', applyEvent c e now = .ok (true, c') ∧ c'.status = e.target := applyEvent_pending hs he
    rw [hc] at h
    cases h
  | _ => rfl

end

end Crm.Pix
