import Mathlib.Data.Int.Notation
import Mathlib.Tactic.Basic

/-!
# Crm.Basic — clocks and errors

`Time` counts nanoseconds from the Unix epoch, the resolution of the process clock; a timestamp column keeps whole
microseconds (`timestamptz`).  `Err` holds the sentinel errors of the packages modelled here, `wrap` for an error
built with a prefix and `%w`, `detail` for one that wraps `e` and quotes the text of `cause` behind it (`"%w: %v"`), and `other`
for every error that matches no sentinel.
-/

namespace Crm

/-- Nanoseconds since the Unix epoch. -/
abbrev Time : Type := Int

/-- The zero value of the clock's type, the first instant of year 1. -/
def zeroTime : Time := -62135596800000000000

/-- What a timestamp column keeps of `t`: the driver drops the part below one microsecond. -/
def timestamptz (t : Time) : Time := t - t % 1000

theorem timestamptz_le (t : Time) : timestamptz t ≤ t := by
  have : 0 ≤ t % 1000 := Int.emod_nonneg t (by decide)
  exact Int.sub_le_self t this

theorem timestamptz_of_dvd {t : Time} (h : (1000 : Int) ∣ t) : timestamptz t = t := by
  rw [timestamptz, Int.emod_eq_zero_of_dvd h]
  exact Int.sub_zero t

theorem timestamptz_mono {t t' : Int} (h : t ≤ t') : timestamptz t ≤ timestamptz t' := by
  show t - t % 1000 ≤ t' - t' % 1000
  omega

inductive Err : Type
  -- internal/wallet/errors.go
  | insufficientFunds
  | notFound
  | idempotencyConflict
  | invalidAmount
  | emptyIdempotencyKey
  | idempotencyKeyTooLong
  | zeroTenant
  | reservationCompleted
  | versionConflict
  -- internal/wallet/master_grant.go
  | zeroActor
  | invalidGrantKind
  | grantReasonTooShort
  | grantAlreadyConsumed
  | grantAlreadyRevoked
  -- internal/wallet/usecase/apply_master_grant.go
  | invalidGrantPayload
  -- internal/billing/errors.go
  | billingNotFound
  | billingZeroTenant
  | billingInvalidTransition
  | billingInvoiceAlreadyExists
  -- internal/billing/dunning/errors.go
  | dunningZeroTenant
  | dunningZeroSubscription
  | dunningZeroInvoice
  | dunningInvalidTransition
  | dunningInvalidPolicy
  | dunningOverrideReasonTooShort
  | dunningOverrideUntilInPast
  | dunningNotFound
  | dunningNoActiveOverride
  -- internal/web/master/grants.go
  | perGrantCapExceeded
  | perTenantWindowCapExceeded
  | webGrantNotFound
  | webGrantAlreadyConsumed
  | webGrantAlreadyRevoked
  -- internal/web/master/grant_requests.go
  | grantRequestNotFound
  | grantRequestAlreadyDecided
  | grantRequestApproverIsCreator
  -- internal/billing/pix/errors.go
  | pixZeroTenant
  | pixZeroInvoice
  | pixEmptyQRCode
  | pixEmptyCopyPaste
  | pixExpiresAtInPast
  | pixInvalidTransition
  | pixTTLNotElapsed
  | pixExternalIDAlreadySet
  | pixEmptyExternalID
  | pixNotFound
  | pixDuplicateEvent
  | pixUnknownEventType
  -- internal/adapter/db/postgres/withtenant.go
  | postgresZeroActor
  -- internal/aiassist/errors.go
  | aiInsufficientBalance
  | aiDisabled
  | aiCacheMiss
  | aiZeroTenant
  | aiZeroConversation
  | aiEmptyRequestID
  | aiEmptyPrompt
  | aiLLMUnavailable
  | aiLGPDBlocked
  | aiRateLimited
  -- internal/funnel/errors.go
  | funnelInvalidTenant
  | funnelInvalidConversation
  | funnelInvalidActor
  | funnelInvalidStageKey
  | funnelStageNotFound
  | funnelNotFound
  -- internal/funnel/engine/errors.go
  | engineInvalidEvent
  | engineAlreadyApplied
  -- internal/funnel/rules/errors.go
  | rulesInvalidTenant
  | rulesInvalidRule
  | rulesUnknownTriggerType
  | rulesUnknownActionType
  -- internal/webhook/ports.go
  | webhookTokenUnknown
  | webhookTokenRevoked
  | webhookUnsupportedScope
  | webhookTimestampMissing
  | webhookTimestampFormat
  | webhookTimestampOutOfRange
  -- internal/customdomain/management/types.go, ports.go
  | domainInvalidHost
  | domainPrivateIP
  | domainTokenMismatch
  | domainTenantMismatch
  | domainAlreadyVerified
  | domainSlugReserved
  | domainTokenExpired
  | domainTokenRotated
  | domainStoreNotFound
  -- internal/customdomain/validation/types.go
  | validationPrivateIP
  | validationTokenMismatch
  | validationNoAddress
  | validationEmptyHost
  | validationEmptyToken
  -- internal/customdomain/enrollment/usecase.go
  | enrollmentZeroTenant
  -- internal/slugreservation/domain.go
  | slugInvalid
  | slugReserved
  | slugNotReserved
  | slugReasonRequired
  | slugZeroMaster
  -- internal/iam/errors.go, account_locked_error.go, login.go
  | iamInvalidCredentials
  | iamAccountLocked (lockedUntil : Time)
  | iamTenantNotFound
  -- internal/iam/ratelimit/policy.go
  | ratelimitInvalidPolicy
  -- internal/iam/mfa/errors.go
  | mfaInvalidCode
  | mfaSeedTooShort
  | mfaCodeFormat
  | mfaNotEnrolled
  | mfaSeedCipherDecode
  -- internal/contacts/errors.go
  | contactsNotFound
  | contactsInvalidTenant
  | contactsEmptyDisplayName
  | contactsInvalidChannel
  | contactsInvalidExternalID
  | contactsInvalidE164
  | contactsChannelIdentityExists
  | contactsChannelIdentityConflict
  -- internal/inbox/errors.go
  | inboxInvalidTenant
  | inboxInvalidContact
  | inboxInvalidChannel
  | inboxConversationClosed
  | inboxConversationAlreadyOpen
  | inboxInvalidAssignee
  | inboxUserNotAssignable
  | inboxAlreadyAssigned
  | inboxInvalidStatus
  | inboxStatusRegression
  | inboxConversationMismatch
  | inboxNotFound
  | inboxInboundAlreadyProcessed
  | inboxInvalidBody
  | inboxChannelTransient
  -- internal/ai/cache/cache.go
  | cacheEmptyTenant
  | cacheSystemTenantMisuse
  | cacheEmptyScope
  | cacheSystemScopeMisuse
  | cacheEmptyConv
  | cacheEmptyUntilMsg
  -- internal/ai-assist/anonymizer/anonymizer.go
  | anonymize
  -- internal/media/scanner/store.go
  | scannerAlreadyFinalised
  | scannerNotFound
  -- internal/tenantusers/user.go, internal/tenantusers/credential.go
  | usersInvalidEmail
  | usersInvalidRole
  | usersEmailTaken
  | usersNotFound
  | usersLastGerente
  | usersTokenInvalid
  -- internal/adapter/httpapi/mastermfa/session.go, session_store.go
  | masterSessionMFAState
  | masterSessionNotFound
  | masterSessionExpired
  | masterSessionHardCap
  -- internal/iam/impersonation/impersonation.go
  | impersonationNoActive
  | impersonationAlreadyActive
  | impersonationInvalidReason
  | wrap (msg : String) (e : Err)
  | detail (e cause : Err)
  | join (e₁ e₂ : Err)
  | other (msg : String)
  deriving DecidableEq, Repr

namespace Err

/-- `errors.Is(e, t)`: the error or one it wraps is `t`. -/
def is (e t : Err) : Bool :=
  match e with
  | .wrap msg e' => decide (Err.wrap msg e' = t) || e'.is t
  | .detail e' cause => decide (Err.detail e' cause = t) || e'.is t
  | .join e₁ e₂ => decide (Err.join e₁ e₂ = t) || e₁.is t || e₂.is t
  | e => decide (e = t)

/-- `fmt.Errorf` with `%w`; a nil error leaves only the text. -/
def errorf (msg : String) : Option Err → Err
  | some e => .wrap msg e
  | none => .other msg

/-- Failures of the connection: they match no sentinel. -/
def fault (e : Err) : Prop := ∃ msg, e = .other msg

@[simp] theorem fault_other (msg : String) : (Err.other msg).fault := ⟨msg, rfl⟩

@[simp] theorem is_self (e : Err) : e.is e = true := by
  cases e <;> simp [is]

theorem not_is_of_fault {e t : Err} (he : e.fault) (ht : ¬ t.fault) : e.is t = false := by
  obtain ⟨msg, rfl⟩ := he
  simp only [is, decide_eq_false_iff_not]
  rintro rfl
  exact ht ⟨msg, rfl⟩

@[simp] theorem not_fault_notFound : ¬ Err.notFound.fault := fun ⟨_, h⟩ => nomatch h

@[simp] theorem not_fault_versionConflict : ¬ Err.versionConflict.fault := fun ⟨_, h⟩ => nomatch h

@[simp] theorem not_fault_idempotencyConflict : ¬ Err.idempotencyConflict.fault := fun ⟨_, h⟩ => nomatch h

end Err

end Crm
