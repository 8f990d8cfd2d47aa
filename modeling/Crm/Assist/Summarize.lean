import Crm.Assist.Domain
import Crm.Wallet.Sequential

/-!
# Crm.Assist.Summarize — the summary service

`Service.Summarize` and `Service.Invalidate` of `internal/aiassist/usecase/summarize.go` as clients of their ports: the policy
resolver, the anonymizer, the consent store, the rate limiter, the clock, the summary cache, the wallet and the LLM.  A wallet
call is the wallet service's own program, run alone over the ledger; what the other services answer is arbitrary.
-/

namespace Crm.Assist

open Int64Arith Interleave Interleave.Prog Crm.Store List
open Crm.Wallet (Reservation freshExec validateIdempotencyKey)

/-! ## ai_summary -/

structure AssistDB where
  core : DB
  summaries : List Summary

namespace AssistDB

def validSummaries (s : AssistDB) (tenantID conversationID : UUID) (now : Time) : List Summary :=
  s.summaries.filter fun m => m.tenantID = tenantID ∧ m.conversationID = conversationID ∧ m.invalidatedAt = none ∧
    ∀ t ∈ m.expiresAt, timestamptz now < t

/-- `GetLatestValid`: of rows generated at the same instant any may be returned. -/
def GetLatestValid (s : AssistDB) (tenantID conversationID : UUID) (now : Time) : Except Err Summary → Prop
  | .ok m => tenantID ≠ UUID.Nil ∧ conversationID ≠ UUID.Nil ∧ m ∈ s.validSummaries tenantID conversationID now ∧
      ∀ m' ∈ s.validSummaries tenantID conversationID now, m'.generatedAt ≤ m.generatedAt
  | .error e =>
    if tenantID = UUID.Nil then e = .aiZeroTenant
    else if conversationID = UUID.Nil then e = .aiZeroConversation
    else e = .aiCacheMiss ∧ s.validSummaries tenantID conversationID now = []

def rowOf (m : Summary) : Summary :=
  { m with generatedAt := timestamptz m.generatedAt, expiresAt := m.expiresAt.map timestamptz,
           invalidatedAt := m.invalidatedAt.map timestamptz }

/-- `Save`: an insert under the primary key and the `CHECK`s on the token counts. -/
def saveSummary (m : Summary) (s : AssistDB) : Except Err (Unit × AssistDB) :=
  if m.tenantID = UUID.Nil then .error .aiZeroTenant
  else if m.conversationID = UUID.Nil then .error .aiZeroConversation
  else if m.tokensIn < 0 ∨ m.tokensOut < 0 ∨ s.summaries.any fun r => r.id = m.id then
    .error (.other "aiassist/postgres: insert summary")
  else .ok ((), { s with summaries := s.summaries ++ [rowOf m] })

def invalidateForConversation (tenantID conversationID : UUID) (now : Time) (s : AssistDB) : Except Err (Unit × AssistDB) :=
  if tenantID = UUID.Nil then .error .aiZeroTenant
  else if conversationID = UUID.Nil then .error .aiZeroConversation
  else .ok ((), { s with summaries := s.summaries.map fun m =>
    if m.tenantID = tenantID ∧ m.conversationID = conversationID ∧ m.invalidatedAt = none then
      { m with invalidatedAt := some (timestamptz now) }
    else m })

end AssistDB

/-! ## The ports -/

inductive Req : Type
  | resolve (tenantID : UUID) (scope : Scope)
  | anonymize (text : String)
  | hasConsent (scope : ConsentScope) (anonymizerVersion promptVersion : String)
  | allow (bucket key : String)
  | clock
  | getLatestValid (tenantID conversationID : UUID) (now : Time)
  | reserve (tenantID : UUID) (amount : ℤ) (key : String)
  | commit (r : Reservation) (actualAmount : ℤ) (key : String)
  | release (r : Reservation) (key : String)
  | complete (req : LLMRequest)
  | newUUID
  | saveSummary (m : Summary)
  | invalidateForConversation (tenantID conversationID : UUID) (now : Time)

abbrev Resp : Req → Type
  | .resolve _ _ => Except Err Policy
  | .anonymize _ => Except Err String
  | .hasConsent _ _ _ => Except Err Bool
  | .allow _ _ => Except Err Bool
  | .clock => Time
  | .getLatestValid _ _ _ => Except Err Summary
  | .reserve _ _ _ => Except Err Reservation
  | .commit _ _ _ => Except Err Unit
  | .release _ _ => Except Err Unit
  | .complete _ => Except Err LLMResponse
  | .newUUID => UUID
  | .saveSummary _ => Except Err Unit
  | .invalidateForConversation _ _ _ => Except Err Unit

/-- A wallet call: its program runs alone, and the summaries stay as they are. -/
def walletCall {α : Type} (p : Store.Client α) (s : AssistDB) (r : α) (s' : AssistDB) : Prop :=
  (∃ l, Prog.Runs freshExec p s.core l r s'.core) ∧ s'.summaries = s.summaries

def exec : (q : Req) → AssistDB → Resp q → AssistDB → Prop
  | .getLatestValid t c now, s, r, s' => s' = s ∧ (s.GetLatestValid t c now r ∨ ∃ e, e.fault ∧ r = .error e)
  | .reserve t a k, s, r, s' => walletCall (Wallet.reserve t a k) s r s'
  | .commit res a k, s, r, s' => walletCall (Wallet.commit (some res) a k) s r s'
  | .release res k, s, r, s' => walletCall (Wallet.release (some res) k) s r s'
  | .saveSummary m, s, r, s' => Tx Err.fault s (s.saveSummary m) r s'
  | .invalidateForConversation t c now, s, r, s' => Tx Err.fault s (s.invalidateForConversation t c now) r s'
  -- the services beside the database answer what they like
  | _, s, _, s' => s' = s

abbrev Client (α : Type) : Type := Prog Req Resp α

/-! ## The service -/

/-- The wired service: the bucket of the rate limiter and the version of the anonymizer when they are configured. -/
structure Service where
  rateLimitBucket : Option String
  anonymizerVersion : Option String
  ttl : Time
  bucket : ∀ b ∈ rateLimitBucket, b ≠ ""
  version : ∀ v ∈ anonymizerVersion, v ≠ ""
  ttl_pos : 0 < ttl

/-- `NewService`, with the required ports wired; a missing TTL takes the default. -/
def Service.new (rateLimiter : Bool) (rateLimitBucket : String) (consent anonymizer : Bool) (anonymizerVersion : String) (ttl : Time) :
    Except Err Service :=
  if hb : rateLimiter ∧ rateLimitBucket = "" then
    .error (.other "aiassist/usecase: RateLimitBucket required when RateLimiter is set")
  else if hv : (consent ∨ anonymizer ∨ anonymizerVersion ≠ "") ∧ (¬ consent ∨ ¬ anonymizer ∨ anonymizerVersion = "") then
    .error (.other "aiassist/usecase: Consent, Anonymizer, and AnonymizerVersion must be wired together")
  else .ok
    { rateLimitBucket := if rateLimiter then some rateLimitBucket else none
      anonymizerVersion := if anonymizerVersion ≠ "" then some anonymizerVersion else none
      ttl := if ttl ≤ 0 then defaultSummaryTTL else ttl
      bucket := by
        intro b hmem
        split_ifs at hmem with hr
        · cases hmem
          exact fun h => hb ⟨hr, h⟩
        · cases hmem
      version := by
        intro v hmem
        split_ifs at hmem with hne
        · cases hmem
          exact hne
        · cases hmem
      ttl_pos := by
        split_ifs with h
        · decide
        · exact Int.not_le.mp h }

structure SummarizeRequest where
  tenantID : UUID
  conversationID : UUID
  requestID : String
  prompt : String
  scope : Scope
  force : Bool
  deriving DecidableEq, Repr

structure SummarizeResponse where
  summary : Summary
  cacheHit : Bool
  deriving DecidableEq, Repr

def reservationKeySuffix : String := ":reserve"
def commitKeySuffix : String := ":commit"
def releaseKeySuffix : String := ":release"

variable (req : SummarizeRequest)

def idempotencyKey (phaseSuffix : String) : String :=
  req.tenantID.string ++ ":" ++ req.conversationID.string ++ ":" ++ req.requestID ++ phaseSuffix

def validate : Option Err :=
  if req.tenantID = UUID.Nil then some .aiZeroTenant
  else if req.conversationID = UUID.Nil then some .aiZeroConversation
  else if req.requestID = "" then some .aiEmptyRequestID
  else if req.prompt = "" then some .aiEmptyPrompt
  else none

def errPolicyBlocked (p : Policy) : Err :=
  .detail .aiDisabled (.other (if p.aiEnabled ∧ ¬ p.optIn then "opt_in=false" else "ai_enabled=false"))

variable (svc : Service)

def checkConsent (req : SummarizeRequest) (policy : Policy) : Client (Except Failure Unit) := do
  if ¬ policy.consentRequired then return .ok ()
  match svc.anonymizerVersion with
  | none => return .ok ()
  | some version =>
    if policy.promptVersion = "" then return .ok ()
    match ← .send (Req.anonymize req.prompt) with
    | .error e => return .error (.err (.wrap "aiassist/usecase: anonymize for consent" e))
    | .ok preview =>
      let scope := consentScopeFor req.tenantID req.scope
      match ← .send (Req.hasConsent scope version policy.promptVersion) with
      | .error e => return .error (.err (.wrap "aiassist/usecase: consent check" e))
      | .ok true => return .ok ()
      | .ok false => return .error (.consent
          { scope, payload := preview, anonymizerVersion := version, promptVersion := policy.promptVersion })

def checkRateLimit (req : SummarizeRequest) : Client (Except Failure Unit) := do
  match svc.rateLimitBucket with
  | none => return .ok ()
  | some bucket =>
    match ← .send (Req.allow bucket (req.tenantID.string ++ ":" ++ req.conversationID.string)) with
    | .error e => return .error (.err (.detail .aiLLMUnavailable e))
    | .ok false => return .error (.err (.join .aiLLMUnavailable .aiRateLimited))
    | .ok true => return .ok ()

/-- The cached summary of a call without `Force`, if one is valid at `now`. -/
def lookupCache (now : Time) : Client (Except Failure (Option Summary)) := do
  if req.force then return .ok none
  match ← .send (Req.getLatestValid req.tenantID req.conversationID now) with
  | .error e => return if e.is .aiCacheMiss then .ok none else .error (.err (.wrap "aiassist/usecase: cache lookup" e))
  | .ok cached => return .ok (if cached.IsValid now then some cached else none)

def anonymizeForDispatch (body : String) (policy : Policy) : Client (Except Failure String) := do
  if svc.anonymizerVersion = none ∨ ¬ policy.anonymize then return .ok body
  match ← .send (Req.anonymize body) with
  | .error e => return .error (.err (.wrap "aiassist/usecase: anonymize for dispatch" e))
  | .ok out => return .ok out

def buildDispatchPrompt (req : SummarizeRequest) (policy : Policy) : Client (Except Failure String) := do
  match ← anonymizeForDispatch svc req.prompt policy with
  | .error e => return .error e
  | .ok body =>
    match assembleStructuredContext policy.structuredFields with
    | .error e => return .error (.err e)
    | .ok contextBlock => return .ok (if contextBlock = "" then body else contextBlock ++ "\n" ++ body)

def llmRequest (policy : Policy) (dispatchPrompt : String) : LLMRequest where
  prompt := dispatchPrompt
  model := policy.model
  maxTokens := policy.maxOutputTokens
  idempotencyKey := idempotencyKey req ""

/-- Reserve, then dispatch; a dispatch that fails gives the reservation back. -/
def reserveAndCall (policy : Policy) (dispatchPrompt : String) :
    Client (Except Failure (Reservation × LLMResponse)) := do
  let estimate := estimateReservation dispatchPrompt policy.model policy.maxOutputTokens
  match ← .send (Req.reserve req.tenantID estimate (idempotencyKey req reservationKeySuffix)) with
  | .error e =>
    return .error (.err (if e.is .insufficientFunds then .aiInsufficientBalance else .wrap "aiassist/usecase: wallet reserve" e))
  | .ok reservation =>
    match ← .send (Req.complete (llmRequest req policy dispatchPrompt)) with
    | .error e =>
      match ← .send (Req.release reservation (idempotencyKey req releaseKeySuffix)) with
      | .error rerr => return .error (.err (.wrap "aiassist/usecase: llm failed and release failed" (.detail e rerr)))
      | .ok () => return .error (.err (.detail .aiLLMUnavailable e))
    | .ok llmResp => return .ok (reservation, llmResp)

/-- The tokens charged: what the model reports, at least one and at most what is reserved. -/
def actualTokens (reservation : Reservation) (llmResp : LLMResponse) : ℤ :=
  let actual := wrap (llmResp.tokensIn + llmResp.tokensOut)
  let actual := if actual ≤ 0 then 1 else actual
  if reservation.amount < actual then reservation.amount else actual

def commitAndPersist (req : SummarizeRequest) (policy : Policy) (reservation : Reservation) (llmResp : LLMResponse)
    (now : Time) : Client (Except Failure Summary) := do
  match ← .send (Req.commit reservation (actualTokens reservation llmResp) (idempotencyKey req commitKeySuffix)) with
  | .error e => return .error (.err (.wrap "aiassist/usecase: wallet commit" e))
  | .ok () =>
    match validateSummary req.tenantID req.conversationID llmResp.text policy.model llmResp.tokensIn llmResp.tokensOut with
    | some e => return .error (.err (.wrap "aiassist/usecase: build summary" e))
    | none =>
      let id ← .send Req.newUUID
      let summary := newSummary id req.tenantID req.conversationID llmResp.text policy.model llmResp.tokensIn llmResp.tokensOut now svc.ttl
      match ← .send (Req.saveSummary summary) with
      | .error e => return .error (.err (.wrap "aiassist/usecase: persist summary" e))
      | .ok () => return .ok summary

def dispatch (req : SummarizeRequest) (policy : Policy) (now : Time) : Client (Except Failure SummarizeResponse) := do
  match ← buildDispatchPrompt svc req policy with
  | .error e => return .error e
  | .ok dispatchPrompt =>
    match ← reserveAndCall req policy dispatchPrompt with
    | .error e => return .error e
    | .ok (reservation, llmResp) =>
      match ← commitAndPersist svc req policy reservation llmResp now with
      | .error e => return .error e
      | .ok committed => return .ok ⟨committed, false⟩

def summarize (req : SummarizeRequest) : Client (Except Failure SummarizeResponse) := do
  match validate req with
  | some e => return .error (.err e)
  | none =>
    match ← .send (Req.resolve req.tenantID req.scope) with
    | .error e => return .error (.err (.wrap "aiassist/usecase: resolve policy" e))
    | .ok policy =>
      if ¬ policy.aiEnabled ∨ ¬ policy.optIn then return .error (.err (errPolicyBlocked policy))
      match ← checkConsent svc req policy with
      | .error e => return .error e
      | .ok () =>
        match ← checkRateLimit svc req with
        | .error e => return .error e
        | .ok () =>
          let now ← .send Req.clock
          match ← lookupCache req now with
          | .error e => return .error e
          | .ok (some cached) => return .ok ⟨cached, true⟩
          | .ok none => dispatch svc req policy now

def invalidate (tenantID conversationID : UUID) : Client (Except Failure Unit) := do
  if tenantID = UUID.Nil then return .error (.err .aiZeroTenant)
  if conversationID = UUID.Nil then return .error (.err .aiZeroConversation)
  let now ← .send Req.clock
  match ← .send (Req.invalidateForConversation tenantID conversationID now) with
  | .error e => return .error (.err e)
  | .ok () => return .ok ()

/-! ## The keys of a request in the ledger -/

def phaseSuffixes : List String := [reservationKeySuffix, commitKeySuffix, releaseKeySuffix]

theorem suffix_eq {s₁ s₂ : String} (h1 : s₁ ∈ phaseSuffixes) (h2 : s₂ ∈ phaseSuffixes) (h : s₁.toList <:+ s₂.toList ∨ s₂.toList <:+ s₁.toList) : s₁ = s₂ := by
  simp only [phaseSuffixes, mem_cons, not_mem_nil, or_false] at h1 h2
  rcases h1 with rfl | rfl | rfl <;> rcases h2 with rfl | rfl | rfl <;> first | rfl | exact absurd h (by decide)

theorem size_idempotencyKey (s : String) : (idempotencyKey req s).utf8ByteSize = 74 + req.requestID.utf8ByteSize + s.utf8ByteSize := by
  have hcolon : ":".utf8ByteSize = 1 := rfl
  simp only [idempotencyKey, String.utf8ByteSize_append, UUID.utf8ByteSize_string, hcolon]

/-- **The ledger keys of a request.**  A key determines the request and the phase, and a reservation whose key is accepted can be settled. -/
theorem ledger_keys :
    (∀ r₁ r₂ : SummarizeRequest, ∀ s₁ ∈ phaseSuffixes, ∀ s₂ ∈ phaseSuffixes, idempotencyKey r₁ s₁ = idempotencyKey r₂ s₂ →
      r₁.tenantID = r₂.tenantID ∧ r₁.conversationID = r₂.conversationID ∧ r₁.requestID = r₂.requestID ∧ s₁ = s₂) ∧
    ∀ req : SummarizeRequest, validateIdempotencyKey (idempotencyKey req reservationKeySuffix) = none →
      ∀ s ∈ phaseSuffixes, validateIdempotencyKey (idempotencyKey req s) = none := by
  constructor
  · intro r₁ r₂ s₁ h1 s₂ h2 h
    have h := congrArg String.toList h
    simp only [idempotencyKey, String.toList_append, append_assoc] at h
    obtain ⟨ht, h⟩ := append_inj h (by rw [UUID.length_string, UUID.length_string])
    obtain ⟨hc, h⟩ := append_inj (append_cancel_left h) (by rw [UUID.length_string, UUID.length_string])
    have h := append_cancel_left h
    have hs : s₁.toList <:+ r₂.requestID.toList ++ s₂.toList := h ▸ suffix_append ..
    obtain rfl := suffix_eq h1 h2 (suffix_or_suffix_of_suffix hs (suffix_append ..))
    exact ⟨UUID.string_injective (String.toList_injective ht), UUID.string_injective (String.toList_injective hc),
      String.toList_injective (append_cancel_right h), rfl⟩
  intro req h s hs
  have hsize : s.utf8ByteSize ≤ reservationKeySuffix.utf8ByteSize := by
    simp only [phaseSuffixes, mem_cons, not_mem_nil, or_false] at hs
    rcases hs with rfl | rfl | rfl <;> decide
  have hne : ∀ s, idempotencyKey req s ≠ "" := fun s he => by
    have := size_idempotencyKey req s
    simp [he] at this
    omega
  rw [validateIdempotencyKey, if_neg (hne _)] at h ⊢
  rw [size_idempotencyKey] at h ⊢
  split_ifs at h with hlong
  exact if_neg (by omega)

theorem ledger_keys_commit : validateIdempotencyKey (idempotencyKey ⟨2, 3, "r", "", ⟨"", ""⟩, false⟩ commitKeySuffix) = none :=
  ledger_keys.2 _ (by decide) _ (by decide)

end Crm.Assist
