import Crm.Basic
import Crm.Lib.Int64
import Crm.Lib.Text
import Crm.Lib.Uuid

/-!
# Crm.Assist.Domain — policies, summaries and the price of a prompt

The types of `internal/aiassist`, the estimator that prices a prompt before it is sent, the catalog of
`internal/aipolicy/lgpd_fields.go` and the block of structured fields that goes in front of the prompt.
-/

namespace Crm.Assist

open Int64Arith Text

structure Scope where
  teamID : String
  channelID : String
  deriving DecidableEq, Repr

structure Policy where
  aiEnabled : Bool
  optIn : Bool
  anonymize : Bool
  model : String
  maxOutputTokens : ℤ
  promptVersion : String
  structuredFields : List String
  consentRequired : Bool
  deriving DecidableEq, Repr

structure LLMRequest where
  prompt : String
  model : String
  maxTokens : ℤ
  idempotencyKey : String
  deriving DecidableEq, Repr

structure LLMResponse where
  text : String
  tokensIn : ℤ
  tokensOut : ℤ
  deriving DecidableEq, Repr

/-! ## Consent -/

inductive ScopeKind : Type
  | channel
  | team
  | tenant
  deriving DecidableEq, Repr

structure ConsentScope where
  tenantID : UUID
  kind : ScopeKind
  id : String
  deriving DecidableEq, Repr

/-- The error that asks the operator for consent, with the preview they must see. -/
structure ConsentRequired where
  scope : ConsentScope
  payload : String
  anonymizerVersion : String
  promptVersion : String
  deriving DecidableEq, Repr

inductive Failure : Type
  | err (e : Err)
  | consent (c : ConsentRequired)
  deriving DecidableEq, Repr

/-- The most specific scope of a request. -/
def consentScopeFor (tenantID : UUID) (scope : Scope) : ConsentScope :=
  if scope.channelID ≠ "" then ⟨tenantID, .channel, scope.channelID⟩
  else if scope.teamID ≠ "" then ⟨tenantID, .team, scope.teamID⟩
  else ⟨tenantID, .tenant, tenantID.string⟩

/-! ## Summaries -/

/-- A summary; a zero `ExpiresAt` or `InvalidatedAt` is `none`. -/
structure Summary where
  id : UUID
  tenantID : UUID
  conversationID : UUID
  text : String
  model : String
  tokensIn : ℤ
  tokensOut : ℤ
  generatedAt : Time
  expiresAt : Option Time
  invalidatedAt : Option Time
  deriving DecidableEq, Repr

def defaultSummaryTTL : Time := 24 * 60 * 60 * 10 ^ 9

def validateSummary (tenantID conversationID : UUID) (text model : String) (tokensIn tokensOut : ℤ) : Option Err :=
  if tenantID = UUID.Nil then some .aiZeroTenant
  else if conversationID = UUID.Nil then some .aiZeroConversation
  else if text = "" then some .aiEmptyPrompt
  else if model = "" then some .aiEmptyPrompt
  else if tokensIn < 0 ∨ tokensOut < 0 then some .aiEmptyPrompt
  else none

def newSummary (id tenantID conversationID : UUID) (text model : String) (tokensIn tokensOut : ℤ) (generatedAt ttl : Time) : Summary where
  id := id
  tenantID := tenantID
  conversationID := conversationID
  text := text
  model := model
  tokensIn := tokensIn
  tokensOut := tokensOut
  generatedAt := generatedAt
  expiresAt := if 0 < ttl then some (generatedAt + ttl) else none
  invalidatedAt := none

/-- Neither invalidated nor past its TTL. -/
def Summary.IsValid (s : Summary) (now : Time) : Prop := s.invalidatedAt = none ∧ ∀ t ∈ s.expiresAt, now ≤ t

instance (s : Summary) (now : Time) : Decidable (s.IsValid now) := inferInstanceAs (Decidable (_ ∧ _))

/-! ## The estimator -/

/-- Lower case as far as a test against an ASCII text can tell: besides the ASCII capitals only U+0130 and U+212A have
an ASCII lower-case form. -/
def asciiLower (c : Char) : Char := if c.toNat = 0x130 then 'i' else if c.toNat = 0x212a then 'k' else c.toLower

def lowered (s : String) : String := String.ofList (s.toList.map asciiLower)

def defaultBytesPerToken : ℕ := 4

/-- Bytes per token; the cases of the table that give the default are left to the default. -/
def modelDivisor (model : String) : ℕ :=
  if hasPrefix (lowered (trimSpace model)) "anthropic/claude" then 3 else defaultBytesPerToken

def estimateTokens (text model : String) : ℤ := max 1 (text.utf8ByteSize / modelDivisor model : ℕ)

def estimateReservation (prompt model : String) (maxOutputTokens : ℤ) : ℤ :=
  if maxOutputTokens ≤ 0 then estimateTokens prompt model
  else wrap (estimateTokens prompt model + maxOutputTokens)

/-! ## Structured fields -/

inductive LGPDFieldTier : Type
  | green
  | yellow
  | red
  deriving DecidableEq, Repr

structure LGPDField where
  name : String
  tier : LGPDFieldTier
  promptForm : String
  deriving DecidableEq, Repr

def lgpdFieldCatalog : List LGPDField :=
  [⟨"display_name", .green, "customer.display_name = \"\x7bname\x7d\""⟩,
   ⟨"tags", .green, "customer.tags = [...]"⟩,
   ⟨"channel", .green, "customer.channel = \"whatsapp\""⟩,
   ⟨"conversation_summary_last_5", .green, "customer.summary = \"(resumo anônimo)\""⟩,
   ⟨"email", .yellow, "customer.email = \"[PII:EMAIL]\""⟩,
   ⟨"phone", .yellow, "customer.phone = \"[PII:PHONE]\""⟩,
   ⟨"cnpj", .yellow, "customer.cnpj = \"[PII:CNPJ]\""⟩,
   ⟨"cpf", .red, "nunca enviado"⟩,
   ⟨"address", .red, "nunca enviado"⟩,
   ⟨"health_data", .red, "nunca enviado"⟩,
   ⟨"racial_ethnic_origin", .red, "nunca enviado"⟩,
   ⟨"religious_belief", .red, "nunca enviado"⟩,
   ⟨"political_opinion", .red, "nunca enviado"⟩,
   ⟨"union_affiliation", .red, "nunca enviado"⟩,
   ⟨"sexual_orientation_data", .red, "nunca enviado"⟩,
   ⟨"biometric_data", .red, "nunca enviado"⟩,
   ⟨"genetic_data", .red, "nunca enviado"⟩,
   ⟨"children_data", .red, "nunca enviado"⟩]

def lgpdFieldByName (name : String) : Option LGPDField := lgpdFieldCatalog.find? fun f => f.name = name

def optInError (name : String) : Option Err :=
  if name = "" then none
  else match lgpdFieldByName name with
    | none => some (.detail .aiLGPDBlocked (.other ("unknown field \"" ++ name ++ "\"")))
    | some f => match f.tier with
      | .red => some (.detail .aiLGPDBlocked (.other ("red-tier field \"" ++ name ++ "\"")))
      | .green => some (.detail .aiLGPDBlocked (.other ("green-tier field \"" ++ name ++ "\" must not appear in opt-in set")))
      | .yellow => none

def structuredContextHeader : String := "# Structured customer context (LGPD-classified — never cleartext for PII)\n"

/-- The line of a catalog entry: green ones always, yellow ones when opted in, red ones never. -/
def renderField (opted : List String) (f : LGPDField) : String :=
  match f.tier with
  | .green => f.promptForm ++ "\n"
  | .yellow => if f.name ∈ opted then f.promptForm ++ "\n" else ""
  | .red => ""

/-- The block in front of the prompt.  Of several bad names the source reports the one its map yields first; here it is the
first of the list. -/
def assembleStructuredContext (opted : List String) : Except Err String :=
  let names := opted.map trimSpace
  match names.findSome? optInError with
  | some e => .error e
  | none => .ok (structuredContextHeader ++ String.join (lgpdFieldCatalog.map (renderField names)))

end Crm.Assist
