import Mathlib.Data.List.Nodup
import Crm.Basic
import Crm.Lib.Interleave
import Crm.Lib.Text
import Crm.Lib.Uuid

/-!
# Crm.Webhook.Intake — receiving webhooks

`Service.Handle` of `internal/webhook/service.go` over the tables of migrations 0075b and 0075c.  A delivery is authenticated, its
idempotency key is claimed in `webhook_idempotency`, and the raw event is inserted; each of these is a statement of its own.  The claim
is what drops a duplicate, and nothing takes it back.

The token table, the association table and the signature check answer as they like.  The publish step that `Handle` starts in the
background is a call of its own.  SHA-256 is a field of the service.
-/

namespace Crm.Webhook

open Interleave List

abbrev Bytes : Type := List UInt8

abbrev Digest : Type := BitVec 256

abbrev Headers : Type := List (String × List String)

/-! ## Domain -/

inductive SecretScope : Type
  | unknown
  | app
  | tenant
  deriving DecidableEq, Repr

inductive Outcome : Type
  | accepted
  | replay
  | unknownToken
  | revokedToken
  | signatureInvalid
  | replayWindowViolation
  | timestampMissing
  | timestampFormatError
  | parseError
  | unknownChannel
  | internalError
  | tenantBodyMismatch
  deriving DecidableEq, Repr

structure Event where
  timestamp : Time
  channel : String
  externalID : String
  deriving DecidableEq, Repr

structure Request where
  channel : String
  token : String
  body : Bytes
  headers : Headers
  deriving DecidableEq, Repr

structure Result where
  outcome : Outcome
  tenantID : UUID
  err : Option Err
  deriving DecidableEq, Repr

/-- The pure part of a channel adapter. -/
structure ChannelAdapter where
  name : String
  secretScope : SecretScope
  extractTimestamp : Headers → Bytes → Except Err Time
  parseEvent : Bytes → Except Err Event
  bodyTenantAssociation : Bytes → Option String

/-- The configured service; `find` is the map of the registered adapters. -/
structure Service where
  sha256 : Bytes → Digest
  find : String → Option ChannelAdapter
  pastWindow : Int
  futureSkew : Int

namespace Service

variable (S : Service)

def timestampInWindow (ts now : Time) : Bool :=
  if ts < now - S.pastWindow then false
  else if now + S.futureSkew < ts then false
  else true

def tenantBytes (tenantID : UUID) : Bytes := (List.range 16).map fun i => UInt8.ofNat (tenantID.toNat / 256 ^ (15 - i))

def keyInput (tenantID : UUID) (channel : String) (payload : Bytes) : Bytes :=
  tenantBytes tenantID ++ 58 :: (Text.utf8 channel ++ 58 :: payload)

def computeIdempotencyKey (tenantID : UUID) (channel : String) (payload : Bytes) : Digest := S.sha256 (keyInput tenantID channel payload)

def sha256Sum (s : String) : Digest := S.sha256 (Text.utf8 s)

end Service

/-! ## Tables -/

structure IdempotencyRow where
  tenantID : UUID
  channel : String
  idempotencyKey : Digest
  insertedAt : Time
  deriving DecidableEq, Repr

def IdempotencyRow.primary (r : IdempotencyRow) : UUID × String × Digest := (r.tenantID, r.channel, r.idempotencyKey)

structure RawEventRow where
  tenantID : UUID
  channel : String
  idempotencyKey : Digest
  payload : Bytes
  headers : Headers
  receivedAt : Time
  deriving DecidableEq, Repr

structure RawEvent extends RawEventRow where
  id : UUID
  publishedAt : Option Time
  deriving DecidableEq, Repr

structure WebhookDB where
  idempotency : List IdempotencyRow
  rawEvents : List RawEvent
  primary : (idempotency.map IdempotencyRow.primary).Nodup
  eventIDs : (rawEvents.map fun e => (e.receivedAt, e.id)).Nodup

namespace WebhookDB

def HasKey (s : WebhookDB) (tenantID : UUID) (channel : String) (key : Digest) : Prop :=
  (tenantID, channel, key) ∈ s.idempotency.map IdempotencyRow.primary

instance (s : WebhookDB) (tenantID : UUID) (channel : String) (key : Digest) : Decidable (s.HasKey tenantID channel key) :=
  inferInstanceAs (Decidable (_ ∈ _))

def addKey (s : WebhookDB) (r : IdempotencyRow) (h : ¬ s.HasKey r.tenantID r.channel r.idempotencyKey) : WebhookDB :=
  { s with
    idempotency := s.idempotency ++ [r]
    primary := by
      rw [map_append, map_singleton, ← concat_eq_append, nodup_concat]
      exact ⟨h, s.primary⟩ }

/-- `INSERT … ON CONFLICT DO NOTHING RETURNING`: true when the row is new. -/
def checkAndStore (tenantID : UUID) (channel : String) (key : Digest) (now : Time) (s : WebhookDB) : Except Err (Bool × WebhookDB) :=
  if h : s.HasKey tenantID channel key then .ok (false, s)
  else .ok (true, s.addKey ⟨tenantID, channel, key, timestamptz now⟩ h)

def addEvent (s : WebhookDB) (row : RawEventRow) (id : UUID) (h : (timestamptz row.receivedAt, id) ∉ s.rawEvents.map fun e => (e.receivedAt, e.id)) :
    WebhookDB :=
  { s with
    rawEvents := s.rawEvents ++ [{ row with receivedAt := timestamptz row.receivedAt, id := id, publishedAt := none }]
    eventIDs := by
      rw [map_append, map_singleton, ← concat_eq_append, nodup_concat]
      exact ⟨h, s.eventIDs⟩ }

def insert (row : RawEventRow) (id : UUID) (s : WebhookDB) : Except Err (UUID × WebhookDB) :=
  if h : (timestamptz row.receivedAt, id) ∉ s.rawEvents.map fun e => (e.receivedAt, e.id) then .ok (id, s.addEvent row id h)
  else .error (.other "raw_event insert")

def markPublished (id : UUID) (now : Time) (s : WebhookDB) : Except Err (Unit × WebhookDB) :=
  .ok ((), { s with
    rawEvents := s.rawEvents.map fun e => if e.id = id then { e with publishedAt := some (timestamptz now) } else e
    eventIDs := by
      rw [map_map]
      refine (map_congr_left fun e _ => ?_).symm ▸ s.eventIDs
      rw [Function.comp_apply]
      split_ifs <;> rfl })

end WebhookDB

/-! ## The ports -/

inductive Req : Type
  | clock
  | verifyApp (channel : String) (body : Bytes) (headers : Headers)
  | verifyTenant (channel : String) (tenantID : UUID) (body : Bytes) (headers : Headers)
  | lookup (channel : String) (tokenHash : Digest) (now : Time)
  | checkAssociation (tenantID : UUID) (channel association : String)
  | checkAndStore (tenantID : UUID) (channel : String) (key : Digest) (now : Time)
  | insert (row : RawEventRow)
  | markUsed (channel : String) (tokenHash : Digest) (now : Time)
  | publish (eventID tenantID : UUID) (channel : String) (payload : Bytes) (headers : Headers)
  | markPublished (eventID : UUID) (now : Time)

abbrev Resp : Req → Type
  | .clock => Time
  | .verifyApp _ _ _ => Except Err Unit
  | .verifyTenant _ _ _ _ => Except Err Unit
  | .lookup _ _ _ => Except Err UUID
  | .checkAssociation _ _ _ => Except Err Bool
  | .checkAndStore _ _ _ _ => Except Err Bool
  | .insert _ => Except Err UUID
  | .markUsed _ _ _ => Except Err Unit
  | .publish _ _ _ _ _ => Except Err Unit
  | .markPublished _ _ => Except Err Unit

def exec : (q : Req) → WebhookDB → Resp q → WebhookDB → Prop
  | .clock, s, _, s' => s' = s
  | .verifyApp _ _ _, s, _, s' => s' = s
  | .verifyTenant _ _ _ _, s, _, s' => s' = s
  | .lookup _ _ _, s, _, s' => s' = s
  | .checkAssociation _ _ _, s, _, s' => s' = s
  | .checkAndStore t c k now, s, r, s' => Tx Err.fault s (s.checkAndStore t c k now) r s'
  | .insert row, s, r, s' => ∃ id, Tx Err.fault s (s.insert row id) r s'
  | .markUsed _ _ _, s, _, s' => s' = s
  | .publish _ _ _ _ _, s, _, s' => s' = s
  | .markPublished id now, s, r, s' => Tx Err.fault s (s.markPublished id now) r s'

abbrev Client (α : Type) : Type := Prog Req Resp α

namespace Port

abbrev clock : Client Time := .send Req.clock

abbrev verifyApp (channel : String) (body : Bytes) (headers : Headers) : Client (Except Err Unit) :=
  .send (Req.verifyApp channel body headers)

abbrev verifyTenant (channel : String) (tenantID : UUID) (body : Bytes) (headers : Headers) : Client (Except Err Unit) :=
  .send (Req.verifyTenant channel tenantID body headers)

abbrev lookup (channel : String) (tokenHash : Digest) (now : Time) : Client (Except Err UUID) := .send (Req.lookup channel tokenHash now)

abbrev checkAssociation (tenantID : UUID) (channel association : String) : Client (Except Err Bool) :=
  .send (Req.checkAssociation tenantID channel association)

abbrev checkAndStore (tenantID : UUID) (channel : String) (key : Digest) (now : Time) : Client (Except Err Bool) :=
  .send (Req.checkAndStore tenantID channel key now)

abbrev insert (row : RawEventRow) : Client (Except Err UUID) := .send (Req.insert row)

abbrev markUsed (channel : String) (tokenHash : Digest) (now : Time) : Client (Except Err Unit) := .send (Req.markUsed channel tokenHash now)

abbrev publish (eventID tenantID : UUID) (channel : String) (payload : Bytes) (headers : Headers) : Client (Except Err Unit) :=
  .send (Req.publish eventID tenantID channel payload headers)

abbrev markPublished (eventID : UUID) (now : Time) : Client (Except Err Unit) := .send (Req.markPublished eventID now)

end Port

/-! ## Service.Handle -/

def finishPreAuth (outcome : Outcome) (err : Option Err) : Result := ⟨outcome, UUID.Nil, err⟩

def finishAuth (tenantID : UUID) (outcome : Outcome) (err : Option Err) : Result := ⟨outcome, tenantID, err⟩

def classifyTokenError (e : Err) : Outcome :=
  if e.is .webhookTokenUnknown then .unknownToken
  else if e.is .webhookTokenRevoked then .revokedToken
  else .internalError

section Handle

variable (S : Service) (adapter : ChannelAdapter) (req : Request) (tenantID : UUID) (tokenHash : Digest) (now : Time)

def rawEventRow : RawEventRow where
  tenantID := tenantID
  channel := req.channel
  idempotencyKey := S.computeIdempotencyKey tenantID req.channel req.body
  payload := req.body
  headers := req.headers
  receivedAt := now

/-- The end of `proceedAuthenticated`: the event of a key that was claimed here. -/
def storeEvent : Client Result :=
  match adapter.parseEvent req.body with
  | .error e => return finishAuth tenantID .parseError (some e)
  | .ok _ => do
    match ← Port.insert (rawEventRow S req tenantID now) with
    | .error e => return finishAuth tenantID .internalError (some e)
    | .ok _ =>
      -- the usage marker is best effort
      let _ ← Port.markUsed req.channel tokenHash now
      return finishAuth tenantID .accepted none

/-- The middle of `proceedAuthenticated`: replay window and idempotency key. -/
def claimEvent : Client Result :=
  match adapter.extractTimestamp req.headers req.body with
  | .error e =>
    if e.is .webhookTimestampMissing then return finishAuth tenantID .timestampMissing (some e)
    else return finishAuth tenantID .timestampFormatError (some e)
  | .ok ts => do
    if S.timestampInWindow ts now = false then
      return finishAuth tenantID .replayWindowViolation (some .webhookTimestampOutOfRange)
    match ← Port.checkAndStore tenantID req.channel (S.computeIdempotencyKey tenantID req.channel req.body) now with
    | .error e => return finishAuth tenantID .internalError (some e)
    | .ok false => return finishAuth tenantID .replay none
    | .ok true => storeEvent S adapter req tenantID tokenHash now

def proceedAuthenticated : Client Result :=
  match adapter.bodyTenantAssociation req.body with
  | none => claimEvent S adapter req tenantID tokenHash now
  | some assoc => do
    match ← Port.checkAssociation tenantID req.channel assoc with
    | .error e => return finishAuth tenantID .internalError (some e)
    | .ok false => return finishAuth tenantID .tenantBodyMismatch none
    | .ok true => claimEvent S adapter req tenantID tokenHash now

def handle : Client Result :=
  match S.find req.channel with
  | none => return finishPreAuth .unknownChannel none
  | some adapter => do
    let tokenHash := S.sha256Sum req.token
    let now ← Port.clock
    match adapter.secretScope with
    | .app =>
      -- the signature is checked before the token table is touched
      match ← Port.verifyApp req.channel req.body req.headers with
      | .error e => return finishPreAuth .signatureInvalid (some e)
      | .ok () =>
        match ← Port.lookup req.channel tokenHash now with
        | .error e => return finishPreAuth (classifyTokenError e) (some e)
        | .ok tenantID => proceedAuthenticated S adapter req tenantID tokenHash now
    | .tenant =>
      match ← Port.lookup req.channel tokenHash now with
      | .error e => return finishPreAuth (classifyTokenError e) (some e)
      | .ok tenantID =>
        match ← Port.verifyTenant req.channel tenantID req.body req.headers with
        | .error e => return finishPreAuth .signatureInvalid (some e)
        | .ok () => proceedAuthenticated S adapter req tenantID tokenHash now
    | .unknown => return finishPreAuth .internalError (some .webhookUnsupportedScope)

end Handle

/-- The publish step of an accepted event, started in the background. -/
def publishEvent (eventID tenantID : UUID) (channel : String) (payload : Bytes) (headers : Headers) : Client Unit := do
  match ← Port.publish eventID tenantID channel payload headers with
  | .error _ => return ()
  | .ok () =>
    let now ← Port.clock
    let _ ← Port.markPublished eventID now
    return ()

/-! ## Calls in flight -/

inductive Call : Type
  | handle (req : Request)
  | publishEvent (eventID tenantID : UUID) (channel : String) (payload : Bytes) (headers : Headers)

abbrev Res : Call → Type
  | .handle _ => Result
  | .publishEvent _ _ _ _ _ => Unit

def body (S : Service) : (c : Call) → Client (Res c)
  | .handle req => handle S req
  | .publishEvent id t c payload headers => publishEvent id t c payload headers

abbrev W : Type := World Req Resp WebhookDB Call Res

abbrev Ev : Type := Interleave.Event Req Resp WebhookDB Call Res

abbrev Cfg : Type := Conf Req Resp WebhookDB Call Res

def system (S : Service) (allow : W → Ev → Prop) : System Req Resp WebhookDB Call Res where
  exec := exec
  body := body S
  allow := allow

end Crm.Webhook
