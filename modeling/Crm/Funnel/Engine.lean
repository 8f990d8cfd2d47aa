import Mathlib.Data.List.Nodup
import Crm.Funnel.Domain
import Crm.Lib.Interleave

/-!
# Crm.Funnel.Engine — moving conversations

The tables of migrations 0093 and 0103 with the statements of `internal/adapter/db/postgres/funnel` and `funnelapplications`, and as
clients of them `Service.MoveConversation` (`internal/funnel/service.go`) and `Engine.Handle` (`internal/funnel/engine/engine.go`).  Each
port call is one atomic step that may fail.  A move is three of them, a read of the latest transition, an insert and the announcement;
an applied rule is recorded by a fourth.
-/

namespace Crm.Funnel

open Interleave Text List

/-! ## Tables -/

/-- `funnel_stage`, `funnel_transition` and `funnel_rule_applications` with their keys, and the events published so far. -/
structure FunnelDB where
  stages : List Stage
  transitions : List Transition
  applications : List Application
  published : List ConversationMovedEvent
  stageKeys : (stages.map fun s => (s.tenantID, s.key)).Nodup
  transitionIDs : (transitions.map Transition.id).Nodup
  applied : (applications.map fun a => (a.ruleID, a.messageID)).Nodup

namespace FunnelDB

/-- What row-level security shows a tenant of a conversation's ledger, in insertion order. -/
def history (s : FunnelDB) (tenantID conversationID : UUID) : List Transition :=
  s.transitions.filter fun t => t.tenantID = tenantID ∧ t.conversationID = conversationID

def findByKey (tenantID : UUID) (key : String) (s : FunnelDB) : Except Err Stage :=
  if tenantID = UUID.Nil then .error (.other "funnel/postgres: FindByKey: tenant id is nil")
  else if key = "" then .error .funnelNotFound
  else match s.stages.find? fun g => g.tenantID = tenantID ∧ g.key = key with
    | some g => .ok g
    | none => .error .funnelNotFound

/-- `LatestForConversation`: of rows stamped with the same instant any may be returned. -/
def LatestForConversation (s : FunnelDB) (tenantID conversationID : UUID) : Except Err Transition → Prop
  | .ok t => tenantID ≠ UUID.Nil ∧ conversationID ≠ UUID.Nil ∧ t ∈ s.history tenantID conversationID ∧
      ∀ t' ∈ s.history tenantID conversationID, t'.transitionedAt ≤ t.transitionedAt
  | .error e =>
    if tenantID = UUID.Nil then e = .other "funnel/postgres: LatestForConversation: tenant id is nil"
    else if conversationID = UUID.Nil then e = .funnelNotFound
    else e = .funnelNotFound ∧ s.history tenantID conversationID = []

def rowOf (t : Transition) : Transition := { t with transitionedAt := timestamptz t.transitionedAt }

def addTransition (s : FunnelDB) (t : Transition) (h : ∀ x ∈ s.transitions, x.id ≠ t.id) : FunnelDB :=
  { s with
    transitions := s.transitions ++ [rowOf t]
    transitionIDs := by
      rw [map_append, map_singleton, ← concat_eq_append, nodup_concat]
      refine ⟨fun hm => ?_, s.transitionIDs⟩
      obtain ⟨x, hx, he⟩ := mem_map.mp hm
      exact h x hx he }

def create (t : Transition) (s : FunnelDB) : Except Err (Unit × FunnelDB) :=
  if t.tenantID = UUID.Nil then .error (.other "funnel/postgres: Create: tenant id is nil")
  else if t.id = UUID.Nil then .error (.other "funnel/postgres: Create: transition id is nil")
  else if t.conversationID = UUID.Nil then .error (.other "funnel/postgres: Create: conversation id is nil")
  else if t.toStageID = UUID.Nil then .error (.other "funnel/postgres: Create: to_stage_id is nil")
  else if t.transitionedByUserID = UUID.Nil then .error (.other "funnel/postgres: Create: transitioned_by_user_id is nil")
  else if t.transitionedAt = zeroTime then .error (.other "funnel/postgres: Create: transitioned_at is zero")
  else if h : ∀ x ∈ s.transitions, x.id ≠ t.id then .ok ((), s.addTransition t h)
  else .error (.other "funnel/postgres: Create")

def isApplied (tenantID ruleID messageID : UUID) (s : FunnelDB) : Except Err Bool :=
  if tenantID = UUID.Nil then .error (.other "funnelapplications/postgres: nil tenantID")
  else if ruleID = UUID.Nil then .error (.other "funnelapplications/postgres: nil ruleID")
  else if messageID = UUID.Nil then .error (.other "funnelapplications/postgres: nil messageID")
  else .ok (s.applications.any fun a => a.tenantID = tenantID ∧ a.ruleID = ruleID ∧ a.messageID = messageID)

def addApplication (s : FunnelDB) (a : Application) (h : ∀ x ∈ s.applications, ¬ (x.ruleID = a.ruleID ∧ x.messageID = a.messageID)) :
    FunnelDB :=
  { s with
    applications := s.applications ++ [{ a with appliedAt := timestamptz a.appliedAt }]
    applied := by
      rw [map_append, map_singleton, ← concat_eq_append, nodup_concat]
      refine ⟨fun hm => ?_, s.applied⟩
      obtain ⟨x, hx, he⟩ := mem_map.mp hm
      exact h x hx (Prod.mk.inj he) }

/-- `Record`: the unique pair is `(rule_id, message_id)`, whatever the tenant. -/
def record (a : Application) (s : FunnelDB) : Except Err (Unit × FunnelDB) :=
  if a.tenantID = UUID.Nil then .error (.other "funnelapplications/postgres: nil tenantID")
  else if a.ruleID = UUID.Nil then .error (.other "funnelapplications/postgres: nil ruleID")
  else if a.messageID = UUID.Nil then .error (.other "funnelapplications/postgres: nil messageID")
  else if a.conversationID = UUID.Nil then .error (.other "funnelapplications/postgres: nil conversationID")
  else if a.actionType = "" then .error (.other "funnelapplications/postgres: blank actionType")
  else if h : ∀ x ∈ s.applications, ¬ (x.ruleID = a.ruleID ∧ x.messageID = a.messageID) then .ok ((), s.addApplication a h)
  else .error .engineAlreadyApplied

end FunnelDB

/-! ## The ports -/

inductive Req : Type
  | resolve (tenantID : UUID) (channel : String)
  | isApplied (tenantID ruleID messageID : UUID)
  | findByKey (tenantID : UUID) (key : String)
  | latestForConversation (tenantID conversationID : UUID)
  | newUUID
  | clock
  | create (t : Transition)
  | publish (evt : ConversationMovedEvent)
  | record (a : Application)

abbrev Resp : Req → Type
  | .resolve _ _ => Except Err (List Rule)
  | .isApplied _ _ _ => Except Err Bool
  | .findByKey _ _ => Except Err Stage
  | .latestForConversation _ _ => Except Err Transition
  | .newUUID => UUID
  | .clock => Time
  | .create _ => Except Err Unit
  | .publish _ => Except Err Unit
  | .record _ => Except Err Unit

def exec : (q : Req) → FunnelDB → Resp q → FunnelDB → Prop
  -- the resolver reads other tables
  | .resolve _ _, s, _, s' => s' = s
  | .isApplied t r m, s, a, s' => Read Err.fault s (s.isApplied t r m) a s'
  | .findByKey t key, s, r, s' => Read Err.fault s (s.findByKey t key) r s'
  | .latestForConversation t c, s, r, s' => s' = s ∧ (s.LatestForConversation t c r ∨ ∃ e, Err.fault e ∧ r = .error e)
  | .newUUID, s, _, s' => s' = s
  | .clock, s, _, s' => s' = s
  | .create t, s, r, s' => Tx Err.fault s (s.create t) r s'
  | .publish evt, s, r, s' => Tx Err.fault s (.ok ((), { s with published := s.published ++ [evt] })) r s'
  | .record a, s, r, s' => Tx Err.fault s (s.record a) r s'

abbrev Client (α : Type) : Type := Prog Req Resp α

namespace Port

abbrev resolve (tenantID : UUID) (channel : String) : Client (Except Err (List Rule)) := .send (Req.resolve tenantID channel)

abbrev isApplied (tenantID ruleID messageID : UUID) : Client (Except Err Bool) := .send (Req.isApplied tenantID ruleID messageID)

abbrev findByKey (tenantID : UUID) (key : String) : Client (Except Err Stage) := .send (Req.findByKey tenantID key)

abbrev latestForConversation (tenantID conversationID : UUID) : Client (Except Err Transition) :=
  .send (Req.latestForConversation tenantID conversationID)

abbrev newUUID : Client UUID := .send Req.newUUID

abbrev clock : Client Time := .send Req.clock

abbrev create (t : Transition) : Client (Except Err Unit) := .send (Req.create t)

abbrev publish (evt : ConversationMovedEvent) : Client (Except Err Unit) := .send (Req.publish evt)

abbrev record (a : Application) : Client (Except Err Unit) := .send (Req.record a)

end Port

/-! ## Service.MoveConversation -/

def eventOf (t : Transition) (toStage : Stage) : ConversationMovedEvent where
  tenantID := t.tenantID
  conversationID := t.conversationID
  transitionID := t.id
  fromStageID := t.fromStageID
  toStageID := t.toStageID
  toStageKey := toStage.key
  transitionedByUserID := t.transitionedByUserID
  transitionedAt := t.transitionedAt
  reason := t.reason

/-- The end of a move: the row is committed before it is announced. -/
def persistMove (tenantID conversationID : UUID) (fromStageID : Option UUID) (toStage : Stage) (byUserID : UUID) (reason : String) :
    Client (Except Err Unit) := do
  let id ← Port.newUUID
  let now ← Port.clock
  let t : Transition :=
    { id, tenantID, conversationID, fromStageID, toStageID := toStage.id, transitionedByUserID := byUserID, transitionedAt := now, reason }
  match ← Port.create t with
  | .error e => return .error (.wrap "funnel: persist transition" e)
  | .ok () =>
    match ← Port.publish (eventOf t toStage) with
    | .error e => return .error (.wrap "funnel: publish funnel.conversation_moved" e)
    | .ok () => return .ok ()

def moveConversation (tenantID conversationID : UUID) (toStageKey : String) (byUserID : UUID) (reason : String) :
    Client (Except Err Unit) := do
  if tenantID = UUID.Nil then return .error .funnelInvalidTenant
  if conversationID = UUID.Nil then return .error .funnelInvalidConversation
  if byUserID = UUID.Nil then return .error .funnelInvalidActor
  let key := trimSpace toStageKey
  if key = "" then return .error .funnelInvalidStageKey
  match ← Port.findByKey tenantID key with
  | .error e =>
    if e.is .funnelNotFound then return .error (.detail .funnelStageNotFound (.other ("\"" ++ key ++ "\"")))
    else return .error (.wrap "funnel: resolve stage" e)
  | .ok toStage =>
    match ← Port.latestForConversation tenantID conversationID with
    | .ok latest =>
      -- the conversation is there already
      if latest.toStageID = toStage.id then return .ok ()
      else persistMove tenantID conversationID (some latest.toStageID) toStage byUserID reason
    | .error e =>
      if e.is .funnelNotFound then persistMove tenantID conversationID none toStage byUserID reason
      else return .error (.wrap "funnel: resolve current stage" e)

/-! ## Engine.Handle -/

def validate (msg : InboundMessage) : Except Err Unit :=
  if msg.tenantID = UUID.Nil ∨ msg.conversationID = UUID.Nil ∨ msg.messageID = UUID.Nil ∨ msg.channel = "" then
    .error .engineInvalidEvent
  else .ok ()

/-- The move and the record of a rule that has not been applied. -/
def applyRule (msg : InboundMessage) (rule : Rule) (stage : String) : Client (Except Err Unit) := do
  match ← moveConversation msg.tenantID msg.conversationID stage systemActor moveReason with
  | .error e => return .error (.wrap "engine: move conversation" e)
  | .ok () =>
    let appliedAt ← Port.clock
    match ← Port.record ⟨msg.tenantID, rule.id, msg.messageID, msg.conversationID, rule.actionType.text, appliedAt⟩ with
    | .error e =>
      -- a concurrent delivery has recorded the rule
      if e.is .engineAlreadyApplied then return .ok () else return .error (.wrap "engine: record application" e)
    | .ok () => return .ok ()

def tryRule (R : Runtime) (msg : InboundMessage) (rule : Rule) : Client (Except Err Unit) := do
  if matchTrigger R rule msg = false then return .ok ()
  match ← Port.isApplied msg.tenantID rule.id msg.messageID with
  | .error e => return .error (.wrap "engine: is-applied check" e)
  | .ok true => return .ok ()
  | .ok false =>
    match stageKey rule with
    | none => return .ok ()
    | some stage => applyRule msg rule stage

/-- The loop over the resolved rules ends at the first error. -/
def tryRules (R : Runtime) (msg : InboundMessage) : List Rule → Client (Except Err Unit)
  | [] => return .ok ()
  | rule :: rules => do
    match ← tryRule R msg rule with
    | .error e => return .error e
    | .ok () => tryRules R msg rules

def handle (R : Runtime) (msg : InboundMessage) : Client (Except Err Unit) := do
  match validate msg with
  | .error e => return .error e
  | .ok () =>
    match ← Port.resolve msg.tenantID msg.channel with
    | .error e => return .error (.wrap "engine: resolve rules" e)
    | .ok resolved => tryRules R msg resolved

/-! ## Calls in flight -/

inductive Call : Type
  | handle (msg : InboundMessage)
  | moveConversation (tenantID conversationID : UUID) (toStageKey : String) (byUserID : UUID) (reason : String)

abbrev Res : Call → Type := fun _ => Except Err Unit

def body (R : Runtime) : (c : Call) → Client (Res c)
  | .handle msg => handle R msg
  | .moveConversation t c key actor reason => moveConversation t c key actor reason

abbrev W : Type := World Req Resp FunnelDB Call Res

abbrev Ev : Type := Event Req Resp FunnelDB Call Res

abbrev Cfg : Type := Conf Req Resp FunnelDB Call Res

def system (R : Runtime) (allow : W → Ev → Prop) : System Req Resp FunnelDB Call Res where
  exec := exec
  body := body R
  allow := allow

end Crm.Funnel
