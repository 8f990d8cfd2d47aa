import Crm.Basic
import Crm.Lib.Text
import Crm.Lib.Uuid

/-!
# Crm.Funnel.Domain — stages, transitions and automation rules

The values of `internal/funnel`, `internal/funnel/rules` and `internal/funnel/engine`.  A transition is one row of the append-only ledger
of a conversation's stage moves; a rule moves a conversation when an inbound message meets its trigger.  `matchTrigger` and `stageKey` are
the pure part of the rule engine.  The case tables and the regular expressions of the runtime are parameters.
-/

namespace Crm.Funnel

open Text

structure Stage where
  id : UUID
  tenantID : UUID
  key : String
  deriving DecidableEq, Repr

structure Transition where
  id : UUID
  tenantID : UUID
  conversationID : UUID
  fromStageID : Option UUID
  toStageID : UUID
  transitionedByUserID : UUID
  transitionedAt : Time
  reason : String
  deriving DecidableEq, Repr

structure ConversationMovedEvent where
  tenantID : UUID
  conversationID : UUID
  transitionID : UUID
  fromStageID : Option UUID
  toStageID : UUID
  toStageKey : String
  transitionedByUserID : UUID
  transitionedAt : Time
  reason : String
  deriving DecidableEq, Repr

/-! ## Rules -/

/-- A value of an untyped JSON map: a text, or anything else. -/
inductive Any : Type
  | str (v : String)
  | other
  deriving DecidableEq, Repr

abbrev Config : Type := List (String × Any)

def stringField (m : Config) (key : String) : Option String :=
  match m.lookup key with
  | some (.str v) => some v
  | _ => none

inductive TriggerType : Type
  | messageContains
  | campaignClick
  | messageKeywordRegex
  | unknown (text : String)
  deriving DecidableEq, Repr

inductive ActionType : Type
  | moveToStage
  | unknown (text : String)
  deriving DecidableEq, Repr

def ActionType.text : ActionType → String
  | .moveToStage => "move_to_stage"
  | .unknown text => text

structure Rule where
  id : UUID
  tenantID : UUID
  channel : String
  teamID : Option UUID
  name : String
  triggerType : TriggerType
  triggerConfig : Config
  actionType : ActionType
  actionConfig : Config
  enabled : Bool
  createdAt : Time
  updatedAt : Time
  deriving DecidableEq, Repr

/-! ## Messages -/

structure InboundMessage where
  tenantID : UUID
  conversationID : UUID
  messageID : UUID
  channel : String
  body : String
  occurredAt : Time
  deriving DecidableEq, Repr

structure Application where
  tenantID : UUID
  ruleID : UUID
  messageID : UUID
  conversationID : UUID
  actionType : String
  appliedAt : Time
  deriving DecidableEq, Repr

def systemActor : UUID := 0xace

def moveReason : String := "funnel-rule-engine"

/-! ## Triggers and actions -/

/-- What the evaluator takes from the runtime: the case tables, and `regexp` (`none` when the expression does not compile). -/
structure Runtime where
  tables : CaseTables
  matchString : (expr body : String) → Option Bool

def matchTrigger (R : Runtime) (rule : Rule) (msg : InboundMessage) : Bool :=
  match rule.triggerType with
  | .messageContains =>
    match stringField rule.triggerConfig "phrase" with
    | none => false
    | some phrase =>
      let needle := R.tables.lower (trimSpace phrase)
      if needle = "" then false else Text.contains (R.tables.lower msg.body) needle
  | .messageKeywordRegex =>
    match stringField rule.triggerConfig "regex" with
    | none => false
    | some expr =>
      let expr := trimSpace expr
      if expr = "" then false
      else match R.matchString expr msg.body with
        | none => false
        | some b => b
  | .campaignClick => false
  | .unknown _ => false

def keyField (m : Config) (key : String) : Option String :=
  ((stringField m key).map trimSpace).filter fun v => v ≠ ""

/-- The stage an action moves to; `stage` is the legacy name of `stage_key`. -/
def stageKey (rule : Rule) : Option String :=
  if rule.actionType ≠ .moveToStage then none
  else (keyField rule.actionConfig "stage_key").or (keyField rule.actionConfig "stage")

end Crm.Funnel
