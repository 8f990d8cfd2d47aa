import Mathlib.Data.List.Sort
import Crm.Funnel.Domain

/-!
# Crm.Funnel.Rules — authoring, storing and listing automation rules

`newRule` is the check the editor puts every rule through.  A rule is kept in one of two repositories: the table `funnel_rules`, whose
two nullable columns carry the scope, and the in-memory repository of the tests, which is documented to mirror it.  Both answer
`ListEffectiveForChannel`: the enabled rules of a tenant whose scope covers a channel and a team, in cascade order.
-/

namespace Crm.Funnel

open Text List

/-! ## Scope -/

inductive Scope : Type
  | channel
  | team
  | tenant
  deriving DecidableEq, Repr

def scopeRank : Scope → ℕ
  | .channel => 0
  | .team => 1
  | .tenant => 2

def Rule.scope (r : Rule) : Scope :=
  if trimSpace r.channel ≠ "" then .channel
  else if r.teamID.any fun t => t ≠ UUID.Nil then .team
  else .tenant

/-! ## Authoring -/

def TriggerType.known : TriggerType → Bool
  | .unknown _ => false
  | _ => true

def ActionType.known (a : ActionType) : Bool := a = .moveToStage

def validateTriggerConfig (t : TriggerType) (cfg : Config) : Except Err Unit :=
  match t with
  | .messageContains => if (keyField cfg "phrase").isNone then .error .rulesInvalidRule else .ok ()
  | .campaignClick =>
    if (keyField cfg "campaign_id").isSome then .ok ()
    else if (keyField cfg "slug").isSome then .ok ()
    else .error .rulesInvalidRule
  | .messageKeywordRegex => if (keyField cfg "regex").isNone then .error .rulesInvalidRule else .ok ()
  | .unknown _ => .ok ()

def validateActionConfig (a : ActionType) (cfg : Config) : Except Err Unit :=
  if a = .moveToStage then if (keyField cfg "stage_key").isNone then .error .rulesInvalidRule else .ok ()
  else .ok ()

structure RuleForm where
  id : UUID
  tenantID : UUID
  channel : String
  teamID : Option UUID
  name : String
  triggerType : TriggerType
  triggerConfig : Config
  actionType : ActionType
  actionConfig : Config
  enabled : Bool
  now : Time

/-- The rule a form describes; `fresh` and `clock` stand in for an id and a time that the caller leaves out. -/
def RuleForm.rule (fresh : UUID) (clock : Time) (f : RuleForm) : Rule where
  id := if f.id = UUID.Nil then fresh else f.id
  tenantID := f.tenantID
  channel := trimSpace f.channel
  -- a channel takes precedence over a team
  teamID := if trimSpace f.channel = "" then f.teamID.filter fun t => t ≠ UUID.Nil else none
  name := trimSpace f.name
  triggerType := f.triggerType
  triggerConfig := f.triggerConfig
  actionType := f.actionType
  actionConfig := f.actionConfig
  enabled := f.enabled
  createdAt := if f.now = zeroTime then clock else f.now
  updatedAt := if f.now = zeroTime then clock else f.now

def newRule (fresh : UUID) (clock : Time) (f : RuleForm) : Except Err Rule :=
  if f.tenantID = UUID.Nil then .error .rulesInvalidTenant
  else if trimSpace f.name = "" then .error .rulesInvalidRule
  else if ¬ f.triggerType.known then .error .rulesUnknownTriggerType
  else if ¬ f.actionType.known then .error .rulesUnknownActionType
  else match validateTriggerConfig f.triggerType f.triggerConfig, validateActionConfig f.actionType f.actionConfig with
    | .error e, _ => .error e
    | .ok _, .error e => .error e
    | .ok _, .ok _ => .ok (f.rule fresh clock)

/-- The shape of the scope fields that `NewRule` gives a rule. -/
structure Canonical (r : Rule) : Prop where
  trimmed : trimSpace r.channel = r.channel
  exclusive : r.channel ≠ "" → r.teamID = none
  team : r.teamID ≠ some UUID.Nil

theorem RuleForm.canonical (fresh : UUID) (clock : Time) (f : RuleForm) : Canonical (f.rule fresh clock) := by
  constructor
  · exact trimSpace_trimSpace f.channel
  · exact fun hc => if_neg hc
  dsimp only [RuleForm.rule]
  split_ifs
  · intro hfilter
    simpa using (Option.filter_eq_some_iff.mp hfilter).2
  · simp

variable {r : Rule}

theorem newRule_ok {fresh : UUID} {clock : Time} {f : RuleForm} (h : newRule fresh clock f = .ok r) :
    r = f.rule fresh clock ∧ f.tenantID ≠ UUID.Nil := by
  unfold newRule at h
  split_ifs at h with hT
  split at h
  · cases h
  · cases h
  cases h
  exact ⟨rfl, hT⟩

theorem Canonical.scope_channel (h : Canonical r) (hc : r.channel ≠ "") : r.scope = .channel := by
  rw [Rule.scope, h.trimmed, if_pos hc]

theorem Canonical.scope_team (h : Canonical r) (hc : r.channel = "") {t : UUID} (ht : r.teamID = some t) : r.scope = .team ∧ t ≠ UUID.Nil := by
  have hne : t ≠ UUID.Nil := fun heq => h.team (heq ▸ ht)
  rw [Rule.scope, h.trimmed, if_neg (not_not.mpr hc), if_pos (by simp [ht, hne])]
  exact ⟨rfl, hne⟩

theorem Canonical.scope_tenant (h : Canonical r) (hc : r.channel = "") (ht : r.teamID = none) : r.scope = .tenant := by
  rw [Rule.scope, h.trimmed, if_neg (not_not.mpr hc), if_neg (by simp [ht])]

/-! ## The in-memory repository -/

structure InMemoryRepository where
  rules : List Rule

namespace InMemoryRepository

variable (T : CaseTables) (m : InMemoryRepository)

def create (rule : Rule) : Except Err InMemoryRepository :=
  if rule.tenantID = UUID.Nil then .error .rulesInvalidTenant else .ok ⟨m.rules ++ [rule]⟩

def matchesScope (rule : Rule) (channel : String) (teamID : UUID) : Bool :=
  match rule.scope with
  | .channel => T.equalFold rule.channel channel && channel ≠ ""
  | .team => teamID ≠ UUID.Nil && rule.teamID = some teamID
  | .tenant => true

/-- The order of the cascade: scope rank, then creation time, then the text of the id. -/
def less (a b : Rule) : Bool :=
  if scopeRank a.scope ≠ scopeRank b.scope then scopeRank a.scope < scopeRank b.scope
  else if a.createdAt ≠ b.createdAt then a.createdAt < b.createdAt
  else a.id.string < b.id.string

def listEffectiveForChannel (tenantID : UUID) (channel : String) (teamID : UUID) : Except Err (List Rule) :=
  if tenantID = UUID.Nil then .error .rulesInvalidTenant
  else .ok ((m.rules.filter fun r => r.tenantID = tenantID && r.enabled && matchesScope T r channel teamID).insertionSort
    fun a b => ¬ less b a)

end InMemoryRepository

/-! ## The table -/

structure RuleRow where
  id : UUID
  tenantID : UUID
  channel : Option String
  teamID : Option UUID
  name : String
  triggerType : TriggerType
  triggerConfig : Config
  actionType : ActionType
  actionConfig : Config
  enabled : Bool
  createdAt : Time
  updatedAt : Time
  deriving DecidableEq, Repr

def scopeArgs (r : Rule) : Option String × Option UUID :=
  (if r.channel ≠ "" then some r.channel else none, if r.channel = "" then r.teamID.filter fun t => t ≠ UUID.Nil else none)

def insertRule (r : Rule) : RuleRow where
  id := r.id
  tenantID := r.tenantID
  channel := (scopeArgs r).1
  teamID := (scopeArgs r).2
  name := r.name
  triggerType := r.triggerType
  triggerConfig := r.triggerConfig
  actionType := r.actionType
  actionConfig := r.actionConfig
  enabled := r.enabled
  createdAt := timestamptz r.createdAt
  updatedAt := timestamptz r.updatedAt

def scanRule (row : RuleRow) : Rule where
  id := row.id
  tenantID := row.tenantID
  channel := row.channel.getD ""
  teamID := row.teamID.filter fun t => t ≠ UUID.Nil
  name := row.name
  triggerType := row.triggerType
  triggerConfig := row.triggerConfig
  actionType := row.actionType
  actionConfig := row.actionConfig
  enabled := row.enabled
  createdAt := row.createdAt
  updatedAt := row.updatedAt

structure RuleTable where
  rows : List RuleRow
  ids : (rows.map RuleRow.id).Nodup

namespace RuleTable

variable (db : RuleTable)

def insert (row : RuleRow) (h : row.id ∉ db.rows.map RuleRow.id) : RuleTable where
  rows := db.rows ++ [row]
  ids := by
    rw [map_append, nodup_append]
    refine ⟨db.ids, by simp, ?_⟩
    rintro a ha b hb rfl
    obtain rfl : a = row.id := by simpa using hb
    exact h ha

def create (rule : Rule) : Except Err RuleTable :=
  if rule.tenantID = UUID.Nil then .error .rulesInvalidTenant
  else if h : (insertRule rule).id ∈ db.rows.map RuleRow.id then
    .error (.wrap "funnelrules/postgres: Create" (.other "duplicate key value violates unique constraint"))
  else .ok (db.insert (insertRule rule) h)

/-- SQL equality: `NULL` equals nothing. -/
def sqlEq {α : Type} [DecidableEq α] : Option α → Option α → Bool
  | some a, some b => a = b
  | _, _ => false

def effective (channelArg : Option String) (teamArg : Option UUID) (row : RuleRow) : Bool :=
  row.enabled && (sqlEq row.channel channelArg || (row.channel.isNone && sqlEq row.teamID teamArg) ||
    (row.channel.isNone && row.teamID.isNone))

def rank (row : RuleRow) : ℕ := if row.channel.isSome then 0 else if row.teamID.isSome then 1 else 2

/-- `ORDER BY` rank, `created_at`, `id`. -/
def orderLE (a b : RuleRow) : Bool :=
  if rank a ≠ rank b then rank a < rank b
  else if a.createdAt ≠ b.createdAt then a.createdAt < b.createdAt
  else a.id.toNat ≤ b.id.toNat

/-- Row-level security shows the rows of the tenant only. -/
def listEffectiveForChannel (tenantID : UUID) (channel : String) (teamID : UUID) : Except Err (List Rule) :=
  let channelArg := if channel ≠ "" then some channel else none
  let teamArg := if teamID ≠ UUID.Nil then some teamID else none
  if tenantID = UUID.Nil then .error .rulesInvalidTenant
  else .ok (((db.rows.filter fun row => row.tenantID = tenantID && effective channelArg teamArg row).insertionSort
    fun a b => orderLE a b).map scanRule)

end RuleTable

/-! ## One rule set in both -/

/-- The rule as the table gives it back. -/
def Rule.stored (r : Rule) : Rule := { r with createdAt := timestamptz r.createdAt, updatedAt := timestamptz r.updatedAt }

def Mirrors (m : InMemoryRepository) (db : RuleTable) : Prop := db.rows = m.rules.map insertRule

theorem Mirrors.empty : Mirrors ⟨[]⟩ ⟨[], .nil⟩ := rfl

theorem Mirrors.create {m m' : InMemoryRepository} {db db' : RuleTable} (h : Mirrors m db) (hm : m.create r = .ok m') (hdb : db.create r = .ok db') :
    Mirrors m' db' := by
  unfold InMemoryRepository.create at hm
  unfold RuleTable.create at hdb
  split_ifs at hm hdb
  cases hm
  cases hdb
  simp only [Mirrors, RuleTable.insert, map_append, map_cons, map_nil]
  rw [h]

theorem scanRule_insertRule (h : Canonical r) : scanRule (insertRule r) = r.stored := by
  have hchannel : (scopeArgs r).1.getD "" = r.channel := by
    by_cases hc : r.channel = ""
    · simp [scopeArgs, hc]
    · simp [scopeArgs, hc]
  have hteam : (scopeArgs r).2.filter (fun t => t ≠ UUID.Nil) = r.teamID := by
    by_cases hc : r.channel = ""
    · cases ht : r.teamID with
      | none => simp [scopeArgs, hc, ht]
      | some t =>
        have hne : t ≠ UUID.Nil := fun heq => h.team (heq ▸ ht)
        simp [scopeArgs, hc, ht, Option.filter, hne]
    · simp [scopeArgs, hc, h.exclusive hc]
  simp only [scanRule, insertRule, hchannel, hteam, Rule.stored]

end Crm.Funnel
