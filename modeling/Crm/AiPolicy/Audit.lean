import Mathlib.Data.List.Dedup
import Mathlib.Data.List.Sort
import Mathlib.Logic.Function.Basic
import Crm.Basic
import Crm.Lib.Text
import Crm.Lib.Uuid

/-!
# Crm.AiPolicy.Audit — the audit trail of the AI policies

`RecordingRepository` of `internal/aipolicy/audit.go` over the table `ai_policy`.  Every call compares the row it finds with the row it leaves and
records the differences; `replay` reads a trail back.  The trail determines the configuration of every scope as long as no policy requires consent
(`trail_complete`): `consent_required` is in neither of the two lists of columns, so its change leaves no trace (`consent_unrecorded`).
-/

namespace Crm.AiPolicy

open List Function

inductive ScopeType : Type
  | tenant
  | team
  | channel
  | other (name : String)
  deriving DecidableEq

def ScopeType.isValid : ScopeType → Bool
  | .other _ => false
  | _ => true

structure Scope where
  tenantID : UUID
  scopeType : ScopeType
  scopeID : String
  deriving DecidableEq

structure Settings where
  model : String
  promptVersion : String
  tone : String
  language : String
  aiEnabled : Bool
  anonymize : Bool
  optIn : Bool
  structuredFields : List String
  consentRequired : Bool

structure Policy extends Scope, Settings where
  createdAt : Time
  updatedAt : Time

structure Actor where
  userID : UUID
  master : Bool

def Actor.isValid (a : Actor) : Bool := a.userID ≠ UUID.Nil

structure Snapshot where
  model : String
  promptVersion : String
  tone : String
  language : String
  aiEnabled : Bool
  anonymize : Bool
  optIn : Bool
  structuredFields : List String
  deriving DecidableEq

inductive Value : Type
  | null
  | text (s : String)
  | flag (b : Bool)
  | snapshot (s : Snapshot)
  deriving DecidableEq

inductive Column : Type
  | model
  | promptVersion
  | tone
  | language
  | aiEnabled
  | anonymize
  | optIn
  deriving DecidableEq

inductive Field : Type
  | created
  | deleted
  | column (c : Column)
  | fieldOptIn (name : String)
  deriving DecidableEq

def Column.name : Column → String
  | .model => "model"
  | .promptVersion => "prompt_version"
  | .tone => "tone"
  | .language => "language"
  | .aiEnabled => "ai_enabled"
  | .anonymize => "anonymize"
  | .optIn => "opt_in"

def Field.name : Field → String
  | .created => "__created__"
  | .deleted => "__deleted__"
  | .column c => c.name
  | .fieldOptIn name => "field_opt_in." ++ name

/-- A field and its values, before the decorator stamps them. -/
structure Change where
  field : Field
  oldValue : Value
  newValue : Value
  deriving DecidableEq

structure AuditEvent extends Change where
  scope : Scope
  actor : Actor
  occurredAt : Time

/-! ## Differences -/

def Column.get (s : Settings) : Column → Value
  | .model => .text s.model
  | .promptVersion => .text s.promptVersion
  | .tone => .text s.tone
  | .language => .text s.language
  | .aiEnabled => .flag s.aiEnabled
  | .anonymize => .flag s.anonymize
  | .optIn => .flag s.optIn

def policySnapshot (p : Settings) : Snapshot :=
  ⟨p.model, p.promptVersion, p.tone, p.language, p.aiEnabled, p.anonymize, p.optIn, p.structuredFields⟩

def diffColumn (prev next : Settings) (c : Column) : Option Change :=
  if c.get prev ≠ c.get next then some ⟨.column c, c.get prev, c.get next⟩ else none

/-- The names that one of the two sets has and the other has not, sorted. -/
def changedNames (prev next : List String) : List String :=
  ((prev.filter (· ∉ next) ++ next.filter (· ∉ prev)).dedup).insertionSort (· ≤ ·)

def diffStructuredFields (prev next : List String) : List Change :=
  (changedNames prev next).map fun name => ⟨.fieldOptIn name, .flag (name ∈ prev), .flag (name ∈ next)⟩

def columns : List Column := [.model, .promptVersion, .tone, .language, .aiEnabled, .anonymize, .optIn]

def diffPolicies (prev : Option Settings) (next : Settings) : List Change :=
  match prev with
  | none => [⟨.created, .null, .snapshot (policySnapshot next)⟩]
  | some prev => columns.filterMap (diffColumn prev next) ++ diffStructuredFields prev.structuredFields next.structuredFields

/-! ## The decorator -/

structure State where
  policies : Scope → Option Policy
  trail : List AuditEvent

def State.empty : State := ⟨fun _ => none, []⟩

def errInvalidTenant : Err := .other "aipolicy: invalid tenant id"
def errInvalidScopeType : Err := .other "aipolicy: invalid scope type"
def errInvalidScopeID : Err := .other "aipolicy: invalid scope id"
def errMissingActor : Err := .other "aipolicy: missing audit actor"

def auditActor (actor : Option Actor) : Except Err Actor :=
  match actor with
  | none => .error errMissingActor
  | some a => if a.isValid then .ok a else .error errMissingActor

/-- `RecordingRepository.Upsert`, whose writes succeed; `now` is the clock of the decorator and of the table. -/
def upsert (actor : Option Actor) (p : Policy) (now : Time) (s : State) : Except Err State := do
  if ¬ p.scopeType.isValid then throw errInvalidScopeType
  if p.tenantID = UUID.Nil then throw errInvalidTenant
  let a ← auditActor actor
  if Text.trimSpace p.scopeID = "" then throw (.wrap "aipolicy/postgres: Get" errInvalidScopeID)
  let prev := s.policies p.toScope
  let row := { p with createdAt := (prev.map Policy.createdAt).getD now, updatedAt := now }
  return { policies := Function.update s.policies p.toScope (some row)
           trail := s.trail ++ (diffPolicies (prev.map Policy.toSettings) p.toSettings).map fun c => ⟨c, p.toScope, a, now⟩ }

def delete (actor : Option Actor) (sc : Scope) (now : Time) (s : State) : Except Err State := do
  if sc.tenantID = UUID.Nil then throw errInvalidTenant
  if ¬ sc.scopeType.isValid then throw errInvalidScopeType
  let a ← auditActor actor
  if Text.trimSpace sc.scopeID = "" then throw (.wrap "aipolicy/postgres: Get" errInvalidScopeID)
  match s.policies sc with
  | none => return s
  | some prev =>
    return { policies := Function.update s.policies sc none
             trail := s.trail ++ [⟨⟨.deleted, .snapshot (policySnapshot prev.toSettings), .null⟩, sc, a, now⟩] }

inductive Call : Type
  | upsert (actor : Option Actor) (p : Policy) (now : Time)
  | delete (actor : Option Actor) (sc : Scope) (now : Time)

def Call.run : Call → State → Except Err State
  | .upsert actor p now, s => AiPolicy.upsert actor p now s
  | .delete actor sc now, s => AiPolicy.delete actor sc now s

def Call.NoConsent : Call → Prop
  | .upsert _ p _ => p.consentRequired = false
  | .delete _ _ _ => True

/-! ## Replay -/

def Column.set (s : Settings) : Column → Value → Settings
  | .model, .text v => { s with model := v }
  | .promptVersion, .text v => { s with promptVersion := v }
  | .tone, .text v => { s with tone := v }
  | .language, .text v => { s with language := v }
  | .aiEnabled, .flag v => { s with aiEnabled := v }
  | .anonymize, .flag v => { s with anonymize := v }
  | .optIn, .flag v => { s with optIn := v }
  | _, _ => s

/-- What a snapshot says; a column that it does not have is at its zero value. -/
def Snapshot.settings (s : Snapshot) : Settings :=
  ⟨s.model, s.promptVersion, s.tone, s.language, s.aiEnabled, s.anonymize, s.optIn, s.structuredFields, false⟩

/-- One event: created sets the whole configuration, a field event its field, deleted removes the row. -/
def Change.apply (r : Option Settings) (c : Change) : Option Settings :=
  match c.field, c.newValue with
  | .created, .snapshot s => some s.settings
  | .deleted, _ => none
  | .column col, v => r.map fun s => col.set s v
  | .fieldOptIn name, .flag true => r.map fun s => { s with structuredFields := s.structuredFields ++ [name] }
  | .fieldOptIn name, .flag false => r.map fun s => { s with structuredFields := s.structuredFields.filter (· ≠ name) }
  | _, _ => r

/-- The events of a scope, in order, from the empty state. -/
def replay (sc : Scope) (trail : List AuditEvent) : Option Settings :=
  (trail.filter fun ev => ev.scope = sc).foldl (fun r ev => ev.toChange.apply r) none

structure Same (a b : Settings) : Prop where
  columns : ∀ c, Column.get a c = Column.get b c
  fields : ∀ f, f ∈ a.structuredFields ↔ f ∈ b.structuredFields
  consent : a.consentRequired = b.consentRequired

def Agrees : Option Settings → Option Policy → Prop
  | none, none => True
  | some a, some p => Same a p.toSettings
  | _, _ => False

theorem get_set (a b : Settings) (c c' : Column) : c'.get (c.set a (c.get b)) = if c' = c then c.get b else c'.get a := by
  cases c <;> cases c' <;> rfl

theorem set_frame (a b : Settings) (c : Column) :
    (c.set a (c.get b)).structuredFields = a.structuredFields ∧ (c.set a (c.get b)).consentRequired = a.consentRequired := by
  cases c <;> exact ⟨rfl, rfl⟩

variable {prev : Settings} (next : Settings)

/-- **The column events** bring a configuration between the two to the next. -/
theorem apply_columns : ∀ (cs : List Column) (r : Settings), (∀ c ∈ cs, c.get r = c.get prev ∨ c.get r = c.get next) →
    ∃ r', (cs.filterMap (diffColumn prev next)).foldl Change.apply (some r) = some r' ∧
      (∀ c, c.get r' = if c ∈ cs then c.get next else c.get r) ∧
      r'.structuredFields = r.structuredFields ∧ r'.consentRequired = r.consentRequired
  | [], r, _ => ⟨r, rfl, fun _ => rfl, rfl, rfl⟩
  | c :: cs, r, h => by
    rw [filterMap_cons, diffColumn]
    split_ifs with hc
    · obtain ⟨hf, hcons⟩ := set_frame r next c
      obtain ⟨r', hr', hget, hf', hcons'⟩ := apply_columns cs (c.set r (c.get next)) fun d hd => by
        rw [get_set]
        split_ifs with hdc
        · exact .inr (by rw [hdc])
        · exact h d (mem_cons_of_mem _ hd)
      refine ⟨r', hr', fun d => ?_, hf'.trans hf, hcons'.trans hcons⟩
      rw [hget, get_set]
      by_cases hd : d = c <;> by_cases hm : d ∈ cs <;> simp [hd, hm]
    obtain ⟨r', hr', hget, hrest⟩ := apply_columns cs r fun d hd => h d (mem_cons_of_mem _ hd)
    refine ⟨r', hr', fun d => ?_, hrest⟩
    rw [hget]
    have hrc : c.get r = c.get next := (h c mem_cons_self).elim (fun e => e.trans (not_not.mp hc)) id
    by_cases hd : d = c
    · rw [hd, hrc]
      simp
    · simp [hd]

/-- **The opt-in events** set the membership of the names they list. -/
theorem apply_names (next : List String) : ∀ (names : List String) (old : String → Value) (r : Settings),
    ∃ r', (names.map fun n => (⟨.fieldOptIn n, old n, .flag (n ∈ next)⟩ : Change)).foldl Change.apply (some r) = some r' ∧
      (∀ f, f ∈ r'.structuredFields ↔ if f ∈ names then f ∈ next else f ∈ r.structuredFields) ∧
      (∀ c, Column.get r' c = Column.get r c) ∧ r'.consentRequired = r.consentRequired
  | [], _, r => ⟨r, rfl, fun _ => by simp, fun _ => rfl, rfl⟩
  | n :: names, old, r => by
    by_cases hn : n ∈ next
    · obtain ⟨r', hr', hf, hget, hcons⟩ := apply_names next names old { r with structuredFields := r.structuredFields ++ [n] }
      refine ⟨r', by simpa [Change.apply, hn] using hr', fun f => ?_, fun c => (hget c).trans (by cases c <;> rfl), hcons⟩
      rw [hf]
      by_cases hfn : f = n <;> by_cases hm : f ∈ names <;> simp [hfn, hm, hn]
    obtain ⟨r', hr', hf, hget, hcons⟩ := apply_names next names old { r with structuredFields := r.structuredFields.filter (· ≠ n) }
    refine ⟨r', by simpa [Change.apply, hn] using hr', fun f => ?_, fun c => (hget c).trans (by cases c <;> rfl), hcons⟩
    rw [hf]
    by_cases hfn : f = n <;> by_cases hm : f ∈ names <;> simp [hfn, hm, hn]

theorem mem_changedNames (prev next : List String) (f : String) : f ∈ changedNames prev next ↔ (f ∈ prev ↔ f ∉ next) := by
  simp only [changedNames, mem_insertionSort, mem_dedup, mem_append, mem_filter, decide_eq_true_eq]
  tauto

/-- **One difference** read back. -/
theorem apply_diff {r : Settings} (h : Same r prev) :
    ∃ r', (diffPolicies (some prev) next).foldl Change.apply (some r) = some r' ∧ (∀ c, Column.get r' c = Column.get next c) ∧
      (∀ f, f ∈ r'.structuredFields ↔ f ∈ next.structuredFields) ∧ r'.consentRequired = prev.consentRequired := by
  obtain ⟨r₁, h1, hget1, hf1, hc1⟩ := apply_columns next columns r fun c _ => .inl (h.columns c)
  obtain ⟨r₂, h2, hf2, hget2, hc2⟩ := apply_names next.structuredFields (changedNames prev.structuredFields next.structuredFields)
    (fun n => .flag (n ∈ prev.structuredFields)) r₁
  refine ⟨r₂, ?_, fun c => ?_, fun f => ?_, hc2.trans (hc1.trans h.consent)⟩
  · rw [diffPolicies, foldl_append, h1, diffStructuredFields]
    exact h2
  · rw [hget2, hget1, if_pos (by cases c <;> decide)]
  · have hm := mem_changedNames prev.structuredFields next.structuredFields f
    rw [hf2, hf1, h.fields]
    by_cases hp : f ∈ prev.structuredFields <;> by_cases hn : f ∈ next.structuredFields <;> simp [hm, hp, hn]

variable {next}

theorem diff_same (h : Same prev next) : diffPolicies (some prev) next = [] := by
  have hcols : columns.filterMap (diffColumn prev next) = [] :=
    filterMap_eq_nil_iff.mpr fun c _ => if_neg (not_not.mpr (h.columns c))
  have hnames : changedNames prev.structuredFields next.structuredFields = [] := by
    refine eq_nil_iff_forall_not_mem.mpr fun f hf => ?_
    have := (mem_changedNames _ _ f).mp hf
    have := h.fields f
    tauto
  rw [diffPolicies, hcols, diffStructuredFields, hnames]
  rfl

theorem replay_append (sc sc' : Scope) (a : Actor) (now : Time) (trail : List AuditEvent) (cs : List Change) :
    replay sc (trail ++ cs.map fun c => ⟨c, sc', a, now⟩) = if sc' = sc then cs.foldl Change.apply (replay sc trail) else replay sc trail := by
  rw [replay, filter_append, foldl_append, filter_map]
  by_cases h : sc' = sc <;> simp [h, replay, comp_def, foldl_map]

variable {s s' : State} {actor : Option Actor} {p : Policy} {sc : Scope} {now : Time}

theorem upsert_ok (h : upsert actor p now s = .ok s') : ∃ a row,
    s' = ⟨Function.update s.policies p.toScope (some row),
      s.trail ++ (diffPolicies ((s.policies p.toScope).map Policy.toSettings) p.toSettings).map fun c => ⟨c, p.toScope, a, now⟩⟩ ∧
    row.toSettings = p.toSettings := by
  unfold upsert at h
  cases ha : auditActor actor with
  | error e => simp [ha] at h; split_ifs at h <;> cases h
  | ok a =>
  simp only [ha] at h
  split_ifs at h <;> cases h
  exact ⟨a, _, rfl, rfl⟩

theorem delete_ok (h : delete actor sc now s = .ok s') : s.policies sc = none ∧ s' = s ∨
    ∃ a prev, s.policies sc = some prev ∧ s' = ⟨Function.update s.policies sc none,
      s.trail ++ [(⟨.deleted, .snapshot (policySnapshot prev.toSettings), .null⟩ : Change)].map fun c => ⟨c, sc, a, now⟩⟩ := by
  unfold delete at h
  cases ha : auditActor actor with
  | error e => simp [ha] at h; split_ifs at h <;> cases h
  | ok a =>
  simp only [ha] at h
  cases hp : s.policies sc with
  | none =>
    simp only [hp] at h
    split_ifs at h <;> cases h
    exact .inl ⟨rfl, rfl⟩
  | some prev =>
  simp only [hp] at h
  split_ifs at h <;> cases h
  exact .inr ⟨a, prev, rfl, rfl⟩

/-- The trail tells the state, and no policy requires consent. -/
structure Told (s : State) : Prop where
  agrees : ∀ sc, Agrees (replay sc s.trail) (s.policies sc)
  noConsent : ∀ sc p, s.policies sc = some p → p.consentRequired = false

theorem Told.upsert (hs : Told s) (hp : p.consentRequired = false) (h : upsert actor p now s = .ok s') : Told s' := by
  obtain ⟨a, row, rfl, hrow⟩ := upsert_ok h
  have hconsent : row.consentRequired = false := (congrArg Settings.consentRequired hrow).trans hp
  constructor
  · intro sc
    dsimp only
    rw [replay_append]
    by_cases hsc : p.toScope = sc
    · subst hsc
      rw [if_pos rfl, update_self]
      have hag := hs.agrees p.toScope
      cases hprev : s.policies p.toScope with
      | none => exact ⟨fun c => by rw [hrow]; cases c <;> rfl, fun f => by rw [hrow]; rfl, hconsent.symm⟩
      | some prev =>
      cases hr : replay p.toScope s.trail with
      | none => rw [hr, hprev] at hag; exact hag.elim
      | some r =>
      rw [hr, hprev] at hag
      obtain ⟨r', hr', hcols, hfields, hc⟩ := apply_diff p.toSettings hag
      show Agrees (List.foldl Change.apply (some r) _) _
      rw [Option.map_some, hr']
      exact ⟨fun c => by rw [hrow]; exact hcols c, fun f => by rw [hrow]; exact hfields f, (hc.trans (hs.noConsent _ _ hprev)).trans hconsent.symm⟩
    · rw [if_neg hsc, update_of_ne (Ne.symm hsc)]
      exact hs.agrees sc
  intro sc q hq
  dsimp only at hq
  by_cases hsc : sc = p.toScope
  · rw [hsc, update_self] at hq
    cases hq
    exact hconsent
  · rw [update_of_ne hsc] at hq
    exact hs.noConsent sc q hq

theorem Told.delete (hs : Told s) (h : delete actor sc now s = .ok s') : Told s' := by
  obtain ⟨-, rfl⟩ | ⟨a, prev, hprev, rfl⟩ := delete_ok h
  · exact hs
  constructor
  · intro sc'
    dsimp only
    rw [replay_append]
    by_cases hsc : sc = sc'
    · rw [if_pos hsc, hsc, update_self]
      exact trivial
    · rw [if_neg hsc, update_of_ne (Ne.symm hsc)]
      exact hs.agrees sc'
  intro sc' q hq
  dsimp only at hq
  by_cases hsc : sc' = sc
  · rw [hsc, update_self] at hq
    cases hq
  · rw [update_of_ne hsc] at hq
    exact hs.noConsent sc' q hq

theorem Told.run : ∀ (calls : List Call) {s : State}, Told s → (∀ c ∈ calls, c.NoConsent) → calls.foldlM (fun s c => c.run s) s = .ok s' → Told s'
  | [], s, hs, _, h => by
    cases h
    exact hs
  | c :: calls, s, hs, hc, h => by
    rw [foldlM_cons] at h
    cases hstep : c.run s with
    | error e => rw [hstep] at h; cases h
    | ok s₁ =>
    rw [hstep] at h
    refine Told.run calls ?_ (fun d hd => hc d (mem_cons_of_mem _ hd)) h
    have hone := hc c mem_cons_self
    cases c with
    | upsert actor p now => exact hs.upsert hone hstep
    | delete actor sc now => exact hs.delete hstep

/-- **The audit trail is complete.**  After any sequence of successful calls, none of which writes a policy that requires consent, replaying the
events of a scope yields the configuration that is stored for it; and an `Upsert` that changes no field records nothing. -/
theorem trail_complete {calls : List Call} (h : calls.foldlM (fun s c => c.run s) State.empty = .ok s) (hconsent : ∀ c ∈ calls, c.NoConsent) :
    (∀ sc, Agrees (replay sc s.trail) (s.policies sc)) ∧ ∀ actor p now s' prev, upsert actor p now s = .ok s' →
      s.policies p.toScope = some prev → Same prev.toSettings p.toSettings → s'.trail = s.trail := by
  have hempty : Told State.empty := ⟨fun _ => trivial, fun _ _ h => by cases h⟩
  refine ⟨(hempty.run calls hconsent h).agrees, fun actor p now s' prev hup hprev hsame => ?_⟩
  obtain ⟨a, row, rfl, -⟩ := upsert_ok hup
  dsimp only
  rw [hprev, Option.map_some, diff_same hsame, map_nil, append_nil]

def whatsapp (consentRequired : Bool) : Policy :=
  ⟨⟨2, .channel, "whatsapp"⟩, ⟨"openrouter/auto", "v1", "neutro", "pt-BR", true, true, true, ["email"], consentRequired⟩, 0, 0⟩

def operator : Option Actor := some ⟨9, false⟩

def whatsappCalls : List Call :=
  [.upsert operator (whatsapp false) 1, .upsert operator { whatsapp false with tone := "formal", structuredFields := [] } 2,
    .delete operator (whatsapp false).toScope 3]

theorem trail_complete_whatsapp : ∃ s : State, whatsappCalls.foldlM (fun s c => c.run s) State.empty = .ok s ∧ s.trail.length = 4 ∧
    ∀ sc, Agrees (replay sc s.trail) (s.policies sc) :=
  ⟨_, rfl, rfl, (@trail_complete _ whatsappCalls rfl (by simp [whatsappCalls, Call.NoConsent, whatsapp])).1⟩

/-- **Consent leaves no trace.**  An `Upsert` that switches `consent_required` on records nothing, and the replayed configuration has it off. -/
theorem consent_unrecorded : ∃ s s' : State, [Call.upsert operator (whatsapp false) 1].foldlM (fun s c => c.run s) State.empty = .ok s ∧
    upsert operator (whatsapp true) 2 s = .ok s' ∧ s'.trail = s.trail ∧
    (s'.policies (whatsapp true).toScope).map (fun p => p.consentRequired) = some true ∧
    (replay (whatsapp true).toScope s'.trail).map Settings.consentRequired = some false :=
  ⟨_, _, rfl, rfl, rfl, rfl, rfl⟩

end Crm.AiPolicy
