import Crm.Funnel.Ledger

/-!
# Crm.Funnel.Redelivery — one delivery after another

A message whose handling fails is delivered again.  `Progress` says what any run of `Engine.Handle` has done, wherever it stopped: of the
rules that were pending it has moved the conversation along the stages of a first part and recorded exactly that part, but for one rule at
most, whose move is made and whose record is missing.  Since a repeated move to the same stage is none, runs compose
(`Progress.trans`), and a run that ends well leaves nothing pending.
-/

namespace Crm.Funnel

open Interleave Interleave.Prog Text List FunnelDB

/-! ## Pending rules -/

def fires (R : Runtime) (msg : InboundMessage) (rule : Rule) : Bool := matchTrigger R rule msg && (stageKey rule).isSome

def FunnelDB.recorded (s : FunnelDB) (msg : InboundMessage) (rule : Rule) : Bool :=
  s.applications.any fun a => a.tenantID = msg.tenantID ∧ a.ruleID = rule.id ∧ a.messageID = msg.messageID

def FunnelDB.target (s : FunnelDB) (msg : InboundMessage) (rule : Rule) : Option UUID :=
  (stageKey rule).bind fun key => (s.findByKey msg.tenantID (trimSpace key)).toOption.map Stage.id

def pending (R : Runtime) (msg : InboundMessage) (s : FunnelDB) (rules : List Rule) : List Rule :=
  rules.filter fun r => fires R msg r && !s.recorded msg r

def goals (msg : InboundMessage) (s : FunnelDB) (rules : List Rule) : List UUID := rules.filterMap (s.target msg)

/-- A resolved rule list: rows of `funnel_rules`, each with its own key. -/
structure RuleSet where
  rules : List Rule
  ids : (rules.map Rule.id).Nodup

def Finds (rules : RuleSet) : (q : Req) → Resp q → Prop
  | .resolve _ _, r => ∀ l, r = .ok l → l = rules.rules
  | _, _ => True

/-- An inserted transition is later than the ones of its conversation before it. -/
def Timely : Req → FunnelDB → FunnelDB → Prop
  | .create t, s, s' => s' = s ∨ s.Later t
  | _, _, _ => True

def attempt (rules : RuleSet) (q : Req) (s : FunnelDB) (r : Resp q) (s' : FunnelDB) : Prop := exec q s r s' ∧ Finds rules q r

def delivery (rules : RuleSet) (q : Req) (s : FunnelDB) (r : Resp q) (s' : FunnelDB) : Prop := attempt rules q s r s' ∧ Timely q s s'

/-- The conversation's times increase, and the rows of the message belong to its tenant. -/
structure Kept (msg : InboundMessage) (s : FunnelDB) : Prop where
  chrono : s.Chrono msg.tenantID msg.conversationID
  owned : ∀ a ∈ s.applications, a.messageID = msg.messageID → a.tenantID = msg.tenantID

section Moves

variable {rules : RuleSet} {T C : UUID} {s s' : FunnelDB}

structure Same (s s' : FunnelDB) : Prop where
  stages : s'.stages = s.stages
  transitions : s'.transitions = s.transitions
  applications : s'.applications = s.applications

structure Moved (T C : UUID) (s s' : FunnelDB) (g : UUID) : Prop where
  stages : s'.stages = s.stages
  applications : s'.applications = s.applications
  chrono : s'.Chrono T C
  trail : s'.trail T C = (s.trail T C).advance g

theorem Same.refl (s : FunnelDB) : Same s s := ⟨rfl, rfl, rfl⟩

theorem Same.chrono (h : Same s s') (hc : s.Chrono T C) : s'.Chrono T C := by
  unfold FunnelDB.Chrono
  rw [history_of_transitions h.transitions]
  exact hc

theorem Same.trail (h : Same s s') : s'.trail T C = s.trail T C := by
  unfold FunnelDB.trail
  rw [history_of_transitions h.transitions]

theorem same_publish {evt : ConversationMovedEvent} {r : Except Err Unit} (h : exec (.publish evt) s r s') : Same s s' := by
  rcases Tx.store_cases h with rfl | ⟨a, h⟩
  · exact .refl _
  · cases h
    exact ⟨rfl, rfl, rfl⟩

theorem Moved.publish {s₁ : FunnelDB} {g : UUID} (h : Moved T C s s₁ g) (hs : Same s₁ s') : Moved T C s s' g :=
  ⟨hs.stages.trans h.stages, hs.applications.trans h.applications, hs.chrono h.chrono, hs.trail.trans h.trail⟩

def MoveEnds (T C : UUID) (s : FunnelDB) (g : UUID) : Except Err Unit → FunnelDB → Prop
  | .ok (), s' => Moved T C s s' g
  | .error _, s' => Same s s' ∨ Moved T C s s' g

theorem persistMove_ends {g : Stage} {actor : UUID} {reason : String} (hc : s.Chrono T C) (hg : (s.trail T C).current ≠ some g.id) :
    Ensures (delivery rules) (persistMove T C (s.trail T C).current g actor reason) s fun _ => MoveEnds T C s g.id := by
  simp only [persistMove, send_bind, pure_eq]
  refine .ask ?_
  rintro id s₁ ⟨⟨h1, -⟩, -⟩
  obtain rfl : s₁ = s := h1
  refine .ask ?_
  rintro now s₂ ⟨⟨h2, -⟩, -⟩
  obtain rfl : s₂ = s₁ := h2
  refine .ask ?_
  rintro r s₃ ⟨⟨h3, -⟩, hlater⟩
  -- the row is there or it is not, whatever the answer
  have hrow : s₃ = s₂ ∨ Moved T C s₂ s₃ g.id := by
    rcases Tx.store_cases h3 with rfl | ⟨a, h⟩
    · exact .inl rfl
    rcases hlater with rfl | hlater
    · exact .inl rfl
    obtain ⟨hid, rfl⟩ := create_ok h
    refine .inr ⟨rfl, rfl, FunnelDB.Chrono.add hc hlater hid, ?_⟩
    rw [Trail.advance, if_neg hg]
    exact trail_addTransition hid
  cases r with
  | error e =>
    rcases hrow with rfl | h
    · exact .ret (.inl (.refl _))
    · exact .ret (.inr h)
  | ok u =>
  have hmoved : Moved T C s₂ s₃ g.id := by
    obtain ⟨hid, rfl⟩ := create_ok (Tx.of_ok h3)
    refine hrow.resolve_left fun h => ?_
    have hlen := congrArg (fun s => s.transitions.length) h
    simp [FunnelDB.addTransition] at hlen
  refine .ask ?_
  rintro r s₄ ⟨⟨h4, -⟩, -⟩
  have hend := hmoved.publish (same_publish h4)
  cases r with
  | error e => exact .ret (.inr hend)
  | ok u => exact .ret hend

theorem moveConversation_ends {key : String} {actor : UUID} {reason : String} (hc : s.Chrono T C) :
    Ensures (delivery rules) (moveConversation T C key actor reason) s fun _ r s' =>
      (∃ g, s.findByKey T (trimSpace key) = .ok g ∧ MoveEnds T C s g.id r s') ∨ (r ≠ .ok () ∧ Same s s') := by
  simp only [moveConversation, send_bind, pure_eq]
  have hfail : ∀ e : Err, Ensures (delivery rules) (.ret (Except.error e : Except Err Unit)) s fun _ r s' =>
      (∃ g, s.findByKey T (trimSpace key) = .ok g ∧ MoveEnds T C s g.id r s') ∨ (r ≠ .ok () ∧ Same s s') :=
    fun e => .ret (.inr ⟨by rintro ⟨⟩, .refl s⟩)
  split_ifs with hT hC
  · exact hfail _
  · exact hfail _
  · exact hfail _
  · exact hfail _
  refine .ask ?_
  rintro r s₁ ⟨⟨h1, -⟩, -⟩
  obtain rfl : s₁ = s := h1.1
  cases r with
  | error e =>
    dsimp only
    split_ifs <;> exact hfail _
  | ok g =>
  have hg : s₁.findByKey T (trimSpace key) = .ok g := Read.of_ok h1
  refine .ask ?_
  rintro r s₂ ⟨⟨h2, -⟩, -⟩
  obtain rfl : s₂ = s₁ := h2.1
  cases r with
  | ok latest =>
    have hcur : (s₂.trail T C).current = some latest.toStageID := by
      obtain ⟨-, hl | ⟨e, -, he⟩⟩ := h2
      · exact hl.current hc
      · cases he
    dsimp only
    split_ifs with heq
    · -- the conversation is in the stage
      refine .ret (.inl ⟨g, hg, rfl, rfl, hc, ?_⟩)
      rw [Trail.advance, if_pos (heq ▸ hcur)]
    rw [← hcur]
    refine (persistMove_ends hc ?_).mono fun l r s' h => .inl ⟨g, hg, h⟩
    rw [hcur]
    exact fun h => heq (Option.some.inj h)
  | error e =>
  dsimp only
  split_ifs with he
  · have hnil : (s₂.trail T C).current = none := by
      obtain ⟨-, hl | ⟨e', hf, he'⟩⟩ := h2
      · rw [current_trail, hl.none hT hC]
        rfl
      · cases he'
        rw [Err.not_is_of_fault hf not_fault_funnelNotFound] at he
        cases he
    rw [← hnil]
    exact (persistMove_ends hc (by rw [hnil]; rintro ⟨⟩)).mono fun l r s' h => .inl ⟨g, hg, h⟩
  · exact hfail _

end Moves

section Rules

variable {R : Runtime} {msg : InboundMessage} {rules : RuleSet} {rule : Rule} {s s' : FunnelDB}

/-- The rule was carried out: the move is made and recorded. -/
structure Applied (msg : InboundMessage) (rule : Rule) (s s' : FunnelDB) (g : UUID) : Prop where
  stages : s'.stages = s.stages
  kept : Kept msg s'
  trail : s'.trail msg.tenantID msg.conversationID = (s.trail msg.tenantID msg.conversationID).advance g
  recorded : ∀ x, s'.recorded msg x ↔ s.recorded msg x ∨ x.id = rule.id

/-- What carrying out a pending rule with target `g` can end in. -/
def ApplyEnds (msg : InboundMessage) (rule : Rule) (s : FunnelDB) (g : UUID) : Except Err Unit → FunnelDB → Prop
  | .ok (), s' => Applied msg rule s s' g
  | .error _, s' => Same s s' ∨ Moved msg.tenantID msg.conversationID s s' g ∨ Applied msg rule s s' g

theorem target_of_find {key : String} {g : Stage} (hk : stageKey rule = some key)
    (hg : s.findByKey msg.tenantID (trimSpace key) = .ok g) : s.target msg rule = some g.id := by
  simp [FunnelDB.target, hk, hg, Except.toOption]

theorem target_of_stages (h : s'.stages = s.stages) (rule : Rule) : s'.target msg rule = s.target msg rule := by
  unfold FunnelDB.target
  simp only [findByKey_stages h]

theorem recorded_addApplication {a : Application} (hT : a.tenantID = msg.tenantID) (hm : a.messageID = msg.messageID)
    (hr : a.ruleID = rule.id) (hnew : ∀ x ∈ s.applications, ¬ (x.ruleID = a.ruleID ∧ x.messageID = a.messageID)) (x : Rule) :
    (s.addApplication a hnew).recorded msg x ↔ s.recorded msg x ∨ x.id = rule.id := by
  simp only [FunnelDB.recorded, FunnelDB.addApplication, any_append, any_cons, any_nil, Bool.or_false, Bool.or_eq_true,
    decide_eq_true_eq, hT, hm, hr, true_and, and_true]
  exact or_congr_right eq_comm

theorem Moved.record {s₁ : FunnelDB} {g : UUID} {a : Application} (h : Moved msg.tenantID msg.conversationID s s₁ g) (hk : Kept msg s)
    (hT : a.tenantID = msg.tenantID) (hm : a.messageID = msg.messageID) (hr : a.ruleID = rule.id) {u : Unit}
    (he : s₁.record a = .ok (u, s')) : Applied msg rule s s' g := by
  obtain ⟨hnew, rfl⟩ := record_ok he
  have hrec : ∀ x : Rule, s₁.recorded msg x = s.recorded msg x := fun x => by
    unfold FunnelDB.recorded
    rw [h.applications]
  refine ⟨h.stages, ⟨h.chrono, fun x hx hxm => ?_⟩, h.trail, fun x => ?_⟩
  · rcases mem_append.mp hx with hx | hx
    · rw [h.applications] at hx
      exact hk.owned x hx hxm
    · rw [mem_singleton.mp hx]
      exact hT
  · rw [recorded_addApplication hT hm hr hnew, hrec]

theorem applyRule_ends {key : String} (hkey : stageKey rule = some key) (hk : Kept msg s) (hnew : s.recorded msg rule = false) :
    Ensures (delivery rules) (applyRule msg rule key) s fun _ r s' =>
      (∃ g, s.target msg rule = some g ∧ ApplyEnds msg rule s g r s') ∨ (r ≠ .ok () ∧ Same s s') := by
  simp only [applyRule]
  refine .bind (moveConversation_ends hk.chrono) fun l₁ r s₁ h => ?_
  have herr : ∀ e e' : Err, (r : Except Err Unit) = .error e → Ensures (delivery rules) (.ret (Except.error e' : Except Err Unit)) s₁
      fun _ r s' => (∃ g, s.target msg rule = some g ∧ ApplyEnds msg rule s g r s') ∨ (r ≠ .ok () ∧ Same s s') := by
    rintro e e' rfl
    rcases h with ⟨g, hg, h⟩ | ⟨-, h⟩
    · exact .ret (.inl ⟨g.id, target_of_find hkey hg, h.imp_right .inl⟩)
    · exact .ret (.inr ⟨by rintro ⟨⟩, h⟩)
  cases r with
  | error e => exact herr e _ rfl
  | ok u =>
  obtain ⟨g, hg, hmoved⟩ | ⟨hne, -⟩ := h
  swap
  · exact absurd rfl hne
  have hmoved : Moved msg.tenantID msg.conversationID s s₁ g.id := hmoved
  have htarget := target_of_find hkey hg
  simp only [send_bind, pure_eq]
  refine .ask ?_
  rintro now s₂ ⟨⟨h2, -⟩, -⟩
  obtain rfl : s₂ = s₁ := h2
  refine .ask ?_
  rintro r s₃ ⟨⟨h3, -⟩, -⟩
  cases r with
  | ok u => exact .ret (.inl ⟨g.id, htarget, hmoved.record hk rfl rfl rfl (Tx.of_ok h3)⟩)
  | error e =>
  dsimp only
  split_ifs with he
  · -- the row of a rule that was not recorded is not there
    have hf : ¬ e.fault := fun hf => by
      rw [Err.not_is_of_fault hf not_fault_engineAlreadyApplied] at he
      cases he
    obtain ⟨x, hx, hxr, hxm⟩ := record_conflict (Tx.of_error h3 hf).1 hf
    rw [hmoved.applications] at hx
    have hrec : s.recorded msg rule = true := any_eq_true.mpr ⟨x, hx, decide_eq_true ⟨hk.owned x hx hxm, hxr, hxm⟩⟩
    rw [hnew] at hrec
    cases hrec
  refine .ret (.inl ⟨g.id, htarget, .inr ?_⟩)
  rcases Tx.store_cases h3 with rfl | ⟨a, h⟩
  · exact .inl hmoved
  · exact .inr (hmoved.record hk rfl rfl rfl h)

theorem isApplied_ok {b : Bool} (h : s.isApplied msg.tenantID rule.id msg.messageID = .ok b) : b = s.recorded msg rule := by
  unfold FunnelDB.isApplied at h
  split_ifs at h
  exact (Except.ok.inj h).symm

theorem tryRule_skip (hp : (fires R msg rule && !s.recorded msg rule) = false) :
    Ensures (delivery rules) (tryRule R msg rule) s fun _ _ s' => s' = s := by
  simp only [tryRule, send_bind, pure_eq]
  split_ifs with hm
  · exact .ret rfl
  refine .ask ?_
  rintro r s₁ ⟨⟨h1, -⟩, -⟩
  obtain rfl : s₁ = s := h1.1
  cases r with
  | error e => exact .ret rfl
  | ok b =>
  have hb := isApplied_ok (Read.of_ok h1)
  cases b with
  | true => exact .ret rfl
  | false =>
  have hkey : stageKey rule = none := by
    simpa [fires, ← hb, hm] using hp
  rw [hkey]
  exact .ret rfl

theorem tryRule_ends (hk : Kept msg s) (hp : (fires R msg rule && !s.recorded msg rule) = true) :
    Ensures (delivery rules) (tryRule R msg rule) s fun _ r s' =>
      (∃ g, s.target msg rule = some g ∧ ApplyEnds msg rule s g r s') ∨ (r ≠ .ok () ∧ Same s s') := by
  obtain ⟨⟨hm, hkey⟩, hnew⟩ : (matchTrigger R rule msg = true ∧ (stageKey rule).isSome) ∧ s.recorded msg rule = false := by
    simpa [fires] using hp
  obtain ⟨key, hkey⟩ := Option.isSome_iff_exists.mp hkey
  simp only [tryRule, hm, Bool.true_eq_false, if_false, send_bind, pure_eq]
  refine .ask ?_
  rintro r s₁ ⟨⟨h1, -⟩, -⟩
  obtain rfl : s₁ = s := h1.1
  cases r with
  | error e => exact .ret (.inr ⟨by rintro ⟨⟩, .refl _⟩)
  | ok b =>
  obtain rfl : b = false := (isApplied_ok (Read.of_ok h1)).trans hnew
  rw [hkey]
  exact applyRule_ends hkey hk hnew

end Rules

/-! ## Runs -/

/-- **Progress of a run** from `s` to `s'`: of the pending rules, those of `done` are carried out and those of `rest` are not, except that
the move of the first of them may have been made. -/
structure Progress (R : Runtime) (msg : InboundMessage) (rules : List Rule) (s s' : FunnelDB) (done rest : List Rule) : Prop where
  split : pending R msg s rules = done ++ rest
  stages : s'.stages = s.stages
  kept : Kept msg s'
  recorded : ∀ x, s'.recorded msg x ↔ s.recorded msg x ∨ ∃ q ∈ done, q.id = x.id
  found : ∀ q ∈ done, (s.target msg q).isSome
  trail : s'.trail msg.tenantID msg.conversationID = (s.trail msg.tenantID msg.conversationID).visit (goals msg s done) ∨
    ∃ q t, rest = q :: t ∧
      s'.trail msg.tenantID msg.conversationID = (s.trail msg.tenantID msg.conversationID).visit (goals msg s (done ++ [q]))

section Runs

variable {R : Runtime} {msg : InboundMessage} {rule : Rule} {l rest done : List Rule} {s s₁ s' : FunnelDB}

theorem goals_of_stages (h : s'.stages = s.stages) (l : List Rule) : goals msg s' l = goals msg s l :=
  filterMap_congr fun rule _ => target_of_stages h rule

variable {g : UUID}

theorem goals_cons (h : s.target msg rule = some g) (l : List Rule) : goals msg s (rule :: l) = g :: goals msg s l :=
  filterMap_cons_some h

theorem pending_cons (hp : (fires R msg rule && !s.recorded msg rule) = true) (l : List Rule) :
    pending R msg s (rule :: l) = rule :: pending R msg s l := filter_cons_of_pos hp

theorem pending_applied (h : Applied msg rule s s₁ g) (hid : ∀ x ∈ l, x.id ≠ rule.id) : pending R msg s₁ l = pending R msg s l := by
  refine filter_congr fun x hx => ?_
  have hx : s₁.recorded msg x = s.recorded msg x := by
    rw [Bool.eq_iff_iff, h.recorded]
    exact or_iff_left (hid x hx)
  rw [hx]

theorem Same.recorded (h : Same s s') (x : Rule) : s'.recorded msg x = s.recorded msg x := by
  unfold FunnelDB.recorded
  rw [h.applications]

theorem Moved.recorded {T C : UUID} (h : Moved T C s s' g) (x : Rule) : s'.recorded msg x = s.recorded msg x := by
  unfold FunnelDB.recorded
  rw [h.applications]

theorem Progress.same (hk : Kept msg s) (h : Same s s') : Progress R msg l s s' [] (pending R msg s l) where
  split := rfl
  stages := h.stages
  kept := ⟨h.chrono hk.chrono, h.applications ▸ hk.owned⟩
  recorded := fun x => by simp [h.recorded]
  found := by simp
  trail := .inl h.trail

theorem Progress.moved (hk : Kept msg s) (hp : (fires R msg rule && !s.recorded msg rule) = true) (hg : s.target msg rule = some g)
    (h : Moved msg.tenantID msg.conversationID s s' g) : Progress R msg (rule :: l) s s' [] (rule :: pending R msg s l) where
  split := pending_cons hp l
  stages := h.stages
  kept := ⟨h.chrono, h.applications ▸ hk.owned⟩
  recorded := fun x => by simp [h.recorded]
  found := by simp
  trail := .inr ⟨rule, _, rfl, by rw [h.trail, nil_append, goals_cons hg]; rfl⟩

theorem Progress.skip (hp : (fires R msg rule && !s.recorded msg rule) = false) (h : Progress R msg l s s' done rest) :
    Progress R msg (rule :: l) s s' done rest :=
  { h with split := (filter_cons_of_neg (by simp [hp])).trans h.split }

theorem Progress.cons (hp : (fires R msg rule && !s.recorded msg rule) = true) (hid : ∀ x ∈ l, x.id ≠ rule.id) (hg : s.target msg rule = some g)
    (ha : Applied msg rule s s₁ g) (h : Progress R msg l s₁ s' done rest) : Progress R msg (rule :: l) s s' (rule :: done) rest where
  split := by rw [pending_cons hp, ← pending_applied ha hid, h.split, cons_append]
  stages := h.stages.trans ha.stages
  kept := h.kept
  recorded := fun x => by
    simp only [h.recorded, ha.recorded, or_assoc, mem_cons, exists_eq_or_imp, @eq_comm _ x.id rule.id]
  found := fun q hq => by
    rcases mem_cons.mp hq with rfl | hq
    · rw [hg]
      rfl
    · exact target_of_stages ha.stages q ▸ h.found q hq
  trail := by
    have hvisit : ∀ d, (s₁.trail msg.tenantID msg.conversationID).visit (goals msg s₁ d) =
        (s.trail msg.tenantID msg.conversationID).visit (goals msg s (rule :: d)) := fun d => by
      rw [ha.trail, goals_cons hg, Trail.visit_cons, goals_of_stages ha.stages]
    rcases h.trail with h | ⟨q, t, hr, h⟩
    · exact .inl (h.trans (hvisit _))
    · exact .inr ⟨q, t, hr, h.trans (hvisit _)⟩

theorem tryRules_ends {rules : RuleSet} : ∀ {l : List Rule} {s : FunnelDB}, (l.map Rule.id).Nodup → Kept msg s →
    Ensures (delivery rules) (tryRules R msg l) s fun _ r s' => ∃ done rest, Progress R msg l s s' done rest ∧ (r = .ok () → rest = [])
  | [], s, _, hk => .ret ⟨[], [], .same hk (.refl s), fun _ => rfl⟩
  | rule :: l, s, hn, hk => by
    obtain ⟨hid, hn⟩ := nodup_cons.mp hn
    have hid : ∀ x ∈ l, x.id ≠ rule.id := fun x hx h => hid (h ▸ mem_map_of_mem hx)
    simp only [tryRules]
    by_cases hp : (fires R msg rule && !s.recorded msg rule) = true
    · refine .bind (tryRule_ends hk hp) fun _ r s₁ h => ?_
      cases r with
      | error e =>
        refine .ret ?_
        rcases h with ⟨g, hg, h | h | h⟩ | ⟨-, h⟩
        · exact ⟨_, _, .same hk h, by rintro ⟨⟩⟩
        · exact ⟨_, _, .moved hk hp hg h, by rintro ⟨⟩⟩
        · exact ⟨_, _, .cons hp hid hg h (.same h.kept (.refl _)), by rintro ⟨⟩⟩
        · exact ⟨_, _, .same hk h, by rintro ⟨⟩⟩
      | ok u =>
      rcases h with ⟨g, hg, h⟩ | ⟨hne, -⟩
      swap
      · exact absurd rfl hne
      have h : Applied msg rule s s₁ g := h
      refine (tryRules_ends hn h.kept).mono fun _ r s' ⟨done, rest, hpr, hr⟩ => ?_
      exact ⟨rule :: done, rest, .cons hp hid hg h hpr, hr⟩
    have hp := Bool.eq_false_iff.mpr hp
    refine .bind (tryRule_skip hp) fun _ r s₁ h => ?_
    obtain rfl : s₁ = s := h
    cases r with
    | error e => exact .ret ⟨_, _, .same hk (.refl _), by rintro ⟨⟩⟩
    | ok u =>
    refine (tryRules_ends hn hk).mono fun _ r s' ⟨done, rest, hpr, hr⟩ => ?_
    exact ⟨done, rest, hpr.skip hp, hr⟩

theorem handle_ends {rules : RuleSet} (hk : Kept msg s) : Ensures (delivery rules) (handle R msg) s fun _ r s' =>
    ∃ done rest, Progress R msg rules.rules s s' done rest ∧ (r = .ok () → rest = []) := by
  simp only [handle, send_bind, pure_eq]
  split
  · exact .ret ⟨_, _, .same hk (.refl _), by rintro ⟨⟩⟩
  refine .ask ?_
  rintro r s₁ ⟨⟨h1, hl⟩, -⟩
  obtain rfl : s₁ = s := h1
  cases r with
  | error e => exact .ret ⟨_, _, .same hk (.refl _), by rintro ⟨⟩⟩
  | ok resolved =>
  obtain rfl : resolved = rules.rules := hl resolved rfl
  exact tryRules_ends rules.ids hk

theorem Progress.pending_eq (hn : (l.map Rule.id).Nodup) (h : Progress R msg l s s₁ done rest) : pending R msg s₁ l = rest := by
  have hids : ((done ++ rest).map Rule.id).Nodup := by
    rw [← h.split]
    exact hn.sublist (filter_sublist.map _)
  rw [map_append, nodup_append] at hids
  have hfilter : pending R msg s₁ l = (pending R msg s l).filter fun x => !done.any fun q => q.id = x.id := by
    unfold pending
    rw [filter_filter]
    refine filter_congr fun x _ => ?_
    have hx : s₁.recorded msg x = (s.recorded msg x || done.any fun q => q.id = x.id) := by
      rw [Bool.eq_iff_iff, h.recorded]
      simp
    rw [hx, Bool.not_or, Bool.and_comm (!done.any _), Bool.and_assoc]
  rw [hfilter, h.split, filter_append, filter_eq_nil_iff.mpr, filter_eq_self.mpr, nil_append]
  · intro x hx
    simp only [Bool.not_eq_true', any_eq_false, decide_eq_true_eq]
    exact fun q hq he => hids.2.2 _ (mem_map_of_mem hq) _ (mem_map_of_mem hx) he
  · intro x hx
    simp only [Bool.not_eq_true', Bool.not_eq_false, any_eq_true, decide_eq_true_eq]
    exact ⟨x, hx, rfl⟩

theorem visit_again (p : Trail) (d e : List Rule) (q : Rule) :
    (p.visit (goals msg s (d ++ [q]))).visit (goals msg s (q :: e)) = p.visit (goals msg s (d ++ q :: e)) := by
  unfold goals
  simp only [filterMap_append, Trail.visit_append]
  cases hq : s.target msg q with
  | none => simp [filterMap_cons_none hq]
  | some g => simp [filterMap_cons_some hq]

/-- **Redelivery goes on where the last run stopped.** -/
theorem Progress.trans {done' rest' : List Rule} (hn : (l.map Rule.id).Nodup) (h : Progress R msg l s s₁ done rest)
    (h' : Progress R msg l s₁ s' done' rest') : Progress R msg l s s' (done ++ done') rest' := by
  have hrest : rest = done' ++ rest' := (h.pending_eq hn).symm.trans h'.split
  refine ⟨?_, h'.stages.trans h.stages, h'.kept, fun x => ?_, fun q hq => ?_, ?_⟩
  · rw [h.split, hrest, append_assoc]
  · simp only [h'.recorded, h.recorded, or_assoc, mem_append, or_and_right, exists_or]
  · rcases mem_append.mp hq with hq | hq
    · exact h.found q hq
    · exact target_of_stages h.stages q ▸ h'.found q hq
  have htrail := h'.trail
  simp only [goals_of_stages h.stages] at htrail
  rcases h.trail with h1 | ⟨q, t, hq, h1⟩
  · have hvisit : ∀ e, (s₁.trail msg.tenantID msg.conversationID).visit (goals msg s e) =
        (s.trail msg.tenantID msg.conversationID).visit (goals msg s (done ++ e)) := fun e => by
      rw [h1, ← Trail.visit_append, goals, goals, goals, filterMap_append]
    rcases htrail with h2 | ⟨q', t', hq', h2⟩
    · exact .inl (h2.trans (hvisit _))
    · exact .inr ⟨q', t', hq', by rw [h2, hvisit, append_assoc]⟩
  -- the move of `q` was made; the next run starts with `q`
  have hvisit : ∀ e, (s₁.trail msg.tenantID msg.conversationID).visit (goals msg s (q :: e)) =
      (s.trail msg.tenantID msg.conversationID).visit (goals msg s (done ++ q :: e)) := fun e => by
    rw [h1, visit_again]
  cases done' with
  | nil =>
    obtain rfl : rest' = q :: t := hrest.symm.trans hq
    refine .inr ⟨q, t, rfl, ?_⟩
    rw [append_nil]
    rcases htrail with h2 | ⟨q', t', hq', h2⟩
    · exact h2.trans h1
    · obtain ⟨rfl, -⟩ := List.cons.inj hq'
      exact h2.trans (hvisit [])
  | cons q' e =>
  obtain ⟨rfl, -⟩ : q = q' ∧ _ := List.cons.inj (hq.symm.trans hrest)
  rcases htrail with h2 | ⟨q', t', hq', h2⟩
  · exact .inl (h2.trans (hvisit _))
  · exact .inr ⟨q', t', hq', by rw [h2, cons_append, hvisit, append_assoc, cons_append]⟩

end Runs

/-- Runs of `Handle` for one message, one after another, of which the last returns nil. -/
inductive Redelivered (ex : (q : Req) → FunnelDB → Resp q → FunnelDB → Prop) (R : Runtime) (msg : InboundMessage) :
    FunnelDB → FunnelDB → Prop
  | last {s s' : FunnelDB} {l : List (Exchange Req Resp FunnelDB)} (h : Runs ex (handle R msg) s l (.ok ()) s') : Redelivered ex R msg s s'
  | again {s s₁ s' : FunnelDB} {l : List (Exchange Req Resp FunnelDB)} {r : Except Err Unit}
      (h : Runs ex (handle R msg) s l r s₁) (hr : Redelivered ex R msg s₁ s') : Redelivered ex R msg s s'

section Redelivery

variable {R : Runtime} {rules : RuleSet} {msg : InboundMessage} {s s' : FunnelDB}

theorem Redelivered.progress (h : Redelivered (delivery rules) R msg s s') (hk : Kept msg s) :
    ∃ done, Progress R msg rules.rules s s' done [] := by
  induction h with
  | last h =>
    obtain ⟨done, rest, hp, hr⟩ := handle_ends hk _ _ _ h
    obtain rfl := hr rfl
    exact ⟨done, hp⟩
  | again h _ ih =>
    obtain ⟨done, rest, hp, -⟩ := handle_ends hk _ _ _ h
    obtain ⟨done', hp'⟩ := ih hp.kept
    exact ⟨done ++ done', hp.trans rules.ids hp'⟩

/-- With nothing left pending the conversation has visited the stages of all pending rules. -/
theorem Progress.trail_eq {done : List Rule} (h : Progress R msg rules.rules s s' done []) :
    s'.trail msg.tenantID msg.conversationID =
      (s.trail msg.tenantID msg.conversationID).visit (goals msg s (pending R msg s rules.rules)) := by
  rw [h.split, append_nil]
  rcases h.trail with h | ⟨q, t, hq, -⟩
  · exact h
  · cases hq

/-- With nothing left pending every firing rule has its row. -/
theorem Progress.recorded_of_fires {done : List Rule} (h : Progress R msg rules.rules s s' done []) {rule : Rule} (hr : rule ∈ rules.rules)
    (hf : fires R msg rule = true) : s'.recorded msg rule = true := by
  have hnil := h.pending_eq rules.ids
  by_contra hrec
  have hmem : rule ∈ pending R msg s' rules.rules := by
    refine mem_filter.mpr ⟨hr, ?_⟩
    rw [hf, Bool.eq_false_iff.mpr hrec]
    rfl
  rw [hnil] at hmem
  cases hmem

theorem length_rows_eq_one {rule : Rule} (h : s.recorded msg rule = true) :
    (s.applications.filter fun a => a.ruleID = rule.id ∧ a.messageID = msg.messageID).length = 1 := by
  obtain ⟨a, ha, hrow⟩ := any_eq_true.mp h
  obtain ⟨-, hrule, hmsg⟩ := of_decide_eq_true hrow
  have hmem : a ∈ s.applications.filter fun a => a.ruleID = rule.id ∧ a.messageID = msg.messageID :=
    mem_filter.mpr ⟨ha, decide_eq_true ⟨hrule, hmsg⟩⟩
  have hnodup : ((s.applications.filter fun a => a.ruleID = rule.id ∧ a.messageID = msg.messageID).map
      fun a => (a.ruleID, a.messageID)).Nodup := s.applied.sublist (filter_sublist.map _)
  have hpair : ∀ x ∈ (s.applications.filter fun a => a.ruleID = rule.id ∧ a.messageID = msg.messageID).map
      fun a => (a.ruleID, a.messageID), x = (rule.id, msg.messageID) := by
    intro x hx
    obtain ⟨b, hb, rfl⟩ := mem_map.mp hx
    obtain ⟨hr, hm⟩ := of_decide_eq_true (mem_filter.mp hb).2
    rw [hr, hm]
  have hle := nodup_iff_count_le_one.mp hnodup (rule.id, msg.messageID)
  rw [count_eq_length.mpr fun x hx => (hpair x hx).symm, length_map] at hle
  exact Nat.le_antisymm hle (length_pos_of_mem hmem)

end Redelivery

theorem attempt_serve (site : Site) (rules : RuleSet) (hr : site.resolved = rules.rules) (q : Req) (s : FunnelDB) :
    attempt rules q s (serve site q s).1 (serve site q s).2 := by
  refine ⟨exec_serve site q s, ?_⟩
  cases q with
  | resolve t c =>
    intro l hl
    exact (Except.ok.inj hl).symm.trans hr
  | _ => trivial

theorem delivery_serve (site : Site) (rules : RuleSet) (hr : site.resolved = rules.rules)
    (h : ∀ s t, site.accepts s t = true → s.Later t) (q : Req) (s : FunnelDB) : delivery rules q s (serve site q s).1 (serve site q s).2 := by
  refine ⟨attempt_serve site rules hr q s, ?_⟩
  cases q with
  | create t => exact (serve_create site t s).imp_right (h s t)
  | _ => trivial

/-! ## Two rules that fire -/

def plainRuntime : Runtime := ⟨CaseTables.ascii, fun _ _ => none⟩

/-- A rule of tenant 1 that moves a conversation to `key` when a message says `oi`. -/
def greetingRule (id : UUID) (key : String) : Rule where
  id := id
  tenantID := 1
  channel := ""
  teamID := none
  name := key
  triggerType := .messageContains
  triggerConfig := [("phrase", .str "oi")]
  actionType := .moveToStage
  actionConfig := [("stage_key", .str key)]
  enabled := true
  createdAt := 0
  updatedAt := 0

def twoRules : RuleSet := ⟨[greetingRule 21 "novo", greetingRule 22 "ganho"], by decide⟩

def greeting : InboundMessage := ⟨1, 2, 3, "webchat", "Oi!", 0⟩

def freshFunnel : FunnelDB where
  stages := [⟨11, 1, "novo"⟩, ⟨12, 1, "ganho"⟩]
  transitions := []
  applications := []
  published := []
  stageKeys := by decide
  transitionIDs := by decide
  applied := by decide

def ticking (s : FunnelDB) : Time := 1000000000 * (s.transitions.length + 1)

/-- The rules of `twoRules`, a clock that ticks, and announcements that get through when `up`. -/
def orderly (up : Bool) : Site := ⟨twoRules.rules, ticking, up, fun s t => s.Later t⟩

theorem orderly_serves (up : Bool) (q : Req) (s : FunnelDB) : delivery twoRules q s (serve (orderly up) q s).1 (serve (orderly up) q s).2 :=
  delivery_serve (orderly up) twoRules rfl (fun _ _ => of_decide_eq_true) q s

theorem kept_freshFunnel : Kept greeting freshFunnel := ⟨.nil, fun _ h => absurd h not_mem_nil⟩

/-- The rules of `twoRules`, and a clock that has gone back by a second after the first transition. -/
def backwards (up : Bool) : Site := ⟨twoRules.rules, fun s => if s.transitions = [] then 2000000000 else 1000000000, up, fun _ _ => true⟩

end Crm.Funnel
