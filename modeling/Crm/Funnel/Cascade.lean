import Mathlib.Data.Prod.Lex
import Mathlib.Data.String.Basic
import Crm.Funnel.Rules

/-!
# Crm.Funnel.Cascade — which of the candidate rules are in force

`cascade` sorts the enabled candidates by scope, age and id and walks over them; of the rules with one trigger signature the first is
adopted and shadows the rest.  `cascade_spec` describes the outcome without the walk, and `shadowing_sound` says what a rule that is shadowed
has in common with the one that shadows it.
-/

namespace Crm.Funnel

open Text InMemoryRepository List

/-! ## Signatures -/

inductive Field : Type
  | phrase
  | campaignID
  | slug
  | regex
  deriving DecidableEq, Repr

def Field.type : Field → TriggerType
  | .phrase => .messageContains
  | .campaignID => .campaignClick
  | .slug => .campaignClick
  | .regex => .messageKeywordRegex

/-- The trigger type and the name of the field, as a signature begins. -/
def Field.text : Field → String
  | .phrase => "message_contains:phrase="
  | .campaignID => "campaign_click:campaign_id="
  | .slug => "campaign_click:slug="
  | .regex => "message_keyword_regex:regex="

variable (T : CaseTables)

def canonicalise (s : String) : String := T.lower (trimSpace s)

/-- The field of a signature and its value; the case of a regular expression matters. -/
def signatureParts (r : Rule) : Option (Field × String) :=
  match r.triggerType with
  | .messageContains => (stringField r.triggerConfig "phrase").map fun v => (.phrase, canonicalise T v)
  | .campaignClick => ((stringField r.triggerConfig "campaign_id").map fun v => (.campaignID, trimSpace v)).or
      ((stringField r.triggerConfig "slug").map fun v => (.slug, canonicalise T v))
  | .messageKeywordRegex => (stringField r.triggerConfig "regex").map fun v => (.regex, trimSpace v)
  | .unknown _ => none

def triggerSignature (r : Rule) : String := (signatureParts T r).elim "" fun p => p.1.text ++ p.2

/-! ## The walk -/

structure ResolvedRule where
  rule : Rule
  sourceScope : Scope
  deriving DecidableEq, Repr

/-- The walk over the sorted candidates, with the signatures it has seen. -/
def adopt (T : CaseTables) : List String → List Rule → List ResolvedRule
  | _, [] => []
  | seen, rule :: rest =>
    let sig := triggerSignature T rule
    if sig ≠ "" then
      if sig ∈ seen then adopt T seen rest
      else ⟨rule, rule.scope⟩ :: adopt T (sig :: seen) rest
    else ⟨rule, rule.scope⟩ :: adopt T seen rest

def cascade (candidates : List Rule) : List ResolvedRule :=
  adopt T [] ((candidates.filter fun c => c.enabled).insertionSort fun a b => ¬ less b a)

/-! ## The order -/

def orderKey (r : Rule) : ℕ ×ₗ Time ×ₗ String := toLex (scopeRank r.scope, toLex (r.createdAt, r.id.string))

variable {a b r : Rule}

theorem less_iff : less a b = true ↔ orderKey a < orderKey b := by
  unfold less orderKey
  rw [Prod.Lex.toLex_lt_toLex, Prod.Lex.toLex_lt_toLex]
  split_ifs with hrank htime
  · simp [hrank]
  · simp [not_not.mp hrank, htime]
  · simp [not_not.mp hrank, not_not.mp htime]

theorem orderKey_inj (h : orderKey a = orderKey b) : a.id = b.id := by
  obtain ⟨-, h⟩ := Prod.mk.inj (toLex.injective h)
  exact UUID.string_injective (Prod.mk.inj (toLex.injective h)).2

/-- Sorted candidates with distinct ids stand in strict order. -/
theorem pairwise_sorted {l : List Rule} (hids : (l.map Rule.id).Nodup) :
    (l.insertionSort fun a b => ¬ less b a).Pairwise fun a b => orderKey a < orderKey b := by
  have htotal : Std.Total fun a b : Rule => ¬ less b a = true := ⟨fun a b => by
    rw [less_iff, less_iff, not_lt, not_lt]
    exact le_total _ _⟩
  have htrans : IsTrans Rule fun a b => ¬ less b a = true := ⟨fun a b c hab hbc => by
    rw [less_iff, not_lt] at hab hbc ⊢
    exact hab.trans hbc⟩
  have hnodup : (l.insertionSort fun a b => ¬ less b a).Pairwise fun a b => a.id ≠ b.id :=
    pairwise_map.mp (((perm_insertionSort _ l).map Rule.id).nodup_iff.mpr hids)
  refine (pairwise_insertionSort (fun a b : Rule => ¬ less b a = true) l).imp₂ (fun a b hle hne => ?_) hnodup
  rw [less_iff, not_lt] at hle
  exact lt_of_le_of_ne hle fun heq => hne (orderKey_inj heq)

/-! ## The outcome -/

section Outcome

variable {T : CaseTables} {seen : List String} {l : List Rule} {x : ResolvedRule}

theorem adopt_sublist (T : CaseTables) : ∀ (seen : List String) (l : List Rule), ((adopt T seen l).map ResolvedRule.rule).Sublist l
  | _, [] => .slnil
  | seen, rule :: rest => by
    unfold adopt
    dsimp only
    split_ifs
    · exact (adopt_sublist T seen rest).cons rule
    · exact (adopt_sublist T _ rest).cons_cons rule
    · exact (adopt_sublist T seen rest).cons_cons rule

/-- Of a sorted list the walk adopts the rules without signature, and those that no smaller rule shadows. -/
theorem mem_adopt (hl : l.Pairwise fun a b => orderKey a < orderKey b) : x ∈ adopt T seen l ↔ x.sourceScope = x.rule.scope ∧ x.rule ∈ l ∧
    (triggerSignature T x.rule ≠ "" → triggerSignature T x.rule ∉ seen ∧
      ∀ r ∈ l, triggerSignature T r = triggerSignature T x.rule → r = x.rule ∨ orderKey x.rule < orderKey r) := by
  -- the induction follows the walk; the signatures seen so far are those of smaller rules
  induction l generalizing seen with
  | nil => simp [adopt]
  | cons a l ih =>
    obtain ⟨ha, hl⟩ := pairwise_cons.mp hl
    have hx : x = ⟨a, a.scope⟩ ↔ x.sourceScope = x.rule.scope ∧ x.rule = a := by
      constructor
      · rintro rfl
        exact ⟨rfl, rfl⟩
      · rintro ⟨hs, rfl⟩
        cases x
        exact congrArg _ hs
    have hirr : ∀ r ∈ l, ¬ orderKey r < orderKey a := fun r hr => lt_asymm (ha r hr)
    unfold adopt
    dsimp only
    split_ifs with hsig hseen
    · rw [ih hl]
      grind
    · rw [mem_cons, hx, ih hl]
      grind
    · rw [mem_cons, hx, ih hl]
      grind

theorem exists_adopted (hr : r ∈ l) (hsig : triggerSignature T r ≠ "") (hseen : triggerSignature T r ∉ seen) :
    ∃ x ∈ adopt T seen l, triggerSignature T x.rule = triggerSignature T r := by
  induction l generalizing seen with
  | nil => cases hr
  | cons a l ih =>
    unfold adopt
    by_cases ha : triggerSignature T a = triggerSignature T r
    · exact ⟨⟨a, a.scope⟩, by simp [ha, hsig, hseen], ha⟩
    obtain rfl | hr := mem_cons.mp hr
    · exact absurd rfl ha
    dsimp only
    split_ifs
    · exact ih hr hseen
    · have hnew : triggerSignature T r ∉ triggerSignature T a :: seen := by simp [Ne.symm ha, hseen]
      obtain ⟨x, hx, hxr⟩ := ih hr hnew
      exact ⟨x, mem_cons_of_mem _ hx, hxr⟩
    · obtain ⟨x, hx, hxr⟩ := ih hr hseen
      exact ⟨x, mem_cons_of_mem _ hx, hxr⟩

end Outcome

/-- The candidate is in force: it is enabled, and no enabled candidate with its signature comes before it, if it has one. -/
def Wins (candidates : List Rule) (r : Rule) : Prop :=
  r ∈ candidates ∧ r.enabled = true ∧ (triggerSignature T r ≠ "" →
    ∀ r' ∈ candidates, r'.enabled = true → triggerSignature T r' = triggerSignature T r → r' = r ∨ less r r' = true)

section Spec

variable {T : CaseTables} {candidates : List Rule}

theorem mem_cascade (hids : (candidates.map Rule.id).Nodup) (x : ResolvedRule) :
    x ∈ cascade T candidates ↔ x.sourceScope = x.rule.scope ∧ Wins T candidates x.rule := by
  have hsorted := pairwise_sorted (((filter_sublist (p := fun c : Rule => c.enabled)).map Rule.id).nodup hids)
  rw [cascade, mem_adopt hsorted]
  simp only [mem_insertionSort, mem_filter, Wins, less_iff, not_mem_nil, not_false_eq_true, true_and, and_assoc, and_imp]

theorem pairwise_cascade (hids : (candidates.map Rule.id).Nodup) :
    (cascade T candidates).Pairwise fun x y => orderKey x.rule < orderKey y.rule := by
  have hsorted := pairwise_sorted (((filter_sublist (p := fun c : Rule => c.enabled)).map Rule.id).nodup hids)
  have hrules := hsorted.sublist (adopt_sublist T [] _)
  rwa [pairwise_map] at hrules

theorem exists_winner (hr : r ∈ candidates) (hen : r.enabled = true) (hsig : triggerSignature T r ≠ "") :
    ∃ x ∈ cascade T candidates, triggerSignature T x.rule = triggerSignature T r :=
  exists_adopted (by simp [hr, hen]) hsig not_mem_nil

theorem mem_of_cascade {x : ResolvedRule} (h : x ∈ cascade T candidates) : x.rule ∈ candidates := by
  have hmem := (adopt_sublist T [] _).subset (mem_map_of_mem h)
  simp only [mem_insertionSort, mem_filter] at hmem
  exact hmem.1

/-- Winners with one signature come before each other. -/
theorem cascade_unique (hids : (candidates.map Rule.id).Nodup) {x y : ResolvedRule} (hx : x ∈ cascade T candidates) (hy : y ∈ cascade T candidates)
    (heq : triggerSignature T x.rule = triggerSignature T y.rule) (hsig : triggerSignature T y.rule ≠ "") : x = y := by
  obtain ⟨hsx, hmx, hex, hwx⟩ := (mem_cascade hids x).mp hx
  obtain ⟨hsy, hmy, hey, hwy⟩ := (mem_cascade hids y).mp hy
  have hrule : x.rule = y.rule := by
    rcases hwx (heq ▸ hsig) _ hmy hey heq.symm with h | h
    · exact h.symm
    rcases hwy hsig _ hmx hex heq with h' | h'
    · exact h'
    exact absurd (less_iff.mp h) (lt_asymm (less_iff.mp h'))
  cases x
  cases y
  grind

/-- Two candidate lists with the same winners have the same outcome. -/
theorem cascade_congr {candidates' : List Rule} (hids : (candidates.map Rule.id).Nodup) (hids' : (candidates'.map Rule.id).Nodup)
    (h : ∀ r, Wins T candidates r ↔ Wins T candidates' r) : cascade T candidates = cascade T candidates' := by
  have hanti : Std.Antisymm fun x y : ResolvedRule => orderKey x.rule < orderKey y.rule := ⟨fun _ _ h h' => absurd h (lt_asymm h')⟩
  have hirr : Std.Irrefl fun x y : ResolvedRule => orderKey x.rule < orderKey y.rule := ⟨fun _ => lt_irrefl _⟩
  refine (pairwise_cascade hids).eq_of_mem_iff (pairwise_cascade hids') fun x => ?_
  rw [mem_cascade hids, mem_cascade hids', h]

end Spec

/-- **The cascade.**  Its outcome stands in the order of scope, creation time and id, and is the winners, each with its scope: one for
each signature of an enabled candidate, and all enabled candidates without one.  Neither the order of the candidates nor a disabled one
matters. -/
theorem cascade_spec {candidates : List Rule} (hids : (candidates.map Rule.id).Nodup) :
    ((cascade T candidates).Pairwise fun x y => less x.rule y.rule = true) ∧
      (∀ x, x ∈ cascade T candidates ↔ x.sourceScope = x.rule.scope ∧ Wins T candidates x.rule) ∧
      (∀ r ∈ candidates, r.enabled = true → triggerSignature T r ≠ "" →
        ∃! x, x ∈ cascade T candidates ∧ triggerSignature T x.rule = triggerSignature T r) ∧
      (∀ candidates', candidates'.Perm candidates → cascade T candidates' = cascade T candidates) ∧
      cascade T (candidates.filter fun c => c.enabled) = cascade T candidates := by
  refine ⟨(pairwise_cascade hids).imp fun h => less_iff.mpr h, mem_cascade hids, fun r hr hen hsig => ?_, fun l hl => ?_, ?_⟩
  · obtain ⟨x, hx, hxr⟩ := exists_winner hr hen hsig
    exact ⟨x, ⟨hx, hxr⟩, fun y hy => cascade_unique hids hy.1 hx (hy.2.trans hxr.symm) (hxr ▸ hsig)⟩
  · refine cascade_congr ((hl.map Rule.id).nodup_iff.mpr hids) hids fun r => ?_
    simp only [Wins, hl.mem_iff]
  · refine cascade_congr ((filter_sublist.map Rule.id).nodup hids) hids fun r => ?_
    simp only [Wins, mem_filter]
    grind

theorem cascade_spec_channel : ∃ a b c : Rule, triggerSignature .ascii a = triggerSignature .ascii b ∧ triggerSignature .ascii b = triggerSignature .ascii c ∧
    ([a, b, c].map Rule.id).Nodup ∧ cascade .ascii [c, b, a] = cascade .ascii [a, b, c] ∧ cascade .ascii [a, b, c] = [⟨b, .channel⟩] := by
  let rule (id : UUID) (channel : String) (enabled : Bool) (at' : Time) : Rule :=
    ⟨id, 1, channel, none, "rule", .messageContains, [("phrase", .str "promo")], .moveToStage, [("stage_key", .str "won")], enabled, at', at'⟩
  have hids : ([rule 1 "" true 1, rule 2 "whatsapp" true 2, rule 3 "whatsapp" false 0].map Rule.id).Nodup := by decide
  refine ⟨rule 1 "" true 1, rule 2 "whatsapp" true 2, rule 3 "whatsapp" false 0, by decide, by decide, hids, ?_, by decide +kernel⟩
  exact (cascade_spec .ascii hids).2.2.2.1 _ (by decide)

/-! ## What a signature says -/

def Accepted (r : Rule) : Prop := ∃ fresh clock f, newRule fresh clock f = .ok r

/-- What a rule waits for: the field of its trigger that is not blank, normalised. -/
def effectiveTrigger (r : Rule) : Option (Field × String) :=
  match r.triggerType with
  | .messageContains => (keyField r.triggerConfig "phrase").map fun v => (.phrase, T.lower v)
  | .campaignClick => ((keyField r.triggerConfig "campaign_id").map fun v => (.campaignID, v)).or
      ((keyField r.triggerConfig "slug").map fun v => (.slug, T.lower v))
  | .messageKeywordRegex => (keyField r.triggerConfig "regex").map fun v => (.regex, v)
  | .unknown _ => none

def Spelled (r : Rule) : Prop := ∀ v, stringField r.triggerConfig "campaign_id" = some v → trimSpace v ≠ ""

section Signatures

variable {T : CaseTables} {p q : Field × String}

/-- No field begins as another does, so the signature determines the field and the value. -/
theorem signature_inj (h : p.1.text ++ p.2 = q.1.text ++ q.2) : p = q := by
  have hfree : ∀ f g : Field, f.text.toList <+: g.text.toList → f = g := by
    intro f g
    cases f <;> cases g <;> decide
  have hlist : p.1.text.toList ++ p.2.toList = q.1.text.toList ++ q.2.toList := by rw [← String.toList_append, ← String.toList_append, h]
  have hfield : p.1 = q.1 := by
    rcases prefix_or_prefix_of_prefix (prefix_append p.1.text.toList p.2.toList) (hlist ▸ prefix_append q.1.text.toList q.2.toList)
      with hle | hle
    · exact hfree _ _ hle
    · exact (hfree _ _ hle).symm
  rw [hfield] at hlist
  exact Prod.ext hfield (String.toList_inj.mp (append_cancel_left hlist))

theorem keyField_of_none {m : Config} {k : String} (h : stringField m k = none) : keyField m k = none := by
  simp [keyField, h]

theorem keyField_of_some {m : Config} {k v : String} (h : stringField m k = some v) : keyField m k = if trimSpace v = "" then none else some (trimSpace v) := by
  by_cases hv : trimSpace v = "" <;> simp [keyField, h, hv, Option.filter]

/-- An accepted rule has a signature, and that is what the rule waits for if its campaign id is spelled out. -/
theorem Accepted.parts (h : Accepted r) (T : CaseTables) :
    (∃ p, signatureParts T r = some p) ∧ (Spelled r → signatureParts T r = effectiveTrigger T r) := by
  obtain ⟨fresh, clock, f, h⟩ := h
  obtain ⟨rfl, -⟩ := newRule_ok h
  have hvalid : f.triggerType.known = true ∧ validateTriggerConfig f.triggerType f.triggerConfig = .ok () := by
    unfold newRule at h
    split_ifs at h with _ _ hknown
    split at h
    · cases h
    · cases h
    · exact ⟨hknown, by assumption⟩
  obtain ⟨hknown, hvalid⟩ := hvalid
  cases ht : f.triggerType with
  | messageContains =>
    cases hv : stringField f.triggerConfig "phrase" with
    | none => simp [ht, validateTriggerConfig, keyField_of_none hv] at hvalid
    | some v =>
    have hne : trimSpace v ≠ "" := fun hb => by simp [ht, validateTriggerConfig, keyField_of_some hv, hb] at hvalid
    simp [signatureParts, effectiveTrigger, RuleForm.rule, ht, hv, keyField_of_some hv, hne, canonicalise]
  | campaignClick =>
    cases hc : stringField f.triggerConfig "campaign_id" with
    | some v =>
      refine ⟨⟨(.campaignID, trimSpace v), by simp [signatureParts, RuleForm.rule, ht, hc]⟩, fun hs => ?_⟩
      simp [signatureParts, effectiveTrigger, RuleForm.rule, ht, hc, keyField_of_some hc, hs v hc]
    | none =>
    cases hv : stringField f.triggerConfig "slug" with
    | none => simp [ht, validateTriggerConfig, keyField_of_none hc, keyField_of_none hv] at hvalid
    | some v =>
    have hne : trimSpace v ≠ "" := fun hb => by simp [ht, validateTriggerConfig, keyField_of_none hc, keyField_of_some hv, hb] at hvalid
    simp [signatureParts, effectiveTrigger, RuleForm.rule, ht, hc, hv, keyField_of_none hc, keyField_of_some hv, hne, canonicalise]
  | messageKeywordRegex =>
    cases hv : stringField f.triggerConfig "regex" with
    | none => simp [ht, validateTriggerConfig, keyField_of_none hv] at hvalid
    | some v =>
    have hne : trimSpace v ≠ "" := fun hb => by simp [ht, validateTriggerConfig, keyField_of_some hv, hb] at hvalid
    simp [signatureParts, effectiveTrigger, RuleForm.rule, ht, hv, keyField_of_some hv, hne]
  | unknown text =>
  rw [ht] at hknown
  cases hknown

def matchParts (R : Runtime) (msg : InboundMessage) : Field × String → Bool
  | (.phrase, needle) => needle ≠ "" && Text.contains (R.tables.lower msg.body) needle
  | (.regex, expr) => expr ≠ "" && (R.matchString expr msg.body).getD false
  | _ => false

theorem match_of_parts (R : Runtime) (h : signatureParts R.tables r = some p) :
    r.triggerType = p.1.type ∧ ∀ msg, matchTrigger R r msg = matchParts R msg p := by
  unfold signatureParts at h
  split at h
  · rename_i ht
    obtain ⟨v, hv, rfl⟩ := Option.map_eq_some_iff.mp h
    refine ⟨ht, fun msg => ?_⟩
    simp only [matchTrigger, ht, hv, matchParts, canonicalise]
    split_ifs with hb <;> simp [hb]
  · rename_i ht
    rcases Option.or_eq_some_iff.mp h with h | ⟨-, h⟩
    · obtain ⟨v, hv, rfl⟩ := Option.map_eq_some_iff.mp h
      exact ⟨ht, fun msg => by simp [matchTrigger, ht, matchParts]⟩
    · obtain ⟨v, hv, rfl⟩ := Option.map_eq_some_iff.mp h
      exact ⟨ht, fun msg => by simp [matchTrigger, ht, matchParts]⟩
  · rename_i ht
    obtain ⟨v, hv, rfl⟩ := Option.map_eq_some_iff.mp h
    refine ⟨ht, fun msg => ?_⟩
    simp only [matchTrigger, ht, hv, matchParts]
    split_ifs with hb
    · simp [hb]
    · cases R.matchString (trimSpace v) msg.body <;> simp [hb]
  · cases h

theorem same_trigger (R : Runtime) {r₁ r₂ : Rule} (h1 : Accepted r₁) (h2 : Accepted r₂)
    (hsig : triggerSignature R.tables r₁ = triggerSignature R.tables r₂) :
    r₁.triggerType = r₂.triggerType ∧ (∀ msg, matchTrigger R r₁ msg = matchTrigger R r₂ msg) ∧
      (Spelled r₁ → Spelled r₂ → effectiveTrigger R.tables r₁ = effectiveTrigger R.tables r₂) := by
  obtain ⟨⟨p, hp⟩, he1⟩ := h1.parts R.tables
  obtain ⟨⟨q, hq⟩, he2⟩ := h2.parts R.tables
  simp only [triggerSignature, hp, hq, Option.elim_some] at hsig
  obtain rfl := signature_inj hsig
  obtain ⟨ht1, hm1⟩ := match_of_parts R hp
  obtain ⟨ht2, hm2⟩ := match_of_parts R hq
  exact ⟨ht1.trans ht2.symm, fun msg => (hm1 msg).trans (hm2 msg).symm, fun hs1 hs2 => by rw [← he1 hs1, ← he2 hs2, hp, hq]⟩

theorem Accepted.signature_ne (h : Accepted r) (T : CaseTables) : triggerSignature T r ≠ "" := by
  obtain ⟨⟨⟨f, v⟩, hp⟩, -⟩ := h.parts T
  intro hempty
  cases f <;> simp [triggerSignature, hp, Field.text] at hempty

end Signatures

def triggerForm (id : UUID) (t : TriggerType) (cfg : Config) : RuleForm :=
  ⟨id, 1, "", none, "rule", t, cfg, .moveToStage, [("stage_key", .str "won")], true, 1⟩

end Crm.Funnel
