import Crm.Assist.Summarize
import Crm.Lib.Unwinding

/-!
# Crm.Assist.Privacy — what a prompt can reach

`Summarize` gives its prompt to the anonymizer and, under a policy that asks for it, to nothing else.  `Alike` relates two programs that differ only in
the texts they give to the anonymizer; two calls with prompts that are anonymized alike are such programs, so the other ports see the same requests and
the callers get the same answers.  What goes to the model is the structured context, which shows the fields that may be shown and no other, and
behind it the anonymized text (`cleartext_confined`).
-/

namespace Crm.Assist

open Interleave Interleave.Prog Unwinding List

/-- The anonymizer answers by `anon`, and the resolver with `policy` if it does not fail. -/
def Answered (anon : String → Except Err String) (policy : Policy) : (q : Req) → Resp q → Prop
  | .anonymize text, r => r = anon text
  | .resolve _ _, r => ∀ p, r = .ok p → p = policy
  | _, _ => True

/-- The requests to the other ports. -/
def Req.outside : Req → Bool
  | .anonymize _ => false
  | _ => true

def Withheld (policy : Policy) (f : LGPDField) : Prop :=
  f.tier = .red ∨ f.tier = .yellow ∧ f.name ∉ policy.structuredFields.map Text.trimSpace

/-- The text shows no withheld field, unless inside `body` at its end. -/
def Confined (policy : Policy) (body text : String) : Prop :=
  ∃ context : String, text = context ++ body ∧ ∀ f ∈ lgpdFieldCatalog, Withheld policy f →
    ∀ l r : List Char, text.toList = l ++ f.promptForm.toList ++ r → context.toList.length ≤ l.length

/-! ## Two prompts -/

section Alike

variable {anon : String → Except Err String} {policy : Policy} {α β : Type}

/-- Two programs that differ only in the texts they give to the anonymizer. -/
inductive Alike (anon : String → Except Err String) (policy : Policy) : Client α → Client α → Prop
  | refl (p : Client α) : Alike anon policy p p
  | hidden {t t' : String} {k k' : Except Err String → Client α} (h : Alike anon policy (k (anon t)) (k' (anon t'))) :
      Alike anon policy (.ask (.anonymize t) k) (.ask (.anonymize t') k')
  | ask {q : Req} {k k' : Resp q → Client α} (h : ∀ r, Answered anon policy q r → Alike anon policy (k r) (k' r)) :
      Alike anon policy (.ask q k) (.ask q k')

theorem Alike.bind {p p' : Client α} {f f' : α → Client β} (hp : Alike anon policy p p') (hf : ∀ a, Alike anon policy (f a) (f' a)) :
    Alike anon policy (p >>= f) (p' >>= f') := by
  induction hp with
  | refl p =>
    induction p with
    | ret a => exact hf a
    | ask q k ih => exact .ask fun r _ => ih r
  | hidden _ ih => exact .hidden ih
  | ask _ ih => exact .ask ih

/-- Alike programs have the same runs, up to what the anonymizer sees. -/
theorem Alike.runs {p p' : Client α} (h : Alike anon policy p p') {s s' : AssistDB} {l : List (Exchange Req Resp AssistDB)} {a : α}
    (hrun : Runs exec p s l a s') (hans : ∀ x ∈ l, Answered anon policy x.q x.r) :
    ∃ l', Runs exec p' s l' a s' ∧ (∀ x ∈ l', Answered anon policy x.q x.r) ∧ l'.filter (·.q.outside) = l.filter (·.q.outside) := by
  induction h generalizing s l with
  | refl p => exact ⟨l, hrun, hans, rfl⟩
  | @hidden t t' k k' _ ih =>
    obtain ⟨r, s₁, l₁, rfl, he, hk⟩ := hrun.ask_inv
    obtain ⟨hr, hrest⟩ := forall_mem_cons.mp hans
    obtain rfl : r = anon t := hr
    obtain rfl : s₁ = s := he
    obtain ⟨l', hl', hans', hsame⟩ := ih hk hrest
    exact ⟨⟨.anonymize t', anon t', s₁, s₁⟩ :: l', .ask rfl hl', forall_mem_cons.mpr ⟨rfl, hans'⟩, hsame⟩
  | ask _ ih =>
    obtain ⟨r, s₁, l₁, rfl, he, hk⟩ := hrun.ask_inv
    obtain ⟨hr, hrest⟩ := forall_mem_cons.mp hans
    obtain ⟨l', hl', hans', hsame⟩ := ih r hr hk hrest
    exact ⟨_ :: l', .ask he hl', forall_mem_cons.mpr ⟨hr, hans'⟩, by rw [filter_cons, filter_cons, hsame]⟩

variable {svc : Service} {req : SummarizeRequest} {t t' : String}

theorem alike_checkConsent (he : anon t = anon t') :
    Alike anon policy (checkConsent svc { req with prompt := t } policy) (checkConsent svc { req with prompt := t' } policy) := by
  by_cases hc : policy.consentRequired = true
  · cases hv : svc.anonymizerVersion with
    | none => simpa only [checkConsent, hc, hv] using Alike.refl _
    | some version =>
      by_cases hp : policy.promptVersion = ""
      · simp only [checkConsent, hc, hv, if_pos hp, not_true_eq_false, if_false]
        exact .refl _
      simp only [checkConsent, hc, hv, if_neg hp, send_bind, not_true_eq_false, if_false]
      refine .hidden ?_
      rw [he]
      cases anon t' <;> exact .refl _
  · simp only [checkConsent, hc, Bool.false_eq_true, not_false_eq_true, if_true]
    exact .refl _

theorem alike_checkRateLimit :
    Alike anon policy (checkRateLimit svc { req with prompt := t }) (checkRateLimit svc { req with prompt := t' }) := by
  unfold checkRateLimit
  cases svc.rateLimitBucket with
  | none => exact .refl _
  | some bucket =>
  refine .ask fun r _ => ?_
  rcases r with e | _ | _ <;> exact .refl _

theorem alike_lookupCache {now : Time} :
    Alike anon policy (lookupCache { req with prompt := t } now) (lookupCache { req with prompt := t' } now) := by
  unfold lookupCache
  dsimp only
  cases req.force with
  | true => exact .refl _
  | false => exact .ask fun r _ => by cases r <;> exact .refl _

theorem alike_reserveAndCall {text : String} :
    Alike anon policy (reserveAndCall { req with prompt := t } policy text) (reserveAndCall { req with prompt := t' } policy text) := by
  simp only [reserveAndCall, send_bind, pure_eq]
  refine .ask fun r _ => ?_
  cases r with
  | error e => exact .refl _
  | ok reservation =>
  refine .ask fun r _ => ?_
  cases r with
  | error e => exact .ask fun r _ => by cases r <;> exact .refl _
  | ok llmResp => exact .refl _

theorem alike_commitAndPersist {r : Wallet.Reservation} {llmResp : LLMResponse} {now : Time} :
    Alike anon policy (commitAndPersist svc { req with prompt := t } policy r llmResp now)
      (commitAndPersist svc { req with prompt := t' } policy r llmResp now) := by
  simp only [commitAndPersist, send_bind, pure_eq]
  exact .ask fun r _ => by cases r <;> exact .refl _

theorem alike_dispatch (hwired : svc.anonymizerVersion ≠ none) (hpolicy : policy.anonymize = true) (he : anon t = anon t') {now : Time} :
    Alike anon policy (dispatch svc { req with prompt := t } policy now) (dispatch svc { req with prompt := t' } policy now) := by
  have hgate : ¬ (svc.anonymizerVersion = none ∨ ¬ policy.anonymize) := by simp [hwired, hpolicy]
  refine Alike.bind ?_ fun x => ?_
  · simp only [buildDispatchPrompt, anonymizeForDispatch, if_neg hgate, send_bind, ask_bind]
    refine .hidden ?_
    rw [he]
    cases anon t' <;> exact .refl _
  cases x with
  | error e => exact .refl _
  | ok text =>
  refine Alike.bind alike_reserveAndCall fun x => ?_
  cases x with
  | error e => exact .refl _
  | ok x => exact Alike.bind alike_commitAndPersist fun x => by cases x <;> exact .refl _

theorem alike_summarize (hwired : svc.anonymizerVersion ≠ none) (hpolicy : policy.anonymize = true) (ht : t ≠ "") (ht' : t' ≠ "")
    (he : anon t = anon t') :
    Alike anon policy (summarize svc { req with prompt := t }) (summarize svc { req with prompt := t' }) := by
  have hvalid : validate { req with prompt := t } = validate { req with prompt := t' } := by simp only [validate, if_neg ht, if_neg ht']
  simp only [summarize, hvalid, send_bind, pure_eq]
  cases validate { req with prompt := t' } with
  | some e => exact .refl _
  | none =>
  refine .ask fun r hr => ?_
  cases r with
  | error e => exact .refl _
  | ok p =>
  obtain rfl := hr p rfl
  dsimp only
  by_cases hblocked : ¬ p.aiEnabled = true ∨ ¬ p.optIn = true
  · rw [if_pos hblocked, if_pos hblocked]
    exact .refl _
  rw [if_neg hblocked, if_neg hblocked]
  refine (alike_checkConsent he).bind fun x => ?_
  cases x with
  | error e => exact .refl _
  | ok _ =>
  refine Alike.bind alike_checkRateLimit fun x => ?_
  cases x with
  | error e => exact .refl _
  | ok _ =>
  refine .ask fun now _ => Alike.bind alike_lookupCache fun x => ?_
  cases x with
  | error e => exact .refl _
  | ok cached =>
  cases cached with
  | some m => exact .refl _
  | none => exact alike_dispatch hwired hpolicy he

end Alike

/-! ## What the model is shown -/

section Shown

variable {anon : String → Except Err String} {policy : Policy} {svc : Service} {req : SummarizeRequest} {body context : String}

def lined (ls : List String) : List Char := ls.flatMap fun x => x.toList ++ ['\n']

/-- A text without line breaks that is in none of the lines occurs only behind them. -/
theorem length_le_of_occurs {f : List Char} (hf : '\n' ∉ f) : ∀ {ls : List String} {b l r : List Char}, (∀ x ∈ ls, ¬ f <:+: x.toList) →
    lined ls ++ b = l ++ f ++ r → (lined ls).length ≤ l.length
  | [], _, _, _, _, _ => Nat.zero_le _
  | x :: ls, b, l, r, hls, h => by
    obtain ⟨hx, hls⟩ := forall_mem_cons.mp hls
    have hcut : x.toList ++ ('\n' :: (lined ls ++ b)) = l ++ (f ++ r) := by simpa [lined] using h
    -- where the occurrence begins: in the line, at its break, or behind it
    rcases append_eq_append_iff.mp hcut with ⟨l', rfl, hrest⟩ | ⟨c, hc, hrest⟩
    · rcases l' with _ | ⟨y, l'⟩
      · rcases f with _ | ⟨y, f⟩
        · exact absurd nil_infix hx
        · exact absurd ((List.cons.inj hrest).1 ▸ mem_cons_self) hf
      have htail : lined ls ++ b = l' ++ f ++ r := by
        rw [append_assoc]
        exact (List.cons.inj hrest).2
      have := length_le_of_occurs hf hls htail
      simp only [lined, flatMap_cons, length_append, length_cons, length_nil] at *
      omega
    rcases append_eq_append_iff.mp hrest.symm with ⟨d, hd, hr⟩ | ⟨d, hd, -⟩
    · rcases d with _ | ⟨y, d⟩
      · exact absurd ⟨l, [], by rw [hc, hd]; simp⟩ hx
      · rw [hd, (List.cons.inj hr).1] at hf
        simp at hf
    · exact absurd ⟨l, d, by rw [hc, hd, append_assoc]⟩ hx

def headerLine : String := "# Structured customer context (LGPD-classified — never cleartext for PII)"

def shows (ns : List String) (f : LGPDField) : Bool := f.tier = .green || f.tier = .yellow && f.name ∈ ns

theorem block_eq (ns : List String) : (structuredContextHeader ++ String.join (lgpdFieldCatalog.map (renderField ns)) ++ "\n").toList =
    lined (headerLine :: (lgpdFieldCatalog.filter (shows ns)).map LGPDField.promptForm ++ [""]) := by
  have hfields : ∀ fs : List LGPDField, (fs.map (renderField ns)).flatMap String.toList = lined ((fs.filter (shows ns)).map LGPDField.promptForm) := by
    intro fs
    induction fs with
    | nil => rfl
    | cons f fs ih =>
      rw [map_cons, flatMap_cons, ih]
      cases ht : f.tier with
      | yellow => by_cases hn : f.name ∈ ns <;> simp [renderField, shows, lined, ht, hn]
      | _ => simp [renderField, shows, lined, ht]
  have hheader : structuredContextHeader.toList = headerLine.toList ++ ['\n'] := by decide +kernel
  rw [String.toList_append, String.toList_append, String.toList_join, hfields, hheader]
  simp [lined]

-- no form is part of another line
theorem forms_apart : (lgpdFieldCatalog.all fun f => f.tier = .green ||
    (!('\n' ∈ f.promptForm.toList) && !decide (f.promptForm.toList <:+: headerLine.toList) && !decide (f.promptForm.toList <:+: []) &&
      lgpdFieldCatalog.all fun g => g.tier = .red || (g.name = f.name && g.tier = f.tier) ||
        !decide (f.promptForm.toList <:+: g.promptForm.toList))) = true := by decide +kernel

/-- **The text behind the block** is the only part that may show a withheld field. -/
theorem confined_of_assemble (h : assembleStructuredContext policy.structuredFields = .ok context) (body : String) :
    Confined policy body (context ++ "\n" ++ body) := by
  unfold assembleStructuredContext at h
  dsimp only at h
  cases hf : (policy.structuredFields.map Text.trimSpace).findSome? optInError with
  | some e => rw [hf] at h; cases h
  | none =>
  rw [hf] at h
  cases h
  refine ⟨_, rfl, fun f hmem hheld l r hocc => ?_⟩
  have hapart := all_eq_true.mp forms_apart f hmem
  have hgreen : f.tier ≠ .green := fun hg => by rcases hheld with h | ⟨h, -⟩ <;> rw [hg] at h <;> cases h
  simp only [hgreen, decide_false, Bool.false_or, Bool.and_eq_true, Bool.not_eq_true', decide_eq_false_iff_not] at hapart
  obtain ⟨⟨⟨hline, hhead⟩, hempty⟩, hothers⟩ := hapart
  rw [String.toList_append, block_eq] at hocc
  rw [block_eq]
  refine length_le_of_occurs hline (fun x hx => ?_) hocc
  rcases mem_append.mp hx with hx | hx
  · rcases mem_cons.mp hx with rfl | hx
    · exact hhead
    obtain ⟨g, hg, rfl⟩ := mem_map.mp hx
    obtain ⟨hg, hshown⟩ := mem_filter.mp hg
    have hgf := all_eq_true.mp hothers g hg
    simp only [shows, Bool.or_eq_true, Bool.and_eq_true, decide_eq_true_eq, Bool.not_eq_true', decide_eq_false_iff_not] at hgf hshown
    rcases hgf with (hred | ⟨hname, htier⟩) | hgf
    · simp [hred] at hshown
    · rcases hheld with hred | ⟨hyellow, hnot⟩
      · simp [htier, hred] at hshown
      · simp [htier, hyellow, hname] at hshown
        exact absurd (mem_map.mpr hshown) hnot
    · exact hgf
  · rw [mem_singleton.mp hx]
    exact hempty

def Shown (anon : String → Except Err String) (policy : Policy) (prompt : String) : Req → Prop
  | .complete r => ∃ body, anon prompt = .ok body ∧ Confined policy body r.prompt
  | _ => True

theorem asks_checkConsent : Asks (Answered anon policy) (Shown anon policy req.prompt) (checkConsent svc req policy) := by
  by_cases hc : policy.consentRequired = true
  · cases hv : svc.anonymizerVersion with
    | none => simp only [checkConsent, hc, hv]; trivial
    | some version =>
      by_cases hp : policy.promptVersion = ""
      · simp only [checkConsent, hc, hv, if_pos hp, not_true_eq_false, if_false]
        trivial
      simp only [checkConsent, hc, hv, if_neg hp, send_bind, not_true_eq_false, if_false]
      refine ⟨trivial, fun r _ => ?_⟩
      cases r with
      | error e => trivial
      | ok preview =>
      refine ⟨trivial, fun r _ => ?_⟩
      rcases r with e | _ | _ <;> trivial
  · simp only [checkConsent, hc, Bool.false_eq_true, not_false_eq_true, if_true]
    trivial

theorem asks_checkRateLimit : Asks (Answered anon policy) (Shown anon policy req.prompt) (checkRateLimit svc req) := by
  unfold checkRateLimit
  cases svc.rateLimitBucket with
  | none => trivial
  | some bucket =>
  refine ⟨trivial, fun r _ => ?_⟩
  rcases r with e | _ | _ <;> trivial

theorem asks_lookupCache {now : Time} : Asks (Answered anon policy) (Shown anon policy req.prompt) (lookupCache req now) := by
  unfold lookupCache
  split_ifs
  · trivial
  · refine ⟨trivial, fun r _ => ?_⟩
    cases r <;> trivial

theorem asks_reserveAndCall {text : String} (h : Shown anon policy req.prompt (.complete (llmRequest req policy text))) :
    Asks (Answered anon policy) (Shown anon policy req.prompt) (reserveAndCall req policy text) := by
  refine ⟨trivial, fun r _ => ?_⟩
  cases r with
  | error e => trivial
  | ok reservation =>
  refine ⟨h, fun r _ => ?_⟩
  cases r with
  | error e => exact ⟨trivial, fun r _ => by cases r <;> trivial⟩
  | ok llmResp => trivial

theorem asks_commitAndPersist {r : Wallet.Reservation} {llmResp : LLMResponse} {now : Time} :
    Asks (Answered anon policy) (Shown anon policy req.prompt) (commitAndPersist svc req policy r llmResp now) := by
  refine ⟨trivial, fun r _ => ?_⟩
  cases r with
  | error e => trivial
  | ok _ =>
  dsimp only
  cases validateSummary req.tenantID req.conversationID llmResp.text policy.model llmResp.tokensIn llmResp.tokensOut with
  | some e => trivial
  | none => exact ⟨trivial, fun id _ => ⟨trivial, fun r _ => by cases r <;> trivial⟩⟩

theorem assemble_ne_empty {names : List String} (h : assembleStructuredContext names = .ok context) : context ≠ "" := by
  unfold assembleStructuredContext at h
  dsimp only at h
  cases hf : (names.map Text.trimSpace).findSome? optInError with
  | some e => rw [hf] at h; cases h
  | none =>
  rw [hf] at h
  cases h
  simp [structuredContextHeader]

theorem asks_dispatch (hwired : svc.anonymizerVersion ≠ none) (hpolicy : policy.anonymize = true) {now : Time} :
    Asks (Answered anon policy) (Shown anon policy req.prompt) (dispatch svc req policy now) := by
  have hgate : ¬ (svc.anonymizerVersion = none ∨ ¬ policy.anonymize) := by simp [hwired, hpolicy]
  simp only [dispatch, buildDispatchPrompt, anonymizeForDispatch, if_neg hgate, send_bind, ask_bind]
  refine ⟨trivial, fun r hr => ?_⟩
  obtain rfl : r = anon req.prompt := hr
  cases hbody : anon req.prompt with
  | error e => trivial
  | ok body =>
  cases hc : assembleStructuredContext policy.structuredFields with
  | error e => trivial
  | ok context =>
  have hne : context ≠ "" := assemble_ne_empty hc
  have hshown : Shown anon policy req.prompt (.complete (llmRequest req policy (context ++ "\n" ++ body))) :=
    ⟨body, hbody, confined_of_assemble hc body⟩
  simp only [if_neg hne, pure_eq, ret_bind]
  refine Asks.bind (fun x => ?_) (asks_reserveAndCall hshown)
  cases x with
  | error e => trivial
  | ok x => exact Asks.bind (fun x => by cases x <;> trivial) asks_commitAndPersist

theorem asks_summarize (hwired : svc.anonymizerVersion ≠ none) (hpolicy : policy.anonymize = true) :
    Asks (Answered anon policy) (Shown anon policy req.prompt) (summarize svc req) := by
  simp only [summarize, send_bind, pure_eq]
  cases validate req with
  | some e => trivial
  | none =>
  refine ⟨trivial, fun r hr => ?_⟩
  cases r with
  | error e => trivial
  | ok p =>
  obtain rfl := hr p rfl
  dsimp only
  split_ifs
  · trivial
  refine Asks.bind (fun x => ?_) asks_checkConsent
  cases x with
  | error e => trivial
  | ok _ =>
  refine Asks.bind (fun x => ?_) asks_checkRateLimit
  cases x with
  | error e => trivial
  | ok _ =>
  refine ⟨trivial, fun now _ => Asks.bind (fun x => ?_) asks_lookupCache⟩
  rcases x with e | _ | m
  · trivial
  · exact asks_dispatch hwired hpolicy
  · trivial

end Shown

/-- **Cleartext influences nothing outside the anonymizer.**  Take a run of `Summarize` with an anonymizer that computes `anon` and under a policy that asks for
it.  With any other prompt that is anonymized alike, the call has a run with the same requests to all other ports, the same answers, result and state; and
what the model is shown has no withheld field outside the anonymized text. -/
theorem cleartext_confined {svc : Service} (hwired : svc.anonymizerVersion ≠ none) {policy : Policy} (hpolicy : policy.anonymize = true)
    {anon : String → Except Err String} {req : SummarizeRequest} {t t' : String} (ht : t ≠ "") (ht' : t' ≠ "") (he : anon t = anon t')
    {s s' : AssistDB} {l : List (Exchange Req Resp AssistDB)} {a : Except Failure SummarizeResponse}
    (hrun : Runs exec (summarize svc { req with prompt := t }) s l a s') (hans : ∀ x ∈ l, Answered anon policy x.q x.r) :
    (∃ l', Runs exec (summarize svc { req with prompt := t' }) s l' a s' ∧ (∀ x ∈ l', Answered anon policy x.q x.r) ∧
      l'.filter (·.q.outside) = l.filter (·.q.outside)) ∧
    ∀ x ∈ l, ∀ r, x.q = .complete r → ∃ body, anon t = .ok body ∧ Confined policy body r.prompt := by
  refine ⟨(alike_summarize hwired hpolicy ht ht' he).runs hrun hans, fun x hx r hq => ?_⟩
  have h := Asks.runs hrun (asks_summarize hwired hpolicy) hans x hx
  rw [hq] at h
  exact h

def masked (_ : String) : Except Err String := .ok "[PII]"

theorem no_bucket : ∀ b ∈ (none : Option String), b ≠ "" := by simp

def previewService : Service where
  rateLimitBucket := none
  anonymizerVersion := some "v1"
  ttl := 1
  bucket := no_bucket
  version := (by rintro _ ⟨⟩; simp)
  ttl_pos := Int.one_pos

def previewPolicy : Policy := ⟨true, true, true, "m", 0, "p1", [], true⟩

def previewRequest : SummarizeRequest := ⟨2, 3, "r", "", ⟨"", ""⟩, false⟩

def previewAnswer : Except Failure SummarizeResponse := .error (.consent ⟨⟨2, .tenant, UUID.string 2⟩, "[PII]", "v1", "p1"⟩)

/-- A call that stops at the missing consent. -/
theorem runs_preview (t : String) (ht : t ≠ "") (s : AssistDB) :
    Runs exec (summarize previewService { previewRequest with prompt := t }) s
      [⟨.resolve 2 ⟨"", ""⟩, .ok previewPolicy, s, s⟩, ⟨.anonymize t, masked t, s, s⟩,
        ⟨.hasConsent ⟨2, .tenant, UUID.string 2⟩ "v1" "p1", .ok false, s, s⟩] previewAnswer s := by
  have hvalid : validate { previewRequest with prompt := t } = none := by
    simp [validate, previewRequest, ht, UUID.Nil]
  simp only [summarize, hvalid, send_bind, pure_eq]
  exact .ask rfl (.ask rfl (.ask rfl (.ret _ _)))

def previewTables : AssistDB := ⟨⟨[], [], [], [], []⟩, []⟩

theorem cleartext_confined_preview :
    ∃ l', Runs exec (summarize previewService { previewRequest with prompt := "Bob" }) previewTables l' previewAnswer previewTables ∧
      (∀ x ∈ l', Answered masked previewPolicy x.q x.r) ∧ l'.filter (·.q.outside) =
        [⟨.resolve 2 ⟨"", ""⟩, .ok previewPolicy, previewTables, previewTables⟩,
          ⟨.hasConsent ⟨2, .tenant, UUID.string 2⟩ "v1" "p1", .ok false, previewTables, previewTables⟩] := by
  have hpolicy : previewPolicy.anonymize = true := rfl
  have he : masked "Ann" = masked "Bob" := rfl
  exact (cleartext_confined (by decide) hpolicy (by decide) (by decide) he (runs_preview "Ann" (by decide) previewTables) (by
    simp [Answered, masked])).1

end Crm.Assist
