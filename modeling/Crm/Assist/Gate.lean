import Crm.Assist.Staleness

/-!
# Crm.Assist.Gate — the order in which a summary is made

A call holds the estimate of a prompt only after the policy, the consent and the rate limiter have let it, asks the model only for what it holds, and
stores only what it has paid for.
-/

namespace Crm.Assist

open Interleave Interleave.Prog List

abbrev Answer : Type := Σ q : Req, Resp q

/-- There is a consent where the policy asks for one and the service can check it. -/
def Consented (svc : Service) (tenantID : UUID) (scope : Scope) (policy : Policy) (l : List Answer) : Prop :=
  policy.consentRequired → policy.promptVersion ≠ "" → ∀ v ∈ svc.anonymizerVersion,
    ⟨.hasConsent (consentScopeFor tenantID scope) v policy.promptVersion, .ok true⟩ ∈ l

/-- The policy, the consent and the rate limiter have let the call pass. -/
def Cleared (svc : Service) (tenantID : UUID) (l : List Answer) : Prop :=
  ∃ scope policy, ⟨.resolve tenantID scope, .ok policy⟩ ∈ l ∧ policy.aiEnabled ∧ policy.optIn ∧ Consented svc tenantID scope policy l ∧
    ∀ b ∈ svc.rateLimitBucket, ∃ key, ⟨.allow b key, .ok true⟩ ∈ l

/-- The tenant holds the estimate of what the model is asked. -/
def Held (tenantID : UUID) (m : LLMRequest) (r : Wallet.Reservation) (l : List Answer) : Prop :=
  ∃ key, ⟨.reserve tenantID (estimateReservation m.prompt m.model m.maxTokens) key, .ok r⟩ ∈ l

/-- What a call has been answered before each of its requests. -/
def Gate (svc : Service) (l : List Answer) : Req → Prop
  | .reserve t _ _ => Cleared svc t l
  | .complete m => ∃ t r, Cleared svc t l ∧ Held t m r l
  | .release r _ => ∃ t m e, Held t m r l ∧ ⟨.complete m, .error e⟩ ∈ l
  | .commit r _ _ => ∃ t m resp, Held t m r l ∧ ⟨.complete m, .ok resp⟩ ∈ l
  | .saveSummary s => ∃ m resp r n key, Cleared svc s.tenantID l ∧ Held s.tenantID m r l ∧ ⟨.complete m, .ok resp⟩ ∈ l ∧
      ⟨.commit r n key, .ok ()⟩ ∈ l ∧ s.text = resp.text
  | _ => True

variable {svc : Service} {req : SummarizeRequest} {policy : Policy} {now : Time} {l l' : List Answer}

theorem Consented.mono {t : UUID} {scope : Scope} (h : Consented svc t scope policy l) (hl : l ⊆ l') : Consented svc t scope policy l' :=
  fun hreq hp v hv => hl (h hreq hp v hv)

theorem Cleared.mono {t : UUID} (h : Cleared svc t l) (hl : l ⊆ l') : Cleared svc t l' := by
  obtain ⟨scope, policy, hp, ha, ho, hc, hb⟩ := h
  exact ⟨scope, policy, hl hp, ha, ho, hc.mono hl, fun b hm => (hb b hm).imp fun _ h => hl h⟩

theorem guarded_buildDispatchPrompt : (buildDispatchPrompt svc req policy).Guarded (Gate svc) l := by
  refine Guarded.bind ?_ fun a _ _ => ?_
  · unfold anonymizeForDispatch
    split_ifs
    · trivial
    · refine fun r => ⟨trivial, ?_⟩
      cases r <;> trivial
  · cases a with
    | error e => trivial
    | ok body => cases assembleStructuredContext policy.structuredFields <;> trivial

theorem guarded_dispatch (h : Cleared svc req.tenantID l) : (dispatch svc req policy now).Guarded (Gate svc) l := by
  refine Guarded.bind guarded_buildDispatchPrompt fun a l' hl => ?_
  cases a with
  | error e => trivial
  | ok prompt =>
  refine fun r => ⟨h.mono hl, ?_⟩
  cases r with
  | error e => trivial
  | ok r =>
  refine fun resp => ⟨⟨_, r, h.mono fun _ hx => .tail _ (hl hx), _, .head _⟩, ?_⟩
  cases resp with
  | error e =>
    refine fun rel => ⟨⟨req.tenantID, llmRequest req policy prompt, e, ⟨_, .tail _ (.head _)⟩, .head _⟩, ?_⟩
    cases rel <;> trivial
  | ok resp =>
  refine fun paid => ⟨⟨req.tenantID, llmRequest req policy prompt, resp, ⟨_, .tail _ (.head _)⟩, .head _⟩, ?_⟩
  cases paid with
  | error e => trivial
  | ok =>
  dsimp only [commitAndPersist]
  cases validateSummary req.tenantID req.conversationID resp.text policy.model resp.tokensIn resp.tokensOut with
  | some e => trivial
  | none =>
  refine fun id => ⟨trivial, fun saved => ⟨?_, ?_⟩⟩
  · exact ⟨llmRequest req policy prompt, resp, r, _, _, h.mono fun x hx => .tail _ (.tail _ (.tail _ (.tail _ (hl hx)))),
      ⟨_, .tail _ (.tail _ (.tail _ (.head _)))⟩, .tail _ (.tail _ (.head _)), .tail _ (.head _), rfl⟩
  · cases saved <;> trivial

variable {α : Type} {f : Except Failure Unit → Client α}

theorem guarded_checkConsent (herr : ∀ e l', (f (.error e)).Guarded (Gate svc) l')
    (hok : ∀ l', l ⊆ l' → Consented svc req.tenantID req.scope policy l' → (f (.ok ())).Guarded (Gate svc) l') :
    (checkConsent svc req policy >>= f).Guarded (Gate svc) l := by
  unfold checkConsent
  cases hv : svc.anonymizerVersion with
  | none => split_ifs <;> exact hok l (Subset.refl l) fun _ _ v hm => by simp [hv] at hm
  | some v =>
  split_ifs with hreq hp
  · exact hok l (Subset.refl l) fun _ h => absurd hp h
  rotate_left
  · exact hok l (Subset.refl l) fun h => absurd h hreq
  refine fun preview => ⟨trivial, ?_⟩
  cases preview with
  | error e => exact herr ..
  | ok preview =>
  refine fun given => ⟨trivial, ?_⟩
  match given with
  | .error e => exact herr ..
  | .ok false => exact herr ..
  | .ok true => exact hok _ (fun x hx => .tail _ (.tail _ hx)) fun _ _ w hw => by cases hv.symm.trans hw; exact .head _

theorem guarded_checkRateLimit (herr : ∀ e l', (f (.error e)).Guarded (Gate svc) l')
    (hok : ∀ l', l ⊆ l' → (∀ b ∈ svc.rateLimitBucket, ∃ key, ⟨.allow b key, .ok true⟩ ∈ l') → (f (.ok ())).Guarded (Gate svc) l') :
    (checkRateLimit svc req >>= f).Guarded (Gate svc) l := by
  unfold checkRateLimit
  cases hb : svc.rateLimitBucket with
  | none => exact hok l (Subset.refl l) fun b hm => by simp [hb] at hm
  | some b =>
  refine fun allowed => ⟨trivial, ?_⟩
  match allowed with
  | .error e => exact herr ..
  | .ok false => exact herr ..
  | .ok true => exact hok _ (subset_cons_self ..) fun c hc => by cases hb.symm.trans hc; exact ⟨_, .head _⟩

theorem guarded_lookupCache : (lookupCache req now).Guarded (Gate svc) l := by
  unfold lookupCache
  split_ifs
  · trivial
  · refine fun r => ⟨trivial, ?_⟩
    cases r <;> trivial

theorem guarded_summarize : (summarize svc req).Guarded (Gate svc) [] := by
  unfold summarize
  cases validate req with
  | some e => trivial
  | none =>
  refine fun policy => ⟨trivial, ?_⟩
  cases policy with
  | error e => trivial
  | ok policy =>
  change Guarded _ _ (if _ then _ else _)
  split_ifs with hoff
  · trivial
  push Not at hoff
  refine guarded_checkConsent (fun _ _ => trivial) fun l₁ hl1 hc => guarded_checkRateLimit (fun _ _ => trivial) fun l₂ hl2 hb now => ⟨trivial, ?_⟩
  refine Guarded.bind (p := lookupCache req now) guarded_lookupCache fun a l₃ hl3 => ?_
  match a with
  | .error e => trivial
  | .ok (some m) => trivial
  | .ok none =>
  have hcleared : Cleared svc req.tenantID l₂ := ⟨req.scope, policy, hl2 (hl1 (.head _)), hoff.1, hoff.2, hc.mono hl2, hb⟩
  exact guarded_dispatch (hcleared.mono fun x hx => hl3 (.tail _ hx))

theorem guarded_body : ∀ c : Call, (body svc c).Guarded (Gate svc) []
  | .summarize _ => guarded_summarize
  | .invalidate t c => by
    change (invalidate t c).Guarded _ _
    unfold invalidate
    split_ifs
    · trivial
    · trivial
    · refine fun now => ⟨trivial, fun r => ⟨trivial, ?_⟩⟩
      cases r <;> trivial

/-- **The order of a summary.**  In every history, each request of a call comes after the answers that it needs. -/
theorem summarize_in_order {allow : W → Ev → Prop} {s pre post : AssistDB} {σ : Cfg} (hr : Reach (system svc allow) s σ) {i : ℕ} {q : Req} {r : Resp q}
    {newer older : List Ev} (h : σ.world.hist = newer ++ .act i q r pre post :: older) : Gate svc (older.filterMap (Event.own i)) q :=
  hr.act_guarded guarded_body h

theorem summarize_in_order_hold : ∃ (σ : Cfg) (t : UUID) (a : ℤ) (key : String) (r : Resp (.reserve t a key)) (pre post : AssistDB) (older : List Ev),
    σ.world.hist = .act 0 (.reserve t a key) r pre post :: older ∧ Cleared dayService t (older.filterMap (Event.own 0)) := by
  let M := system dayService fun _ _ => True
  let σ : Cfg := (Conf.start fundedAssist).play M serve (dispatching.take 5)
  have hr : Reach M fundedAssist σ := Conf.steps_play (k := fun _ _ => true) exec_serve (fun _ _ _ => trivial) _ _ (by decide +kernel)
  exact ⟨σ, _, _, _, _, _, _, _, rfl, summarize_in_order hr (show _ = [] ++ _ :: _ from rfl)⟩

end Crm.Assist
