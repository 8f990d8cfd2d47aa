import Crm.Funnel.Redelivery

/-!
# Crm.Funnel.Announce — the event of a move

A transition is committed before its `funnel.conversation_moved` event is published.  If every inserted transition is acknowledged and
every announcement gets through, then after any sequence of calls each transition has had its event (`moves_announced`).
-/

namespace Crm.Funnel

open Interleave Interleave.Prog Text List

/-- Every transition beyond those of `s₀` has had its event. -/
def Announced (s₀ s : FunnelDB) : Prop := ∀ t ∈ s.transitions, t ∈ s₀.transitions ∨ ∃ evt ∈ s.published, evt.transitionID = t.id

/-- Inserted transitions are acknowledged, and announcements get through. -/
def GetsThrough : (q : Req) → FunnelDB → Resp q → FunnelDB → Prop
  | .create _, s, r, s' => r = .ok () ∨ s' = s
  | .publish _, _, r, _ => r = .ok ()
  | _, _, _, _ => True

def reliable (q : Req) (s : FunnelDB) (r : Resp q) (s' : FunnelDB) : Prop := exec q s r s' ∧ GetsThrough q s r s'

inductive Calls (ex : (q : Req) → FunnelDB → Resp q → FunnelDB → Prop) (R : Runtime) :
    FunnelDB → List (Call × Except Err Unit) → FunnelDB → Prop
  | nil (s : FunnelDB) : Calls ex R s [] s
  | cons {s s₁ s' : FunnelDB} {c : Call} {r : Except Err Unit} {l : List (Exchange Req Resp FunnelDB)}
      {rs : List (Call × Except Err Unit)} (h : Runs ex (body R c) s l r s₁) (hs : Calls ex R s₁ rs s') : Calls ex R s ((c, r) :: rs) s'

section Keeping

variable {s₀ s s' : FunnelDB} {α : Type}

/-- Nothing but an insert can leave a transition without its event. -/
theorem Announced.step {q : Req} {r : Resp q} (h : Announced s₀ s) (hq : ∀ t, q ≠ .create t) (he : exec q s r s') : Announced s₀ s' := by
  intro t ht
  rw [exec_transitions hq he] at ht
  exact (h t ht).imp_right fun ⟨evt, hm, hid⟩ => ⟨evt, exec_published he evt hm, hid⟩

variable (s₀) in
def Announces (p : Client α) : Prop := ∀ s, Announced s₀ s → Ensures reliable p s fun _ _ s' => Announced s₀ s'

theorem Announces.ret (a : α) : Announces s₀ (.ret a : Client α) := fun _ h => .ret h

theorem Announces.ask {q : Req} {k : Resp q → Client α} (hq : ∀ t, q ≠ .create t) (hk : ∀ r, Announces s₀ (k r)) :
    Announces s₀ (.ask q k) := fun _ h => .ask fun r s' he => hk r s' (h.step hq he.1)

theorem Announces.bind {β : Type} {p : Client α} {f : α → Client β} (hp : Announces s₀ p) (hf : ∀ a, Announces s₀ (f a)) :
    Announces s₀ (p >>= f) := fun s h => .bind (hp s h) fun _ a s₁ h1 => hf a s₁ h1

theorem persistMove_announces {T C : UUID} {fromStageID : Option UUID} {g : Stage} {actor : UUID} {reason : String} :
    Announces s₀ (persistMove T C fromStageID g actor reason) := by
  simp only [persistMove, send_bind, pure_eq]
  refine .ask (by rintro t ⟨⟩) fun id => .ask (by rintro t ⟨⟩) fun now => ?_
  intro s h
  refine .ask ?_
  rintro r s₁ ⟨he, hack⟩
  cases r with
  | error e =>
    -- without the acknowledgement there is no row
    obtain rfl : s₁ = s := hack.resolve_left (by rintro ⟨⟩)
    exact .ret h
  | ok u =>
  obtain ⟨hid, rfl⟩ := FunnelDB.create_ok (Tx.of_ok he)
  refine .ask ?_
  rintro r s₂ ⟨he, hthrough⟩
  obtain rfl : r = .ok () := hthrough
  obtain rfl := (Prod.mk.inj (Except.ok.inj (Tx.of_ok he))).2
  refine .ret fun t ht => ?_
  rcases mem_append.mp ht with ht | ht
  · exact (h t ht).imp_right (Exists.imp fun evt hm => ⟨mem_append_left _ hm.1, hm.2⟩)
  · rw [mem_singleton.mp ht]
    exact .inr ⟨_, mem_append_right _ mem_cons_self, rfl⟩

theorem moveConversation_announces {T C : UUID} {key : String} {actor : UUID} {reason : String} :
    Announces s₀ (moveConversation T C key actor reason) := by
  simp only [moveConversation, send_bind, pure_eq]
  split_ifs
  · exact .ret _
  · exact .ret _
  · exact .ret _
  · exact .ret _
  refine .ask (by rintro t ⟨⟩) fun r => ?_
  cases r with
  | error e =>
    dsimp only
    split_ifs <;> exact .ret _
  | ok g =>
  refine .ask (by rintro t ⟨⟩) fun r => ?_
  cases r with
  | ok latest =>
    dsimp only
    split_ifs
    · exact .ret _
    · exact persistMove_announces
  | error e =>
  dsimp only
  split_ifs
  · exact persistMove_announces
  · exact .ret _

theorem applyRule_announces {msg : InboundMessage} {rule : Rule} {key : String} : Announces s₀ (applyRule msg rule key) := by
  simp only [applyRule]
  refine .bind moveConversation_announces fun r => ?_
  cases r with
  | error e => exact .ret _
  | ok u =>
  simp only [send_bind, pure_eq]
  refine .ask (by rintro t ⟨⟩) fun now => .ask (by rintro t ⟨⟩) fun r => ?_
  cases r with
  | ok u => exact .ret _
  | error e =>
  dsimp only
  split_ifs <;> exact .ret _

theorem tryRule_announces (R : Runtime) (msg : InboundMessage) (rule : Rule) : Announces s₀ (tryRule R msg rule) := by
  simp only [tryRule, send_bind, pure_eq]
  split_ifs
  · exact .ret _
  refine .ask (by rintro t ⟨⟩) fun r => ?_
  rcases r with e | _ | _
  · exact .ret _
  · cases stageKey rule with
    | none => exact .ret _
    | some key => exact applyRule_announces
  · exact .ret _

theorem tryRules_announces (R : Runtime) (msg : InboundMessage) : ∀ rules : List Rule, Announces s₀ (tryRules R msg rules)
  | [] => .ret _
  | rule :: rules => .bind (tryRule_announces R msg rule) fun r => by
    cases r with
    | error e => exact .ret _
    | ok u => exact tryRules_announces R msg rules

theorem body_announces (R : Runtime) : ∀ c : Call, Announces s₀ (body R c)
  | .moveConversation .. => moveConversation_announces
  | .handle msg => by
    simp only [body, handle, send_bind, pure_eq]
    split
    · exact .ret _
    refine .ask (by rintro t ⟨⟩) fun r => ?_
    cases r with
    | error e => exact .ret _
    | ok resolved => exact tryRules_announces R msg resolved

end Keeping

/-- **Every persisted move is announced**, when every inserted transition is acknowledged and every announcement gets through. -/
theorem moves_announced {R : Runtime} {s₀ s : FunnelDB} {rs : List (Call × Except Err Unit)} (h : Calls reliable R s₀ rs s) :
    Announced s₀ s := by
  have key : ∀ {s₁ s : FunnelDB} {rs : List (Call × Except Err Unit)}, Calls reliable R s₁ rs s → Announced s₀ s₁ → Announced s₀ s := by
    intro s₁ s rs h
    induction h with
    | nil => exact id
    | cons h _ ih => exact fun hs => ih (body_announces R _ _ hs _ _ _ h)
  exact key h fun t ht => .inl ht

theorem moves_announced_greeting : ∃ s : FunnelDB, Calls reliable plainRuntime freshFunnel [(.handle greeting, .ok ())] s ∧
    s.transitions.length = 2 ∧ Announced freshFunnel s := by
  have he : ∀ q s, reliable q s (serve (orderly true) q s).1 (serve (orderly true) q s).2 := by
    intro q s
    refine ⟨exec_serve (orderly true) q s, ?_⟩
    cases q with
    | create t =>
      simp only [GetsThrough, serve]
      split_ifs
      · cases s.create t with
        | error e => exact .inr rfl
        | ok x => exact .inl rfl
      · exact .inr rfl
    | publish evt => rfl
    | _ => trivial
  obtain ⟨l, hl⟩ := Runs.eval he (body plainRuntime (.handle greeting)) freshFunnel
  have h : Calls reliable plainRuntime freshFunnel [(.handle greeting, .ok ())] _ := .cons hl (.nil _)
  exact ⟨_, h, rfl, moves_announced h⟩

/-- **A move that is never announced.**  The announcement fails; the retry finds the conversation in the stage, returns nil and publishes
nothing.  The same happens to a message that is delivered again. -/
theorem move_unannounced : (∃ s : FunnelDB, Calls exec plainRuntime freshFunnel
    [(.moveConversation 1 2 "novo" 7 "", .error (.wrap "funnel: publish funnel.conversation_moved" (.other "down"))),
      (.moveConversation 1 2 "novo" 7 "", .ok ())] s ∧
    s.transitions.length = 1 ∧ s.published = [] ∧ ¬ Announced freshFunnel s) ∧
    ∃ (s : FunnelDB) (e : Err), Calls exec plainRuntime freshFunnel [(.handle greeting, .error e), (.handle greeting, .ok ())] s ∧
      ¬ Announced freshFunnel s := by
  have hruns := fun (up : Bool) (c : Call) (s : FunnelDB) => Runs.eval (exec_serve (orderly up)) (body plainRuntime c) s
  constructor
  · obtain ⟨l₁, h1⟩ := hruns false (.moveConversation 1 2 "novo" 7 "") freshFunnel
    obtain ⟨l₂, h2⟩ := hruns true (.moveConversation 1 2 "novo" 7 "") _
    refine ⟨_, .cons h1 (.cons h2 (.nil _)), rfl, rfl, fun h => ?_⟩
    rcases h _ mem_cons_self with h | ⟨evt, h, -⟩
    · cases h
    · cases h
  obtain ⟨l₁, h1⟩ := hruns false (.handle greeting) freshFunnel
  obtain ⟨l₂, h2⟩ := hruns true (.handle greeting) _
  refine ⟨_, _, .cons h1 (.cons h2 (.nil _)), fun h => ?_⟩
  rcases h _ mem_cons_self with h | ⟨evt, h, hid⟩
  · cases h
  · obtain rfl := mem_singleton.mp h
    exact absurd hid (by decide +kernel)

end Crm.Funnel
