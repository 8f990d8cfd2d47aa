import Mathlib.Data.List.Chain
import Crm.Funnel.Redelivery

/-!
# Crm.Funnel.Chain — the history of a conversation under concurrent moves

A move copies its from-stage from the latest transition it has read, in a transaction of its own.  As long as no transition of the
conversation is inserted between that read and the insert (`Undisturbed`), the history is a chain: it begins without a from-stage, and
every further transition leads on from the stage before it to another one.
-/

namespace Crm.Funnel

open Interleave Text List Prog

/-- The first row has no from-stage, and each later row leads from the stage of the row before it to another stage. -/
def Linked (h : List Transition) : Prop :=
  (∀ t ∈ h.head?, t.fromStageID = none) ∧ h.IsChain fun a b => b.fromStageID = some a.toStageID ∧ b.toStageID ≠ a.toStageID

theorem Linked.nil : Linked [] := ⟨by simp, .nil⟩

theorem Linked.concat {h : List Transition} {t : Transition} (hl : Linked h) (hfrom : t.fromStageID = h.getLast?.map Transition.toStageID)
    (hto : h.getLast?.map Transition.toStageID ≠ some t.toStageID) : Linked (h ++ [t]) := by
  refine ⟨fun x hx => ?_, ?_⟩
  · cases h with
    | nil =>
      obtain rfl : t = x := by simpa using hx
      exact hfrom
    | cons a h => exact hl.1 x (by simpa using hx)
  rw [isChain_append]
  refine ⟨hl.2, .singleton t, fun a ha b hb => ?_⟩
  obtain rfl : t = b := by simpa using hb
  rw [Option.mem_def.mp ha] at hfrom hto
  exact ⟨hfrom, fun h => hto (congrArg some h.symm)⟩

/-- The tables as call `i` has read the latest transition from them last. -/
def lastRead (i : ℕ) : List Ev → Option FunnelDB
  | [] => none
  | .act j (.latestForConversation _ _) _ pre _ :: h => if j = i then some pre else lastRead i h
  | _ :: h => lastRead i h

/-- Any calls, with increasing times. -/
def InTime (_ : W) : Ev → Prop
  | .act _ q _ pre post => Timely q pre post
  | _ => True

/-- No transition of the conversation comes between the read of a call and its insert. -/
def Undisturbed (w : W) (e : Ev) : Prop :=
  InTime w e ∧ match e with
    | .act i (.create t) _ pre post =>
      post = pre ∨ ∀ s ∈ lastRead i w.hist, s.history t.tenantID t.conversationID = pre.history t.tenantID t.conversationID
    | _ => True

section Moves

variable {α : Type} {R : Runtime} {T C : UUID} {u v : W} {i : ℕ} {Q : α → W → Prop}

/-- The history of the conversation is a chain in the order of its times. -/
structure ChainInv (T C : UUID) (s : FunnelDB) : Prop where
  chrono : s.Chrono T C
  linked : Linked (s.history T C)

variable (T C) in
def chainSpec : Spec Req Resp FunnelDB Call Res where
  inv := fun w => ChainInv T C w.store
  rely := fun i v w => lastRead i w.hist = lastRead i v.hist
  refl := fun _ _ => rfl
  trans := fun _ _ _ _ h₁ h₂ => h₂.trans h₁

variable (R T C) in
abbrev Ms (i : ℕ) (Q : α → W → Prop) (p : Client α) (w : W) : Prop := Safe (system R Undisturbed) (chainSpec T C) i Q p w

theorem lastRead_of_ne {e : Ev} {h : List Ev} (he : e.tid = i) {j : ℕ} (hj : j ≠ i) : lastRead j (e :: h) = lastRead j h := by
  cases e with
  | invoke k c => rfl
  | respond k c a => rfl
  | act k q r pre post =>
  have hk : k = i := he
  cases q with
  | latestForConversation _ _ => exact if_neg fun h => hj (h.symm.trans hk)
  | _ => rfl

theorem ChainInv.of_transitions {s s' : FunnelDB} (h : ChainInv T C s) (ht : s'.transitions = s.transitions) : ChainInv T C s' := by
  constructor
  · rw [FunnelDB.Chrono, FunnelDB.history_of_transitions ht]
    exact h.chrono
  · rw [FunnelDB.history_of_transitions ht]
    exact h.linked

theorem keeps_chain {e : Ev} (he : e.tid = i) (h : ChainInv T C (v.after e).store) : (chainSpec T C).Keeps i v e :=
  ⟨h, fun _ hj => lastRead_of_ne he hj⟩

theorem chain_ask {q : Req} {k : Resp q → Client α} (hq : ∀ t, q ≠ .create t)
    (H : ∀ (v : W) r s', lastRead i v.hist = lastRead i u.hist → ChainInv T C v.store → exec q v.store r s' →
      Ms R T C i Q (k r) (v.after (.act i q r v.store s'))) : Ms R T C i Q (.ask q k) u := by
  intro v hrely hv r s' he _
  exact ⟨keeps_chain rfl (hv.of_transitions (exec_transitions hq he)), H v r s' hrely hv he⟩

theorem ChainInv.create {s s' sr : FunnelDB} {t : Transition} {r : Except Err Unit} (h : ChainInv T C s) (he : exec (.create t) s r s')
    (htime : Timely (.create t) s s')
    (hread : s' = s ∨ sr.history t.tenantID t.conversationID = s.history t.tenantID t.conversationID)
    (hfrom : t.tenantID = T ∧ t.conversationID = C → t.fromStageID = (sr.trail T C).current ∧ (sr.trail T C).current ≠ some t.toStageID) :
    ChainInv T C s' := by
  rcases Tx.store_cases he with rfl | ⟨u, he⟩
  · exact h
  rcases htime with rfl | hlater
  · exact h
  rcases hread with rfl | hread
  · exact h
  obtain ⟨hid, rfl⟩ := FunnelDB.create_ok he
  by_cases hTC : t.tenantID = T ∧ t.conversationID = C
  · obtain ⟨rfl, rfl⟩ := hTC
    obtain ⟨hf, hne⟩ := hfrom ⟨rfl, rfl⟩
    refine ⟨h.chrono.add hlater hid, ?_⟩
    rw [FunnelDB.current_trail, hread] at hf hne
    rw [FunnelDB.history_addTransition hid]
    exact h.linked.concat hf hne
  -- a row of another conversation
  have hhist : (s.addTransition t hid).history T C = s.history T C := by
    simp [FunnelDB.history, FunnelDB.addTransition, FunnelDB.rowOf, hTC]
  exact ⟨by rw [FunnelDB.Chrono, hhist]; exact h.chrono, hhist ▸ h.linked⟩

theorem chain_persistMove {T' C' actor : UUID} {fromStageID : Option UUID} {g : Stage} {reason : String} {sr : FunnelDB}
    (hread : lastRead i u.hist = some sr)
    (hfrom : T' = T ∧ C' = C → fromStageID = (sr.trail T C).current ∧ (sr.trail T C).current ≠ some g.id) :
    Ms R T C i (fun _ _ => True) (persistMove T' C' fromStageID g actor reason) u := by
  simp only [persistMove, send_bind, pure_eq]
  refine chain_ask (by rintro t ⟨⟩) fun v id s₁ hr _ _ => chain_ask (by rintro t ⟨⟩) fun v₁ now s₂ hr1 _ _ => ?_
  intro v₂ hr2 hv2 r s₃ he ha
  have hread2 : lastRead i v₂.hist = some sr := hr2.trans (hr1.trans (hr.trans hread))
  refine ⟨keeps_chain rfl (hv2.create he ha.1 ((show _ ∨ _ from ha.2).imp_right fun h => h sr hread2) hfrom), ?_⟩
  cases r with
  | error e => exact .stop
  | ok _ =>
  refine chain_ask (by rintro t ⟨⟩) fun v₃ r s₄ _ _ _ => ?_
  cases r <;> exact .stop

theorem chain_move {T' C' actor : UUID} {key reason : String} :
    Ms R T C i (fun _ _ => True) (moveConversation T' C' key actor reason) u := by
  simp only [moveConversation, send_bind, pure_eq]
  generalize trimSpace key = k
  split_ifs with hT hC
  · exact .stop
  · exact .stop
  · exact .stop
  · exact .stop
  refine chain_ask (by rintro t ⟨⟩) fun v r s₁ _ _ _ => ?_
  cases r with
  | error e =>
    dsimp only
    split_ifs <;> exact .stop
  | ok g =>
  refine chain_ask (by rintro t ⟨⟩) fun v₁ r s₂ _ hv1 he => ?_
  have hread : lastRead i (v₁.after (.act i (.latestForConversation T' C') r v₁.store s₂)).hist = some v₁.store := if_pos rfl
  cases r with
  | ok latest =>
    dsimp only
    split_ifs with heq
    · exact .stop
    have hfrom : T' = T ∧ C' = C → some latest.toStageID = (v₁.store.trail T C).current ∧ (v₁.store.trail T C).current ≠ some g.id := by
      rintro ⟨rfl, rfl⟩
      obtain ⟨-, hl | ⟨e, -, hl⟩⟩ := he
      · rw [hl.current hv1.chrono]
        exact ⟨rfl, fun h => heq (Option.some.inj h)⟩
      · cases hl
    exact chain_persistMove hread hfrom
  | error e =>
  dsimp only
  split_ifs with hnone
  · have hfrom : T' = T ∧ C' = C → none = (v₁.store.trail T C).current ∧ (v₁.store.trail T C).current ≠ some g.id := by
      rintro ⟨rfl, rfl⟩
      obtain ⟨-, hl | ⟨e', hf, hl⟩⟩ := he
      · rw [FunnelDB.current_trail, hl.none hT hC]
        exact ⟨rfl, by rintro ⟨⟩⟩
      · cases hl
        rw [Err.not_is_of_fault hf not_fault_funnelNotFound] at hnone
        cases hnone
    exact chain_persistMove hread hfrom
  · exact .stop

variable {msg : InboundMessage}

theorem chain_applyRule {rule : Rule} {key : String} (hu : ChainInv T C u.store) : Ms R T C i (fun _ _ => True) (applyRule msg rule key) u := by
  simp only [applyRule]
  refine Safe.bind (R := fun _ _ => True) (fun r w _ _ => ?_) hu chain_move
  cases r with
  | error e => exact .stop
  | ok _ =>
  simp only [send_bind, pure_eq]
  refine chain_ask (by rintro t ⟨⟩) fun _ _ _ _ _ _ => chain_ask (by rintro t ⟨⟩) fun _ r _ _ _ _ => ?_
  cases r with
  | ok _ => exact .stop
  | error e =>
  dsimp only
  split_ifs <;> exact .stop

theorem chain_tryRule {rule : Rule} : Ms R T C i (fun _ _ => True) (tryRule R msg rule) u := by
  simp only [tryRule, send_bind, pure_eq]
  split_ifs
  · exact .stop
  refine chain_ask (by rintro t ⟨⟩) fun v r s' _ hv he => ?_
  obtain rfl : s' = v.store := he.1
  rcases r with e | _ | _
  · exact .stop
  · cases stageKey rule with
    | none => exact .stop
    | some key => exact chain_applyRule hv
  · exact .stop

theorem chain_tryRules : ∀ {rules : List Rule} {u : W}, ChainInv T C u.store →
    Ms R T C i (fun _ _ => True) (tryRules R msg rules) u
  | [], _, _ => .stop
  | rule :: rules, u, hu => by
    refine Safe.bind (R := fun _ _ => True) (fun r w hw _ => ?_) hu chain_tryRule
    cases r with
    | error e => exact .stop
    | ok _ => exact chain_tryRules hw

theorem chain_verified : Verified (system R Undisturbed) (chainSpec T C) := by
  intro w i c hw _ _
  refine ⟨keeps_chain rfl hw, ?_⟩
  have hres : ∀ r v, (chainSpec T C).inv v → True → Responds (system R Undisturbed) (chainSpec T C) i c r v :=
    fun _ _ hv _ _ => keeps_chain rfl hv
  cases c with
  | moveConversation T' C' key actor reason => exact chain_move.mono hres
  | handle msg =>
  refine Safe.mono hres (Q := fun _ _ => True) ?_
  show Ms R T C i (fun _ _ => True) (handle R msg) _
  simp only [handle, send_bind, pure_eq]
  split
  · exact .stop
  refine chain_ask (by rintro t ⟨⟩) fun v r s' _ hv (he : s' = v.store) => ?_
  subst he
  cases r with
  | error e => exact .stop
  | ok resolved => exact chain_tryRules hv

end Moves

/-! ## Two moves at once -/

def toNovo : Call := .moveConversation 1 2 "novo" 7 ""

def toGanho : Call := .moveConversation 1 2 "ganho" 7 ""

theorem inTime_serve (w : W) (i : ℕ) (q : Req) (s : FunnelDB) :
    InTime w (.act i q (serve (orderly true) q s).1 s (serve (orderly true) q s).2) := (orderly_serves true q s).2

def firstMove : Transition := ⟨1, 1, 2, none, 11, 7, 1000, ""⟩

theorem create_firstMove : freshFunnel.create firstMove = .ok ((), freshFunnel.addTransition firstMove fun _ h => absurd h not_mem_nil) := by
  simp only [FunnelDB.create, firstMove]
  rfl

end Crm.Funnel
