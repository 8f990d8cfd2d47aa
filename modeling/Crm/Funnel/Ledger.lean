import Crm.Funnel.Engine

/-!
# Crm.Funnel.Ledger — the ledger of stage moves

What each statement does to the tables, and the trail of a conversation: the `(from, to)` pairs of its transitions.  `Trail.advance` is the
move `MoveConversation` stands for, a step to a stage unless the conversation is there already; a list of stages is visited one after the
other.  With the transitions in the order of their times, the latest transition is the last one.
-/

namespace Crm.Funnel

open Interleave Text List

/-! ## Trails -/

abbrev Trail : Type := List (Option UUID × UUID)

namespace Trail

variable (p : Trail)

def current : Option UUID := p.getLast?.map Prod.snd

def advance (g : UUID) : Trail := if p.current = some g then p else p ++ [(p.current, g)]

def visit (gs : List UUID) : Trail := gs.foldl advance p

@[simp] theorem current_concat (m : Option UUID × UUID) : current (p ++ [m]) = some m.2 := by
  simp [current]

@[simp] theorem current_advance (g : UUID) : (p.advance g).current = some g := by
  unfold advance
  split_ifs with h
  · exact h
  · exact current_concat p _

@[simp] theorem advance_advance (g : UUID) : (p.advance g).advance g = p.advance g :=
  if_pos (current_advance p g)

@[simp] theorem visit_nil : p.visit [] = p := rfl

@[simp] theorem visit_cons (g : UUID) (gs : List UUID) : p.visit (g :: gs) = (p.advance g).visit gs := rfl

theorem visit_append (gs hs : List UUID) : p.visit (gs ++ hs) = (p.visit gs).visit hs := foldl_append

theorem current_visit (gs : List UUID) : (p.visit gs).current = gs.getLast?.or p.current := by
  induction gs using List.reverseRecOn with
  | nil => rfl
  | append_singleton gs g _ => simp [visit_append]

end Trail

namespace FunnelDB

variable {s s' : FunnelDB} {t : Transition} {T C : UUID}

/-! ## What the statements do -/

theorem create_ok {u : Unit} (h : s.create t = .ok (u, s')) :
    ∃ hid : ∀ x ∈ s.transitions, x.id ≠ t.id, s' = s.addTransition t hid := by
  unfold create at h
  split_ifs at h with _ _ _ _ _ _ hid
  cases h
  exact ⟨hid, rfl⟩

theorem record_ok {a : Application} {u : Unit} (h : s.record a = .ok (u, s')) :
    ∃ hnew : ∀ x ∈ s.applications, ¬ (x.ruleID = a.ruleID ∧ x.messageID = a.messageID), s' = s.addApplication a hnew := by
  unfold record at h
  split_ifs at h with _ _ _ _ _ hnew
  cases h
  exact ⟨hnew, rfl⟩

/-- The only refusal of `Record` that matches a sentinel is the conflict on the unique pair. -/
theorem record_conflict {a : Application} {e : Err} (h : s.record a = .error e) (he : ¬ e.fault) :
    ∃ x ∈ s.applications, x.ruleID = a.ruleID ∧ x.messageID = a.messageID := by
  unfold record at h
  split_ifs at h with h1 h2 h3 h4 h5 hnew
  · cases h
    exact absurd (Err.fault_other _) he
  · cases h
    exact absurd (Err.fault_other _) he
  · cases h
    exact absurd (Err.fault_other _) he
  · cases h
    exact absurd (Err.fault_other _) he
  · cases h
    exact absurd (Err.fault_other _) he
  · push Not at hnew
    exact hnew

theorem findByKey_stages {key : String} (h : s'.stages = s.stages) : s'.findByKey T key = s.findByKey T key := by
  unfold findByKey
  rw [h]

/-! ## The trail of a conversation -/

/-- The times of the conversation's transitions increase. -/
def Chrono (s : FunnelDB) (T C : UUID) : Prop := (s.history T C).Pairwise fun a b => a.transitionedAt < b.transitionedAt

def trail (s : FunnelDB) (T C : UUID) : Trail := (s.history T C).map fun t => (t.fromStageID, t.toStageID)

/-- The row of `t` comes after every transition of its conversation. -/
def Later (s : FunnelDB) (t : Transition) : Prop :=
  ∀ x ∈ s.history t.tenantID t.conversationID, x.transitionedAt < timestamptz t.transitionedAt

theorem history_of_transitions (h : s'.transitions = s.transitions) : s'.history T C = s.history T C := by
  unfold history
  rw [h]

theorem history_addTransition (hid : ∀ x ∈ s.transitions, x.id ≠ t.id) :
    (s.addTransition t hid).history t.tenantID t.conversationID = s.history t.tenantID t.conversationID ++ [rowOf t] := by
  simp [history, addTransition, rowOf]

theorem Chrono.add (h : s.Chrono t.tenantID t.conversationID) (hl : s.Later t) (hid : ∀ x ∈ s.transitions, x.id ≠ t.id) :
    (s.addTransition t hid).Chrono t.tenantID t.conversationID := by
  unfold Chrono
  rw [history_addTransition hid, pairwise_append]
  refine ⟨h, pairwise_singleton _ _, fun a ha b hb => ?_⟩
  obtain rfl := mem_singleton.mp hb
  exact hl a ha

theorem trail_addTransition (hid : ∀ x ∈ s.transitions, x.id ≠ t.id) :
    (s.addTransition t hid).trail t.tenantID t.conversationID =
      s.trail t.tenantID t.conversationID ++ [(t.fromStageID, t.toStageID)] := by
  unfold trail
  rw [history_addTransition hid, map_append]
  rfl

theorem current_trail : (s.trail T C).current = (s.history T C).getLast?.map Transition.toStageID := by
  simp [trail, Trail.current, getLast?_map, Function.comp_def]

/-- The latest transition is the last one, when the times increase. -/
theorem LatestForConversation.last {l : Transition} (hc : s.Chrono T C) (h : s.LatestForConversation T C (.ok l)) :
    (s.history T C).getLast? = some l := by
  obtain ⟨-, -, hmem, hmax⟩ := h
  obtain ⟨a, b, hab⟩ := append_of_mem hmem
  unfold Chrono at hc
  rw [hab] at hc hmax ⊢
  -- a row behind it would be later
  cases b with
  | nil => simp
  | cons x b =>
  have hlt : l.transitionedAt < x.transitionedAt := (pairwise_cons.mp (pairwise_append.mp hc).2.1).1 x mem_cons_self
  have hle : x.transitionedAt ≤ l.transitionedAt := hmax x (by simp)
  exact absurd hlt (Int.not_lt.mpr hle)

theorem LatestForConversation.current {l : Transition} (hc : s.Chrono T C) (h : s.LatestForConversation T C (.ok l)) :
    (s.trail T C).current = some l.toStageID := by
  rw [current_trail, h.last hc]
  rfl

theorem LatestForConversation.none {e : Err} (hT : T ≠ UUID.Nil) (hC : C ≠ UUID.Nil) (h : s.LatestForConversation T C (.error e)) :
    s.history T C = [] := by
  simp only [LatestForConversation, if_neg hT, if_neg hC] at h
  exact h.2

end FunnelDB

theorem exec_transitions {q : Req} {r : Resp q} {s s' : FunnelDB} (hq : ∀ t, q ≠ .create t) (he : exec q s r s') :
    s'.transitions = s.transitions := by
  cases q with
  | create t => exact absurd rfl (hq t)
  | publish evt =>
    rcases Tx.store_cases he with rfl | ⟨u, he⟩
    · rfl
    · cases he
      rfl
  | record a =>
    rcases Tx.store_cases he with rfl | ⟨u, he⟩
    · rfl
    · obtain ⟨_, rfl⟩ := FunnelDB.record_ok he
      rfl
  | resolve t c => exact congrArg _ he
  | newUUID => exact congrArg _ he
  | clock => exact congrArg _ he
  | isApplied t r m => exact congrArg _ he.1
  | findByKey t key => exact congrArg _ he.1
  | latestForConversation t c => exact congrArg _ he.1

theorem exec_published {q : Req} {r : Resp q} {s s' : FunnelDB} (he : exec q s r s') : ∀ evt ∈ s.published, evt ∈ s'.published := by
  intro evt hm
  cases q with
  | create t =>
    rcases Tx.store_cases he with rfl | ⟨u, he⟩
    · exact hm
    · obtain ⟨_, rfl⟩ := FunnelDB.create_ok he
      exact hm
  | publish evt' =>
    rcases Tx.store_cases he with rfl | ⟨u, he⟩
    · exact hm
    · cases he
      exact mem_append_left _ hm
  | record a =>
    rcases Tx.store_cases he with rfl | ⟨u, he⟩
    · exact hm
    · obtain ⟨_, rfl⟩ := FunnelDB.record_ok he
      exact hm
  | resolve t c => exact (show s' = s from he) ▸ hm
  | newUUID => exact (show s' = s from he) ▸ hm
  | clock => exact (show s' = s from he) ▸ hm
  | isApplied t r m => exact (show s' = s from he.1) ▸ hm
  | findByKey t key => exact (show s' = s from he.1) ▸ hm
  | latestForConversation t c => exact (show s' = s from he.1) ▸ hm

/-! ## A database that answers -/

instance (s : FunnelDB) (t : Transition) : Decidable (s.Later t) := inferInstanceAs (Decidable (∀ _ ∈ _, _))

def FunnelDB.latest (T C : UUID) (s : FunnelDB) : Except Err Transition :=
  if T = UUID.Nil ∨ C = UUID.Nil then .error (.other "down")
  else match (s.history T C).maxOn? Transition.transitionedAt with
    | none => .error .funnelNotFound
    | some l => .ok l

/-- What the ports answer beside the tables: the resolved rules, the clock, whether an announcement gets through, and for which
transitions the database is up. -/
structure Site where
  resolved : List Rule
  stamp : FunnelDB → Time
  up : Bool
  accepts : FunnelDB → Transition → Bool

def serve (site : Site) : (q : Req) → FunnelDB → Resp q × FunnelDB
  | .resolve _ _, s => (.ok site.resolved, s)
  | .isApplied t r m, s => (s.isApplied t r m, s)
  | .findByKey t key, s => (s.findByKey t key, s)
  | .latestForConversation t c, s => (s.latest t c, s)
  | .newUUID, s => (BitVec.ofNat 128 (s.transitions.length + 1), s)
  | .clock, s => (site.stamp s, s)
  | .create t, s => if site.accepts s t then Tx.run s (s.create t) else (.error (.other "down"), s)
  | .publish evt, s => if site.up then (.ok (), { s with published := s.published ++ [evt] }) else (.error (.other "down"), s)
  | .record a, s => Tx.run s (s.record a)

theorem latest_answers (T C : UUID) (s : FunnelDB) :
    s.LatestForConversation T C (s.latest T C) ∨ ∃ e, Err.fault e ∧ s.latest T C = .error e := by
  unfold FunnelDB.latest
  split_ifs with h
  · exact .inr ⟨_, Err.fault_other _, rfl⟩
  push Not at h
  refine .inl ?_
  cases hl : (s.history T C).maxOn? Transition.transitionedAt with
  | none =>
    simp only [FunnelDB.LatestForConversation, if_neg h.1, if_neg h.2]
    refine ⟨trivial, by_contra fun hne => ?_⟩
    have hsome := (List.isSome_maxOn?_iff (f := Transition.transitionedAt)).mpr hne
    rw [hl] at hsome
    cases hsome
  | some l =>
  refine ⟨h.1, h.2, List.maxOn?_mem hl, fun t ht => ?_⟩
  have hle := List.le_apply_get_maxOn?_of_mem (f := Transition.transitionedAt) ht
  simpa only [hl, Option.get_some] using hle

theorem exec_serve (site : Site) (q : Req) (s : FunnelDB) : exec q s (serve site q s).1 (serve site q s).2 := by
  cases q with
  | resolve t c => rfl
  | isApplied t r m => exact ⟨rfl, .inl rfl⟩
  | findByKey t key => exact ⟨rfl, .inl rfl⟩
  | latestForConversation t c => exact ⟨rfl, latest_answers t c s⟩
  | newUUID => rfl
  | clock => rfl
  | create t =>
    simp only [serve]
    split_ifs
    · exact Tx.of_run _ _
    · exact .down (Err.fault_other _)
  | publish evt =>
    simp only [serve]
    split_ifs
    · exact .done rfl
    · exact .down (Err.fault_other _)
  | record a => exact Tx.of_run _ _

theorem serve_create (site : Site) (t : Transition) (s : FunnelDB) :
    (serve site (.create t) s).2 = s ∨ site.accepts s t = true := by
  simp only [serve]
  split_ifs with h
  · exact .inr h
  · exact .inl rfl

@[simp] theorem not_fault_funnelNotFound : ¬ Err.funnelNotFound.fault := fun ⟨_, h⟩ => nomatch h

@[simp] theorem not_fault_engineAlreadyApplied : ¬ Err.engineAlreadyApplied.fault := fun ⟨_, h⟩ => nomatch h

end Crm.Funnel
