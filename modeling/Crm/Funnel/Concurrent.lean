import Crm.Funnel.Redelivery

/-!
# Crm.Funnel.Concurrent — deliveries that overlap

Several runs of `Engine.Handle` for one message at once.  A run checks a rule, moves the conversation and records the rule in separate
steps.  As long as no run inserts the move of a rule that has been recorded meanwhile (`Unraced`), the rules of the message are carried out
in order: those recorded form a first part of the pending ones, and the conversation is in the stage of the last of them or already in
that of the next (`InOrder`).
-/

namespace Crm.Funnel

open Interleave Text List Prog

def checked (i : ℕ) : List Ev → Option UUID
  | [] => none
  | .act j (.isApplied _ ruleID _) _ _ _ :: h => if j = i then some ruleID else checked i h
  | _ :: h => checked i h

/-- Deliveries of `msg` and nothing else, with `rules` for the resolved rules and increasing times. -/
def Delivers (rules : RuleSet) (msg : InboundMessage) : W → Ev → Prop
  | _, .invoke _ c => c = .handle msg
  | _, .act _ q r pre post => Finds rules q r ∧ Timely q pre post
  | _, .respond _ _ _ => True

/-- The move of a rule is inserted only while the rule has no application row for the message. -/
def Fresh (msg : InboundMessage) (w : W) : Ev → Prop
  | .act i (.create _) _ pre post =>
    post = pre ∨ ∀ ruleID ∈ checked i w.hist, ∀ a ∈ pre.applications, ¬ (a.ruleID = ruleID ∧ a.messageID = msg.messageID)
  | _ => True

def Unraced (rules : RuleSet) (msg : InboundMessage) (w : W) (e : Ev) : Prop := Delivers rules msg w e ∧ Fresh msg w e

section Order

variable (R : Runtime) (rules : RuleSet) (msg : InboundMessage) (s₀ : FunnelDB)

abbrev plan : List Rule := pending R msg s₀ rules.rules

abbrev stageOf (s : FunnelDB) : Option UUID := (s.trail msg.tenantID msg.conversationID).current

def All (d : List Rule) (s : FunnelDB) : Prop := ∀ q ∈ d, s.recorded msg q = true

/-- The recorded rules of the plan are a first part of it, and the conversation has gone through their stages, or one further. -/
def InOrder (s : FunnelDB) : Prop :=
  ∃ done rest, plan R rules msg s₀ = done ++ rest ∧ All msg done s ∧ (∀ q ∈ rest, s.recorded msg q = false) ∧
    (stageOf msg s = ((s₀.trail msg.tenantID msg.conversationID).visit (goals msg s₀ done)).current ∨
      ∃ q t, rest = q :: t ∧ (s₀.target msg q).isSome ∧ stageOf msg s = s₀.target msg q)

def Arrived (q : Rule) (s : FunnelDB) : Prop := s.recorded msg q = true ∨ ((s₀.target msg q).isSome ∧ stageOf msg s = s₀.target msg q)

structure Inv (w : W) : Prop where
  stages : w.store.stages = s₀.stages
  kept : Kept msg w.store
  grown : ∀ x, s₀.recorded msg x = true → w.store.recorded msg x = true
  order : InOrder R rules msg s₀ w.store
  finished : ∀ i c, .respond i c (Except.ok ()) ∈ w.hist → All msg (plan R rules msg s₀) w.store

/-- Others record rules and move the conversation in the order of the plan. -/
structure Onward (i : ℕ) (v w : W) : Prop where
  grown : ∀ x, v.store.recorded msg x = true → w.store.recorded msg x = true
  checked : checked i w.hist = checked i v.hist
  arrived : ∀ d q t, plan R rules msg s₀ = d ++ q :: t → All msg d v.store → Arrived msg s₀ q v.store → Arrived msg s₀ q w.store

def spec : Spec Req Resp FunnelDB Call Res where
  inv := Inv R rules msg s₀
  rely := Onward R rules msg s₀
  refl := fun _ _ => ⟨fun _ h => h, rfl, fun _ _ _ _ _ h => h⟩
  trans := fun _ _ _ _ h₁ h₂ =>
    ⟨fun x h => h₂.grown x (h₁.grown x h), h₂.checked.trans h₁.checked,
      fun d q t hp hd ha => h₂.arrived d q t hp (fun x hx => h₁.grown x (hd x hx)) (h₁.arrived d q t hp hd ha)⟩

end Order

section Steps

variable {R : Runtime} {rules : RuleSet} {msg : InboundMessage} {s₀ s s' : FunnelDB} {d t : List Rule} {q : Rule} {v w : W} {i : ℕ}

/-- The first rule of the plan that is not recorded. -/
theorem InOrder.next (h : InOrder R rules msg s₀ s) (hp : plan R rules msg s₀ = d ++ q :: t) (hd : All msg d s)
    (hq : s.recorded msg q = false) : ∀ x ∈ q :: t, s.recorded msg x = false := by
  obtain ⟨done, rest, hsplit, hdone, hrest, -⟩ := h
  rw [hp] at hsplit
  rcases append_eq_append_iff.mp hsplit with ⟨c, rfl, hc⟩ | ⟨c, rfl, hc⟩
  · -- nothing between `d` and `q`
    cases c with
    | nil =>
      rw [hc]
      exact hrest
    | cons x c =>
    obtain ⟨rfl, -⟩ := List.cons.inj hc
    rw [hdone q (by simp)] at hq
    cases hq
  · rw [hc] at hrest
    exact fun x hx => hrest x (mem_append_right _ hx)

/-- Two ways to single out the first rule that is not recorded. -/
theorem split_unique {d' t' : List Rule} {q' : Rule} (h : d ++ q :: t = d' ++ q' :: t') (hd : All msg d s) (hd' : All msg d' s)
    (hq : s.recorded msg q = false) (hq' : s.recorded msg q' = false) : q' = q := by
  rcases append_eq_append_iff.mp h with ⟨c, rfl, hc⟩ | ⟨c, rfl, hc⟩
  · cases c with
    | nil => exact (List.cons.inj hc).1.symm
    | cons x c =>
      obtain ⟨rfl, -⟩ := List.cons.inj hc
      rw [hd' q (by simp)] at hq
      cases hq
  cases c with
  | nil => exact (List.cons.inj hc).1
  | cons x c =>
  obtain ⟨rfl, -⟩ := List.cons.inj hc
  rw [hd q' (by simp)] at hq'
  cases hq'

theorem InOrder.of_same (h : InOrder R rules msg s₀ s) (hs : Same s s') : InOrder R rules msg s₀ s' := by
  obtain ⟨done, rest, hsplit, hdone, hrest, hcur⟩ := h
  refine ⟨done, rest, hsplit, fun q hq => (hs.recorded q).trans (hdone q hq), fun q hq => (hs.recorded q).trans (hrest q hq), ?_⟩
  rw [stageOf, hs.trail]
  exact hcur

theorem Arrived.of_same (h : Arrived msg s₀ q s) (hs : Same s s') : Arrived msg s₀ q s' := by
  rw [Arrived, hs.recorded, stageOf, hs.trail]
  exact h

theorem InOrder.move (h : InOrder R rules msg s₀ s) (hp : plan R rules msg s₀ = d ++ q :: t) (hd : All msg d s)
    (hq : s.recorded msg q = false) (ha : s'.applications = s.applications) (hg : (s₀.target msg q).isSome)
    (hcur : stageOf msg s' = s₀.target msg q) : InOrder R rules msg s₀ s' := by
  have hrec : ∀ x, s'.recorded msg x = s.recorded msg x := fun x => by
    unfold FunnelDB.recorded
    rw [ha]
  refine ⟨d, q :: t, hp, fun x hx => (hrec x).trans (hd x hx), fun x hx => (hrec x).trans (h.next hp hd hq x hx), .inr ⟨q, t, rfl, hg, hcur⟩⟩

theorem InOrder.record (h : InOrder R rules msg s₀ s) (hp : plan R rules msg s₀ = d ++ q :: t) (hd : All msg d s)
    (hq : s.recorded msg q = false) (ha : Arrived msg s₀ q s) (hrec : ∀ x, s'.recorded msg x ↔ s.recorded msg x ∨ x.id = q.id)
    (hcur : stageOf msg s' = stageOf msg s) : InOrder R rules msg s₀ s' := by
  have hids : ((plan R rules msg s₀).map Rule.id).Nodup := rules.ids.sublist (filter_sublist.map _)
  rw [hp, map_append, map_cons, nodup_append] at hids
  refine ⟨d ++ [q], t, by rw [hp, append_assoc]; rfl, fun x hx => ?_, fun x hx => ?_, .inl ?_⟩
  · rcases mem_append.mp hx with hx | hx
    · exact (hrec x).mpr (.inl (hd x hx))
    · exact (hrec x).mpr (.inr (mem_singleton.mp hx ▸ rfl))
  · have hne : x.id ≠ q.id := fun he => (nodup_cons.mp hids.2.1).1 (he ▸ mem_map_of_mem hx)
    rw [Bool.eq_false_iff]
    intro hx'
    rcases (hrec x).mp hx' with hx' | hx'
    · rw [h.next hp hd hq x (mem_cons_of_mem _ hx)] at hx'
      cases hx'
    · exact hne hx'
  rcases ha with ha | ⟨hg, ha⟩
  · rw [ha] at hq
    cases hq
  · obtain ⟨g, hg⟩ := Option.isSome_iff_exists.mp hg
    rw [hcur, ha, hg, Trail.current_visit]
    simp [goals, hg]

theorem checked_of_ne {e : Ev} {h : List Ev} (he : e.tid = i) {j : ℕ} (hj : j ≠ i) : checked j (e :: h) = checked j h := by
  cases e with
  | invoke k c => rfl
  | respond k c a => rfl
  | act k q r pre post =>
  have hk : k = i := he
  cases q with
  | isApplied _ _ _ => exact if_neg fun h => hj (h.symm.trans hk)
  | _ => rfl

theorem keeps_same {e : Ev} (he : e.tid = i) (hv : Inv R rules msg s₀ v) (hs : Same v.store (v.after e).store)
    (hres : ∀ j c, .respond j c (Except.ok ()) = e → All msg (plan R rules msg s₀) v.store) : (spec R rules msg s₀).Keeps i v e := by
  refine ⟨⟨hs.stages.trans hv.stages, ⟨hs.chrono hv.kept.chrono, hs.applications ▸ hv.kept.owned⟩,
    fun x hx => (hs.recorded x).trans (hv.grown x hx), hv.order.of_same hs, fun j c hm => ?_⟩,
    fun j hj => ⟨fun x hx => (hs.recorded x).trans hx, checked_of_ne he hj, fun d q t _ _ ha => ha.of_same hs⟩⟩
  refine fun q hq => (hs.recorded q).trans ?_
  rcases mem_cons.mp hm with hm | hm
  · exact hres j c hm q hq
  · exact hv.finished j c hm q hq

variable {r : Except Err Unit}

theorem keeps_create {tr : Transition} (hv : Inv R rules msg s₀ v) (hp : plan R rules msg s₀ = d ++ q :: t) (hd : All msg d v.store)
    (hT : tr.tenantID = msg.tenantID) (hC : tr.conversationID = msg.conversationID) (hg : s₀.target msg q = some tr.toStageID)
    (he : exec (.create tr) v.store r s') (htime : Timely (.create tr) v.store s') (hq : s' = v.store ∨ v.store.recorded msg q = false) :
    (spec R rules msg s₀).Keeps i v (.act i (.create tr) r v.store s') ∧ (r = .ok () → stageOf msg s' = s₀.target msg q) := by
  have hnone : s' = v.store → (spec R rules msg s₀).Keeps i v (.act i (.create tr) r v.store s') := by
    rintro rfl
    exact keeps_same rfl hv (.refl _) (by rintro j c ⟨⟩)
  have hrow : ∀ u, v.store.create tr = .ok (u, s') → stageOf msg s' = s₀.target msg q := by
    intro u h
    obtain ⟨hid, rfl⟩ := FunnelDB.create_ok h
    rw [hg, stageOf, ← hT, ← hC, FunnelDB.trail_addTransition, Trail.current_concat]
  refine ⟨?_, fun hr => hrow () (Tx.of_ok (hr ▸ he))⟩
  rcases Tx.store_cases he with h | ⟨u, h⟩
  · exact hnone h
  rcases htime with h' | hlater
  · exact hnone h'
  rcases hq with h' | hq
  · exact hnone h'
  have hcur := hrow u h
  obtain ⟨hid, rfl⟩ := FunnelDB.create_ok h
  have hsome : (s₀.target msg q).isSome := by
    rw [hg]
    rfl
  refine ⟨⟨hv.stages, ⟨?_, hv.kept.owned⟩, hv.grown, hv.order.move hp hd hq rfl hsome hcur, fun j c hm => ?_⟩,
    fun j hj => ⟨fun x hx => hx, checked_of_ne rfl hj, fun d' q' t' hp' hd' ha => ?_⟩⟩
  · have hc := hv.kept.chrono
    rw [← hT, ← hC] at hc ⊢
    exact hc.add hlater hid
  · rcases mem_cons.mp hm with hm | hm
    · cases hm
    · exact hv.finished j c hm
  -- another rule whose move is made and not recorded would be this one
  rcases ha with ha | -
  · exact .inl ha
  by_cases hq' : v.store.recorded msg q' = true
  · exact .inl hq'
  · obtain rfl := split_unique (hp.symm.trans hp') hd hd' hq (Bool.eq_false_iff.mpr hq')
    exact .inr ⟨hsome, hcur⟩

theorem keeps_record {a : Application} (hv : Inv R rules msg s₀ v) (hp : plan R rules msg s₀ = d ++ q :: t) (hd : All msg d v.store)
    (ha : Arrived msg s₀ q v.store) (hT : a.tenantID = msg.tenantID) (hm : a.messageID = msg.messageID) (hr : a.ruleID = q.id)
    (he : exec (.record a) v.store r s') :
    (spec R rules msg s₀).Keeps i v (.act i (.record a) r v.store s') ∧
      (∀ x, v.store.recorded msg x = true → s'.recorded msg x = true) ∧ ((∀ e, r = .error e → ¬ e.fault) → s'.recorded msg q = true) := by
  have hsame : s' = v.store → (spec R rules msg s₀).Keeps i v (.act i (.record a) r v.store s') := by
    rintro rfl
    exact keeps_same rfl hv (.refl _) (by rintro j c ⟨⟩)
  have hrow : ∀ u, v.store.record a = .ok (u, s') → v.store.recorded msg q = false ∧ s'.applications = v.store.applications ++
      [{ a with appliedAt := timestamptz a.appliedAt }] ∧ (∀ x, s'.recorded msg x ↔ v.store.recorded msg x ∨ x.id = q.id) ∧
      s'.stages = v.store.stages ∧ s'.transitions = v.store.transitions := by
    intro u h
    obtain ⟨hnew, rfl⟩ := FunnelDB.record_ok h
    refine ⟨?_, rfl, recorded_addApplication hT hm hr hnew, rfl, rfl⟩
    refine any_eq_false.mpr fun x hx hrow => ?_
    obtain ⟨-, hxr, hxm⟩ := of_decide_eq_true hrow
    exact hnew x hx ⟨hxr.trans hr.symm, hxm.trans hm.symm⟩
  have hgrown : ∀ x, v.store.recorded msg x = true → s'.recorded msg x = true := by
    intro x hx
    rcases Tx.store_cases he with rfl | ⟨u, h⟩
    · exact hx
    · exact ((hrow u h).2.2.1 x).mpr (.inl hx)
  refine ⟨?_, hgrown, fun hr' => ?_⟩
  · rcases Tx.store_cases he with h | ⟨u, h⟩
    · exact hsame h
    obtain ⟨hq, happ, hrec, hstages, htrans⟩ := hrow u h
    have hhist : ∀ T C, s'.history T C = v.store.history T C := fun T C => FunnelDB.history_of_transitions htrans
    have hcur : stageOf msg s' = stageOf msg v.store := by
      rw [stageOf, stageOf, FunnelDB.trail, FunnelDB.trail, hhist]
    refine ⟨⟨hstages.trans hv.stages, ⟨?_, fun x hx hxm => ?_⟩, fun x hx => hgrown x (hv.grown x hx),
      hv.order.record hp hd hq ha hrec hcur, fun j c hres => ?_⟩, fun j hj => ⟨hgrown, checked_of_ne rfl hj, fun _ q' _ _ _ ha' => ?_⟩⟩
    · rw [World.after_act_store, FunnelDB.Chrono, hhist]
      exact hv.kept.chrono
    · rw [World.after_act_store, happ] at hx
      rcases mem_append.mp hx with hx | hx
      · exact hv.kept.owned x hx hxm
      · rw [mem_singleton.mp hx]
        exact hT
    · rcases mem_cons.mp hres with hres | hres
      · cases hres
      · exact fun x hx => hgrown x (hv.finished j c hres x hx)
    · exact ha'.imp (hgrown q') fun h => ⟨h.1, hcur.trans h.2⟩
  cases r with
  | ok u => exact ((hrow u (Tx.of_ok he)).2.2.1 q).mpr (.inr rfl)
  | error e =>
  -- the row that was in the way is the rule's
  have hf := hr' e rfl
  obtain ⟨href, rfl⟩ := Tx.of_error he hf
  obtain ⟨x, hx, hxr, hxm⟩ := FunnelDB.record_conflict href hf
  have hxm := hxm.trans hm
  exact any_eq_true.mpr ⟨x, hx, decide_eq_true ⟨hv.kept.owned x hx hxm, hxr.trans hr, hxm⟩⟩

end Steps

section Calls

variable {α : Type} {R : Runtime} {rules : RuleSet} {msg : InboundMessage} {s₀ : FunnelDB} {d t : List Rule} {q : Rule} {u : W} {i : ℕ}
  {Q : α → W → Prop}

variable (R rules msg s₀) in
abbrev Cs (i : ℕ) (Q : α → W → Prop) (p : Client α) (w : W) : Prop := Safe (system R (Unraced rules msg)) (spec R rules msg s₀) i Q p w

theorem safe_quiet {q : Req} {k : Resp q → Client α} (hq : ∀ s r s', exec q s r s' → Same s s')
    (H : ∀ v r s', Onward R rules msg s₀ i u v → Inv R rules msg s₀ v → exec q v.store r s' → Finds rules q r →
      Cs R rules msg s₀ i Q (k r) (v.after (.act i q r v.store s'))) : Cs R rules msg s₀ i Q (.ask q k) u := by
  intro v hrely hv r s' he ha
  exact ⟨keeps_same rfl hv (hq _ _ _ he) (by rintro j c ⟨⟩), H v r s' hrely hv he ha.1.1⟩

/-- Call `i` is at rule `q`, behind the rules of `d`. -/
structure Here (msg : InboundMessage) (i : ℕ) (d : List Rule) (q : Rule) (w : W) : Prop where
  all : All msg d w.store
  checked : checked i w.hist = some q.id

theorem Here.rely {v : W} (h : Here msg i d q u) (hr : Onward R rules msg s₀ i u v) : Here msg i d q v :=
  ⟨fun x hx => hr.grown x (h.all x hx), hr.checked.trans h.checked⟩

theorem All.same {s s' : FunnelDB} (h : All msg d s) (hs : Same s s') : All msg d s' := fun x hx => (hs.recorded x).trans (h x hx)

theorem same_read {q : Req} (hq : ∀ s r s', exec q s r s' → s' = s) (s : FunnelDB) (r : Resp q) (s' : FunnelDB) (h : exec q s r s') :
    Same s s' := hq s r s' h ▸ .refl s

/-- The result of a move: the rules before `q` are recorded and the move of `q` is made. -/
abbrev MoveDone (msg : InboundMessage) (s₀ : FunnelDB) (d : List Rule) (q : Rule) (r : Except Err Unit) (w : W) : Prop :=
  r = .ok () → All msg d w.store ∧ Arrived msg s₀ q w.store

theorem safe_error {Q : Except Err Unit → W → Prop} {e : Err} (hQ : ∀ v, Q (.error e) v) : Cs R rules msg s₀ i Q (.ret (.error e)) u :=
  fun v _ _ => hQ v

theorem safe_persistMove {g : Stage} {fromStageID : Option UUID} (hp : plan R rules msg s₀ = d ++ q :: t)
    (hg : s₀.target msg q = some g.id) (hu : Here msg i d q u) : Cs R rules msg s₀ i (MoveDone msg s₀ d q)
      (persistMove msg.tenantID msg.conversationID fromStageID g systemActor moveReason) u := by
  simp only [persistMove, send_bind, pure_eq]
  refine safe_quiet (same_read fun _ _ _ h => h) fun v id s' hrely _ (h : s' = v.store) _ => ?_
  subst h
  have hv : Here msg i d q (v.after (.act i .newUUID id v.store v.store)) := ⟨(hu.rely hrely).all, (hu.rely hrely).checked⟩
  refine safe_quiet (same_read fun _ _ _ h => h) fun v₁ now s' hrely1 _ (h : s' = v₁.store) _ => ?_
  subst h
  have hv1 : Here msg i d q (v₁.after (.act i .clock now v₁.store v₁.store)) := ⟨(hv.rely hrely1).all, (hv.rely hrely1).checked⟩
  intro v₂ hrely2 hi2 r s₂ he ha
  have hv2 := hv1.rely hrely2
  -- no row of the rule when the insert takes place
  have hnew : s₂ = v₂.store ∨ v₂.store.recorded msg q = false := by
    refine (show _ ∨ _ from ha.2).imp_right fun hf => any_eq_false.mpr fun a hmem hrow => ?_
    obtain ⟨-, hr, hm⟩ := of_decide_eq_true hrow
    exact hf q.id hv2.checked a hmem ⟨hr, hm⟩
  obtain ⟨hkeeps, hcur⟩ := keeps_create (i := i) hi2 hp hv2.all rfl rfl hg he ha.1.2 hnew
  refine ⟨hkeeps, ?_⟩
  cases r with
  | error e => exact safe_error fun _ h => by cases h
  | ok _ =>
  have happ : s₂.applications = v₂.store.applications := by
    obtain ⟨hid, rfl⟩ := FunnelDB.create_ok (Tx.of_ok he)
    rfl
  have hall : All msg d s₂ := fun x hx => by
    have h := hv2.all x hx
    unfold FunnelDB.recorded at h ⊢
    rw [happ]
    exact h
  have harr : Arrived msg s₀ q s₂ := .inr ⟨by rw [hg]; rfl, hcur rfl⟩
  refine safe_quiet (fun _ _ _ h => same_publish h) fun v₃ r s₃ hrely3 _ he3 _ => ?_
  have hs := same_publish he3
  cases r with
  | error e => exact safe_error fun _ h => by cases h
  | ok _ =>
  intro w hw _ _
  have hall3 : All msg d s₃ := All.same (fun x hx => hrely3.grown x (hall x hx)) hs
  exact ⟨fun x hx => hw.grown x (hall3 x hx),
    hw.arrived d q t hp hall3 ((hrely3.arrived d q t hp hall harr).of_same hs)⟩

theorem safe_move {key : String} (hkey : stageKey q = some key) (hp : plan R rules msg s₀ = d ++ q :: t) (hu : Here msg i d q u) :
    Cs R rules msg s₀ i (MoveDone msg s₀ d q) (moveConversation msg.tenantID msg.conversationID key systemActor moveReason) u := by
  have hfail : ∀ (e : Err) (v : W), Cs R rules msg s₀ i (MoveDone msg s₀ d q) (.ret (.error e)) v :=
    fun e v => safe_error fun _ h => by cases h
  simp only [moveConversation, send_bind, pure_eq]
  generalize hk : trimSpace key = k
  split_ifs
  · exact hfail _ _
  · exact hfail _ _
  · exact hfail _ _
  · exact hfail _ _
  refine safe_quiet (same_read fun _ _ _ h => h.1) fun v r s' hrely hi he _ => ?_
  obtain rfl : s' = v.store := he.1
  cases r with
  | error e =>
    dsimp only
    split_ifs <;> exact hfail _ _
  | ok g =>
  have hg : s₀.target msg q = some g.id := by
    rw [← target_of_stages hi.stages]
    exact target_of_find hkey (hk ▸ Read.of_ok he)
  have hv : Here msg i d q (v.after (.act i (.findByKey msg.tenantID k) (.ok g) v.store v.store)) :=
    ⟨(hu.rely hrely).all, (hu.rely hrely).checked⟩
  refine safe_quiet (same_read fun _ _ _ h => h.1) fun v₁ r s' hrely1 hi1 he1 _ => ?_
  obtain rfl : s' = v₁.store := he1.1
  have hv1 : Here msg i d q (v₁.after (.act i (.latestForConversation msg.tenantID msg.conversationID) r v₁.store v₁.store)) :=
    ⟨(hv.rely hrely1).all, (hv.rely hrely1).checked⟩
  cases r with
  | ok latest =>
    dsimp only
    split_ifs with heq
    · -- the conversation is in the stage of the rule
      have hcur : stageOf msg v₁.store = some latest.toStageID := by
        obtain ⟨-, hl | ⟨e, -, hl⟩⟩ := he1
        · exact hl.current hi1.kept.chrono
        · cases hl
      have harr : Arrived msg s₀ q v₁.store := .inr ⟨by rw [hg]; rfl, by rw [hcur, hg, heq]⟩
      intro w hw _ _
      exact ⟨fun x hx => hw.grown x (hv1.all x hx), hw.arrived d q t hp hv1.all harr⟩
    · exact safe_persistMove hp hg hv1
  | error e =>
  dsimp only
  split_ifs
  · exact safe_persistMove hp hg hv1
  · exact hfail _ _

theorem safe_applyRule {key : String} (hu : Inv R rules msg s₀ u) (hkey : stageKey q = some key) (hp : plan R rules msg s₀ = d ++ q :: t)
    (hh : Here msg i d q u) : Cs R rules msg s₀ i (fun r w => r = .ok () → All msg (d ++ [q]) w.store) (applyRule msg q key) u := by
  simp only [applyRule]
  refine Safe.bind (fun r w hi hmove => ?_) hu (safe_move hkey hp hh)
  cases r with
  | error e => exact safe_error fun _ h => by cases h
  | ok _ =>
  obtain ⟨hall, harr⟩ := hmove rfl
  simp only [send_bind, pure_eq]
  refine safe_quiet (same_read fun _ _ _ h => h) fun v now s' hrely _ (h : s' = v.store) _ => ?_
  subst h
  intro v₁ hrely1 hi1 r s₁ he _
  have hstep : Onward R rules msg s₀ i w v₁ := (spec R rules msg s₀).trans i hrely ⟨hrely1.grown, hrely1.checked, hrely1.arrived⟩
  have hall1 : All msg d v₁.store := fun x hx => hstep.grown x (hall x hx)
  obtain ⟨hkeeps, hgrown, hrec⟩ := keeps_record (i := i) hi1 hp hall1 (hstep.arrived d q t hp hall harr) rfl rfl rfl he
  refine ⟨hkeeps, ?_⟩
  have hdone : (∀ e, r = .error e → ¬ e.fault) → ∀ v, Onward R rules msg s₀ i (v₁.after (.act i _ r v₁.store s₁)) v →
      All msg (d ++ [q]) v.store := by
    intro hr v hv x hx
    refine hv.grown x ?_
    rcases mem_append.mp hx with hx | hx
    · exact hgrown x (hall1 x hx)
    · rw [mem_singleton.mp hx]
      exact hrec hr
  cases r with
  | ok _ => exact fun v hv _ _ => hdone (by rintro e ⟨⟩) v hv
  | error e =>
  dsimp only
  split_ifs with he'
  · refine fun v hv _ _ => hdone ?_ v hv
    rintro e ⟨⟩ hf
    rw [Err.not_is_of_fault hf not_fault_engineAlreadyApplied] at he'
    cases he'
  · exact safe_error fun _ h => by cases h

theorem pending_append (a b : List Rule) : pending R msg s₀ (a ++ b) = pending R msg s₀ a ++ pending R msg s₀ b := filter_append ..

theorem safe_tryRule {rule : Rule} {a b : List Rule} (hr : rules.rules = a ++ rule :: b)
    (hall : All msg (pending R msg s₀ a) u.store) :
    Cs R rules msg s₀ i (fun r w => r = .ok () → All msg (pending R msg s₀ (a ++ [rule])) w.store) (tryRule R msg rule) u := by
  -- a rule that was not pending adds nothing
  have hskip : (fires R msg rule && !s₀.recorded msg rule) = false → ∀ v, Onward R rules msg s₀ i u v →
      All msg (pending R msg s₀ (a ++ [rule])) v.store := by
    intro hp v hv
    have hnil : pending R msg s₀ [rule] = [] := filter_cons_of_neg (by simp [hp])
    rw [pending_append, hnil, append_nil]
    exact fun x hx => hv.grown x (hall x hx)
  simp only [tryRule, send_bind, pure_eq]
  split_ifs with hm
  · exact fun v hv _ _ => hskip (by simp [fires, hm]) v hv
  refine safe_quiet (same_read fun _ _ _ h => h.1) fun v r s' hrely hi he _ => ?_
  obtain rfl : s' = v.store := he.1
  cases r with
  | error e => exact safe_error fun _ h => by cases h
  | ok applied =>
  have happ := isApplied_ok (Read.of_ok he)
  have hgrow : ∀ {w}, Onward R rules msg s₀ i (v.after (.act i (.isApplied msg.tenantID rule.id msg.messageID) (.ok applied) v.store v.store)) w →
      ∀ x, v.store.recorded msg x = true → w.store.recorded msg x = true := fun hw x hx => hw.grown x hx
  cases applied with
  | true =>
    intro w hw _ _ x hx
    rw [pending_append] at hx
    rcases mem_append.mp hx with hx | hx
    · exact hgrow hw x (hrely.grown x (hall x hx))
    · rw [mem_singleton.mp (mem_of_mem_filter hx)]
      exact hgrow hw rule happ.symm
  | false =>
  have hnew : s₀.recorded msg rule = false := Bool.eq_false_iff.mpr fun h => by
    rw [hi.grown rule h] at happ
    cases happ
  cases hkey : stageKey rule with
  | none =>
    intro w hw _ _ x hx
    have hnil : pending R msg s₀ [rule] = [] := filter_cons_of_neg (by simp [fires, hkey])
    rw [pending_append, hnil, append_nil] at hx
    exact hgrow hw x (hrely.grown x (hall x hx))
  | some key =>
  have hfire : (fires R msg rule && !s₀.recorded msg rule) = true := by
    simp [fires, hkey, hm, hnew]
  have hone : pending R msg s₀ [rule] = [rule] := filter_cons_of_pos hfire
  have hp : plan R rules msg s₀ = pending R msg s₀ a ++ rule :: pending R msg s₀ b := by
    rw [plan, hr, pending_append, pending_cons hfire]
  rw [pending_append, hone]
  exact safe_applyRule (keeps_same rfl hi (.refl _) (by rintro j c ⟨⟩)).1 hkey hp
    ⟨fun x hx => hrely.grown x (hall x hx), if_pos rfl⟩

theorem safe_tryRules : ∀ {b a : List Rule} {u : W}, Inv R rules msg s₀ u → rules.rules = a ++ b → All msg (pending R msg s₀ a) u.store →
    Cs R rules msg s₀ i (fun r w => r = .ok () → All msg (plan R rules msg s₀) w.store) (tryRules R msg b) u
  | [], a, u, _, hr, hall => by
    rw [append_nil] at hr
    rw [plan, hr]
    exact fun v hv _ _ x hx => hv.grown x (hall x hx)
  | rule :: b, a, u, hu, hr, hall => by
    simp only [tryRules]
    refine Safe.bind (fun r w hw hdone => ?_) hu (safe_tryRule hr hall)
    cases r with
    | error e => exact safe_error fun _ h => by cases h
    | ok _ => exact safe_tryRules hw (by rw [hr, append_assoc]; rfl) (hdone rfl)

theorem safe_handle : Cs R rules msg s₀ i (fun r w => r = .ok () → All msg (plan R rules msg s₀) w.store) (handle R msg) u := by
  simp only [handle, send_bind, pure_eq]
  split
  · exact safe_error fun _ h => by cases h
  refine safe_quiet (same_read fun _ _ _ h => h) fun v r s' _ hi (h : s' = v.store) hfind => ?_
  subst h
  cases r with
  | error e => exact safe_error fun _ h => by cases h
  | ok resolved =>
  obtain rfl : resolved = rules.rules := hfind resolved rfl
  exact safe_tryRules (a := []) (keeps_same rfl hi (.refl _) (by rintro j c ⟨⟩)).1 rfl fun x hx => absurd hx not_mem_nil

theorem deliveries_verified : Verified (system R (Unraced rules msg)) (spec R rules msg s₀) := by
  intro w i c hw _ ha
  obtain rfl : c = .handle msg := ha.1
  refine ⟨keeps_same rfl hw (.refl _) (by rintro j c ⟨⟩), ?_⟩
  refine safe_handle.mono fun r v hv hdone _ => ?_
  refine keeps_same rfl hv (.refl _) fun j c he => ?_
  cases he
  exact hdone rfl

theorem inv_start (hk : Kept msg s₀) : Inv R rules msg s₀ ⟨s₀, []⟩ where
  stages := rfl
  kept := hk
  grown := fun _ h => h
  order := ⟨[], plan R rules msg s₀, rfl, fun _ h => absurd h not_mem_nil,
    fun q hq => (by simpa using (mem_filter.mp hq).2 : fires R msg q = true ∧ s₀.recorded msg q = false).2, .inl rfl⟩
  finished := fun _ _ h => absurd h not_mem_nil

/-- Once the plan is recorded the conversation is in its last stage. -/
theorem InOrder.end_stage {s : FunnelDB} (h : InOrder R rules msg s₀ s) (hall : All msg (plan R rules msg s₀) s) :
    stageOf msg s = ((s₀.trail msg.tenantID msg.conversationID).visit (goals msg s₀ (plan R rules msg s₀))).current := by
  obtain ⟨done, rest, hsplit, -, hrest, hcur⟩ := h
  obtain rfl : rest = [] := eq_nil_iff_forall_not_mem.mpr fun q hq => by
    have h := hall q (hsplit ▸ mem_append_right _ hq)
    rw [hrest q hq] at h
    cases h
  rw [hsplit, append_nil]
  rcases hcur with h | ⟨q, t, h, -⟩
  · exact h
  · cases h

end Calls

/-! ## Overlapping deliveries -/

def oneRule : RuleSet := ⟨[greetingRule 21 "novo"], by decide⟩

/-- The rule of `oneRule`, and a database that is down for an insert once anything is recorded. -/
def untilRecorded : Site := ⟨oneRule.rules, ticking, true, fun s t => s.Later t ∧ s.applications = []⟩

theorem unraced_serve (w : W) (i : ℕ) (q : Req) (s : FunnelDB) :
    Unraced oneRule greeting w (.act i q (serve untilRecorded q s).1 s (serve untilRecorded q s).2) := by
  obtain ⟨⟨-, hfind⟩, htime⟩ := delivery_serve untilRecorded oneRule rfl (fun _ _ h => (of_decide_eq_true h).1) q s
  refine ⟨⟨hfind, htime⟩, ?_⟩
  cases q with
  | create t =>
    refine (serve_create untilRecorded t s).imp_right fun h ruleID _ a ha => ?_
    rw [(of_decide_eq_true h).2] at ha
    cases ha
  | _ => trivial

theorem delivers_serve (up : Bool) (w : W) (i : ℕ) (q : Req) (s : FunnelDB) :
    Delivers twoRules greeting w (.act i q (serve (orderly up) q s).1 s (serve (orderly up) q s).2) :=
  ⟨(orderly_serves up q s).1.2, (orderly_serves up q s).2⟩

deriving instance DecidableEq for Call

end Crm.Funnel
