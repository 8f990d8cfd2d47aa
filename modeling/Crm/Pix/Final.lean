import Crm.Pix.Reconciler

/-!
# Crm.Pix.Final — terminal statuses in the store

`applyEvent` refuses to leave a terminal status, but it decides on the copy of the charge that its own call has read, and `Save` writes
`status` and `paid_at` whatever the row has become.  A delivery that read the charge pending undoes a payment that was saved in between
(`payment_undone`).  When every save finds the row as its call has read it, terminal rows never change (`terminal_final`).
-/

namespace Crm.Pix

open Interleave List Prog

/-- At a save, the row that the call has read is as it was then. -/
def SavesFresh (w : W) : Ev → Prop
  | .act i (.save _) _ pre _ => ∀ x c pre' post', .act i (.getByExternalID x) (.ok c) pre' post' ∈ w.hist →
      pre.charges.find c.id = pre'.charges.find c.id
  | _ => True

/-- The terminal rows of `s` are there in `s'`, with their status and payment time. -/
def KeepsTerminal (s s' : PixDB) : Prop :=
  ∀ id c, s.charges.find id = some c → c.status.isTerminal = true →
    ∃ c', s'.charges.find id = some c' ∧ c'.status = c.status ∧ c'.paidAt = c.paidAt

namespace KeepsTerminal

variable {s s' : PixDB}

theorem of_charges (h : s'.charges = s.charges) : KeepsTerminal s s' :=
  fun _ c hc _ => ⟨c, by rw [h]; exact hc, rfl, rfl⟩

theorem refl (s : PixDB) : KeepsTerminal s s := of_charges rfl

theorem trans {s'' : PixDB} (h : KeepsTerminal s s') (h' : KeepsTerminal s' s'') : KeepsTerminal s s'' := by
  intro id c hc ht
  obtain ⟨c₁, hc1, hs1, hp1⟩ := h id c hc ht
  obtain ⟨c₂, hc2, hs2, hp2⟩ := h' id c₁ hc1 (hs1 ▸ ht)
  exact ⟨c₂, hc2, hs2.trans hs1, hp2.trans hp1⟩

theorem of_save {c c₀ : PIXCharge} {r : Except Err Unit} (he : exec (.save c) s r s') (hid : c.id = c₀.id) (hf : s.charges.find c₀.id = some c₀)
    (hp : c₀.status = .pending) : KeepsTerminal s s' := by
  rcases Tx.store_cases he with rfl | ⟨_, h⟩
  · exact .refl _
  intro id x hx ht
  have hne : id ≠ c.id := by
    rintro rfl
    rw [hid, hf] at hx
    cases hx
    rw [hp] at ht
    cases ht
  exact ⟨x, (ChargeTable.save_find (PixDB.save_ok h).1 hne).trans hx, rfl, rfl⟩

end KeepsTerminal

section Fresh

variable {i : ℕ} {α : Type} {Q : α → W → Prop} {u : W}

/-- Every recorded request has kept the terminal rows; a call relies on the history being kept. -/
def finalSpec : Spec Req Resp PixDB Call Res where
  inv := fun w => ∀ j q r pre post, .act j q r pre post ∈ w.hist → KeepsTerminal pre post
  rely := fun _ v w => ∀ e ∈ v.hist, e ∈ w.hist
  refl := fun _ _ _ h => h
  trans := fun _ _ _ _ h h' e he => h' e (h e he)

abbrev Sf (i : ℕ) (Q : α → W → Prop) (p : Client α) (w : W) : Prop := Safe (system SavesFresh) finalSpec i Q p w

theorem keeps_act {q : Req} {r : Resp q} {s' : PixDB} {v : W} (hv : finalSpec.inv v) (h : KeepsTerminal v.store s') :
    finalSpec.Keeps i v (.act i q r v.store s') := by
  refine ⟨?_, fun j _ e he => mem_cons_of_mem _ he⟩
  intro j q' r' pre post hm
  rcases mem_cons.mp hm with hm | hm
  · cases hm
    exact h
  · exact hv j q' r' pre post hm

theorem safe_ask {q : Req} {k : Resp q → Client α} (hq : ∀ c, q ≠ .save c)
    (H : ∀ (v : W) r s', exec q v.store r s' → Sf i Q (k r) (v.after (.act i q r v.store s'))) : Sf i Q (.ask q k) u := by
  intro v _ hv r s' he _
  exact ⟨keeps_act hv (.of_charges (exec_charges he hq)), H v r s' he⟩

theorem safe_peek {x : String} : Sf i (fun _ _ => True) (peek x) u := by
  simp only [peek, send_bind, pure_eq]
  refine safe_ask (by rintro c ⟨⟩) fun v r s' _ => ?_
  cases r <;> exact .stop

variable {evt : WebhookEvent}

theorem safe_transition : Sf i (fun _ _ => True) (transition evt) u := by
  simp only [transition, send_bind, pure_eq]
  refine safe_ask (by rintro c ⟨⟩) fun v r s' he => ?_
  cases r with
  | error e =>
    dsimp only
    split_ifs
    · refine safe_ask (by rintro c ⟨⟩) fun v r s' _ => ?_
      cases r <;> exact .stop
    · exact .stop
  | ok charge =>
  dsimp only
  cases ha : applyEvent charge evt.eventType evt.occurredAt with
  | error e => exact .stop
  | ok x =>
  obtain ⟨changed, charge'⟩ := x
  cases changed with
  | false => exact .stop
  | true =>
  have ht := applyEvent_changed ha
  obtain ⟨-, hmem, -⟩ := ChargeTable.getByExternalID_ok (Read.of_ok he)
  intro v₁ hv1 hi1 r s₁ he1 hfresh
  -- the row is still the pending one that the lookup has returned
  have hrow := (hfresh _ charge _ _ (hv1 _ mem_cons_self)).trans (ChargeTable.find_of_mem hmem)
  refine ⟨keeps_act hi1 (.of_save he1 ht.id hrow ht.pending), ?_⟩
  cases r <;> exact .stop

theorem safe_apply : Sf i (fun _ _ => True) (apply evt) u := by
  simp only [apply, send_bind, pure_eq]
  split
  · exact .stop
  split
  · exact .stop
  refine safe_ask (by rintro c ⟨⟩) fun v r s' _ => ?_
  cases r with
  | error e =>
    dsimp only
    split_ifs
    · exact safe_peek
    · exact .stop
  | ok _ => exact safe_transition

theorem finalVerified : Verified (system SavesFresh) finalSpec := by
  have hk : ∀ {w : W} {e : Ev} {i : ℕ}, finalSpec.inv w → (∀ j q r pre post, e ≠ .act j q r pre post) →
      finalSpec.Keeps i w e := by
    intro w e i hw he
    refine ⟨fun j q r pre post hm => ?_, fun j _ x hx => mem_cons_of_mem _ hx⟩
    rcases mem_cons.mp hm with hm | hm
    · exact absurd hm.symm (he j q r pre post)
    · exact hw j q r pre post hm
  intro w i evt hw _ _
  exact ⟨hk hw (by rintro _ _ _ _ _ ⟨⟩), safe_apply.mono fun a v hv _ _ => hk hv (by rintro _ _ _ _ _ ⟨⟩)⟩

theorem step_keepsTerminal {db : PixDB} {σ σ' : Cfg} (hr : Reach (system SavesFresh) db σ) (hs : Step (system SavesFresh) σ σ') :
    KeepsTerminal σ.world.store σ'.world.store := by
  have hinv := finalVerified.inv (fun _ _ _ _ _ h => absurd h not_mem_nil) (hr.tail hs)
  cases hs with
  | invoke c hp ha => exact .refl _
  | act hp he ha => exact hinv _ _ _ _ _ mem_cons_self
  | respond hp ha => exact .refl _

theorem run_keepsTerminal {db : PixDB} {σ σ' : Cfg} (hr : Reach (system SavesFresh) db σ)
    (hs : Relation.ReflTransGen (Step (system SavesFresh)) σ σ') : KeepsTerminal σ.world.store σ'.world.store := by
  induction hs with
  | refl => exact .refl _
  | tail hs hlast ih => exact ih.trans (step_keepsTerminal (hr.trans hs) hlast)

end Fresh

/-! ## Deliveries of two events -/

def chargeIn (status : Status) (paidAt : Option Time) : PIXCharge where
  id := 1
  tenantID := 2
  invoiceID := 3
  externalID := "tx"
  qrCode := "qr"
  copyPaste := "cp"
  status := status
  paidAt := paidAt
  expiresAt := 3600000000000
  createdAt := 0
  updatedAt := 0

def waitingDB : PixDB where
  charges := ⟨[chargeIn .pending none], by decide, by decide, by decide⟩
  events := ⟨[], .nil⟩

def eventOf (eventType : WebhookEventType) : WebhookEvent where
  source := "inter"
  externalID := "tx"
  eventType := eventType
  payload := ""
  occurredAt := 0

def savesFresh (w : W) : Ev → Bool
  | .act _ (.save _) _ pre _ => w.hist.all fun
    | .act _ (.getByExternalID _) (.ok c) pre' _ => pre.charges.find c.id = pre'.charges.find c.id
    | _ => true
  | _ => true

theorem savesFresh_sound (w : W) (e : Ev) (h : savesFresh w e) : SavesFresh w e := by
  unfold SavesFresh
  split
  · exact fun x c pre' post' hm => of_decide_eq_true (all_eq_true.mp h _ hm)
  · trivial

def delivers (i : ℕ) (e : WebhookEventType) : List (Turn Call) := [.invoke i (eventOf e), .move i, .move i]

/-- **Terminal statuses are final.**  If every save finds the row as its own call has read it, then from any point of a run on, a row
that is paid, expired or cancelled keeps its status and its payment time. -/
theorem terminal_final {db : PixDB} {σ σ' : Cfg} (hr : Reach (system SavesFresh) db σ)
    (hs : Relation.ReflTransGen (Step (system SavesFresh)) σ σ') {id : UUID} {c : PIXCharge}
    (hc : σ.world.store.charges.find id = some c) (ht : c.status.isTerminal = true) :
    ∃ c', σ'.world.store.charges.find id = some c' ∧ c'.status = c.status ∧ c'.paidAt = c.paidAt :=
  run_keepsTerminal hr hs id c hc ht

/-- A payment is saved, and the delivery of an expiry that starts later leaves it. -/
theorem terminal_final_paid : ∃ σ σ' : Cfg, Reach (system SavesFresh) waitingDB σ ∧
    Relation.ReflTransGen (Step (system SavesFresh)) σ σ' ∧ .invoke 1 (eventOf .expired) ∈ σ'.world.hist ∧
    ∃ c', σ'.world.store.charges.find 1 = some c' ∧ c'.status = .paid ∧ c'.paidAt = some 0 := by
  let σ : Cfg := (Conf.start waitingDB).play (system SavesFresh) serve (delivers 0 .paid ++ [.move 0])
  obtain ⟨hc, hc', hfind, hbegun⟩ :
      (Conf.start waitingDB).checks (system SavesFresh) serve (fun _ _ => true) savesFresh (delivers 0 .paid ++ [.move 0]) = true ∧
      σ.checks (system SavesFresh) serve (fun _ _ => true) savesFresh (delivers 1 .expired) = true ∧
      σ.world.store.charges.find 1 = some (chargeIn .paid (some 0)) ∧
      (σ.play (system SavesFresh) serve (delivers 1 .expired)).world.invoked 1 (eventOf .expired) = true := by decide +kernel
  have hr : Reach (system SavesFresh) waitingDB σ := Reach.played exec_serve savesFresh_sound _ hc
  have hs := Conf.steps_play (fun q s _ => exec_serve q s) savesFresh_sound _ σ hc'
  exact ⟨σ, _, hr, hs, World.mem_of_invoked hbegun, terminal_final hr hs hfind rfl⟩

/-- **A payment undone.**  An expiry reads the pending charge and is overtaken by the payment; its save then turns the paid row into
an expired one without a payment time. -/
theorem payment_undone : ∃ db id, ∃ σ σ' : Cfg, ∃ c c', Reach (system fun _ _ => True) db σ ∧
    Relation.ReflTransGen (Step (system fun _ _ => True)) σ σ' ∧ σ.world.store.charges.find id = some c ∧ c.status = .paid ∧
    σ'.world.store.charges.find id = some c' ∧ c'.status = .expired ∧ c'.paidAt = none := by
  let M := system fun _ _ => True
  let σ : Cfg := (Conf.start waitingDB).play M serve (delivers 0 .expired ++ delivers 1 .paid ++ [.move 1])
  obtain ⟨hc, hc', hpaid, hexpired⟩ :
      (Conf.start waitingDB).checks M serve (fun _ _ => true) (fun _ _ => true) (delivers 0 .expired ++ delivers 1 .paid ++ [.move 1]) = true ∧
      σ.checks M serve (fun _ _ => true) (fun _ _ => true) [.move 0] = true ∧
      σ.world.store.charges.find 1 = some (chargeIn .paid (some 0)) ∧
      (σ.play M serve [.move 0]).world.store.charges.find 1 = some (chargeIn .expired none) := by decide +kernel
  exact ⟨waitingDB, 1, σ, _, _, _, Reach.played exec_serve (fun _ _ _ => trivial) _ hc,
    Conf.steps_play (fun q s _ => exec_serve q s) (fun _ _ _ => trivial) _ σ hc', hpaid, rfl, hexpired, rfl, rfl⟩

end Crm.Pix
