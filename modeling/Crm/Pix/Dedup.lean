import Crm.Pix.Final

/-!
# Crm.Pix.Dedup — the dedup row of a delivery that fails

`Apply` records the event before it looks the charge up and saves it.  When the lookup answers `ErrNotFound` the dedup row is taken back;
after any other failure it stays, and the next delivery is taken for a duplicate (`payment_lost`).  If the failures are only those the code
allows for, a later delivery of the event to a pending charge moves it (`retry_transitions`).
-/

namespace Crm.Pix

open Interleave List Prog

def WebhookEvent.key (evt : WebhookEvent) : String × String × WebhookEventType := (evt.source, evt.externalID, evt.eventType)

/-- Failures that leave no dedup row behind a pending charge: a `Record` that fails has not committed, a lookup fails only with `ErrNotFound`,
a `Save` commits whatever it answers.  `Forget` does not fail. -/
def Harmless : Prog.Exchange Req Resp PixDB → Prop
  | ⟨.record _ _ _ _ _, .error _, pre, post⟩ => post = pre
  | ⟨.getByExternalID _, .error e, _, _⟩ => e.is .pixNotFound = true
  | ⟨.save c, _, pre, post⟩ => pre.save c = .ok ((), post)
  | ⟨.forget _ _ _, r, _, _⟩ => r = .ok ()
  | _ => True

/-- What may happen between two deliveries: charges are created and changed, but the event's dedup row is not written and terminal
charges stay terminal. -/
structure Meanwhile (key : String × String × WebhookEventType) (s s' : PixDB) : Prop where
  events : s'.events.Has key → s.events.Has key
  charges : ∀ c ∈ s.charges.rows, c.status.isTerminal = true →
    ∃ c' ∈ s'.charges.rows, c'.externalID = c.externalID ∧ c'.status.isTerminal = true

/-- The stores after a sequence of deliveries of one event in which every exchange is in `P`. -/
inductive Deliveries (P : Prog.Exchange Req Resp PixDB → Prop) (key : String × String × WebhookEventType) (s : PixDB) : PixDB → Prop
  | nil : Deliveries P key s s
  | deliver {s₁ s₂ : PixDB} {evt : WebhookEvent} {l : List (Prog.Exchange Req Resp PixDB)} {a : Except Err Outcome}
      (h : Deliveries P key s s₁) (hkey : evt.key = key) (hr : Prog.Runs exec (apply evt) s₁ l a s₂) (hP : ∀ x ∈ l, P x) :
      Deliveries P key s s₂
  | between {s₁ s₂ : PixDB} (h : Deliveries P key s s₁) (hm : Meanwhile key s₁ s₂) : Deliveries P key s s₂

def Settled (key : String × String × WebhookEventType) (s : PixDB) : Prop :=
  s.events.Has key → ∃ c ∈ s.charges.rows, c.externalID = key.2.1 ∧ c.status.isTerminal = true

section Deliver

variable {evt : WebhookEvent} {s s' : PixDB} {l : List (Prog.Exchange Req Resp PixDB)} {a : Except Err Outcome}

theorem peek_settled {x : String} {key : String × String × WebhookEventType} (hr : Prog.Runs exec (peek x) s l a s')
    (h : Settled key s) : Settled key s' := by
  simp only [peek, send_bind, pure_eq] at hr
  obtain ⟨r, s₁, l₁, rfl, he, hk⟩ := hr.ask_inv
  obtain rfl := he.1
  cases r <;> (obtain rfl := hk.ret_inv.2; exact h)

/-- The work on a fresh event ends with the row taken back or with a terminal charge. -/
theorem transition_settled (hknown : evt.eventType.isKnown = true) (hr : Prog.Runs exec (transition evt) s l a s')
    (hl : ∀ x ∈ l, Harmless x) : Settled evt.key s' := by
  simp only [transition, send_bind, pure_eq] at hr
  obtain ⟨r, s₁, l₁, rfl, he, hk⟩ := hr.ask_inv
  obtain rfl := he.1
  cases r with
  | error e =>
    have hnf : e.is .pixNotFound = true := hl _ mem_cons_self
    simp only [hnf, if_true] at hk
    obtain ⟨r, s₂, l₂, rfl, he2, hk2⟩ := hk.ask_inv
    obtain rfl : r = .ok () := hl _ (mem_cons_of_mem _ mem_cons_self)
    obtain rfl := hk2.ret_inv.2
    intro hh
    exact absurd rfl (((PixDB.forget_ok (Tx.of_ok he2)).2 _).mp hh).2
  | ok charge =>
  obtain ⟨-, hmem, hx⟩ := ChargeTable.getByExternalID_ok (Read.of_ok he)
  dsimp only at hk
  cases happ : applyEvent charge evt.eventType evt.occurredAt with
  | error e =>
    rw [happ] at hk
    obtain rfl := hk.ret_inv.2
    exact fun _ => ⟨charge, hmem, hx, applyEvent_error hknown happ⟩
  | ok y =>
  obtain ⟨changed, charge'⟩ := y
  rw [happ] at hk
  cases changed with
  | false =>
    obtain rfl := hk.ret_inv.2
    exact fun _ => ⟨charge, hmem, hx, (applyEvent_unchanged happ).2⟩
  | true =>
  have ht := applyEvent_changed happ
  obtain ⟨r, s₂, l₂, rfl, he2, hk2⟩ := Prog.Runs.ask_inv hk
  have hsave : s₁.save charge' = .ok ((), s₂) := hl _ (mem_cons_of_mem _ mem_cons_self)
  obtain ⟨row, hrow, hrx, hrs⟩ := ChargeTable.save_mem (PixDB.save_ok hsave).1
  have hdone : Settled evt.key s₂ :=
    fun _ => ⟨row, hrow, hrx.trans (ht.externalID.trans hx), by rw [hrs]; exact ht.terminal⟩
  cases r <;> (obtain rfl := hk2.ret_inv.2; exact hdone)

theorem apply_settled (hr : Prog.Runs exec (apply evt) s l a s') (hl : ∀ x ∈ l, Harmless x) (h : Settled evt.key s) :
    Settled evt.key s' := by
  simp only [apply, send_bind, pure_eq] at hr
  split at hr
  · obtain rfl := hr.ret_inv.2
    exact h
  rename_i hknown
  split at hr
  · obtain rfl := hr.ret_inv.2
    exact h
  obtain ⟨r, s₁, l₁, rfl, he, hk⟩ := hr.ask_inv
  cases r with
  | error e =>
    obtain rfl : s₁ = s := hl _ mem_cons_self
    dsimp only at hk
    split_ifs at hk
    · exact peek_settled hk h
    · obtain rfl := hk.ret_inv.2
      exact h
  | ok _ => exact transition_settled (not_not.mp hknown) hk fun x hx => hl x (mem_cons_of_mem _ hx)

end Deliver

variable {key : String × String × WebhookEventType} {s : PixDB}

theorem Settled.meanwhile {s' : PixDB} (h : Settled key s) (hm : Meanwhile key s s') : Settled key s' := by
  intro hh
  obtain ⟨c, hc, hx, ht⟩ := h (hm.events hh)
  obtain ⟨c', hc', hx', ht'⟩ := hm.charges c hc ht
  exact ⟨c', hc', hx'.trans hx, ht'⟩

theorem Deliveries.settled {s' : PixDB} (h : Deliveries Harmless key s s') (h0 : ¬ s.events.Has key) : Settled key s' := by
  induction h with
  | nil => exact fun hh => absurd hh h0
  | deliver _ hkey hr hP ih =>
    subst hkey
    exact apply_settled hr hP ih
  | between _ hm ih => exact ih.meanwhile hm

theorem Settled.fresh (h : Settled key s) {c : PIXCharge} (hc : s.charges.getByExternalID key.2.1 = .ok c) (hp : c.status = .pending) :
    ¬ s.events.Has key := by
  intro hh
  obtain ⟨c', hm', hx', ht⟩ := h hh
  obtain ⟨hx, hm, hcx⟩ := ChargeTable.getByExternalID_ok hc
  have hid := s.charges.externalIDs c hm c' hm' (hcx ▸ hx) (hcx.trans hx'.symm)
  obtain rfl := inj_on_of_nodup_map s.charges.ids hm hm' hid
  rw [hp] at ht
  cases ht

theorem eval_fresh {evt : WebhookEvent} {c : PIXCharge} (hsrc : evt.source ≠ "") (hknown : evt.eventType.isKnown = true)
    (hnew : ¬ s.events.Has evt.key) (hc : s.charges.getByExternalID evt.externalID = .ok c) (hp : c.status = .pending) :
    ∃ c' s', (apply evt).eval serve s =
        (.ok { duplicate := false, transitioned := true, charge := some c', stuckPendingSuspected := false }, s') ∧
      c'.status = evt.eventType.target ∧ ∃ row ∈ s'.charges.rows, row.externalID = evt.externalID ∧ row.status = evt.eventType.target := by
  obtain ⟨hx, hm, hcx⟩ := ChargeTable.getByExternalID_ok hc
  obtain ⟨s₁, hrec⟩ := PixDB.record_fresh evt.payload evt.occurredAt hsrc hx hknown hnew
  obtain ⟨c', happ, hst⟩ : ∃ c', applyEvent c evt.eventType evt.occurredAt = .ok (true, c') ∧ c'.status = evt.eventType.target :=
    applyEvent_pending hp hknown
  have ht := applyEvent_changed happ
  have hch := (PixDB.record_ok hrec).1
  obtain ⟨t', hsave⟩ := ChargeTable.save_transition hm (hcx ▸ hx) ht
  rw [← hch] at hsave hc
  obtain ⟨row, hrow, hrx, hrs⟩ := ChargeTable.save_mem hsave
  refine ⟨c', { s₁ with charges := t' }, ?_, hst, row, hrow, hrx.trans (ht.externalID.trans hcx), hrs.trans hst⟩
  simp [apply, transition, hknown, hx, eval_ask, serve, Tx.run, hrec, hc, happ, PixDB.save, hsave]

/-- **A retry moves the charge.**  After any sequence of deliveries of an event whose failures are harmless, a delivery without failures to
a charge that is still pending applies the event's transition and stores it. -/
theorem retry_transitions {evt : WebhookEvent} {db s : PixDB} (h0 : ¬ db.events.Has evt.key) (hd : Deliveries Harmless evt.key db s)
    (hsrc : evt.source ≠ "") (hknown : evt.eventType.isKnown = true) {c : PIXCharge}
    (hc : s.charges.getByExternalID evt.externalID = .ok c) (hp : c.status = .pending) :
    ∃ o s', (apply evt).eval serve s = (.ok o, s') ∧ o.transitioned = true ∧ o.duplicate = false ∧
      ∃ row ∈ s'.charges.rows, row.externalID = evt.externalID ∧ row.status = evt.eventType.target := by
  obtain ⟨c', s', heval, -, hrow⟩ := eval_fresh hsrc hknown ((hd.settled h0).fresh hc hp) hc hp
  exact ⟨_, s', heval, rfl, rfl, hrow⟩

def emptyDB : PixDB := { waitingDB with charges := ⟨[], .nil, fun _ h => absurd h not_mem_nil, fun _ h => absurd h not_mem_nil⟩ }

/-- The payment's event arrives before the charge is stored, and again afterwards. -/
theorem retry_transitions_early : ∃ l e, Prog.Runs exec (apply (eventOf .paid)) emptyDB l (.error e) emptyDB ∧
    Deliveries Harmless (eventOf .paid).key emptyDB waitingDB ∧
    ∃ o s', (apply (eventOf .paid)).eval serve waitingDB = (.ok o, s') ∧ o.transitioned = true ∧ o.duplicate = false ∧
      ∃ row ∈ s'.charges.rows, row.externalID = "tx" ∧ row.status = .paid := by
  obtain ⟨l, hrun, hl⟩ : ∃ l, Prog.Runs exec (apply (eventOf .paid)) emptyDB l (.error .pixNotFound) emptyDB ∧ ∀ x ∈ l, Harmless x := by
    refine ⟨_, .ask (exec_serve _ _) (.ask (exec_serve _ _) (.ask (exec_serve _ _) (.ret _ _))), ?_⟩
    intro x hx
    simp only [mem_cons, not_mem_nil, or_false] at hx
    rcases hx with rfl | rfl | rfl
    · trivial
    · exact Err.is_self _
    · rfl
  have hd : Deliveries Harmless (eventOf .paid).key emptyDB waitingDB := by
    refine .between (.deliver .nil rfl hrun hl) ⟨fun h => ?_, fun c hc => ?_⟩
    · simp [EventTable.Has, waitingDB] at h
    · simp [emptyDB] at hc
  exact ⟨l, _, hrun, hd, retry_transitions (c := chargeIn .pending none) (by simp [EventTable.Has, emptyDB, waitingDB]) hd (by decide) rfl rfl rfl⟩

/-- **A payment lost.**  The dedup row of a payment is recorded, then the lookup loses its connection and `Apply` fails; the retry, in
which nothing fails, is answered as a duplicate, and the charge stays pending. -/
theorem payment_lost : ∃ db s evt l e, ¬ db.events.Has evt.key ∧ Prog.Runs exec (apply evt) db l (.error e) s ∧
    ∃ o s' c, (apply evt).eval serve s = (.ok o, s') ∧ o.duplicate = true ∧ o.transitioned = false ∧
      s.charges.getByExternalID evt.externalID = .ok c ∧ s'.charges.getByExternalID evt.externalID = .ok c ∧
      evt.eventType = .paid ∧ c.status = .pending := by
  have hrun : ∃ l s, Prog.Runs exec (apply (eventOf .paid)) waitingDB l (.error (.other "connection reset")) s ∧
      s = (serve (.record "inter" "tx" .paid "" 0) waitingDB).2 :=
    ⟨_, _, .ask (exec_serve _ _) (.ask (r := Except.error (.other "connection reset")) ⟨rfl, .inr ⟨_, trivial, rfl⟩⟩ (.ret _ _)), rfl⟩
  obtain ⟨l, s, hrun, rfl⟩ := hrun
  exact ⟨waitingDB, _, eventOf .paid, l, _, by simp [EventTable.Has, waitingDB], hrun, _, _, chargeIn .pending none,
    rfl, rfl, rfl, rfl, rfl, rfl, rfl⟩

end Crm.Pix
