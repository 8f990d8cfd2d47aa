import Crm.Billing.Tiling

/-!
# Crm.Billing.Announcement — whether every renewal is announced

`renewOne` commits the renewal and publishes its event afterwards, `PublishMaxRetries` times at most.  The committed row is no longer
due, so no later sweep comes back to it: an invoice whose publishes have all failed stays without its event, whatever the broker does
later (`renewal_unannounced`).  It is announced when no sweep stops between the two steps and the broker takes the event within the
attempts of its own sweep (`renewals_announced`).
-/

namespace Crm.Billing

open Interleave Crm.Store List Prog

/-- The failed publishes since the last renewal, in events that stand newest first. -/
def failedPublishes : List Ev → ℕ
  | [] => 0
  | .act _ (.publish _) (.error _) _ _ :: h => failedPublishes h + 1
  | .act _ (.renewSubscription _ _ _ _) _ _ _ :: _ => 0
  | _ :: h => failedPublishes h

@[simp] theorem failedPublishes_failed (i : ℕ) (m : Message) (e : Err) (s s' : BillingDB) (h : List Ev) :
    failedPublishes (.act i (.publish m) (.error e) s s' :: h) = failedPublishes h + 1 := rfl

@[simp] theorem failedPublishes_backoff (i : ℕ) (delay : ℤ) (x : Except Err Unit) (s s' : BillingDB) (h : List Ev) :
    failedPublishes (.act i (.backoff delay) x s s' :: h) = failedPublishes h := rfl

@[simp] theorem failedPublishes_renewal (i : ℕ) (id : UUID) (old : Time) (price : ℤ) (t : Time) (x : Except Err RenewResult)
    (s s' : BillingDB) (h : List Ev) : failedPublishes (.act i (.renewSubscription id old price t) x s s' :: h) = 0 := rfl

/-- Renewal workers whose commits are acknowledged, whose context lives and whose broker takes an event before the last attempt. -/
def Delivers (w : W) : Ev → Prop
  | .invoke _ c => ∃ r, c = .tick r
  | .act _ (.renewSubscription _ _ _ _) (.error _) pre post => post = pre
  | .act i (.publish _) (.error _) _ _ => ∀ r, .invoke i (.tick r) ∈ w.hist → failedPublishes (w.own i) + 1 < r.publishMaxRetries
  | .act _ (.backoff _) r _ _ => r = .ok ()
  | _ => True

/-- The event `m` is about the renewal that the invoice `inv` bills. -/
structure Announces (m : Message) (inv : InvoiceRow) : Prop where
  invoiceID : m.body.invoiceID = inv.id
  subscriptionID : m.body.subscriptionID = inv.subscriptionID
  tenantID : m.body.tenantID = inv.tenantID
  periodStart : Calendar.dateOf m.body.newPeriodStart = inv.periodStart
  amountCentsBRL : m.body.amountCentsBRL = inv.amountCentsBRL
  msgID : m.msgID = buildMsgID inv.subscriptionID m.body.newPeriodStart

def Announced (inv : InvoiceRow) (w : W) : Prop :=
  ∃ i m pre post, .act i (.publish m) (.ok ()) pre post ∈ w.hist ∧ Announces m inv

def Commits (i : ℕ) (inv : InvoiceRow) (w : W) : Prop :=
  ∃ id old price t res pre post, .act i (.renewSubscription id old price t) (.ok res) pre post ∈ w.hist ∧
    post.invoices = pre.invoices ++ [inv]

/-! ## What a sweep owes -/

/-- Call `i` is a sweep of `r` under way that has announced what it has committed, up to the invoices in `P`. -/
structure Owes (r : Renewer) (i : ℕ) (P : InvoiceRow → Prop) (w : W) : Prop where
  tick : .invoke i (.tick r) ∈ w.hist
  running : ∀ c a, .respond i c a ∉ w.hist
  commits : ∀ inv, Commits i inv w → Announced inv w ∨ P inv

structure AnnInv (s₀ : BillingDB) (w : W) : Prop where
  invoices : ∀ inv ∈ w.store.invoices, inv ∈ s₀.invoices ∨ ∃ i, Commits i inv w
  stream : ∀ i m pre post, .act i (.publish m) (.ok ()) pre post ∈ w.hist → ∃ m' ∈ w.store.stream, m'.msgID = m.msgID
  ticks : ∀ i inv, Commits i inv w → ∃ r, .invoke i (.tick r) ∈ w.hist
  answered : ∀ i r a, .respond i (.tick r) a ∈ w.hist → ∀ inv, Commits i inv w → Announced inv w

abbrev annSpec (s₀ : BillingDB) : Spec Req Resp BillingDB Call Res := .ofHistory (AnnInv s₀)

section Calls

variable {s₀ : BillingDB} {r : Renewer} {i j : ℕ} {P : InvoiceRow → Prop} {inv : InvoiceRow} {v w : W} {e : Ev} {α : Type} {Q : α → W → Prop}

abbrev Sn (s₀ : BillingDB) (i : ℕ) (Q : α → W → Prop) (p : Client α) (w : W) : Prop := Safe (system Delivers) (annSpec s₀) i Q p w

theorem Announced.after (h : Announced inv w) : Announced inv (w.after e) := by
  obtain ⟨j, m, pre, post, hm, ha⟩ := h
  exact ⟨j, m, pre, post, mem_cons_of_mem _ hm, ha⟩

theorem Commits.after (h : Commits i inv w) : Commits i inv (w.after e) := by
  obtain ⟨id, old, price, t, res, pre, post, hm, hp⟩ := h
  exact ⟨id, old, price, t, res, pre, post, mem_cons_of_mem _ hm, hp⟩

/-- The event is a renewal that call `i` knows to be committed. -/
def NewCommit (i : ℕ) (inv : InvoiceRow) (e : Ev) : Prop :=
  ∃ id old price t res pre post, e = .act i (.renewSubscription id old price t) (.ok res) pre post ∧ post.invoices = pre.invoices ++ [inv]

theorem commits_after : Commits i inv (w.after e) ↔ NewCommit i inv e ∨ Commits i inv w := by
  constructor
  · rintro ⟨id, old, price, t, res, pre, post, hm, hp⟩
    rcases mem_cons.mp hm with rfl | hm
    · exact .inl ⟨id, old, price, t, res, pre, post, rfl, hp⟩
    · exact .inr ⟨id, old, price, t, res, pre, post, hm, hp⟩
  · rintro (⟨id, old, price, t, res, pre, post, rfl, hp⟩ | h)
    · exact ⟨id, old, price, t, res, pre, post, mem_cons_self, hp⟩
    · exact h.after

theorem Owes.rely (h : Owes r i P v) (hr : (annSpec s₀).rely i v w) : Owes r i P w where
  tick := hr.1 _ h.tick
  running := fun c a hm => h.running c a ((World.mem_own_iff hr.2 rfl).mp hm)
  commits := by
    rintro inv ⟨id, old, price, t, res, pre, post, hm, hp⟩
    rcases h.commits inv ⟨id, old, price, t, res, pre, post, (World.mem_own_iff hr.2 rfl).mp hm, hp⟩ with ⟨j, m, a, b, hm, ha⟩ | hP
    · exact .inl ⟨j, m, a, b, hr.1 _ hm, ha⟩
    · exact .inr hP

variable {q : Req} {x : Resp q} {s s' : BillingDB} {d : DueSubscription} {now : Time}

theorem Owes.act {t : BillingDB} (h : Owes r i P w) (hn : ∀ inv, ¬ NewCommit i inv (.act i q x s t)) : Owes r i P (w.after (.act i q x s t)) where
  tick := mem_cons_of_mem _ h.tick
  running := by
    intro c a hm
    rcases mem_cons.mp hm with hm | hm
    · cases hm
    · exact h.running c a hm
  commits := by
    intro inv hc
    rcases commits_after.mp hc with hc | hc
    · exact absurd hc (hn inv)
    · exact (h.commits inv hc).imp Announced.after id

theorem exec_stream (he : exec q s x s') : ∀ m ∈ s.stream, m ∈ s'.stream := by
  intro m hm
  cases q with
  | core q =>
    obtain ⟨_, -, rfl⟩ := he
    exact hm
  | listDueSubscriptions asOf limit =>
    obtain rfl := he.1
    exact hm
  | renewSubscription id old price t =>
    obtain ⟨_, htx⟩ := he
    rcases Tx.store_cases htx with rfl | ⟨_, hc⟩
    · exact hm
    · obtain ⟨_, -, -, -, -, -, -, rfl⟩ := BillingDB.renewSubscription_ok hc
      exact hm
  | publish m' =>
    rcases he with (rfl | ⟨rfl, -⟩) | ⟨rfl, -⟩
    · exact mem_append_left _ hm
    · exact hm
    · exact hm
  | getPlanByID id =>
    obtain ⟨_, rfl, -⟩ := he
    exact hm
  | _ =>
  obtain rfl : s' = s := he
  exact hm

theorem exec_invoices (he : exec q s x s') (ha : Delivers w (.act i q x s s')) :
    s'.invoices = s.invoices ∨ ∃ inv, NewCommit i inv (.act i q x s s') ∧ s'.invoices = s.invoices ++ [inv] := by
  cases q with
  | core q =>
    obtain ⟨_, -, rfl⟩ := he
    exact .inl rfl
  | listDueSubscriptions asOf limit =>
    obtain rfl := he.1
    exact .inl rfl
  | renewSubscription id old price t =>
    cases x with
    | error e =>
      obtain rfl : s' = s := ha
      exact .inl rfl
    | ok res =>
    obtain ⟨_, htx⟩ := he
    obtain ⟨_, -, -, -, -, -, -, rfl⟩ := BillingDB.renewSubscription_ok (Tx.of_ok htx)
    exact .inr ⟨_, ⟨id, old, price, t, res, _, _, rfl, rfl⟩, rfl⟩
  | publish m' =>
    rcases he with (rfl | ⟨rfl, -⟩) | ⟨rfl, -⟩ <;> exact .inl rfl
  | getPlanByID id =>
    obtain ⟨_, rfl, -⟩ := he
    exact .inl rfl
  | _ =>
  obtain rfl : s' = s := he
  exact .inl rfl

theorem published_mem {m : Message} (he : exec (.publish m) s (.ok ()) s') : ∃ m' ∈ s'.stream, m'.msgID = m.msgID := by
  rcases he with (rfl | ⟨rfl, h⟩) | ⟨-, _, h⟩
  · exact ⟨m, mem_append_right _ mem_cons_self, rfl⟩
  · exact h
  · cases h

theorem AnnInv.act (h : AnnInv s₀ w) (ho : Owes r i P w) (he : exec q w.store x s') (ha : Delivers w (.act i q x w.store s')) :
    (annSpec s₀).Keeps i w (.act i q x w.store s') := by
  refine Spec.ofHistory_keeps rfl ⟨?_, ?_, ?_, ?_⟩
  · intro inv hm
    have hold : inv ∈ w.store.invoices → inv ∈ s₀.invoices ∨ ∃ j, Commits j inv (w.after (.act i q x w.store s')) :=
      fun hm => (h.invoices inv hm).imp id fun ⟨j, hj⟩ => ⟨j, hj.after⟩
    rcases exec_invoices he ha with hs | ⟨new, hc, hs⟩
    · exact hold (hs ▸ hm)
    rw [World.after_act_store, hs] at hm
    rcases mem_append.mp hm with hm | hm
    · exact hold hm
    · obtain rfl := mem_singleton.mp hm
      exact .inr ⟨i, commits_after.mpr (.inl hc)⟩
  · intro j m pre post hm
    rcases mem_cons.mp hm with hm | hm
    · cases hm
      exact published_mem he
    · obtain ⟨m', hm', hid⟩ := h.stream j m pre post hm
      exact ⟨m', exec_stream he m' hm', hid⟩
  · intro j inv hc
    rcases commits_after.mp hc with ⟨_, _, _, _, _, _, _, ⟨⟩, -⟩ | hc
    · exact ⟨r, mem_cons_of_mem _ ho.tick⟩
    · obtain ⟨r', hr'⟩ := h.ticks j inv hc
      exact ⟨r', mem_cons_of_mem _ hr'⟩
  intro j r' a hm inv hc
  rcases mem_cons.mp hm with hm' | hm'
  · cases hm'
  rcases commits_after.mp hc with ⟨_, _, _, _, _, _, _, ⟨⟩, -⟩ | hc
  · exact absurd hm' (ho.running _ a)
  · exact (h.answered j r' a hm' inv hc).after

theorem safe_ask {k : Resp q → Client α} (ho : Owes r i P v)
    (H : ∀ w x s', Owes r i P w → w.own i = v.own i → exec q w.store x s' → Delivers w (.act i q x w.store s') →
      AnnInv s₀ (w.after (.act i q x w.store s')) → Sn s₀ i Q (k x) (w.after (.act i q x w.store s'))) : Sn s₀ i Q (.ask q k) v := by
  intro w hr hw x s' he ha
  have hk := hw.act (ho.rely hr) he ha
  exact ⟨hk, H w x s' (ho.rely hr) hr.2 he ha hk.1⟩

theorem safe_ret {a : α} (h : Owes r i P v) (hQ : ∀ w, Owes r i P w → Q a w) : Sn s₀ i Q (.ret a) v := fun w hr _ => hQ w (h.rely hr)

/-- The attempts left are enough for the failures that may still come. -/
theorem safe_publishLoop {m : Message} {maxDelay : ℤ} (hm : ∀ inv, P inv → Announces m inv) :
    ∀ (left : ℕ) (delay : ℤ) (v : W), Owes r i P v → failedPublishes (v.own i) + left = r.publishMaxRetries → 0 < left →
      Sn s₀ i (fun _ w => Owes r i (fun _ => False) w) (publishLoop maxDelay m left delay) v
  | 0, _, _, _, _, hl => absurd hl (Nat.lt_irrefl 0)
  | left + 1, delay, v, ho, hf, _ => by
    simp only [publishLoop, send_bind, pure_eq]
    refine safe_ask ho fun w x s' how hown he ha _ => ?_
    cases x with
    | ok _ =>
      have how' : Owes r i (fun _ => False) (w.after (.act i (.publish m) (.ok ()) w.store s')) := by
        have hact := how.act (q := .publish m) (x := .ok ()) (s := w.store) (t := s') (by rintro _ ⟨_, _, _, _, _, _, _, ⟨⟩, -⟩)
        refine ⟨hact.tick, hact.running, fun inv hc => .inl ?_⟩
        rcases hact.commits inv hc with h | hP
        · exact h
        · exact ⟨i, m, _, _, mem_cons_self, hm inv hP⟩
      exact safe_ret how' fun _ h => h
    | error e =>
    have hlt : failedPublishes (w.own i) + 1 < r.publishMaxRetries := ha r how.tick
    rw [hown] at hlt
    dsimp only
    rw [if_neg (by omega)]
    have how' := how.act (q := .publish m) (x := .error e) (s := w.store) (t := s') (by rintro _ ⟨_, _, _, _, _, _, _, ⟨⟩, -⟩)
    refine safe_ask how' fun w₂ x s₂ how2 hown2 _ ha2 _ => ?_
    obtain rfl : x = .ok () := ha2
    refine safe_publishLoop hm left _ _ (how2.act (by rintro _ ⟨_, _, _, _, _, _, _, ⟨⟩, -⟩)) ?_ (by omega)
    rw [World.own_after_act, failedPublishes_backoff, hown2, World.own_after_act, failedPublishes_failed, hown]
    omega

theorem announces_renewal {sub : Subscription} {u : UUID} (hid : sub.id = d.id) :
    Announces (renewedMessage d (BillingDB.renewResult sub d.currentPeriodEnd d.planPriceCents u now) now)
      (BillingDB.invoiceFor sub d.currentPeriodEnd d.planPriceCents u now) :=
  ⟨rfl, rfl, rfl, rfl, rfl, congrArg (buildMsgID · d.currentPeriodEnd) hid.symm⟩

theorem safe_renewOne (ho : Owes r i (fun _ => False) v) : Sn s₀ i (fun _ w => Owes r i (fun _ => False) w) (renewOne r d now) v := by
  simp only [renewOne, send_bind, pure_eq]
  refine safe_ask ho fun w x s' how _ he ha hinv => ?_
  cases x with
  | error e => exact safe_ret (how.act (by rintro _ ⟨_, _, _, _, _, _, _, ⟨⟩, -⟩)) fun _ h => h
  | ok res =>
  obtain ⟨u, htx⟩ := he
  obtain ⟨sub, -, hid, -, -, -, rfl, rfl⟩ := BillingDB.renewSubscription_ok (Tx.of_ok htx)
  -- from here on the sweep owes the event of the invoice that it has just committed
  refine Safe.bind (R := fun _ w => Owes r i (fun _ => False) w) (Q := fun _ w => Owes r i (fun _ => False) w)
    (fun _ w _ h => safe_ret h fun _ h => h) hinv ?_
  refine safe_publishLoop (P := (· = BillingDB.invoiceFor sub d.currentPeriodEnd d.planPriceCents u now))
    (by rintro _ rfl; exact announces_renewal hid) _ _ _ ?_ ?_ r.retries
  · refine ⟨mem_cons_of_mem _ how.tick, ?_, ?_⟩
    · intro c a hm
      rcases mem_cons.mp hm with hm | hm
      · cases hm
      · exact how.running c a hm
    intro inv hc
    rcases commits_after.mp hc with ⟨_, _, _, _, _, _, _, ⟨⟩, hp⟩ | hc
    · exact .inr (singleton_inj.mp (append_cancel_left hp)).symm
    · exact .inl ((how.commits inv hc).resolve_right id).after
  · rw [World.own_after_act, failedPublishes_renewal, Nat.zero_add]

theorem safe_renewAll : ∀ (due : List DueSubscription) (v : W), AnnInv s₀ v → Owes r i (fun _ => False) v →
    Sn s₀ i (fun _ w => Owes r i (fun _ => False) w) (renewAll r now due) v
  | [], _, _, ho => safe_ret ho fun _ h => h
  | _ :: due, _, hv, ho => Safe.bind (fun _ w hw h => safe_renewAll due w hw h) hv (safe_renewOne ho)

theorem safe_tick (ho : Owes r i (fun _ => False) v) :
    Sn s₀ i (fun _ w => Owes r i (fun _ => False) w) (tick r) v := by
  simp only [tick, send_bind, pure_eq]
  refine safe_ask ho fun w₁ now s₁ ho1 _ _ _ _ => ?_
  have ho₁' := ho1.act (q := .core .clock) (x := now) (s := w₁.store) (t := s₁) (by rintro _ ⟨_, _, _, _, _, _, _, ⟨⟩, -⟩)
  refine safe_ask ho₁' fun w₂ x s₂ ho2 _ _ _ hinv => ?_
  have ho₂' := ho2.act (q := .listDueSubscriptions now r.batchSize) (x := x) (s := w₂.store) (t := s₂)
    (by rintro _ ⟨_, _, _, _, _, _, _, ⟨⟩, -⟩)
  cases x with
  | error e => exact safe_ret ho₂' fun _ h => h
  | ok due =>
  exact Safe.bind (Q := fun _ w => Owes r i (fun _ => False) w) (fun _ w _ h => safe_ret h fun _ h => h) hinv
    (safe_renewAll due _ hinv ho₂')

theorem AnnInv.after (h : AnnInv s₀ w) (hs : e.storeAfter w.store = w.store) (hact : ∀ j q x pre post, e ≠ .act j q x pre post)
    (hres : ∀ j r a, e = .respond j (.tick r) a → ∀ inv, Commits j inv w → Announced inv w) : AnnInv s₀ (w.after e) := by
  have hstore : (w.after e).store = w.store := hs
  have hc : ∀ {j inv}, Commits j inv (w.after e) → Commits j inv w := by
    intro j inv hc
    rcases commits_after.mp hc with ⟨_, _, _, _, _, _, _, rfl, -⟩ | hc
    · exact absurd rfl (hact _ _ _ _ _)
    · exact hc
  refine ⟨?_, ?_, ?_, ?_⟩
  · intro inv hm
    exact (h.invoices inv (hstore ▸ hm)).imp id fun ⟨j, hj⟩ => ⟨j, hj.after⟩
  · intro j m pre post hm
    rw [hstore]
    rcases mem_cons.mp hm with hm | hm
    · exact absurd hm.symm (hact _ _ _ _ _)
    · exact h.stream j m pre post hm
  · intro j inv hj
    obtain ⟨r, hr⟩ := h.ticks j inv (hc hj)
    exact ⟨r, mem_cons_of_mem _ hr⟩
  intro j r a hm inv hj
  rcases mem_cons.mp hm with hm | hm
  · exact (hres j r a hm.symm inv (hc hj)).after
  · exact (h.answered j r a hm inv (hc hj)).after

theorem annVerified : Verified (system Delivers) (annSpec s₀) := by
  intro w i c hw hu ha
  obtain ⟨r, rfl⟩ := ha
  refine ⟨Spec.ofHistory_keeps rfl (hw.after rfl (by rintro _ _ _ _ _ ⟨⟩) (by rintro _ _ _ ⟨⟩)), ?_⟩
  have ho : Owes r i (fun _ => False) (w.after (.invoke i (.tick r))) := by
    refine ⟨mem_cons_self, fun c a hm => ?_, fun inv hc => ?_⟩
    · rcases mem_cons.mp hm with hm | hm
      · cases hm
      · exact hu _ hm rfl
    · rcases commits_after.mp hc with ⟨_, _, _, _, _, _, _, ⟨⟩, -⟩ | ⟨_, _, _, _, _, _, _, hm, -⟩
      exact absurd rfl (hu _ hm)
  refine (safe_tick ho).mono fun a v (hv : AnnInv s₀ v) ho _ => Spec.ofHistory_keeps rfl (hv.after rfl (by rintro _ _ _ _ _ ⟨⟩) ?_)
  rintro _ _ _ ⟨⟩ inv hc
  exact (ho.commits inv hc).resolve_right id

theorem annInv_start : AnnInv s₀ ⟨s₀, []⟩ where
  invoices := fun _ h => .inl h
  stream := (by rintro _ _ _ _ ⟨⟩)
  ticks := by rintro _ _ ⟨_, _, _, _, _, _, _, h, -⟩; cases h
  answered := (by rintro _ _ _ ⟨⟩)

end Calls

/-- **Renewals are announced.**  If the broker takes every event within the attempts of its sweep, then in every reachable state in
which no sweep is under way every invoice that was committed has had its event published, and the stream holds a message under its id. -/
theorem renewals_announced {s₀ : BillingDB} {σ : Cfg} (hr : Reach (system Delivers) s₀ σ)
    (hdone : ∀ i r, .invoke i (.tick r) ∈ σ.world.hist → ∃ a, .respond i (.tick r) a ∈ σ.world.hist) {inv : InvoiceRow}
    (hinv : inv ∈ σ.world.store.invoices) (hnew : inv ∉ s₀.invoices) :
    ∃ i m pre post, .act i (.publish m) (.ok ()) pre post ∈ σ.world.hist ∧ Announces m inv ∧
      ∃ m' ∈ σ.world.store.stream, m'.msgID = m.msgID := by
  have h := annVerified.inv annInv_start hr
  obtain ⟨i, hc⟩ := (h.invoices inv hinv).resolve_left hnew
  obtain ⟨r, htick⟩ := h.ticks i inv hc
  obtain ⟨a, hres⟩ := hdone i r htick
  obtain ⟨j, m, pre, post, hm, hann⟩ := h.answered i r a hres inv hc
  exact ⟨j, m, pre, post, hm, hann, h.stream j m pre post hm⟩

/-- The answers without failures are among those that deliver. -/
theorem delivers_serve (plans : List Plan) (now : Time) (u : UUID) (i : ℕ) (w : W) (q : Req) (s : BillingDB) :
    Delivers w (.act i q (serve plans now u q s).1 s (serve plans now u q s).2) := by
  cases q with
  | renewSubscription id old price t =>
    simp only [serve]
    cases s.renewSubscription id old price t u with
    | error e => exact rfl
    | ok x => exact trivial
  | backoff delay => exact rfl
  | _ => exact trivial

def oneSweep : Ev → Bool
  | .invoke i c => i = 0 ∧ c = .tick worker
  | _ => true

theorem renewals_announced_january : ∃ σ : Cfg, Reach (system Delivers) januaryDB σ ∧
    (∀ i r, .invoke i (.tick r) ∈ σ.world.hist → ∃ a, .respond i (.tick r) a ∈ σ.world.hist) ∧
    januaryInvoice ∈ σ.world.store.invoices ∧ januaryInvoice ∉ januaryDB.invoices ∧
    ∃ i m pre post, .act i (.publish m) (.ok ()) pre post ∈ σ.world.hist ∧ Announces m januaryInvoice ∧
      ∃ m' ∈ σ.world.store.stream, m'.msgID = m.msgID := by
  let σ := (Conf.start januaryDB).play (system Delivers) (serve [basicPlan] (40 * Calendar.day) 7) (sweep 0 5)
  have hr : Reach (system Delivers) januaryDB σ := Conf.steps_serve (exec_serve (by decide)) (fun i w => delivers_serve _ _ _ i w) (fun _ _ _ _ => trivial) _ _
    fun _ _ hm _ => ⟨worker, mem_sweep hm⟩
  obtain ⟨hres, honly, hinv⟩ : σ.world.result 0 (.tick worker) = some (.ok ()) ∧ σ.world.hist.all oneSweep = true ∧
      januaryInvoice ∈ σ.world.store.invoices := by decide +kernel
  have hdone : ∀ i r, .invoke i (.tick r) ∈ σ.world.hist → ∃ a, .respond i (.tick r) a ∈ σ.world.hist := by
    intro i r hm
    obtain ⟨rfl, hc⟩ := of_decide_eq_true (all_eq_true.mp honly _ hm)
    cases hc
    exact ⟨_, World.mem_of_result hres⟩
  exact ⟨σ, hr, hdone, hinv, by decide, renewals_announced hr hdone hinv (by decide)⟩

def serveDown (plans : List Plan) (now : Time) (u : UUID) : (q : Req) → BillingDB → Resp q × BillingDB
  | .publish _, s => (.error (.other "nats: timeout"), s)
  | q, s => serve plans now u q s

theorem exec_serveDown {plans : List Plan} {now : Time} {u : UUID} (hu : u ≠ UUID.Nil) (q : Req) (s : BillingDB) :
    exec q s (serveDown plans now u q s).1 (serveDown plans now u q s).2 := by
  have hserve : ∀ q, exec q s (serve plans now u q s).1 (serve plans now u q s).2 := fun q => exec_serve hu q s
  cases q with
  | publish m => exact .inr ⟨rfl, _, rfl⟩
  | _ => exact hserve _

def BrokerUp (w : W) (e : Ev) : Prop :=
  OnlyTicks w e ∧ match e with
    | .act _ (.publish _) r _ _ => r = .ok ()
    | _ => True

/-- **A renewal unannounced.**  Five publishes of one sweep fail; from then on the broker takes every event, and a further sweep
completes.  The invoice of the first sweep is committed and nothing has ever been published. -/
theorem renewal_unannounced : ∃ s₀ r inv, ∃ σ σ' : Cfg, Reach (system OnlyTicks) s₀ σ ∧
    Relation.ReflTransGen (Step (system BrokerUp)) σ σ' ∧ .respond 0 (.tick r) (.ok ()) ∈ σ.world.hist ∧
    .invoke 1 (.tick r) ∉ σ.world.hist ∧ .respond 1 (.tick r) (.ok ()) ∈ σ'.world.hist ∧
    inv ∈ σ'.world.store.invoices ∧ inv ∉ s₀.invoices ∧ σ'.world.store.stream = [] := by
  let σ := (Conf.start januaryDB).play (system OnlyTicks) (serveDown [basicPlan] (40 * Calendar.day) 7) (sweep 0 13)
  let σ' := σ.play (system BrokerUp) (serve [basicPlan] (41 * Calendar.day) 8) (sweep 1 13)
  have hr : Reach (system OnlyTicks) januaryDB σ := Conf.steps_serve (exec_serveDown (by decide)) (fun _ _ _ _ => trivial) (fun _ _ _ _ => trivial) _ _
    fun _ _ hm _ => ⟨worker, mem_sweep hm⟩
  have hs : Relation.ReflTransGen (Step (system BrokerUp)) σ σ' := by
    refine Conf.steps_serve (M := system BrokerUp) (exec_serve (by decide)) (fun _ _ q _ => ?_) (fun _ _ _ _ => ⟨trivial, trivial⟩) _ _ fun _ _ hm _ => ⟨⟨worker, mem_sweep hm⟩, trivial⟩
    cases q with
    | publish m => exact ⟨trivial, rfl⟩
    | _ => exact ⟨trivial, trivial⟩
  obtain ⟨hres, hone, hres', hinv, hstream⟩ : σ.world.result 0 (.tick worker) = some (.ok ()) ∧ σ.world.hist.all (Event.before 1) = true ∧
      σ'.world.result 1 (.tick worker) = some (.ok ()) ∧ januaryInvoice ∈ σ'.world.store.invoices ∧ σ'.world.store.stream = [] := by decide +kernel
  exact ⟨januaryDB, worker, januaryInvoice, σ, σ', hr, hs, World.mem_of_result hres,
    fun hm => Nat.lt_irrefl 1 (of_decide_eq_true (all_eq_true.mp hone _ hm)), World.mem_of_result hres', hinv, by decide, hstream⟩

end Crm.Billing
