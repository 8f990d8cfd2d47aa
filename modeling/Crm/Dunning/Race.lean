import Crm.Dunning.Worker

/-!
# Crm.Dunning.Race — payments and sweeps on one row

A tick and a payment hook each decide on a copy of the row and save the whole copy.  A tick that listed the row before a payment was
confirmed escalates it afterwards, and a hook that loaded the row before a tick cancelled it brings it back (`stale_save`).  When no save
of the row comes between a call's read and its own save, neither happens (`payment_and_cancellation_stand`).
-/

namespace Crm.Dunning

open Interleave List Prog

def Reads (i : ℕ) : Ev → Prop
  | .act j (.listCandidates _ _) _ _ _ => j = i
  | .act j (.getBySubscription _) _ _ _ => j = i
  | _ => False

/-- The tables as call `i` last read them, as long as the row of `x` has not been saved since. -/
def base (i : ℕ) (x : UUID) : List Ev → Option DunningDB
  | [] => none
  | .act j (.listCandidates _ _) _ pre _ :: h => if j = i then some pre else base i x h
  | .act j (.getBySubscription _) _ pre _ :: h => if j = i then some pre else base i x h
  | .act _ (.save d) _ _ _ :: h => if d.subscriptionID = x then none else base i x h
  | _ :: h => base i x h

/-- No save of the row has come between the read of the call that saves it and this save. -/
def SavesUntouched (w : W) : Ev → Prop
  | .act i (.save d) _ _ _ => (base i d.subscriptionID w.hist).isSome
  | _ => True

/-- How severe the stored state of a subscription is; one without a row is current. -/
def DunningDB.severity (x : UUID) (s : DunningDB) : ℤ :=
  match s.states.find x with
  | some r => r.state.severity
  | none => 0

/-- **Payments stand.**  Once the payment hook of call `j` has returned nil, the stored state is not made more severe by the save of a
call `i` that has not read the rows since the hook's save. -/
def PaymentsStand (hist : List Ev) : Prop :=
  ∀ h a b i j d r pre post d' pre' post',
    hist = h ++ .act i (.save d) r pre post :: (a ++ .act j (.save d') (.ok ()) pre' post' :: b) →
    d'.subscriptionID = d.subscriptionID → .respond j (.onPaymentConfirmed d.subscriptionID) (Except.ok ()) ∈ a →
    (∀ e ∈ a, ¬ Reads i e) → post.severity d.subscriptionID ≤ pre.severity d.subscriptionID

/-- The cancelled rows of `s` are there in `s'` and cancelled. -/
def KeepsCancelled (s s' : DunningDB) : Prop :=
  ∀ x r, s.states.find x = some r → r.state = .cancelled → ∃ r', s'.states.find x = some r' ∧ r'.state = .cancelled

namespace KeepsCancelled

variable {s s' s'' : DunningDB}

theorem of_find (h : ∀ x, s'.states.find x = s.states.find x) : KeepsCancelled s s' := fun x r hr hc => ⟨r, (h x).trans hr, hc⟩

theorem refl (s : DunningDB) : KeepsCancelled s s := of_find fun _ => rfl

theorem trans (h : KeepsCancelled s s') (h' : KeepsCancelled s' s'') : KeepsCancelled s s'' := by
  intro x r hr hc
  obtain ⟨r₁, hr1, hc1⟩ := h x r hr hc
  exact h' x r₁ hr1 hc1

theorem of_save {d r₀ : DunningState} {r : Except Err Unit} (he : exec (.save d) s r s') (hf : s.states.find d.subscriptionID = some r₀)
    (hn : r₀.state ≠ .cancelled) : KeepsCancelled s s' := by
  intro x r₁ hr1 hc
  have hx : x ≠ d.subscriptionID := by
    rintro rfl
    rw [hf] at hr1
    cases hr1
    exact hn hc
  refine ⟨r₁, ?_, hc⟩
  rw [exec_find he (by rintro _ ⟨⟩; exact hx.symm)]
  exact hr1

end KeepsCancelled

/-! ## The last read of a call -/

section Base

variable {i j : ℕ} {x : UUID} {h : List Ev} {s : DunningDB}

theorem base_of_reads {q : Req} {r : Resp q} {pre post : DunningDB} (hr : Reads i (.act j q r pre post)) :
    base i x (.act j q r pre post :: h) = some pre := by
  cases q with
  | listCandidates asOf limit => exact if_pos hr
  | getBySubscription y => exact if_pos hr
  | _ => exact hr.elim

/-- An event that is no read of call `i` never makes its read newer. -/
theorem base_cons {e : Ev} (he : ¬ Reads i e) (hb : base i x (e :: h) = some s) : base i x h = some s := by
  cases e with
  | invoke j c => exact hb
  | respond j c a => exact hb
  | act j q r pre post =>
  cases q with
  | listCandidates asOf limit => exact (if_neg he).symm.trans hb
  | getBySubscription y => exact (if_neg he).symm.trans hb
  | save d =>
    simp only [base] at hb
    split_ifs at hb
    exact hb
  | clock => exact hb
  | activeFor t now => exact hb
  | others core invoices => exact hb

/-- A save of the row and no read since: the call has nothing to save. -/
theorem base_eq_none (d : DunningState) (r : Except Err Unit) (pre post : DunningDB) (hd : d.subscriptionID = x) {b : List Ev} :
    ∀ {a : List Ev}, (∀ e ∈ a, ¬ Reads i e) → base i x (a ++ .act j (.save d) r pre post :: b) = none
  | [], _ => if_pos hd
  | e :: a, ha => by
    by_contra hb
    obtain ⟨s, hs⟩ := Option.ne_none_iff_exists'.mp hb
    have htail := base_eq_none d r pre post hd (b := b) fun e' he' => ha e' (mem_cons_of_mem _ he')
    exact Option.some_ne_none s ((base_cons (ha e mem_cons_self) hs).symm.trans htail)

end Base

/-! ## Calls that save what they have read -/

/-- What holds between any two events: a row that has not been saved since a call read it is as it was then, and every request so far
has kept the cancelled rows. -/
structure RaceInv (w : W) : Prop where
  kept : ∀ i x s, base i x w.hist = some s → w.store.states.find x = s.states.find x
  final : ∀ i q r pre post, .act i q r pre post ∈ w.hist → KeepsCancelled pre post

def raceSpec : Spec Req Resp DunningDB Call Res where
  inv := RaceInv
  rely := fun i v w => ∀ x s, base i x w.hist = some s → base i x v.hist = some s
  refl := fun _ _ _ _ h => h
  trans := fun _ _ _ _ h h' x s hs => h x s (h' x s hs)

section Calls

variable {i : ℕ} {α : Type} {Q : α → W → Prop} {u v : W} {s₀ : DunningDB}

abbrev Rs (i : ℕ) (Q : α → W → Prop) (p : Client α) (w : W) : Prop := Safe (system SavesUntouched) raceSpec i Q p w

def Based (i : ℕ) (s₀ : DunningDB) (w : W) : Prop := ∀ x s, base i x w.hist = some s → s = s₀

theorem Based.rely (h : Based i s₀ u) (hr : raceSpec.rely i u v) : Based i s₀ v := fun x s hs => h x s (hr x s hs)

variable {e : Ev} {now : Time} {w : Worker}

theorem Based.after (h : Based i s₀ v) (he : ¬ Reads i e) : Based i s₀ (v.after e) := fun x s hs => h x s (base_cons he hs)

theorem not_reads_of_ne {j : ℕ} (he : e.tid = i) (hj : j ≠ i) : ¬ Reads j e := by
  intro hr
  cases e with
  | invoke k c => exact hr
  | respond k c a => exact hr
  | act k q r pre post =>
  have hk : k = i := he
  cases q with
  | listCandidates asOf limit => exact hj (Eq.trans (Eq.symm hr) hk)
  | getBySubscription y => exact hj (Eq.trans (Eq.symm hr) hk)
  | _ => exact hr

theorem keeps_of (he : e.tid = i) (h : RaceInv (v.after e)) : raceSpec.Keeps i v e :=
  ⟨h, fun _ hj _ _ hs => base_cons (not_reads_of_ne he hj) hs⟩

theorem RaceInv.act {q : Req} {r : Resp q} {s' : DunningDB} (hv : RaceInv v) (he : exec q v.store r s')
    (hk : KeepsCancelled v.store s') : RaceInv (v.after (.act i q r v.store s')) := by
  refine ⟨fun j x s hs => ?_, fun j q' r' pre post hm => ?_⟩
  · rw [World.after_act_store]
    -- a fresh read is of the store as it stands; otherwise the row has not been saved and the older read counts
    by_cases hread : Reads j (.act i q r v.store s')
    · obtain rfl : v.store = s := Option.some.inj ((base_of_reads hread).symm.trans hs)
      refine exec_find he ?_
      rintro d rfl
      exact hread.elim
    rw [← hv.kept j x s (base_cons hread hs)]
    refine exec_find he ?_
    rintro d rfl hd
    exact absurd (hs.symm.trans (if_pos hd)) (by rintro ⟨⟩)
  rcases mem_cons.mp hm with hm | hm
  · cases hm
    exact hk
  · exact hv.final j q' r' pre post hm

theorem safe_ret {a : α} (h : ∀ v, raceSpec.rely i u v → Q a v) : Rs i Q (.ret a) u := fun v hv _ => h v hv

theorem safe_ask {q : Req} {k : Resp q → Client α} (hq : ∀ d, q ≠ .save d)
    (H : ∀ v r s', raceSpec.rely i u v → exec q v.store r s' → Rs i Q (k r) (v.after (.act i q r v.store s'))) : Rs i Q (.ask q k) u := by
  intro v hrely hv r s' he _
  refine ⟨keeps_of rfl (hv.act he (.of_find fun x => exec_find he fun d hd => absurd hd (hq d))), H v r s' hrely he⟩

theorem safe_save {k : Except Err Unit → Client α} {d r₀ : DunningState} (hb : Based i s₀ u)
    (hf : s₀.states.find d.subscriptionID = some r₀) (hn : r₀.state ≠ .cancelled)
    (H : ∀ v r, Based i s₀ v → Rs i Q (k r) v) : Rs i Q (.ask (.save d) k) u := by
  intro v hrely hv r s' he ha
  obtain ⟨s, hs⟩ := Option.isSome_iff_exists.mp ha
  obtain rfl : s = s₀ := hb.rely hrely _ _ hs
  have hrow : v.store.states.find d.subscriptionID = some r₀ := (hv.kept i _ s hs).trans hf
  refine ⟨keeps_of rfl (hv.act he (.of_save he hrow hn)), H _ r ?_⟩
  exact (hb.rely hrely).after id

theorem safe_lookupOverride {tenantID : UUID} (hb : Based i s₀ u) : Rs i (fun _ v => Based i s₀ v) (lookupOverride tenantID now) u := by
  simp only [lookupOverride, send_bind, pure_eq]
  refine safe_ask (by rintro d ⟨⟩) fun v r s' hrely _ => ?_
  have hv : Based i s₀ (v.after (.act i (.activeFor tenantID now) r v.store s')) := (hb.rely hrely).after id
  cases r with
  | ok got => exact safe_ret fun _ hr => hv.rely hr
  | error e =>
  dsimp only
  split_ifs <;> exact safe_ret fun _ hr => hv.rely hr

theorem safe_evaluate {c : Candidate} (hu : RaceInv u) (hb : Based i s₀ u) (hc : c.row ∈ s₀.states.rows) :
    Rs i (fun _ v => Based i s₀ v) (w.evaluate c now) u := by
  refine Safe.bind (R := fun _ v => Based i s₀ v) (fun looked v _ hv => ?_) hu (safe_lookupOverride hb)
  have hret : Rs i (fun _ v => Based i s₀ v) (.ret ()) v := safe_ret fun _ hr => hv.rely hr
  -- whatever the lookup has found, what is saved comes from the candidate's row
  have hsave : ∀ override d, w.next c override now = some d →
      Rs i (fun _ v => Based i s₀ v) (.ask (.save d) fun _ => .ret ()) v := by
    intro override d hn
    obtain ⟨hs, hsub⟩ := Worker.next_some hn
    refine safe_save hv ?_ hs fun v' _ hv' => safe_ret fun _ hr => hv'.rely hr
    rw [hsub]
    exact DunningTable.find_of_mem hc
  cases looked with
  | ok o =>
    dsimp only
    split
    next => exact hret
    next d hn => exact hsave _ d hn
  | error e =>
  dsimp only
  split
  next => exact hret
  next d hn => exact hsave _ d hn

theorem safe_evaluateAll : ∀ {cs : List Candidate} {u : W}, RaceInv u → Based i s₀ u →
    (∀ c ∈ cs, c.row ∈ s₀.states.rows) → Rs i (fun _ _ => True) (w.evaluateAll now cs) u
  | [], _, _, _, _ => .stop
  | c :: _, _, hu, hb, hc => Safe.bind (fun _ _ hw hR => safe_evaluateAll hw hR fun c' hm => hc c' (mem_cons_of_mem _ hm)) hu
      (safe_evaluate hu hb (hc c mem_cons_self))

theorem safe_tick : Rs i (fun _ _ => True) w.tick u := by
  simp only [Worker.tick, send_bind, pure_eq]
  refine safe_ask (by rintro d ⟨⟩) fun v now s' _ _ => ?_
  intro v₁ _ hv1 r s₁ (he : exec (.listCandidates now w.batchSize) v₁.store r s₁) _
  have hinv : RaceInv (v₁.after (.act i (.listCandidates now w.batchSize) r v₁.store s₁)) :=
    RaceInv.act hv1 he (.of_find fun x => exec_find he (by rintro d ⟨⟩))
  refine ⟨keeps_of rfl hinv, ?_⟩
  cases r with
  | error e => exact .stop
  | ok candidates =>
  have hb : Based i v₁.store (v₁.after (.act i (.listCandidates now w.batchSize) (.ok candidates) v₁.store s₁)) :=
    fun x s hs => (Option.some.inj ((base_of_reads (by rfl)).symm.trans hs)).symm
  obtain ⟨-, ⟨l, hl, h⟩ | ⟨_, -, h⟩⟩ := he
  · cases h
    refine Safe.bind (R := fun _ _ => True) (fun _ _ _ _ => .stop) hinv ?_
    exact safe_evaluateAll hinv hb fun c hc => (hl.mem hc).1
  · cases h

theorem safe_onPaymentConfirmed {x : UUID} : Rs i (fun _ _ => True) (onPaymentConfirmed x) u := by
  simp only [onPaymentConfirmed, send_bind, pure_eq]
  split_ifs
  · exact .stop
  refine safe_ask (by rintro d ⟨⟩) fun v r s' _ he => ?_
  cases r with
  | error e => exact .stop
  | ok row =>
  have hb : Based i v.store (v.after (.act i (.getBySubscription x) (.ok row) v.store s')) :=
    fun y s hs => (Option.some.inj ((base_of_reads (by rfl)).symm.trans hs)).symm
  have hrow := DunningDB.getBySubscription_ok (Read.of_ok he)
  refine safe_ask (by rintro d ⟨⟩) fun v₁ now s₁ hrely _ => ?_
  cases hm : row.markPaid now with
  | error e => exact .stop
  | ok d =>
  obtain ⟨hn, hd⟩ := DunningState.markPaid_ok hm
  have hsub : d.subscriptionID = x := by
    rw [hd]
    exact (DunningTable.find_some hrow).2
  refine safe_save ((hb.rely hrely).after id) (by rw [hsub]; exact hrow) hn fun v₂ r _ => ?_
  cases r <;> exact .stop

theorem raceVerified : Verified (system SavesUntouched) raceSpec := by
  -- an event that is no request
  have hk : ∀ {w : W} {e : Ev} {i : ℕ}, RaceInv w → e.tid = i → (w.after e).store = w.store → (∀ j, ¬ Reads j e) →
      (∀ j q r pre post, e ≠ .act j q r pre post) → raceSpec.Keeps i w e := by
    intro w e i hw hi hstore hread he
    refine keeps_of hi ⟨fun j x s hs => ?_, fun j q r pre post hm => ?_⟩
    · rw [hstore]
      exact hw.kept j x s (base_cons (hread j) hs)
    · rcases mem_cons.mp hm with hm | hm
      · exact absurd hm.symm (he j q r pre post)
      · exact hw.final j q r pre post hm
  intro w i c hw _ _
  refine ⟨hk hw rfl rfl (fun _ => id) (by rintro _ _ _ _ _ ⟨⟩), ?_⟩
  have hres : ∀ a v, raceSpec.inv v → True → Responds (system SavesUntouched) raceSpec i c a v :=
    fun a v hv _ _ => hk hv rfl rfl (fun _ => id) (by rintro _ _ _ _ _ ⟨⟩)
  cases c with
  | tick w => exact safe_tick.mono hres
  | onPaymentConfirmed x => exact safe_onPaymentConfirmed.mono hres
  | others core invoices =>
  exact (safe_ask (by rintro d ⟨⟩) fun _ _ _ _ _ => .stop).mono hres

end Calls

variable {s : DunningDB} {σ σ' : Cfg}

theorem step_keepsCancelled (hr : Reach (system SavesUntouched) s σ) (hs : Step (system SavesUntouched) σ σ') :
    KeepsCancelled σ.world.store σ'.world.store := by
  have hinv := raceVerified.inv ⟨by rintro _ _ _ ⟨⟩, fun _ _ _ _ _ h => absurd h not_mem_nil⟩ (hr.tail hs)
  cases hs with
  | invoke c hp ha => exact .refl _
  | act hp he ha => exact hinv.final _ _ _ _ _ mem_cons_self
  | respond hp ha => exact .refl _

theorem run_keepsCancelled (hr : Reach (system SavesUntouched) s σ) (hs : Relation.ReflTransGen (Step (system SavesUntouched)) σ σ') :
    KeepsCancelled σ.world.store σ'.world.store := by
  induction hs with
  | refl => exact .refl _
  | tail hs hlast ih => exact ih.trans (step_keepsCancelled (hr.trans hs) hlast)

theorem run_paymentsStand (hr : Reach (system SavesUntouched) s σ) : PaymentsStand σ.world.hist := by
  intro h a b i j d r pre post d' pre' post' hhist hsub _ hread
  obtain ⟨τ, -, hτ, hallow⟩ := hr.split hhist
  have hsome : (base i d.subscriptionID τ.world.hist).isSome := hallow
  rw [hτ, base_eq_none _ _ _ _ hsub hread] at hsome
  cases hsome

/-! ## A sweep and a payment that cross -/

def suspendedRow : DunningState where
  id := 1
  tenantID := 2
  subscriptionID := 3
  state := .suspendedFull
  enteredStateAt := 0
  lastInvoiceID := 5
  overrideUntil := none
  overrideReason := ""

/-- Its subscription is active, and its invoice of day 0 is not paid. -/
def overdueDB : DunningDB where
  core := { wallets := [], ledger := [], courtesy := [], grants := [],
            subs := [{ id := 3, tenantID := 2, planID := 4, status := .active, currentPeriodStart := 0, currentPeriodEnd := 1000,
                       createdAt := 0, updatedAt := 0 }] }
  invoices := [{ id := 5, tenantID := 2, subscriptionID := 3, periodStart := 0, periodEnd := 30, amountCentsBRL := 100, state := .pending,
                 createdAt := 0, updatedAt := 0 }]
  states := ⟨[suspendedRow], by decide, by decide, by decide⟩

def sweeper : Worker := ⟨fun _ => defaultPolicy, 200, 1, by decide, by decide⟩

/-- The hundredth day, on which the invoice cancels the subscription. -/
def day100 : Time := 8640000000000000

def cancelledRow : DunningState := { suspendedRow with state := .cancelled, enteredStateAt := day100 }

def paidRow : DunningState := { suspendedRow with state := .current, enteredStateAt := day100, lastInvoiceID := UUID.Nil }

def overdueCandidate : Candidate := ⟨suspendedRow, 3, 2, 4, some ⟨5, 0⟩⟩

theorem served : ∀ q s, true → exec q s (serve day100 q s).1 (serve day100 q s).2 := fun q s _ => exec_serve day100 q s

def untouched (w : W) : Ev → Bool
  | .act i (.save d) _ _ _ => (base i d.subscriptionID w.hist).isSome
  | _ => true

theorem savesUntouched_of_untouched : ∀ (w : W) (e : Ev), untouched w e → SavesUntouched w e
  | _, .act _ (.save _) _ _ _, h => h
  | _, .act _ .clock _ _ _, _ | _, .act _ (.listCandidates _ _) _ _ _, _ | _, .act _ (.activeFor _ _) _ _ _, _
  | _, .act _ (.getBySubscription _) _ _ _, _ | _, .act _ (.others _ _) _ _ _, _ | _, .invoke _ _, _ | _, .respond _ _ _, _ => trivial

def sweeps : List (Turn Call) := [.invoke 0 (.tick sweeper), .move 0, .move 0, .move 0]

def pays : List (Turn Call) := [.invoke 1 (.onPaymentConfirmed 3), .move 1, .move 1]

/-- **Payments and cancellations stand.**  If no save of a row comes between the read of the call that saves it and that save, then from
any point of a run on, a cancelled row stays cancelled, and no payment is followed by an escalation from a read before it. -/
theorem payment_and_cancellation_stand {s : DunningDB} {σ σ' : Cfg} (hr : Reach (system SavesUntouched) s σ)
    (hs : Relation.ReflTransGen (Step (system SavesUntouched)) σ σ') :
    PaymentsStand σ'.world.hist ∧ KeepsCancelled σ.world.store σ'.world.store :=
  ⟨run_paymentsStand (hr.trans hs), run_keepsCancelled hr hs⟩

/-- A sweep cancels the row, and the payment hook that starts later is refused. -/
theorem payment_and_cancellation_stand_refused : ∃ σ σ' : Cfg, Reach (system SavesUntouched) overdueDB σ ∧
    Relation.ReflTransGen (Step (system SavesUntouched)) σ σ' ∧ σ.world.store.states.find 3 = some cancelledRow ∧
    .respond 1 (.onPaymentConfirmed 3) (Except.error Err.dunningInvalidTransition) ∈ σ'.world.hist ∧ PaymentsStand σ'.world.hist ∧
    KeepsCancelled σ.world.store σ'.world.store := by
  have hr := Conf.steps_play (M := system SavesUntouched) (k := untouched) served savesUntouched_of_untouched (sweeps ++ [.move 0])
    (Conf.start overdueDB) (by decide +kernel)
  have hs := Conf.steps_play (M := system SavesUntouched) (k := untouched) served savesUntouched_of_untouched (pays ++ [.move 1])
    _ (by decide +kernel : ((Conf.start overdueDB).play (system SavesUntouched) (serve day100) (sweeps ++ [.move 0])).checks _ _ _ _ _)
  obtain ⟨hpay, hkeep⟩ := payment_and_cancellation_stand hr hs
  exact ⟨_, _, hr, hs, by decide +kernel, mem_cons_self, hpay, hkeep⟩

/-- **Stale saves.**  A sweep lists the suspended row and is overtaken by the payment hook; its save then cancels the row that was paid.
The other way round, the hook brings back the row that the sweep has cancelled. -/
theorem stale_save : (∃ σ : Cfg, Reach (system fun _ _ => True) overdueDB σ ∧ ¬ PaymentsStand σ.world.hist) ∧
    ∃ σ σ' : Cfg, Reach (system fun _ _ => True) overdueDB σ ∧ Relation.ReflTransGen (Step (system fun _ _ => True)) σ σ' ∧
      σ.world.store.states.find 3 = some cancelledRow ∧ σ'.world.store.states.find 3 = some paidRow := by
  have hk : ∀ (w : W) (e : Ev), true → (system fun _ _ => True).allow w e := fun _ _ _ => trivial
  constructor
  · have hr := Conf.steps_play (M := system fun _ _ => True) (k := fun _ _ => true) served hk (sweeps ++ pays ++ [.move 1, .move 1, .move 0])
      (Conf.start overdueDB) (by decide +kernel)
    refine ⟨_, hr, fun hstand => ?_⟩
    have hle := hstand [] [.respond 1 (.onPaymentConfirmed 3) (Except.ok ())] _ 0 1 cancelledRow _ _ _ paidRow _ _ rfl rfl
      mem_cons_self (by rintro e (_ | ⟨_, ⟨⟩⟩); exact id)
    exact absurd hle (by decide +kernel)
  have hr := Conf.steps_play (M := system fun _ _ => True) (k := fun _ _ => true) served hk (sweeps ++ pays ++ [.move 0])
    (Conf.start overdueDB) (by decide +kernel)
  have hs := Conf.steps_play (M := system fun _ _ => True) (k := fun _ _ => true) served hk [.move 1]
    _ (by decide +kernel : ((Conf.start overdueDB).play (system fun _ _ => True) (serve day100) (sweeps ++ pays ++ [.move 0])).checks _ _ _ _ _)
  exact ⟨_, _, hr, hs, by decide +kernel, by decide +kernel⟩

end Crm.Dunning
