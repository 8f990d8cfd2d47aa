import Crm.Dunning.Worker

/-!
# Crm.Dunning.Sweep — which rows the ticks reach

A tick evaluates the `batchSize` listed rows that entered their state first.  A row that moves goes to the end of that order; a row that
needs no transition keeps its place.  A batch of rows that no tick moves therefore hides everything behind it (`overdue_row_starves`).  A
row with no such batch ahead of it is reached after at most as many ticks as there are rows (`overdue_row_reached`): as long as it waits,
every tick moves one row from before it to behind it.
-/

namespace Crm.Dunning

open Interleave List Prog DunningTable

/-- The answers of an undisturbed sweep at `now`: nothing fails and no override is found. -/
def Calm (now : Time) : (q : Req) → Resp q → Prop
  | .clock, t => t = now
  | .listCandidates _ _, r => ∃ l, r = .ok l
  | .activeFor _ _, r => r = .error .dunningNoActiveOverride
  | .getBySubscription _, _ => True
  | .save _, r => r = .ok ()
  | .others _ _, _ => True

def calmExec (now : Time) (q : Req) (s : DunningDB) (r : Resp q) (s' : DunningDB) : Prop := exec q s r s' ∧ Calm now q r

/-- The tables after `n` ticks at `now` from `s`, one after another and with no other writer. -/
inductive Sweeps (w : Worker) (now : Time) (s : DunningDB) : ℕ → DunningDB → Prop
  | zero : Sweeps w now s 0 s
  | succ {n : ℕ} {s₁ s' : DunningDB} {l : List (Prog.Exchange Req Resp DunningDB)} (h : Sweeps w now s n s₁)
      (ht : Prog.Runs (calmExec now) w.tick s₁ l (.ok ()) s') : Sweeps w now s (n + 1) s'

/-! ## What one tick does to the rows -/

section Tick

variable {w : Worker} {now : Time} {c : Candidate} {cs : List Candidate} {d r : DunningState} {s s' : DunningDB}
  {l : List (Prog.Exchange Req Resp DunningDB)}

/-- What is saved when there is no override: the row of a payment, or that of the days past due. -/
theorem Worker.next_none_some (h : w.next c none now = some d) :
    d.subscriptionID = c.row.subscriptionID ∧ d.enteredStateAt = now ∧ (c.row.Consistent → d.Consistent) ∧
      ∀ p, c.pending = some p → d.state = (w.policy c.planID).stateForDaysPastDue (daysSince p.periodStart now) := by
  simp only [Worker.next, Option.filter_none] at h
  split at h
  · rename_i hp
    split_ifs at h
    cases hm : c.row.markPaid now with
    | error e => simp [hm, Except.toOption] at h
    | ok d' =>
    simp only [hm, Except.toOption, Option.some.injEq] at h
    subst h
    obtain ⟨-, rfl⟩ := DunningState.markPaid_ok hm
    refine ⟨rfl, rfl, fun _ => .inl ⟨rfl, rfl⟩, fun p hp' => ?_⟩
    rw [hp] at hp'
    cases hp'
  rename_i p hp
  split at h
  · rename_i row he
    cases h
    rcases DunningState.escalate_cases he with ⟨hb, -⟩ | ⟨-, -, -, -, rfl⟩
    · cases hb
    refine ⟨rfl, rfl, id, fun p' hp' => ?_⟩
    rw [hp] at hp'
    cases hp'
    rfl
  · cases h

theorem Worker.next_escalates (w : Worker) (now : Time) {p : PendingInvoice} (hv : (w.policy c.planID).validate = .ok ()) (hp : c.pending = some p)
    (hid : p.id ≠ UUID.Nil)
    (hlt : c.row.state.severity < ((w.policy c.planID).stateForDaysPastDue (daysSince p.periodStart now)).severity) :
    ∃ d, w.next c none now = some d := by
  have hc : c.row.state ≠ .cancelled := by
    intro hc
    rw [hc] at hlt
    generalize (w.policy c.planID).stateForDaysPastDue _ = target at hlt
    cases target <;> exact absurd hlt (by decide)
  have hlive : ¬ ∃ o ∈ (none : Option Override), now < o.untilTime := by rintro ⟨o, ⟨⟩, _⟩
  rw [← Option.isSome_iff_exists]
  simp only [Worker.next, Option.filter_none, hp, DunningState.escalate, hv, if_neg hc, if_neg hlive, if_neg (not_le.mpr hlt), if_neg hid,
    Option.isSome_some]

/-- A row after a tick that evaluated the candidates `cs`. -/
def Worker.moved (w : Worker) (now : Time) (cs : List Candidate) (r : DunningState) : DunningState :=
  match (cs.find? fun c => c.row = r).bind fun c => w.next c none now with
  | some d => DunningTable.overwrite d r
  | none => r

theorem Worker.moved_cases (w : Worker) (now : Time) (cs : List Candidate) (r : DunningState) : w.moved now cs r = r ∨
    ∃ c ∈ cs, ∃ d, c.row = r ∧ w.next c none now = some d ∧ w.moved now cs r = DunningTable.overwrite d r := by
  unfold Worker.moved
  cases hf : cs.find? fun c => c.row = r with
  | none => exact .inl rfl
  | some c =>
  cases hn : w.next c none now with
  | none => exact .inl (by simp [hn])
  | some d => exact .inr ⟨c, mem_of_find?_eq_some hf, d, by simpa using find?_some hf, hn, by simp [hn]⟩

theorem Worker.moved_of_mem (hnd : (cs.map fun c => c.row.subscriptionID).Nodup) (hc : c ∈ cs) (hn : w.next c none now = some d) :
    w.moved now cs c.row = DunningTable.overwrite d c.row := by
  obtain ⟨c', hf⟩ : ∃ c', cs.find? (fun c' => c'.row = c.row) = some c' := by
    rw [← Option.isSome_iff_exists]
    exact find?_isSome.mpr ⟨c, hc, decide_eq_true rfl⟩
  have hrow : c'.row = c.row := by simpa using find?_some hf
  obtain rfl : c' = c := inj_on_of_nodup_map hnd (mem_of_find?_eq_some hf) hc (congrArg _ hrow)
  simp [Worker.moved, hf, hn]

theorem Worker.moved_of_not_mem (h : ∀ c ∈ cs, c.row.subscriptionID ≠ r.subscriptionID) : w.moved now cs r = r := by
  rcases w.moved_cases now cs r with hr | ⟨c, hc, d, rfl, -⟩
  · exact hr
  · exact absurd rfl (h c hc)

theorem evaluate_calm {u : Unit} (h : Prog.Runs (calmExec now) (w.evaluate c now) s l u s') :
    (w.next c none now = none ∧ s' = s) ∨ ∃ d, w.next c none now = some d ∧ s.save d = .ok ((), s') := by
  simp only [Worker.evaluate, lookupOverride, send_bind, ask_bind, pure_eq] at h
  obtain ⟨r, s₁, l₁, -, ⟨he, hcalm⟩, hk⟩ := h.ask_inv
  obtain rfl : s₁ = s := he.1
  obtain rfl : r = .error .dunningNoActiveOverride := hcalm
  have his : Err.dunningNoActiveOverride.is .dunningNoActiveOverride = true := by decide
  simp only [his, if_true, ret_bind] at hk
  cases hn : w.next c none now with
  | none =>
    simp only [hn] at hk
    exact .inl ⟨rfl, hk.ret_inv.2⟩
  | some d =>
  simp only [hn] at hk
  obtain ⟨r, s₂, l₂, -, ⟨he2, hcalm2⟩, hk2⟩ := hk.ask_inv
  obtain rfl : r = .ok () := hcalm2
  rw [hk2.ret_inv.2]
  exact .inr ⟨d, rfl, Tx.of_ok he2⟩

/-- The loop over the candidates moves their rows and nothing else. -/
theorem evaluateAll_calm : ∀ {cs : List Candidate} {s : DunningDB} {l : List (Prog.Exchange Req Resp DunningDB)} {u : Unit},
    Prog.Runs (calmExec now) (w.evaluateAll now cs) s l u s' → (cs.map fun c => c.row.subscriptionID).Nodup →
    (∀ c ∈ cs, c.row ∈ s.states.rows) →
    s'.core = s.core ∧ s'.invoices = s.invoices ∧ s'.states.rows = s.states.rows.map (w.moved now cs)
  | [], s, l, _, h, _, _ => by
    rw [h.ret_inv.2]
    exact ⟨rfl, rfl, (map_id _).symm⟩
  | c :: cs, s, l, _, h, hnd, hmem => by
    obtain ⟨l₁, a, s₁, l₂, -, h1, h2⟩ := Prog.Runs.bind_inv h
    obtain ⟨hfresh, hnd'⟩ := nodup_cons.mp hnd
    have hother : ∀ c' ∈ cs, c'.row.subscriptionID ≠ c.row.subscriptionID :=
      fun c' hc' he => hfresh (mem_map.mpr ⟨c', hc', he⟩)
    -- a row of another subscription is looked up among the rest of the candidates
    have hskip : ∀ r, r.subscriptionID ≠ c.row.subscriptionID → w.moved now (c :: cs) r = w.moved now cs r := by
      intro r hr
      have hne : ¬ c.row = r := fun he => hr (he ▸ rfl)
      simp [Worker.moved, hne]
    rcases evaluate_calm h1 with ⟨hn, rfl⟩ | ⟨d, hn, hsave⟩
    · obtain ⟨hcore, hinv, hrows⟩ := evaluateAll_calm h2 hnd' fun c' hc' => hmem c' (mem_cons_of_mem _ hc')
      refine ⟨hcore, hinv, hrows.trans (map_congr_left fun r hr => ?_)⟩
      by_cases hsub : r.subscriptionID = c.row.subscriptionID
      · rw [Worker.moved_of_not_mem fun c' hc' => hsub ▸ hother c' hc']
        obtain rfl : r = c.row := inj_on_of_nodup_map s₁.states.subscriptions hr (hmem c mem_cons_self) hsub
        simp [Worker.moved, hn]
      · exact (hskip r hsub).symm
    obtain ⟨hsub, -⟩ := Worker.next_none_some hn
    obtain ⟨hst, hcore1, hinv1⟩ := DunningDB.save_ok hsave
    have hrow := hmem c mem_cons_self
    have hrows1 : s₁.states.rows =
        s.states.rows.map fun r => if r.subscriptionID = c.row.subscriptionID then DunningTable.overwrite d r else r := by
      rcases save_ok hst with ⟨hno, -⟩ | ⟨-, hr⟩
      · exact absurd hsub.symm (hno c.row hrow)
      · rw [hr, hsub]
    obtain ⟨hcore, hinv, hrows⟩ := evaluateAll_calm h2 hnd' (by
      intro c' hc'
      rw [hrows1]
      exact mem_map.mpr ⟨c'.row, hmem c' (mem_cons_of_mem _ hc'), if_neg (hother c' hc')⟩)
    refine ⟨hcore.trans hcore1, hinv.trans hinv1, ?_⟩
    rw [hrows, hrows1, map_map]
    refine map_congr_left fun r hr => ?_
    by_cases hr' : r.subscriptionID = c.row.subscriptionID
    · obtain rfl : r = c.row := inj_on_of_nodup_map s.states.subscriptions hr hrow hr'
      simp only [Function.comp_apply, if_true]
      rw [Worker.moved_of_not_mem fun c' hc' => ?_]
      · simp [Worker.moved, hn]
      · exact fun he => hother c' hc' (he.trans hsub)
    · simp only [Function.comp_apply, if_neg hr']
      exact (hskip r hr').symm

/-- The candidates of one answer are of different subscriptions. -/
theorem DunningDB.Candidates.nodup {limit : ℕ} (h : s.Candidates limit cs) : (cs.map fun c => c.row.subscriptionID).Nodup := by
  obtain ⟨full, hperm, -, -, rfl⟩ := h
  have hfull : (full.map fun c => c.row.subscriptionID).Nodup := by
    have hrows := (List.Nodup.sublist (filter_sublist.map _) s.states.subscriptions :
      ((s.states.rows.filter fun r => s.Listed r).map DunningState.subscriptionID).Nodup)
    have hp := (hperm.map DunningState.subscriptionID).nodup_iff.mpr hrows
    rwa [map_map] at hp
  rw [map_take]
  exact hfull.sublist (take_sublist _ _)

/-- **One tick** evaluates one answer of the query. -/
theorem tick_calm {a : Except Err Unit} (h : Prog.Runs (calmExec now) w.tick s l a s') :
    ∃ cs, s.Candidates w.batchSize cs ∧ s'.core = s.core ∧ s'.invoices = s.invoices ∧
      s'.states.rows = s.states.rows.map (w.moved now cs) := by
  simp only [Worker.tick, send_bind, pure_eq] at h
  obtain ⟨t, s₁, l₁, -, ⟨hclock, ht⟩, hk⟩ := h.ask_inv
  obtain rfl : s₁ = s := hclock
  obtain rfl : t = now := ht
  obtain ⟨r, s₂, l₂, -, ⟨hlist, cs, hcs⟩, hk2⟩ := hk.ask_inv
  subst hcs
  obtain rfl : s₂ = s₁ := hlist.1
  obtain ⟨l₃, u, s₃, l₄, -, hall, hret⟩ := Prog.Runs.bind_inv hk2
  obtain rfl := hret.ret_inv.2
  obtain ⟨l', hl, hok⟩ | ⟨_, -, hok⟩ := hlist.2
  · cases hok
    exact ⟨cs, hl, evaluateAll_calm hall hl.nodup fun c hc => (hl.mem hc).1⟩
  · cases hok

end Tick

/-! ## The rows ahead of a row -/

/-- A tick can leave the row alone: nothing is saved for it. -/
def Worker.LeavesAlone (w : Worker) (now : Time) (s : DunningDB) (r : DunningState) : Prop :=
  ∃ c, s.Joins c ∧ c.row = r ∧ w.next c none now = none

/-- A whole batch of rows that a tick can leave alone is listed no later than `r₀`. -/
def Worker.Blocked (w : Worker) (now : Time) (s : DunningDB) (r₀ : DunningState) : Prop :=
  ∃ rows : List DunningState, rows.Nodup ∧ rows.length = w.batchSize ∧
    ∀ r ∈ rows, r ∈ s.states.rows ∧ r ≠ r₀ ∧ s.Listed r ∧ r.enteredStateAt ≤ r₀.enteredStateAt ∧ w.LeavesAlone now s r

/-- The subscription's plan and oldest pending invoice, under tables that the sweeps do not write. -/
structure Due (s : DunningDB) (x plan : UUID) (p : PendingInvoice) : Prop where
  plan : s.activePlan x = some plan
  pending : s.Pending x (some p)
  ids : ∀ p', s.Pending x (some p') → p'.id ≠ UUID.Nil

section Progress

variable {w : Worker} {now : Time} {s s₀ s' : DunningDB} {cs : List Candidate} {r₀ : DunningState} {plan : UUID} {p : PendingInvoice}
variable {x : UUID}

theorem Pending.periodStart {p' : PendingInvoice} (h : s.Pending x (some p)) (h' : s.Pending x (some p')) : p'.periodStart = p.periodStart := by
  obtain ⟨inv, hmem, hmin, rfl⟩ := h
  obtain ⟨inv', hmem', hmin', rfl⟩ := h'
  rw [le_antisymm (hmin' inv hmem) (hmin inv' hmem')]

/-- Whatever candidate the query makes of the row, it is judged by the same plan and the same due date. -/
theorem Due.candidate (h : Due s x plan p) {c : Candidate} (hc : s.Joins c) (hx : c.row.subscriptionID = x) :
    c.planID = plan ∧ ∃ p', c.pending = some p' ∧ p'.periodStart = p.periodStart ∧ p'.id ≠ UUID.Nil := by
  have hplan := hc.planID
  have hpend := hc.pending
  rw [hx] at hplan hpend
  refine ⟨Option.some.inj (hplan.symm.trans h.plan), ?_⟩
  cases hp : c.pending with
  | none =>
    rw [hp] at hpend
    obtain ⟨inv, hmem, -⟩ := h.pending
    rw [show s.pendingInvoices x = [] from hpend] at hmem
    cases hmem
  | some p' =>
  rw [hp] at hpend
  exact ⟨p', rfl, Pending.periodStart h.pending hpend, h.ids p' hpend⟩

structure Same (s₀ s : DunningDB) : Prop where
  core : s.core = s₀.core
  invoices : s.invoices = s₀.invoices

theorem Same.activePlan (h : Same s₀ s) (x : UUID) : s.activePlan x = s₀.activePlan x := by
  simp only [DunningDB.activePlan, h.core]

theorem Same.pending (h : Same s₀ s) (x : UUID) (p : Option PendingInvoice) : s.Pending x p ↔ s₀.Pending x p := by
  have hp : s.pendingInvoices x = s₀.pendingInvoices x := by simp only [DunningDB.pendingInvoices, h.invoices]
  cases p <;> simp only [DunningDB.Pending, hp]

theorem Same.listed (h : Same s₀ s) (r : DunningState) : s.Listed r ↔ s₀.Listed r := by
  simp only [DunningDB.Listed, h.activePlan]

theorem Same.joins (h : Same s₀ s) (c : Candidate) : s.Joins c ↔ s₀.Joins c :=
  ⟨fun hc => ⟨hc.1, hc.2, h.activePlan _ ▸ hc.3, (h.pending _ _).mp hc.4⟩,
    fun hc => ⟨hc.1, hc.2, (h.activePlan _).symm ▸ hc.3, (h.pending _ _).mpr hc.4⟩⟩

theorem Same.due (h : Same s₀ s) (hd : Due s₀ x plan p) : Due s x plan p :=
  ⟨(h.activePlan x).trans hd.plan, (h.pending _ _).mpr hd.pending, fun p' hp => hd.ids p' ((h.pending _ _).mp hp)⟩

/-- How many rows have entered their state no later than `r₀`. -/
def ahead (r₀ : DunningState) (s : DunningDB) : ℕ := s.states.rows.countP fun r => r.enteredStateAt ≤ r₀.enteredStateAt

abbrev Worker.target (w : Worker) (now : Time) (plan : UUID) (p : PendingInvoice) : State :=
  (w.policy plan).stateForDaysPastDue (daysSince p.periodStart now)

def Reached (w : Worker) (now : Time) (plan : UUID) (p : PendingInvoice) (x : UUID) (s : DunningDB) : Prop :=
  ∃ r, s.states.find x = some r ∧ (w.target now plan p).severity ≤ r.state.severity

/-- `r₀` still waits after `n` ticks: every row is old or has just moved, and fewer than `rows - n` are ahead. -/
structure Waits (w : Worker) (now : Time) (plan : UUID) (p : PendingInvoice) (s₀ : DunningDB) (r₀ : DunningState) (n : ℕ) (s : DunningDB) :
    Prop where
  same : Same s₀ s
  mem : r₀ ∈ s.states.rows
  low : r₀.state.severity < (w.target now plan p).severity
  rows : ∀ r ∈ s.states.rows, r ∈ s₀.states.rows ∨ r.enteredStateAt = timestamptz now
  rank : n + ahead r₀ s ≤ s₀.states.rows.length

theorem moved_enteredStateAt (w : Worker) (now : Time) (cs : List Candidate) (r : DunningState) :
    w.moved now cs r = r ∨ (w.moved now cs r).enteredStateAt = timestamptz now := by
  rcases w.moved_cases now cs r with h | ⟨c, -, d, -, hn, h⟩
  · exact .inl h
  · rw [h, ← (Worker.next_none_some hn).2.1]
    exact .inr rfl

theorem moved_subscriptionID (r : DunningState) : (w.moved now cs r).subscriptionID = r.subscriptionID := by
  rcases w.moved_cases now cs r with h | ⟨c, -, d, rfl, hn, h⟩
  · rw [h]
  · rw [h]
    exact (Worker.next_none_some hn).1

/-- A listed row that is not among the candidates has a full batch before it. -/
theorem DunningDB.Candidates.before {limit : ℕ} (hlimit : 0 < limit) (h : s.Candidates limit cs) (hr : r₀ ∈ s.states.rows)
    (hl : s.Listed r₀) (hno : ∀ c ∈ cs, c.row ≠ r₀) :
    cs.length = limit ∧ ∀ c ∈ cs, c.row.enteredStateAt ≤ r₀.enteredStateAt := by
  obtain ⟨full, hperm, -, hsorted, rfl⟩ := h
  rw [if_neg (by omega : ¬ limit = 0)] at hno ⊢
  obtain ⟨c₀, hc0, rfl⟩ : ∃ c₀ ∈ full, c₀.row = r₀ := by
    have := hperm.mem_iff.mpr (mem_filter.mpr ⟨hr, decide_eq_true hl⟩)
    exact mem_map.mp this
  obtain ⟨hlen, hle⟩ := pairwise_take hsorted hc0 fun hm => hno c₀ hm rfl
  exact ⟨hlen, hle⟩

theorem countP_lt {α : Type} {p q : α → Bool} {l : List α} (hpq : ∀ a ∈ l, p a = true → q a = true) {a : α} (ha : a ∈ l)
    (hp : p a = false) (hq : q a = true) : l.countP p < l.countP q := by
  obtain ⟨l₁, l₂, rfl⟩ := append_of_mem ha
  have h1 := countP_mono_left (l := l₁) fun x hx => hpq x (by simp [hx])
  have h2 := countP_mono_left (l := l₂) fun x hx => hpq x (by simp [hx])
  simp only [countP_append, countP_cons, hp, hq]
  simp only [Bool.false_eq_true, if_false, if_true]
  omega

/-- **A reached row stays reached.** -/
theorem Reached.tick (hd : Due s x plan p) (h : Reached w now plan p x s) (hc : s.Candidates w.batchSize cs)
    (hrows : s'.states.rows = s.states.rows.map (w.moved now cs)) : Reached w now plan p x s' := by
  obtain ⟨r, hr, hle⟩ := h
  obtain ⟨hmem, rfl⟩ := find_some hr
  have hmem' : w.moved now cs r ∈ s'.states.rows := hrows ▸ mem_map_of_mem hmem
  refine ⟨w.moved now cs r, ?_, ?_⟩
  · rw [← moved_subscriptionID r]
    exact find_of_mem hmem'
  rcases w.moved_cases now cs r with h | ⟨c, hc', d, hcr, hn, h⟩
  · rw [h]
    exact hle
  · obtain ⟨hplan, p', hp', hstart, -⟩ := hd.candidate (hc.mem hc').2.2 (congrArg _ hcr)
    rw [h, show (DunningTable.overwrite d r).state = d.state from rfl, (Worker.next_none_some hn).2.2.2 p' hp', hplan, hstart]

/-- **A waiting row** is reached by the tick, or one more row goes behind it. -/
theorem Waits.tick {n : ℕ} (hpol : ∀ plan, (w.policy plan).validate = .ok ()) (hd : Due s₀ r₀.subscriptionID plan p)
    (hblock : ¬ w.Blocked now s₀ r₀) (hold : r₀.enteredStateAt < timestamptz now) (h : Waits w now plan p s₀ r₀ n s)
    (hc : s.Candidates w.batchSize cs) (hcore : s'.core = s.core) (hinv : s'.invoices = s.invoices)
    (hrows : s'.states.rows = s.states.rows.map (w.moved now cs)) :
    Reached w now plan p r₀.subscriptionID s' ∨ Waits w now plan p s₀ r₀ (n + 1) s' := by
  have hd' := h.same.due hd
  by_cases hin : ∃ c ∈ cs, c.row = r₀
  · left
    obtain ⟨c, hcmem, hcr⟩ := hin
    obtain ⟨hplan, p', hp', hstart, hid⟩ := hd'.candidate (hc.mem hcmem).2.2 (congrArg _ hcr)
    obtain ⟨d, hn⟩ := w.next_escalates now (hpol _) hp' hid (by rw [hcr, hplan, hstart]; exact h.low)
    have hstate : d.state = w.target now plan p := by
      rw [(Worker.next_none_some hn).2.2.2 p' hp', hplan, hstart]
    have hmoved := Worker.moved_of_mem hc.nodup hcmem hn
    rw [hcr] at hmoved
    have hmem : DunningTable.overwrite d r₀ ∈ s'.states.rows := by
      rw [hrows, ← hmoved]
      exact mem_map_of_mem h.mem
    have hsub : (DunningTable.overwrite d r₀).subscriptionID = r₀.subscriptionID := by
      rw [← hmoved]
      exact moved_subscriptionID r₀
    refine ⟨_, hsub ▸ find_of_mem hmem, ?_⟩
    rw [show (DunningTable.overwrite d r₀).state = d.state from rfl, hstate]
  right
  have hno : ∀ c ∈ cs, c.row ≠ r₀ := fun c hc he => hin ⟨c, hc, he⟩
  have hlisted : s.Listed r₀ := by
    refine ⟨fun hcan => ?_, ?_⟩
    · have hlow := h.low
      rw [hcan] at hlow
      generalize w.target now plan p = target at hlow
      cases target <;> exact absurd hlow (by decide)
    · rw [hd'.plan]
      rfl
  obtain ⟨hlen, hbefore⟩ := hc.before w.batch h.mem hlisted hno
  -- the rows of the batch are older than `now`, so they were there from the start
  obtain ⟨c, hcmem, d, hn⟩ : ∃ c ∈ cs, ∃ d, w.next c none now = some d := by
    by_contra hnone
    refine hblock ⟨cs.map Candidate.row, ?_, by rw [length_map, hlen], ?_⟩
    · have hnd := hc.nodup
      rw [show (fun c : Candidate => c.row.subscriptionID) = DunningState.subscriptionID ∘ Candidate.row from rfl, ← map_map] at hnd
      exact hnd.of_map _
    intro r hr
    obtain ⟨c, hcm, rfl⟩ := mem_map.mp hr
    obtain ⟨hrow, hl, hj⟩ := hc.mem hcm
    have hle := hbefore c hcm
    refine ⟨(h.rows _ hrow).resolve_right fun he => ?_, hno c hcm, (h.same.listed _).mp hl, hle, c, (h.same.joins c).mp hj, rfl, ?_⟩
    · rw [he] at hle
      exact absurd hold (not_lt.mpr hle)
    · exact Option.eq_none_iff_forall_ne_some.mpr fun d hd => hnone ⟨c, hcm, d, hd⟩
  refine ⟨⟨hcore.trans h.same.core, hinv.trans h.same.invoices⟩, ?_, h.low, ?_, ?_⟩
  · rw [hrows]
    refine mem_map.mpr ⟨r₀, h.mem, ?_⟩
    rcases w.moved_cases now cs r₀ with hm | ⟨c', hc', -, hr', -⟩
    · exact hm
    · exact absurd hr' (hno c' hc')
  · intro r hr
    rw [hrows] at hr
    obtain ⟨r', hr', rfl⟩ := mem_map.mp hr
    rcases moved_enteredStateAt w now cs r' with he | he
    · rw [he]
      exact h.rows r' hr'
    · exact .inr he
  have hlt : ahead r₀ s' < ahead r₀ s := by
    unfold ahead
    rw [hrows, countP_map]
    have hmoved := Worker.moved_of_mem hc.nodup hcmem hn
    refine countP_lt (a := c.row) ?_ (hc.mem hcmem).1 ?_ (decide_eq_true (hbefore c hcmem))
    · intro r _ hle
      simp only [Function.comp_apply, decide_eq_true_eq] at hle ⊢
      rcases moved_enteredStateAt w now cs r with he | he
      · rwa [he] at hle
      · rw [he] at hle
        exact absurd hold (not_lt.mpr hle)
    simp only [Function.comp_apply, decide_eq_false_iff_not, not_le]
    rcases moved_enteredStateAt w now cs c.row with he | he
    · rw [hmoved] at he ⊢
      rw [show (DunningTable.overwrite d c.row).enteredStateAt = timestamptz d.enteredStateAt from rfl,
        (Worker.next_none_some hn).2.1]
      exact hold
    · rw [he]
      exact hold
  have := h.rank
  omega

/-- **Whole sweeps**: after `n` ticks the row is reached or waits with `n` rows fewer to go. -/
theorem Sweeps.progress {n : ℕ} (hpol : ∀ plan, (w.policy plan).validate = .ok ()) (hd : Due s₀ r₀.subscriptionID plan p)
    (hr0 : r₀ ∈ s₀.states.rows) (hblock : ¬ w.Blocked now s₀ r₀) (hold : r₀.enteredStateAt < timestamptz now)
    (h : Sweeps w now s₀ n s) :
    Same s₀ s ∧ (Reached w now plan p r₀.subscriptionID s ∨ Waits w now plan p s₀ r₀ n s) := by
  induction h with
  | zero =>
    refine ⟨⟨rfl, rfl⟩, ?_⟩
    by_cases hle : (w.target now plan p).severity ≤ r₀.state.severity
    · exact .inl ⟨r₀, find_of_mem hr0, hle⟩
    · exact .inr ⟨⟨rfl, rfl⟩, hr0, not_le.mp hle, fun r hr => .inl hr, by simpa [ahead] using countP_le_length⟩
  | succ _ ht ih =>
    obtain ⟨hsame, hcase⟩ := ih
    obtain ⟨cs, hc, hcore, hinv, hrows⟩ := tick_calm ht
    refine ⟨⟨hcore.trans hsame.core, hinv.trans hsame.invoices⟩, ?_⟩
    rcases hcase with hreached | hwaits
    · exact .inl (hreached.tick (hsame.due hd) hc hrows)
    · exact hwaits.tick hpol hd hblock hold hc hcore hinv hrows

end Progress

/-! ## Sweeps can be made -/

/-- The requests that `serve` answers as in an undisturbed sweep. -/
def calmly : Req → DunningDB → Bool
  | .activeFor t now, s => s.activeFor t now = .error .dunningNoActiveOverride
  | .save d, s => (s.save d).isOk
  | _, _ => true

theorem calmExec_serve (now : Time) : ∀ q s, calmly q s → calmExec now q s (serve now q s).1 (serve now q s).2
  | .clock, _, _ => ⟨rfl, rfl⟩
  | .listCandidates _ _, s, _ => ⟨exec_serve now _ s, _, rfl⟩
  | .activeFor t asOf, s, h => ⟨exec_serve now _ s, (of_decide_eq_true h : s.activeFor t asOf = _)⟩
  | .getBySubscription _, s, _ => ⟨exec_serve now _ s, trivial⟩
  | .save d, s, h => by
    refine ⟨exec_serve now _ s, ?_⟩
    simp only [calmly] at h
    simp only [serve]
    cases hs : s.save d with
    | error e => simp [hs, Except.isOk, Except.toBool] at h
    | ok x => rfl
  | .others _ _, _, _ => ⟨rfl, trivial⟩

theorem Sweeps.tick {w : Worker} {t : Time} {s s₁ : DunningDB} {n : ℕ} (h : Sweeps w t s n s₁) (hok : w.tick.okay (serve t) calmly s₁ = true)
    (hres : (w.tick.eval (serve t) s₁).1 = .ok ()) : Sweeps w t s (n + 1) (w.tick.eval (serve t) s₁).2 :=
  .succ h (hres ▸ Prog.Runs.okay id (calmExec_serve t) w.tick s₁ hok)

/-! ## A current row ahead of an overdue one -/

def currentRow (id tenantID subscriptionID : UUID) (entered : Time) : DunningState :=
  { id, tenantID, subscriptionID, state := .current, enteredStateAt := entered, lastInvoiceID := UUID.Nil, overrideUntil := none,
    overrideReason := "" }

/-- Subscription 3 owes nothing; subscription 6 entered its state a microsecond later and owes the invoice of day 0. -/
def crowdedDB : DunningDB where
  core := { wallets := [], ledger := [], courtesy := [], grants := [],
            subs := [{ id := 3, tenantID := 2, planID := 4, status := .active, currentPeriodStart := 0, currentPeriodEnd := 1000,
                       createdAt := 0, updatedAt := 0 },
                     { id := 6, tenantID := 8, planID := 4, status := .active, currentPeriodStart := 0, currentPeriodEnd := 1000,
                       createdAt := 0, updatedAt := 0 }] }
  invoices := [{ id := 5, tenantID := 8, subscriptionID := 6, periodStart := 0, periodEnd := 30, amountCentsBRL := 100, state := .pending,
                 createdAt := 0, updatedAt := 0 }]
  states := ⟨[currentRow 1 2 3 0, currentRow 2 8 6 1000], by decide, by decide, by decide⟩

theorem uuid_one_ne_nil : (1 : UUID) ≠ UUID.Nil := by decide

def workerOf (batchSize : ℕ) (h : 0 < batchSize) : Worker := ⟨fun _ => defaultPolicy, batchSize, 1, h, uuid_one_ne_nil⟩

def sweepTime : Time := 8640000000000000

theorem crowded_due : Due crowdedDB 6 4 ⟨5, 0⟩ := by
  refine ⟨rfl, ⟨_, mem_singleton_self _, by decide, rfl⟩, ?_⟩
  rintro p' ⟨inv, hm, -, rfl⟩
  obtain rfl := mem_singleton.mp hm
  decide

/-- With a batch of one, only the row of subscription 3 is evaluated, and it stays. -/
theorem crowded_stays {n : ℕ} {s' : DunningDB} (h : Sweeps (workerOf 1 (by decide)) sweepTime crowdedDB n s') :
    Same crowdedDB s' ∧ s'.states.rows = crowdedDB.states.rows := by
  induction h with
  | zero => exact ⟨⟨rfl, rfl⟩, rfl⟩
  | @succ n s s' l _ ht ih =>
    obtain ⟨hsame, hrows⟩ := ih
    obtain ⟨cs, hc, hcore, hinv, hmoved⟩ := tick_calm ht
    refine ⟨⟨hcore.trans hsame.core, hinv.trans hsame.invoices⟩, hmoved.trans ?_⟩
    have hfirst : currentRow 1 2 3 0 ∈ s.states.rows := by
      rw [hrows]
      decide
    have hlisted : s.Listed (currentRow 1 2 3 0) := (hsame.listed _).mpr (by decide)
    have hlen : cs.length ≤ 1 := by
      obtain ⟨full, -, -, -, rfl⟩ := hc
      exact length_take_le _ _
    -- a candidate is the first row: the second would come after it
    have hcand : ∀ c ∈ cs, c.row = currentRow 1 2 3 0 := by
      intro c hcm
      by_contra hne
      have hno : ∀ c' ∈ cs, c'.row ≠ currentRow 1 2 3 0 := by
        obtain ⟨a, rfl⟩ := length_eq_one_iff.mp (le_antisymm hlen (length_pos_of_mem hcm))
        intro c' hc'
        rw [mem_singleton.mp hc', ← mem_singleton.mp hcm]
        exact hne
      have hle := (hc.before (by decide) hfirst hlisted hno).2 c hcm
      have hrow : c.row = currentRow 2 8 6 1000 := by
        have hm := (hc.mem hcm).1
        rw [hrows] at hm
        exact mem_singleton.mp ((mem_cons.mp hm).resolve_left hne)
      rw [hrow] at hle
      exact absurd hle (by decide)
    have hidle : ∀ r, (workerOf 1 (by decide)).moved sweepTime cs r = r := by
      intro r
      rcases Worker.moved_cases (workerOf 1 (by decide)) sweepTime cs r with hr | ⟨c, hcm, d, -, hn, -⟩
      · exact hr
      have hpend := (hsame.pending _ _).mp (hc.mem hcm).2.2.pending
      rw [hcand c hcm] at hpend
      cases hp : c.pending with
      | none => simp [Worker.next, hp, hcand c hcm, currentRow] at hn
      | some p =>
      rw [hp] at hpend
      obtain ⟨inv, hm, -⟩ := hpend
      exact absurd hm (by simp [DunningDB.pendingInvoices, crowdedDB, currentRow])
    rw [hrows]
    exact (map_congr_left fun r _ => hidle r).trans (map_id _)

/-- **Overdue rows are reached.**  Take any population of dunning rows under valid policies and an overdue row among them that is older
than `now` and has no full batch of rows ahead of it that a tick can leave alone.  After as many ticks as there are rows, and ever after,
its state is at least as severe as its days past due. -/
theorem overdue_row_reached {w : Worker} {now : Time} {s s' : DunningDB} {n : ℕ} (hpol : ∀ plan, (w.policy plan).validate = .ok ())
    (hn : s.states.rows.length ≤ n) (h : Sweeps w now s n s') {r₀ : DunningState} {plan : UUID} {p : PendingInvoice}
    (hr₀ : r₀ ∈ s.states.rows) (hdue : Due s r₀.subscriptionID plan p) (hblock : ¬ w.Blocked now s r₀)
    (hold : r₀.enteredStateAt < timestamptz now) :
    ∃ r, s'.states.find r₀.subscriptionID = some r ∧
      ((w.policy plan).stateForDaysPastDue (daysSince p.periodStart now)).severity ≤ r.state.severity := by
  obtain ⟨-, hreached | hwaits⟩ := h.progress hpol hdue hr₀ hblock hold
  · exact hreached
  -- the row itself is counted, so the rank has run out
  have hpos : 0 < ahead r₀ s' := countP_pos_iff.mpr ⟨r₀, hwaits.mem, decide_eq_true le_rfl⟩
  have := hwaits.rank
  omega

/-- With a batch of two, the second tick at the latest cancels the overdue subscription. -/
theorem overdue_row_reached_pair : ∃ s', Sweeps (workerOf 2 (by decide)) sweepTime crowdedDB 2 s' ∧
    ∃ r, s'.states.find 6 = some r ∧ State.cancelled.severity ≤ r.state.severity := by
  have h := (Sweeps.zero.tick (w := workerOf 2 (by decide)) (t := sweepTime) (s := crowdedDB) (by decide +kernel) (by decide +kernel)).tick
    (by decide +kernel) (by decide +kernel)
  have hmem : currentRow 2 8 6 1000 ∈ crowdedDB.states.rows := by decide
  have hblock : ¬ (workerOf 2 (by decide)).Blocked sweepTime crowdedDB (currentRow 2 8 6 1000) := by
    rintro ⟨rows, hnd, hlen, hrows⟩
    have hsub : rows ⊆ [currentRow 1 2 3 0] := by
      intro r hr
      obtain ⟨hmem, hne, -⟩ := hrows r hr
      rcases mem_cons.mp hmem with rfl | hmem
      · exact mem_singleton_self _
      · exact absurd (mem_singleton.mp hmem) hne
    have hle := (subperm_of_subset hnd hsub).length_le
    rw [hlen] at hle
    exact absurd hle (by decide)
  obtain ⟨r, hr, hle⟩ := overdue_row_reached (fun _ => rfl) le_rfl h hmem crowded_due hblock (by decide)
  have htarget : ((workerOf 2 (by decide)).policy 4).stateForDaysPastDue (daysSince 0 sweepTime) = .cancelled := by decide
  rw [htarget] at hle
  exact ⟨_, h, r, hr, hle⟩

/-- **An overdue row that starves.**  With a batch of one, the current row ahead is evaluated by every tick and never moves: after any
number of ticks the row whose invoice calls for cancellation is still current. -/
theorem overdue_row_starves : (∀ plan, ((workerOf 1 (by decide)).policy plan).validate = .ok ()) ∧ Due crowdedDB 6 4 ⟨5, 0⟩ ∧
    ((workerOf 1 (by decide)).policy 4).stateForDaysPastDue (daysSince 0 sweepTime) = .cancelled ∧
    ∀ n, (∃ s', Sweeps (workerOf 1 (by decide)) sweepTime crowdedDB n s') ∧
      ∀ s', Sweeps (workerOf 1 (by decide)) sweepTime crowdedDB n s' →
        s'.states.find 6 = some (currentRow 2 8 6 1000) := by
  refine ⟨fun _ => rfl, crowded_due, by decide, fun n => ⟨?_, fun s' h => ?_⟩⟩
  · have hfix : (workerOf 1 (by decide)).tick.eval (serve sweepTime) crowdedDB = (.ok (), crowdedDB) := rfl
    refine ⟨crowdedDB, ?_⟩
    induction n with
    | zero => exact .zero
    | succ n ih =>
      have hnext := ih.tick (by decide +kernel) (by rw [hfix])
      rwa [hfix] at hnext
  have hmem : currentRow 2 8 6 1000 ∈ s'.states.rows := by
    rw [(crowded_stays h).2]
    decide
  exact find_of_mem hmem

end Crm.Dunning
