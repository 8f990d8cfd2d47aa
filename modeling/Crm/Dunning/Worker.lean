import Mathlib.Data.List.Nodup
import Mathlib.Data.List.Sort
import Crm.Billing.Renewal
import Crm.Dunning.Domain
import Crm.Lib.Interleave

/-!
# Crm.Dunning.Worker — the dunning sweep and the payment hook

`subscription_dunning_states` with the statements of `internal/adapter/db/postgres/dunning`, and `Tick` and `OnPaymentConfirmed` of
`internal/worker/dunning/worker.go` as clients of them.  `Save` is an upsert of all mutable columns, whatever the row has become since it
was read.  Each port call is one atomic step that may fail; the tables the worker only reads are written by others at any time.
-/

namespace Crm.Dunning

open Interleave Crm.Grant Crm.Store List
open Crm.Billing (InvoiceRow)

/-! ## Tables -/

/-- `subscription_dunning_states` with its primary key, its unique column and its check. -/
structure DunningTable where
  rows : List DunningState
  ids : (rows.map DunningState.id).Nodup
  subscriptions : (rows.map DunningState.subscriptionID).Nodup
  consistent : ∀ r ∈ rows, r.Consistent

structure DunningDB where
  core : DB
  invoices : List InvoiceRow
  states : DunningTable

namespace DunningTable

def stored (d : DunningState) : DunningState :=
  { d with enteredStateAt := timestamptz d.enteredStateAt, overrideUntil := d.overrideUntil.map timestamptz }

/-- The columns an upsert of `d` writes over the row of its subscription. -/
def overwrite (d r : DunningState) : DunningState := { stored d with id := r.id, tenantID := r.tenantID }

theorem consistent_stored {d : DunningState} (h : d.Consistent) (id tenantID : UUID) :
    { stored d with id, tenantID }.Consistent := by
  simpa [DunningState.Consistent, stored] using h

def update (t : DunningTable) (d : DunningState) (hc : d.Consistent) : DunningTable where
  rows := t.rows.map fun r => if r.subscriptionID = d.subscriptionID then overwrite d r else r
  ids := by
    have hid : (DunningState.id ∘ fun r => if r.subscriptionID = d.subscriptionID then overwrite d r else r) = DunningState.id := by
      funext r
      simp only [Function.comp_apply]
      split_ifs <;> rfl
    rw [map_map, hid]
    exact t.ids
  subscriptions := by
    have hsub : (DunningState.subscriptionID ∘ fun r => if r.subscriptionID = d.subscriptionID then overwrite d r else r) =
        DunningState.subscriptionID := by
      funext r
      simp only [Function.comp_apply]
      split_ifs with h
      · exact h.symm
      · rfl
    rw [map_map, hsub]
    exact t.subscriptions
  consistent := by
    intro r hr
    obtain ⟨a, ha, rfl⟩ := mem_map.mp hr
    split_ifs
    · exact consistent_stored hc _ _
    · exact t.consistent a ha

def insert (t : DunningTable) (d : DunningState) (hc : d.Consistent) (hid : ∀ r ∈ t.rows, r.id ≠ d.id)
    (hsub : ∀ r ∈ t.rows, r.subscriptionID ≠ d.subscriptionID) : DunningTable where
  rows := t.rows ++ [stored d]
  ids := by
    rw [map_append, map_singleton, ← concat_eq_append, nodup_concat]
    refine ⟨fun hm => ?_, t.ids⟩
    obtain ⟨r, hr, he⟩ := mem_map.mp hm
    exact hid r hr he
  subscriptions := by
    rw [map_append, map_singleton, ← concat_eq_append, nodup_concat]
    refine ⟨fun hm => ?_, t.subscriptions⟩
    obtain ⟨r, hr, he⟩ := mem_map.mp hm
    exact hsub r hr he
  consistent := by
    intro r hr
    rcases mem_append.mp hr with hr | hr
    · exact t.consistent r hr
    · rw [mem_singleton.mp hr]
      exact consistent_stored hc _ _

/-- `Save`: the check comes first, then the unique column decides, then the primary key. -/
def save (d : DunningState) (t : DunningTable) : Except Err DunningTable :=
  if hc : d.Consistent then
    if hsub : ∀ r ∈ t.rows, r.subscriptionID ≠ d.subscriptionID then
      if hid : ∀ r ∈ t.rows, r.id ≠ d.id then .ok (t.insert d hc hid hsub) else .error (.other "dunning/postgres: save")
    else .ok (t.update d hc)
  else .error (.other "dunning/postgres: save")

def find (subscriptionID : UUID) (t : DunningTable) : Option DunningState := t.rows.find? fun r => r.subscriptionID = subscriptionID

end DunningTable

structure PendingInvoice where
  id : UUID
  periodStart : Time
  deriving DecidableEq, Repr

structure Candidate where
  row : DunningState
  subscriptionID : UUID
  tenantID : UUID
  planID : UUID
  pending : Option PendingInvoice
  deriving DecidableEq, Repr

/-- The `months` of a grant payload, when it is a number from 1 to 120. -/
def decodeMonths (payload : JsonObject) : Option ℤ :=
  match (unmarshal payload).bind fun obj => obj.lookup "months" with
  | some (.float64 v) => if v ≤ 0 ∨ 120 < v then none else some (Float64.toInt64 v)
  | some (.int v) => if v ≤ 0 ∨ 120 < v then none else some v
  | _ => none

/-- The loop of `ActiveFor`: the first grant whose months reach past `now`. -/
def firstActive (now : Time) : List MasterGrantRow → Except Err Override
  | [] => .error .dunningNoActiveOverride
  | g :: l =>
    match decodeMonths g.payload with
    | none => firstActive now l
    | some months =>
      let untilTime := Calendar.addMonths months g.createdAt
      if now < untilTime then .ok ⟨untilTime, g.reason⟩ else firstActive now l

namespace DunningDB

def activePlan (subscriptionID : UUID) (s : DunningDB) : Option UUID :=
  (s.core.subs.find? fun sub => sub.id = subscriptionID ∧ sub.status = .active).map Billing.Subscription.planID

def pendingInvoices (subscriptionID : UUID) (s : DunningDB) : List InvoiceRow :=
  s.invoices.filter fun inv => inv.subscriptionID = subscriptionID ∧ inv.state = .pending

/-- `p` is an oldest pending invoice of the subscription, or there is none; `period_start` is a date and is read as its midnight. -/
def Pending (s : DunningDB) (subscriptionID : UUID) : Option PendingInvoice → Prop
  | none => s.pendingInvoices subscriptionID = []
  | some p => ∃ inv ∈ s.pendingInvoices subscriptionID, (∀ inv' ∈ s.pendingInvoices subscriptionID, inv.periodStart ≤ inv'.periodStart) ∧
      p = ⟨inv.id, inv.periodStart * Calendar.day⟩

/-- The row is not cancelled and its subscription is active. -/
def Listed (s : DunningDB) (r : DunningState) : Prop := r.state ≠ .cancelled ∧ (s.activePlan r.subscriptionID).isSome

instance (s : DunningDB) (r : DunningState) : Decidable (s.Listed r) := inferInstanceAs (Decidable (_ ∧ _))

/-- `c` is a row of the query: a dunning row with the plan and an oldest pending invoice of its subscription. -/
structure Joins (s : DunningDB) (c : Candidate) : Prop where
  subscriptionID : c.subscriptionID = c.row.subscriptionID
  tenantID : c.tenantID = c.row.tenantID
  planID : s.activePlan c.row.subscriptionID = some c.planID
  pending : s.Pending c.row.subscriptionID c.pending

/-- `l` is an answer of `ListCandidates`: the first rows by `entered_state_at`, ties in any order. -/
def Candidates (limit : ℕ) (s : DunningDB) (l : List Candidate) : Prop :=
  ∃ full : List Candidate, (full.map Candidate.row).Perm (s.states.rows.filter fun r => s.Listed r) ∧ (∀ c ∈ full, s.Joins c) ∧
    full.Pairwise (fun a b => a.row.enteredStateAt ≤ b.row.enteredStateAt) ∧ l = full.take (if limit = 0 then 200 else limit)

/-- The rows of `ActiveFor`, before `ORDER BY` and `LIMIT`. -/
def freePeriods (tenantID : UUID) (s : DunningDB) : List MasterGrantRow :=
  s.core.grants.filter fun g => g.tenantID = tenantID ∧ g.kind = .freeSubscriptionPeriod ∧ g.revokedAt = none

/-- `r` is an answer of `ActiveFor`; grants of one instant come in any order. -/
def ActiveFor (tenantID : UUID) (now : Time) (s : DunningDB) (r : Except Err Override) : Prop :=
  if tenantID = UUID.Nil then r = .error .dunningZeroTenant
  else ∃ full : List MasterGrantRow, full.Perm (s.freePeriods tenantID) ∧ full.Pairwise (fun a b => b.createdAt ≤ a.createdAt) ∧
    r = firstActive now (full.take 16)

def getBySubscription (subscriptionID : UUID) (s : DunningDB) : Except Err DunningState :=
  if subscriptionID = UUID.Nil then .error .dunningZeroSubscription
  else match s.states.find subscriptionID with
    | some r => .ok r
    | none => .error .dunningNotFound

def save (d : DunningState) (s : DunningDB) : Except Err (Unit × DunningDB) :=
  match s.states.save d with
  | .error e => .error e
  | .ok states => .ok ((), { s with states })

end DunningDB

/-! ## The ports -/

inductive Req : Type
  | clock
  | listCandidates (asOf : Time) (limit : ℕ)
  | activeFor (tenantID : UUID) (now : Time)
  | getBySubscription (subscriptionID : UUID)
  | save (d : DunningState)
  -- what other components do to the tables that the worker only reads
  | others (core : DB) (invoices : List InvoiceRow)

abbrev Resp : Req → Type
  | .clock => Time
  | .listCandidates _ _ => Except Err (List Candidate)
  | .activeFor _ _ => Except Err Override
  | .getBySubscription _ => Except Err DunningState
  | .save _ => Except Err Unit
  | .others _ _ => Unit

def exec : (q : Req) → DunningDB → Resp q → DunningDB → Prop
  | .clock, s, _, s' => s' = s
  | .listCandidates _ limit, s, r, s' => s' = s ∧ ((∃ l, s.Candidates limit l ∧ r = .ok l) ∨ ∃ e, Err.fault e ∧ r = .error e)
  | .activeFor t now, s, r, s' => s' = s ∧ (s.ActiveFor t now r ∨ ∃ e, Err.fault e ∧ r = .error e)
  | .getBySubscription x, s, r, s' => Read Err.fault s (s.getBySubscription x) r s'
  | .save d, s, r, s' => Tx Err.fault s (s.save d) r s'
  | .others core invoices, s, _, s' => s' = { s with core, invoices }

abbrev Client (α : Type) : Type := Prog Req Resp α

namespace Port

abbrev clock : Client Time := .send Req.clock

abbrev listCandidates (asOf : Time) (limit : ℕ) : Client (Except Err (List Candidate)) := .send (Req.listCandidates asOf limit)

abbrev activeFor (tenantID : UUID) (now : Time) : Client (Except Err Override) := .send (Req.activeFor tenantID now)

abbrev getBySubscription (subscriptionID : UUID) : Client (Except Err DunningState) := .send (Req.getBySubscription subscriptionID)

abbrev save (d : DunningState) : Client (Except Err Unit) := .send (Req.save d)

end Port

/-! ## The worker -/

structure Worker where
  policy : UUID → Policy
  batchSize : ℕ
  actorID : UUID
  batch : 0 < batchSize
  actor : actorID ≠ UUID.Nil

/-- `New`: a resolver that is not set is the default policy, a batch size that is not positive is 200. -/
def Worker.new (policy : Option (UUID → Policy)) (batchSize : ℤ) (actorID : UUID) : Except Err Worker :=
  if h : actorID = UUID.Nil then .error (.other "dunning: ActorID is required (non-zero UUID)")
  else .ok
    { policy := policy.getD fun _ => defaultPolicy, batchSize := if batchSize ≤ 0 then 200 else batchSize.toNat, actorID,
      batch := by split_ifs <;> omega, actor := h }

/-- No override is not an error. -/
def lookupOverride (tenantID : UUID) (now : Time) : Client (Except Err (Option Override)) := do
  match ← Port.activeFor tenantID now with
  | .ok got => return .ok (some got)
  | .error e => if e.is .dunningNoActiveOverride then return .ok none else return .error e

def needsOverrideRefresh (row : DunningState) (live : Override) (now : Time) : Bool :=
  now < live.untilTime ∧ row.overrideUntil ≠ some live.untilTime

namespace Worker

variable (w : Worker)

/-- What `evaluate` does once it has looked for an override: the row it saves, if any. -/
def next (c : Candidate) (override : Option Override) (now : Time) : Option DunningState :=
  match override.filter fun o => needsOverrideRefresh c.row o now with
  | some o => (c.row.applyOverride o.untilTime o.reason now).toOption
  | none =>
    match c.pending with
    | none => if c.row.state = .current then none else (c.row.markPaid now).toOption
    | some p =>
      match c.row.escalate now (w.policy c.planID) p.id p.periodStart override with
      | .ok (true, row) => some row
      | _ => none

/-- One candidate.  Every failure is logged and leaves the row to the next tick. -/
def evaluate (c : Candidate) (now : Time) : Client Unit := do
  -- a failed lookup must not block the escalation
  let override := match ← lookupOverride c.tenantID now with
    | .ok o => o
    | .error _ => none
  match w.next c override now with
  | none => return ()
  | some row =>
    let _ ← Port.save row
    return ()

def evaluateAll (now : Time) : List Candidate → Client Unit
  | [] => return ()
  | c :: cs => do
    w.evaluate c now
    evaluateAll now cs

def tick : Client (Except Err Unit) := do
  let now ← Port.clock
  match ← Port.listCandidates now w.batchSize with
  | .error e => return .error (.wrap "list candidates" e)
  | .ok candidates =>
    w.evaluateAll now candidates
    return .ok ()

end Worker

def onPaymentConfirmed (subscriptionID : UUID) : Client (Except Err Unit) := do
  if subscriptionID = UUID.Nil then return .error .dunningZeroSubscription
  match ← Port.getBySubscription subscriptionID with
  | .error e => return .error e
  | .ok row =>
    let now ← Port.clock
    match row.markPaid now with
    | .error e => return .error e
    | .ok row =>
      match ← Port.save row with
      | .error e => return .error (.wrap "dunning.worker: save mark-paid" e)
      | .ok () => return .ok ()

/-! ## Calls in flight -/

inductive Call : Type
  | tick (w : Worker)
  | onPaymentConfirmed (subscriptionID : UUID)
  | others (core : DB) (invoices : List InvoiceRow)

abbrev Res : Call → Type
  | .tick _ => Except Err Unit
  | .onPaymentConfirmed _ => Except Err Unit
  | .others _ _ => Unit

def body : (c : Call) → Client (Res c)
  | .tick w => w.tick
  | .onPaymentConfirmed x => onPaymentConfirmed x
  | .others core invoices => .send (Req.others core invoices)

abbrev Ev : Type := Event Req Resp DunningDB Call Res

abbrev W : Type := World Req Resp DunningDB Call Res

abbrev Cfg : Type := Conf Req Resp DunningDB Call Res

def system (allow : W → Ev → Prop) : System Req Resp DunningDB Call Res where
  exec := exec
  body := body
  allow := allow

/-! ## What the statements do to the tables -/

namespace DunningTable

variable {t t' : DunningTable} {d : DunningState}
variable {r : DunningState}

theorem find_of_mem (h : r ∈ t.rows) : t.find r.subscriptionID = some r := by
  obtain ⟨x, hx⟩ : ∃ x, t.find r.subscriptionID = some x := by
    rw [← Option.isSome_iff_exists]
    exact find?_isSome.mpr ⟨r, h, decide_eq_true rfl⟩
  have hid : x.subscriptionID = r.subscriptionID := by simpa using find?_some hx
  rw [hx, inj_on_of_nodup_map t.subscriptions (mem_of_find?_eq_some hx) h hid]

theorem find_some {x : UUID} (h : t.find x = some r) : r ∈ t.rows ∧ r.subscriptionID = x :=
  ⟨mem_of_find?_eq_some h, by simpa using find?_some h⟩

theorem save_ok (h : t.save d = .ok t') :
    ((∀ r ∈ t.rows, r.subscriptionID ≠ d.subscriptionID) ∧ t'.rows = t.rows ++ [stored d]) ∨
      ((∃ r ∈ t.rows, r.subscriptionID = d.subscriptionID) ∧
        t'.rows = t.rows.map fun r => if r.subscriptionID = d.subscriptionID then overwrite d r else r) := by
  unfold save at h
  split_ifs at h with hc hsub hid
  · cases h
    exact .inl ⟨hsub, rfl⟩
  · cases h
    exact .inr ⟨by simpa using hsub, rfl⟩

theorem save_find_of_ne (h : t.save d = .ok t') {x : UUID} (hx : x ≠ d.subscriptionID) : t'.find x = t.find x := by
  rcases save_ok h with ⟨-, hr⟩ | ⟨-, hr⟩
  · have hne : ¬ d.subscriptionID = x := fun he => hx he.symm
    simp [find, hr, find?_append, stored, hne]
  unfold find
  rw [hr, find?_map]
  have hsame : ((fun r : DunningState => decide (r.subscriptionID = x)) ∘
      fun r => if r.subscriptionID = d.subscriptionID then overwrite d r else r) = fun r => decide (r.subscriptionID = x) := by
    funext r
    simp only [Function.comp_apply]
    split_ifs with he
    · rw [he]
      rfl
    · rfl
  rw [hsame]
  cases hf : t.rows.find? fun r => r.subscriptionID = x with
  | none => rfl
  | some r =>
  have hr : r.subscriptionID = x := by simpa using find?_some hf
  simp [hr, hx]

end DunningTable

variable {s : DunningDB} {d : DunningState}

theorem DunningDB.save_ok {s' : DunningDB} {u : Unit} (h : s.save d = .ok (u, s')) :
    s.states.save d = .ok s'.states ∧ s'.core = s.core ∧ s'.invoices = s.invoices := by
  unfold save at h
  split at h
  · cases h
  · rename_i states hs
    cases h
    exact ⟨hs, rfl, rfl⟩

theorem DunningDB.getBySubscription_ok {x : UUID} {r : DunningState} (h : s.getBySubscription x = .ok r) : s.states.find x = some r := by
  unfold getBySubscription at h
  split_ifs at h
  split at h
  · rename_i r' hr
    cases h
    exact hr
  · cases h

/-- What a page of a sorted query leaves out comes after a full page. -/
theorem pairwise_take {α : Type} {R : α → α → Prop} {l : List α} {n : ℕ} {a : α} (hs : l.Pairwise R) (ha : a ∈ l) (hn : a ∉ l.take n) :
    (l.take n).length = n ∧ ∀ b ∈ l.take n, R b a := by
  rw [← take_append_drop n l] at ha
  have hdrop : a ∈ l.drop n := (mem_append.mp ha).resolve_left hn
  constructor
  · have hpos := length_pos_of_mem hdrop
    rw [length_drop] at hpos
    rw [length_take]
    omega
  · intro b hb
    rw [← take_append_drop n l, pairwise_append] at hs
    exact hs.2.2 b hb a hdrop

theorem DunningDB.Candidates.mem {limit : ℕ} {l : List Candidate} (h : s.Candidates limit l) {c : Candidate} (hc : c ∈ l) :
    c.row ∈ s.states.rows ∧ s.Listed c.row ∧ s.Joins c := by
  obtain ⟨full, hperm, hjoin, -, rfl⟩ := h
  have hfull := mem_of_mem_take hc
  obtain ⟨hrow, hlisted⟩ := mem_filter.mp (hperm.mem_iff.mp (mem_map_of_mem hfull))
  exact ⟨hrow, of_decide_eq_true hlisted, hjoin c hfull⟩

theorem exec_find {q : Req} {s' : DunningDB} {r : Resp q} (h : exec q s r s') {x : UUID} (hq : ∀ d, q = .save d → d.subscriptionID ≠ x) :
    s'.states.find x = s.states.find x := by
  cases q with
  | clock => rw [show s' = s from h]
  | listCandidates asOf limit => rw [h.1]
  | activeFor t now => rw [h.1]
  | getBySubscription y => rw [h.1]
  | save d =>
    rcases Tx.store_cases h with rfl | ⟨_, h⟩
    · rfl
    · exact DunningTable.save_find_of_ne (DunningDB.save_ok h).1 (hq d rfl).symm
  | others core invoices =>
  rw [show s' = { s with core, invoices } from h]

/-- **What `evaluate` saves** is the candidate's row after one of the three transitions, and never one that was cancelled. -/
theorem Worker.next_some {w : Worker} {c : Candidate} {override : Option Override} {now : Time} (h : w.next c override now = some d) :
    c.row.state ≠ .cancelled ∧ d.subscriptionID = c.row.subscriptionID := by
  unfold next at h
  split at h
  · rename_i o _
    cases ha : c.row.applyOverride o.untilTime o.reason now with
    | error e => simp [ha, Except.toOption] at h
    | ok d' =>
    simp only [ha, Except.toOption, Option.some.injEq] at h
    subst h
    obtain ⟨hs, -, -, -, hsub, -⟩ := DunningState.applyOverride_ok ha
    exact ⟨hs, hsub⟩
  split at h
  · split_ifs at h
    cases hm : c.row.markPaid now with
    | error e => simp [hm, Except.toOption] at h
    | ok d' =>
    simp only [hm, Except.toOption, Option.some.injEq] at h
    subst h
    obtain ⟨hs, rfl⟩ := DunningState.markPaid_ok hm
    exact ⟨hs, rfl⟩
  split at h
  · rename_i row he
    cases h
    rcases DunningState.escalate_cases he with ⟨hb, -⟩ | ⟨-, hs, -, -, rfl⟩
    · cases hb
    · exact ⟨hs, rfl⟩
  · cases h

/-! ## One way to answer -/

namespace DunningDB

def oldestPending (x : UUID) (s : DunningDB) : Option PendingInvoice :=
  ((s.pendingInvoices x).insertionSort fun a b => a.periodStart ≤ b.periodStart).head?.map fun inv => ⟨inv.id, inv.periodStart * Calendar.day⟩

def candidate (s : DunningDB) (r : DunningState) : Candidate :=
  ⟨r, r.subscriptionID, r.tenantID, (s.activePlan r.subscriptionID).getD UUID.Nil, s.oldestPending r.subscriptionID⟩

def listCandidates (limit : ℕ) (s : DunningDB) : List Candidate :=
  (((s.states.rows.filter fun r => s.Listed r).insertionSort fun a b => a.enteredStateAt ≤ b.enteredStateAt).map s.candidate).take
    (if limit = 0 then 200 else limit)

def activeFor (tenantID : UUID) (now : Time) (s : DunningDB) : Except Err Override :=
  if tenantID = UUID.Nil then .error .dunningZeroTenant
  else firstActive now (((s.freePeriods tenantID).insertionSort fun a b => b.createdAt ≤ a.createdAt).take 16)

theorem pending_oldestPending (x : UUID) (s : DunningDB) : s.Pending x (s.oldestPending x) := by
  let order (a b : InvoiceRow) : Prop := a.periodStart ≤ b.periodStart
  have hperm := perm_insertionSort order (s.pendingInvoices x)
  have hsorted := pairwise_insertionSort order (s.pendingInvoices x)
  have hhead : s.oldestPending x = ((s.pendingInvoices x).insertionSort order).head?.map fun inv => ⟨inv.id, inv.periodStart * Calendar.day⟩ := rfl
  rw [hhead]
  cases hm : (s.pendingInvoices x).insertionSort order with
  | nil => exact nil_perm.mp (hm ▸ hperm)
  | cons inv l =>
  rw [hm] at hperm hsorted
  refine ⟨inv, hperm.mem_iff.mp mem_cons_self, fun inv' hi => ?_, rfl⟩
  rcases mem_cons.mp (hperm.mem_iff.mpr hi) with rfl | h
  · exact le_rfl
  · exact rel_of_pairwise_cons hsorted h

theorem candidates_listCandidates (limit : ℕ) (s : DunningDB) : s.Candidates limit (s.listCandidates limit) := by
  let order (a b : DunningState) : Prop := a.enteredStateAt ≤ b.enteredStateAt
  have hperm := perm_insertionSort order (s.states.rows.filter fun r => s.Listed r)
  have hrow : Candidate.row ∘ s.candidate = id := rfl
  refine ⟨_, ?_, fun c hc => ?_, pairwise_map.mpr (pairwise_insertionSort order _), rfl⟩
  · rw [map_map, hrow, map_id]
    exact hperm
  obtain ⟨r, hr, rfl⟩ := mem_map.mp hc
  have hl : s.Listed r := of_decide_eq_true (mem_filter.mp (hperm.mem_iff.mp hr)).2
  obtain ⟨plan, hplan⟩ := Option.isSome_iff_exists.mp hl.2
  exact ⟨rfl, rfl, by simp [candidate, hplan], s.pending_oldestPending _⟩

theorem activeFor_activeFor (tenantID : UUID) (now : Time) (s : DunningDB) : s.ActiveFor tenantID now (s.activeFor tenantID now) := by
  unfold ActiveFor activeFor
  split_ifs
  · rfl
  · let order (a b : MasterGrantRow) : Prop := b.createdAt ≤ a.createdAt
    exact ⟨_, perm_insertionSort order _, pairwise_insertionSort order _, rfl⟩

end DunningDB

def serve (now : Time) : (q : Req) → DunningDB → Resp q × DunningDB
  | .clock, s => (now, s)
  | .listCandidates _ limit, s => (.ok (s.listCandidates limit), s)
  | .activeFor t at', s => (s.activeFor t at', s)
  | .getBySubscription x, s => (s.getBySubscription x, s)
  | .save d, s => Tx.run s (s.save d)
  | .others core invoices, s => ((), { s with core, invoices })

theorem exec_serve (now : Time) : ∀ q s, exec q s (serve now q s).1 (serve now q s).2
  | .clock, _ => rfl
  | .listCandidates _ limit, s => ⟨rfl, .inl ⟨_, s.candidates_listCandidates limit, rfl⟩⟩
  | .activeFor t at', s => ⟨rfl, .inl (s.activeFor_activeFor t at')⟩
  | .getBySubscription _, _ => ⟨rfl, .inl rfl⟩
  | .save _, _ => Tx.of_run _ _
  | .others _ _, _ => rfl

end Crm.Dunning
