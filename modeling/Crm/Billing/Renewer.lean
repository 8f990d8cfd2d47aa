import Mathlib.Data.List.Sort
import Crm.Billing.Renewal
import Crm.Grant.Apply
import Crm.Store.Serve

/-!
# Crm.Billing.Renewer — the renewal worker and the quota allocator

`Renewer.Tick` of `internal/worker/billing/renewer.go` and `Allocator.Handle` of `internal/worker/wallet/allocator.go` as clients of the
billing tables, the plan catalogue and the broker.  The catalogue is curated by operators, so every read may find another plan
table.  The broker stores what is published, once or, inside its dedup window, not again; a publish may fail before or after that.
-/

namespace Crm.Billing

open Int64Arith Interleave Crm.Store

/-! ## The ports -/

inductive Req : Type
  -- a request to the tables of `Crm.Store`
  | core (q : Store.Req)
  | listDueSubscriptions (asOf : Time) (limit : ℕ)
  | renewSubscription (subID : UUID) (oldPeriodEnd : Time) (planPriceCents : ℤ) (now : Time)
  | publish (m : Message)
  -- `time.After(delay)` against the context's end
  | backoff (delay : ℤ)
  | getPlanByID (id : UUID)
  | ack
  | nak (delay : ℤ)

abbrev Resp : Req → Type
  | .core q => Store.Resp q
  | .listDueSubscriptions _ _ => Except Err (List DueSubscription)
  | .renewSubscription _ _ _ _ => Except Err RenewResult
  | .publish _ => Except Err Unit
  | .backoff _ => Except Err Unit
  | .getPlanByID _ => Except Err Plan
  | .ack => Except Err Unit
  | .nak _ => Except Err Unit

/-- The stream takes the message, or has one with its id. -/
def Published (m : Message) (s s' : BillingDB) : Prop :=
  s' = { s with stream := s.stream ++ [m] } ∨ (s' = s ∧ ∃ m' ∈ s.stream, m'.msgID = m.msgID)

def exec : (q : Req) → BillingDB → Resp q → BillingDB → Prop
  | .core q, s, r, s' => ∃ core, Store.exec q s.core r core ∧ s' = { s with core }
  | .listDueSubscriptions asOf limit, s, r, s' => s' = s ∧
      ((∃ plans l, s.Due plans asOf limit l ∧ r = .ok l) ∨ ∃ e, Err.fault e ∧ r = .error e)
  | .renewSubscription id old price now, s, r, s' =>
    ∃ invoiceID, Tx Err.fault s (s.renewSubscription id old price now invoiceID) r s'
  | .publish m, s, r, s' => Published m s s' ∨ (s' = s ∧ ∃ e, r = .error e)
  | .backoff _, s, _, s' => s' = s
  | .getPlanByID id, s, r, s' => ∃ plans, Read Err.fault s (getPlanByID plans id) r s'
  | .ack, s, _, s' => s' = s
  | .nak _, s, _, s' => s' = s

abbrev Client (α : Type) : Type := Prog Req Resp α

/-- A client of the core tables. -/
def core {α : Type} (p : Store.Client α) : Client α := p.embed Req.core fun _ r => r

namespace Port

abbrev clock : Client Time := .send (Req.core .clock)

abbrev listDueSubscriptions (asOf : Time) (limit : ℕ) : Client (Except Err (List DueSubscription)) :=
  .send (Req.listDueSubscriptions asOf limit)

abbrev renewSubscription (subID : UUID) (oldPeriodEnd : Time) (planPriceCents : ℤ) (now : Time) : Client (Except Err RenewResult) :=
  .send (Req.renewSubscription subID oldPeriodEnd planPriceCents now)

abbrev publish (m : Message) : Client (Except Err Unit) := .send (Req.publish m)

abbrev backoff (delay : ℤ) : Client (Except Err Unit) := .send (Req.backoff delay)

abbrev getPlanByID (id : UUID) : Client (Except Err Plan) := .send (Req.getPlanByID id)

abbrev ack : Client (Except Err Unit) := .send Req.ack

abbrev nak (delay : ℤ) : Client (Except Err Unit) := .send (Req.nak delay)

end Port

/-! ## The renewal worker -/

structure Config where
  actorID : UUID
  batchSize : ℤ
  publishMaxRetries : ℤ
  publishBaseDelay : ℤ
  publishMaxDelay : ℤ
  deriving DecidableEq, Repr

/-- A worker as `New` makes it. -/
structure Renewer where
  actorID : UUID
  batchSize : ℕ
  publishMaxRetries : ℕ
  publishBaseDelay : ℤ
  publishMaxDelay : ℤ
  actor : actorID ≠ UUID.Nil
  batch : 0 < batchSize
  retries : 0 < publishMaxRetries
  deriving DecidableEq

def Renewer.new (cfg : Config) : Except Err Renewer :=
  if h : cfg.actorID = UUID.Nil then .error (.other "billing: ActorID is required (non-zero UUID)")
  else .ok
    { actorID := cfg.actorID
      batchSize := if cfg.batchSize ≤ 0 then 100 else cfg.batchSize.toNat
      publishMaxRetries := if cfg.publishMaxRetries ≤ 0 then 5 else cfg.publishMaxRetries.toNat
      publishBaseDelay := if cfg.publishBaseDelay ≤ 0 then 100000000 else cfg.publishBaseDelay
      publishMaxDelay := if cfg.publishMaxDelay ≤ 0 then 5000000000 else cfg.publishMaxDelay
      actor := h
      batch := by split_ifs <;> omega
      retries := by split_ifs <;> omega }

/-- `{subscription_id}:{new_period_start_iso}`. -/
def buildMsgID (subID : UUID) (newPeriodStart : Time) : String := subID.string ++ (":" ++ Calendar.rfc3339Nano newPeriodStart)

/-- The loop of `publishWithBackoff` with `left` attempts to go. -/
def publishLoop (maxDelay : ℤ) (m : Message) : ℕ → ℤ → Client (Except Err Unit)
  | 0, _ => .ret (.ok ())
  | left + 1, delay => do
    match ← Port.publish m with
    | .ok () => return .ok ()
    | .error e =>
      if left = 0 then return .error e
      match ← Port.backoff delay with
      | .error e => return .error e
      | .ok () =>
        let doubled := wrap (delay * 2)
        publishLoop maxDelay m left (if maxDelay < doubled then maxDelay else doubled)

def publishWithBackoff (r : Renewer) (m : Message) : Client (Except Err Unit) :=
  publishLoop r.publishMaxDelay m r.publishMaxRetries r.publishBaseDelay

def renewedMessage (d : DueSubscription) (res : RenewResult) (now : Time) : Message where
  msgID := buildMsgID d.id res.newPeriodStart
  body :=
    { subscriptionID := res.subscription.id, tenantID := res.subscription.tenantID, planID := res.subscription.planID,
      invoiceID := res.invoice.id, previousPeriodEnd := d.currentPeriodEnd, newPeriodStart := res.newPeriodStart,
      newPeriodEnd := res.newPeriodEnd, amountCentsBRL := res.invoice.amountCentsBRL, renewedAt := now }

/-- `renewOne`: commit, then publish.  What fails is counted and logged. -/
def renewOne (r : Renewer) (d : DueSubscription) (now : Time) : Client Unit := do
  match ← Port.renewSubscription d.id d.currentPeriodEnd d.planPriceCents now with
  | .error _ => return ()
  | .ok res =>
    let _ ← publishWithBackoff r (renewedMessage d res now)
    return ()

def renewAll (r : Renewer) (now : Time) : List DueSubscription → Client Unit
  | [] => .ret ()
  | d :: due => do
    renewOne r d now
    renewAll r now due

def tick (r : Renewer) : Client (Except Err Unit) := do
  let now ← Port.clock
  match ← Port.listDueSubscriptions now r.batchSize with
  | .error e => return .error (.wrap "list due subscriptions" e)
  | .ok due =>
    renewAll r now due
    return .ok ()

/-! ## The quota allocator -/

/-- A delivery: its `Nats-Msg-Id`, and its body where that decodes. -/
structure Delivery where
  msgID : String
  data : Option RenewedEvent
  deriving DecidableEq, Repr

inductive Outcome : Type
  | missingMsgID
  | failedDecode
  | failedPlan
  | failedAllocate
  | allocated
  | skippedDuplicate
  deriving DecidableEq, Repr

def nakDelay : ℤ := 5000000000

/-- `Allocator.Handle`; the answers to `Ack` and `Nak` are dropped. -/
def handle (d : Delivery) : Client Outcome := do
  if d.msgID = "" then
    let _ ← Port.ack
    return .missingMsgID
  match d.data with
  | none =>
    let _ ← Port.ack
    return .failedDecode
  | some ev =>
    match ← Port.getPlanByID ev.planID with
    | .error _ =>
      let _ ← Port.nak nakDelay
      return .failedPlan
    | .ok plan =>
      match ← core (Wallet.allocateMonthlyQuota ev.tenantID ev.newPeriodStart plan.monthlyTokenQuota d.msgID) with
      | .error _ =>
        let _ ← Port.nak nakDelay
        return .failedAllocate
      | .ok allocated =>
        let _ ← Port.ack
        return if allocated then .allocated else .skippedDuplicate

/-! ## Calls in flight -/

inductive Call : Type
  | tick (r : Renewer)
  | handle (d : Delivery)
  | renewSubscription (subID : UUID) (oldPeriodEnd : Time) (planPriceCents : ℤ) (now : Time)
  | applyFreePeriod (g : Grant.MasterGrant) (now : Time)
  deriving DecidableEq

abbrev Res : Call → Type
  | .tick _ => Except Err Unit
  | .handle _ => Outcome
  | .renewSubscription _ _ _ _ => Except Err RenewResult
  | .applyFreePeriod _ _ => Except Err String

def body : (c : Call) → Client (Res c)
  | .tick r => tick r
  | .handle d => handle d
  | .renewSubscription id old price now => Port.renewSubscription id old price now
  | .applyFreePeriod g now => core (Grant.applyFreePeriod g now)

abbrev Ev : Type := Event Req Resp BillingDB Call Res

abbrev W : Type := World Req Resp BillingDB Call Res

abbrev Cfg : Type := Conf Req Resp BillingDB Call Res

def system (allow : W → Ev → Prop) : System Req Resp BillingDB Call Res where
  exec := exec
  body := body
  allow := allow

/-! ## Without failures -/

/-- Every request answered by its own transaction, over the plan table `plans`, with the clock at `now` and `u` as the identifier drawn. -/
def serve (plans : List Plan) (now : Time) (u : UUID) : (q : Req) → BillingDB → Resp q × BillingDB
  | .core q, s => ((Store.serve now u "" q s.core).1, { s with core := (Store.serve now u "" q s.core).2 })
  | .listDueSubscriptions asOf limit, s =>
    (.ok (((s.dueRows plans asOf).insertionSort fun a b => a.currentPeriodEnd ≤ b.currentPeriodEnd).take
      (if limit = 0 then 100 else limit)), s)
  | .renewSubscription id old price t, s => Tx.run s (s.renewSubscription id old price t u)
  | .publish m, s => (.ok (), { s with stream := s.stream ++ [m] })
  | .backoff _, s => (.ok (), s)
  | .getPlanByID id, s => (getPlanByID plans id, s)
  | .ack, s => (.ok (), s)
  | .nak _, s => (.ok (), s)

theorem exec_serve {plans : List Plan} {now : Time} {u : UUID} (hu : u ≠ UUID.Nil) (q : Req) (s : BillingDB) :
    exec q s (serve plans now u q s).1 (serve plans now u q s).2 := by
  cases q with
  | core q => exact ⟨_, Store.exec_serve hu q s.core, rfl⟩
  | listDueSubscriptions asOf limit =>
    refine ⟨rfl, .inl ⟨plans, _, ⟨_, List.perm_insertionSort _ _, ?_, rfl⟩, rfl⟩⟩
    exact List.pairwise_insertionSort (fun a b : DueSubscription => a.currentPeriodEnd ≤ b.currentPeriodEnd) _
  | renewSubscription id old price t => exact ⟨u, Tx.of_run _ _⟩
  | publish m => exact .inl (.inl rfl)
  | getPlanByID id => exact ⟨plans, rfl, .inl rfl⟩
  | _ => rfl

end Crm.Billing
