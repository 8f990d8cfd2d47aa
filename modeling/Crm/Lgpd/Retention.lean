import Crm.Basic
import Crm.Lib.Interleave
import Crm.Lib.Uuid
import Mathlib.Data.List.Sort

/-!
# Crm.Lgpd.Retention — erasure requests and the worker that carries them out

`internal/lgpd/deletion.go`, the table of `internal/adapter/db/postgres/lgpd/store.go` and the worker of `internal/worker/lgpd_retention`.  A request
stays pending until its retention deadline has passed; a tick lists the requests that are due and, row by row, purges the contact and closes the
request.  Time passes between any two requests to the database.
-/

namespace Crm.Lgpd

open Interleave Interleave.Prog List

/-- The statuses, and any other text a caller may pass. -/
inductive DeletionStatus : Type
  | pending
  | completed
  | failed
  | other (text : String)
  deriving DecidableEq, Repr

def DeletionStatus.valid : DeletionStatus → Bool
  | .other _ => false
  | _ => true

def DeletionStatus.text : DeletionStatus → String
  | .pending => "pending"
  | .completed => "completed"
  | .failed => "failed"
  | .other text => text

structure DeletionRequest where
  id : UUID
  tenantID : UUID
  contactID : UUID
  requestedByUserID : UUID
  justification : String
  status : DeletionStatus
  retentionUntil : Time
  completedAt : Option Time
  createdAt : Time
  updatedAt : Time
  deriving DecidableEq, Repr

def DeletionRequest.validate (r : DeletionRequest) : Option Err :=
  if r.tenantID = UUID.Nil then some (.other "lgpd: tenant_id is required")
  else if r.contactID = UUID.Nil then some (.other "lgpd: contact_id is required")
  else if r.justification = "" then some (.other "lgpd: justification is required")
  else if ¬ r.status.valid then some (.other ("lgpd: invalid status \"" ++ r.status.text ++ "\""))
  else if r.retentionUntil = zeroTime then some (.other "lgpd: retention_until is required")
  else none

def DeletionRequest.pendingFor (tenantID contactID : UUID) (r : DeletionRequest) : Bool :=
  r.status = .pending && r.tenantID = tenantID && r.contactID = contactID

/-! ## The tables -/

structure Contact where
  id : UUID
  tenantID : UUID
  displayName : String
  updatedAt : Time
  deriving DecidableEq, Repr

structure ChannelIdentity where
  tenantID : UUID
  contactID : UUID
  deriving DecidableEq, Repr

structure Conversation where
  id : UUID
  tenantID : UUID
  contactID : UUID
  deriving DecidableEq, Repr

structure Message where
  tenantID : UUID
  conversationID : UUID
  deriving DecidableEq, Repr

/-- The tables, and the time on the wall. -/
structure RetentionDB where
  now : Time
  requests : List DeletionRequest
  contacts : List Contact
  identities : List ChannelIdentity
  conversations : List Conversation
  messages : List Message
  deriving DecidableEq

namespace RetentionDB

variable (s : RetentionDB)

def later (t : Time) : RetentionDB := { s with now := t }

/-- The `DO UPDATE` part. -/
def refreshed (req r : DeletionRequest) : DeletionRequest :=
  { r with requestedByUserID := req.requestedByUserID, justification := req.justification,
           retentionUntil := timestamptz req.retentionUntil, updatedAt := timestamptz req.updatedAt }

def refresh (req r : DeletionRequest) : DeletionRequest := if r.pendingFor req.tenantID req.contactID then refreshed req r else r

def inserted (req : DeletionRequest) : DeletionRequest :=
  { req with retentionUntil := timestamptz req.retentionUntil, completedAt := none, createdAt := timestamptz req.createdAt,
             updatedAt := timestamptz req.updatedAt }

/-- The insert of `Upsert`, which becomes an update of the pending row if there is one. -/
def upsert (req : DeletionRequest) : Except Err (DeletionRequest × RetentionDB) :=
  match s.requests.find? fun r => req.status = .pending && r.pendingFor req.tenantID req.contactID with
  | some old => .ok (refreshed req old, { s with requests := s.requests.map (refresh req) })
  | none =>
    if s.requests.any (·.id = req.id) then .error (.other "duplicate key value violates unique constraint \"lgpd_deletion_request_pkey\"")
    else .ok (inserted req, { s with requests := s.requests ++ [inserted req] })

def ready (cutoff : Time) : List DeletionRequest :=
  s.requests.filter fun r => r.status = .pending && r.retentionUntil ≤ timestamptz cutoff

/-- `rows` is an answer of `ListReady`: the first rows by `created_at`, ties in any order. -/
def ListReady (cutoff : Time) (limit : ℕ) (rows : List DeletionRequest) : Prop :=
  ∃ full : List DeletionRequest, full.Perm (s.ready cutoff) ∧ full.Pairwise (fun a b => a.createdAt ≤ b.createdAt) ∧
    rows = full.take (if limit = 0 then 100 else limit)

def mark (id : UUID) (status : DeletionStatus) (completedAt : Option Time) (at_ : Time) : RetentionDB :=
  { s with requests := s.requests.map fun r =>
      if r.id = id ∧ r.status = .pending then
        { r with status := status, completedAt := completedAt <|> r.completedAt, updatedAt := timestamptz at_ }
      else r }

def markCompleted (id : UUID) (at_ : Time) : RetentionDB := s.mark id .completed (some (timestamptz at_)) at_

def markFailed (id : UUID) (at_ : Time) : RetentionDB := s.mark id .failed none at_

def anonymised : String := "[anonymised:lgpd]"

/-- The four statements of `PurgeContact`, in one transaction. -/
def purgeContact (tenantID contactID : UUID) : RetentionDB :=
  let mine := s.conversations.filter fun c => c.contactID = contactID ∧ c.tenantID = tenantID
  { s with
    contacts := s.contacts.map fun c =>
      if c.id = contactID ∧ c.tenantID = tenantID then { c with displayName := anonymised, updatedAt := timestamptz s.now } else c
    identities := s.identities.filter fun i => ¬ (i.contactID = contactID ∧ i.tenantID = tenantID)
    messages := s.messages.filter fun m => ¬ (m.tenantID = tenantID ∧ m.conversationID ∈ mine.map Conversation.id)
    conversations := s.conversations.filter fun c => ¬ (c.contactID = contactID ∧ c.tenantID = tenantID) }

end RetentionDB

/-! ## The ports -/

inductive Req : Type
  | clock
  | newID
  | ctxErr
  | upsert (req : DeletionRequest)
  | listReady (cutoff : Time) (limit : ℕ)
  | purgeContact (tenantID contactID : UUID)
  | markCompleted (id : UUID) (at_ : Time)
  | markFailed (id : UUID) (at_ : Time)
  deriving DecidableEq

def Resp : Req → Type
  | .clock => Time
  | .newID => UUID
  | .ctxErr => Option Err
  | .upsert _ => Except Err DeletionRequest
  | .listReady _ _ => Except Err (List DeletionRequest)
  | .purgeContact _ _ | .markCompleted _ _ | .markFailed _ _ => Except Err Unit

def Answers : (q : Req) → RetentionDB → Resp q → RetentionDB → Prop
  | .clock, s, r, s' => r = s.now ∧ s' = s
  | .newID, s, r, s' => r ≠ UUID.Nil ∧ s' = s
  | .ctxErr, s, _, s' => s' = s
  | .upsert req, s, r, s' => Tx Err.fault s (s.upsert req) r s'
  | .listReady cutoff limit, s, r, s' => s' = s ∧ ((∃ rows, s.ListReady cutoff limit rows ∧ r = .ok rows) ∨ ∃ e, e.fault ∧ r = .error e)
  | .purgeContact t c, s, r, s' => Tx Err.fault s (.ok ((), s.purgeContact t c)) r s'
  | .markCompleted id t, s, r, s' => Tx Err.fault s (.ok ((), s.markCompleted id t)) r s'
  | .markFailed id t, s, r, s' => Tx Err.fault s (.ok ((), s.markFailed id t)) r s'

def exec (q : Req) (s : RetentionDB) (r : Resp q) (s' : RetentionDB) : Prop :=
  ∃ t, s.now ≤ t ∧ Answers q (s.later t) r s'

abbrev Client (α : Type) : Type := Prog Req Resp α

def newID : Client UUID := .send Req.newID

def timeNow : Client Time := .send Req.clock

def upsert (req : DeletionRequest) : Client (Except Err DeletionRequest) := do
  match req.validate with
  | some e => return .error e
  | none =>
    let id ← (if req.id = UUID.Nil then newID else pure req.id : Client UUID)
    let createdAt ← (if req.createdAt = zeroTime then timeNow else pure req.createdAt : Client Time)
    let updatedAt ← timeNow
    match ← .send (Req.upsert { req with id := id, createdAt := createdAt, updatedAt := updatedAt }) with
    | .error e => return .error (.wrap "lgpd/postgres: upsert" e)
    | .ok out => return .ok out

def purgeAll : List DeletionRequest → Client (Except Err Unit)
  | [] => pure (.ok ())
  | req :: rest => do
    match ← .send Req.ctxErr with
    | some e => return .error e
    | none =>
      match ← .send (Req.purgeContact req.tenantID req.contactID) with
      | .error _ =>
        let now ← .send Req.clock
        -- a failure of this write is logged only
        let _ ← .send (Req.markFailed req.id now)
        purgeAll rest
      | .ok _ =>
        let now ← .send Req.clock
        let _ ← .send (Req.markCompleted req.id now)
        purgeAll rest

def tick (batchSize : ℕ) : Client (Except Err Unit) := do
  let cutoff ← .send Req.clock
  match ← .send (Req.listReady cutoff batchSize) with
  | .error e => return .error (.wrap "list ready: lgpd/postgres: list ready" e)
  | .ok rows => purgeAll rows

inductive Call : Type
  | tick (batchSize : ℕ)
  | upsert (req : DeletionRequest)

def Res : Call → Type
  | .tick _ => Except Err Unit
  | .upsert _ => Except Err DeletionRequest

def body : (c : Call) → Client (Res c)
  | .tick n => tick n
  | .upsert req => upsert req

def system : System Req Resp RetentionDB Call Res where
  exec := exec
  body := body
  allow := fun _ _ => True

/-! ## The index on pending requests -/

section Index

variable {s s' : RetentionDB} {t c id : UUID} {status : DeletionStatus} {stamp : Option Time} {at_ : Time}

def PendingUnique (s : RetentionDB) : Prop :=
  ∀ t c, ∀ r ∈ s.requests, ∀ r' ∈ s.requests, r.pendingFor t c → r'.pendingFor t c → r = r'

theorem pendingFor_iff {r : DeletionRequest} : r.pendingFor t c ↔ r.status = .pending ∧ r.tenantID = t ∧ r.contactID = c := by
  simp [DeletionRequest.pendingFor, and_assoc]

theorem pendingFor_refresh (req r : DeletionRequest) : (RetentionDB.refresh req r).pendingFor t c = r.pendingFor t c := by
  unfold RetentionDB.refresh
  split_ifs <;> rfl

theorem upsert_cases {req a : DeletionRequest} (h : s.upsert req = .ok (a, s')) : s' = { s with requests := s.requests.map (RetentionDB.refresh req) } ∨
    s' = { s with requests := s.requests ++ [RetentionDB.inserted req] } ∧
      ∀ r ∈ s.requests, ¬ (req.status = .pending ∧ r.pendingFor req.tenantID req.contactID) := by
  unfold RetentionDB.upsert at h
  cases hf : s.requests.find? fun r => req.status = .pending && r.pendingFor req.tenantID req.contactID with
  | some old =>
    rw [hf] at h
    cases h
    exact .inl rfl
  | none =>
  rw [hf] at h
  dsimp only at h
  split_ifs at h
  cases h
  exact .inr ⟨rfl, by simpa using find?_eq_none.mp hf⟩

/-- **What a request does to the tables.** -/
theorem exec_cases {q : Req} {r : Resp q} (h : exec q s r s') : ∃ now, s.now ≤ now ∧ (s' = s.later now ∨
    (∃ t c, q = .purgeContact t c ∧ s' = (s.later now).purgeContact t c) ∨ (∃ id t, q = .markCompleted id t ∧ s' = (s.later now).markCompleted id t) ∨
    (∃ id t, q = .markFailed id t ∧ s' = (s.later now).markFailed id t) ∨ ∃ req a, q = .upsert req ∧ (s.later now).upsert req = .ok (a, s')) := by
  obtain ⟨now, hnow, h⟩ := h
  refine ⟨now, hnow, ?_⟩
  cases q with
  | clock | newID => exact .inl h.2
  | ctxErr => exact .inl h
  | listReady cutoff limit => exact .inl h.1
  | purgeContact t c =>
    rcases Tx.store_cases h with h | ⟨_, h⟩
    · exact .inl h
    · cases h
      exact .inr (.inl ⟨t, c, rfl, rfl⟩)
  | markCompleted id t =>
    rcases Tx.store_cases h with h | ⟨_, h⟩
    · exact .inl h
    · cases h
      exact .inr (.inr (.inl ⟨id, t, rfl, rfl⟩))
  | markFailed id t =>
    rcases Tx.store_cases h with h | ⟨_, h⟩
    · exact .inl h
    · cases h
      exact .inr (.inr (.inr (.inl ⟨id, t, rfl, rfl⟩)))
  | upsert req =>
  rcases Tx.store_cases h with h | ⟨a, h⟩
  · exact .inl h
  · exact .inr (.inr (.inr (.inr ⟨req, a, rfl, h⟩)))

theorem exec_now {q : Req} {r : Resp q} (h : exec q s r s') : s.now ≤ s'.now := by
  obtain ⟨now, hnow, rfl | ⟨t, c, -, rfl⟩ | ⟨id, t, -, rfl⟩ | ⟨id, t, -, rfl⟩ | ⟨req, a, -, hup⟩⟩ := exec_cases h
  iterate 4 exact hnow
  rcases upsert_cases hup with rfl | ⟨rfl, -⟩ <;> exact hnow

theorem mem_of_mem_mark (hst : status ≠ .pending) {r : DeletionRequest}
    (hr : r ∈ (s.mark id status stamp at_).requests) (hp : r.status = .pending) : r ∈ s.requests := by
  obtain ⟨r₀, hr0, rfl⟩ := mem_map.mp hr
  by_cases hc : r₀.id = id ∧ r₀.status = .pending
  · simp only [if_pos hc] at hp
    exact absurd hp hst
  · rwa [if_neg hc]

theorem pendingUnique_mark (hst : status ≠ .pending)
    (hu : PendingUnique s) : PendingUnique (s.mark id status stamp at_) := fun t c r hr r' hr' hp hp' =>
  hu t c r (mem_of_mem_mark hst hr (pendingFor_iff.mp hp).1) r' (mem_of_mem_mark hst hr' (pendingFor_iff.mp hp').1) hp hp'

theorem pendingUnique_upsert {req a : DeletionRequest} (h : s.upsert req = .ok (a, s')) (hu : PendingUnique s) : PendingUnique s' := by
  intro t c r hr r' hr' hp hp'
  rcases upsert_cases h with rfl | ⟨rfl, hnone⟩
  · obtain ⟨r₀, hr0, rfl⟩ := mem_map.mp hr
    obtain ⟨r₁, hr1, rfl⟩ := mem_map.mp hr'
    rw [pendingFor_refresh] at hp hp'
    rw [hu t c r₀ hr0 r₁ hr1 hp hp']
  -- a new pending row is the only one for its contact
  have hnew : ∀ r₀ ∈ s.requests, r₀.pendingFor t c → ¬ (RetentionDB.inserted req).pendingFor t c := by
    intro r₀ hr0 hp0 hins
    obtain ⟨hpend, rfl, rfl⟩ := pendingFor_iff.mp hins
    exact hnone r₀ hr0 ⟨hpend, hp0⟩
  rcases mem_append.mp hr with hr | hr <;> rcases mem_append.mp hr' with hr' | hr'
  · exact hu t c r hr r' hr' hp hp'
  · rw [mem_singleton.mp hr'] at hp'
    exact absurd hp' (hnew r hr hp)
  · rw [mem_singleton.mp hr] at hp
    exact absurd hp (hnew r' hr' hp')
  · rw [mem_singleton.mp hr, mem_singleton.mp hr']

theorem pendingUnique_step {q : Req} {r : Resp q} (h : exec q s r s') (hu : PendingUnique s) : PendingUnique s' := by
  obtain ⟨now, -, rfl | ⟨t, c, -, rfl⟩ | ⟨id, t, -, rfl⟩ | ⟨id, t, -, rfl⟩ | ⟨req, a, -, hup⟩⟩ := exec_cases h
  · exact hu
  · exact hu
  · exact pendingUnique_mark (s := s.later now) (by decide) hu
  · exact pendingUnique_mark (s := s.later now) (by decide) hu
  · exact pendingUnique_upsert (s := s.later now) hup hu

end Index

/-! ## The deadline -/

section Deadline

variable {t c : UUID}

/-- The call has listed `rows`, as of a time that it has read from its clock. -/
def Listed (rows : List DeletionRequest) (l : List (Σ q : Req, Resp q)) : Prop :=
  ∃ cutoff limit, ⟨.listReady cutoff limit, Except.ok rows⟩ ∈ l ∧ ⟨.clock, cutoff⟩ ∈ l

/-- A purge follows a listing with a row for its contact. -/
def AfterListing (l : List (Σ q : Req, Resp q)) : Req → Prop
  | .purgeContact t c => ∃ rows, Listed rows l ∧ ∃ r ∈ rows, r.tenantID = t ∧ r.contactID = c
  | _ => True

theorem Listed.cons {rows : List DeletionRequest} {l : List (Σ q : Req, Resp q)} (h : Listed rows l) (x : Σ q : Req, Resp q) : Listed rows (x :: l) := by
  obtain ⟨cutoff, limit, hlist, hclock⟩ := h
  exact ⟨cutoff, limit, mem_cons_of_mem x hlist, mem_cons_of_mem x hclock⟩

theorem guarded_purgeAll {rows : List DeletionRequest} : ∀ {rest : List DeletionRequest} {l : List (Σ q : Req, Resp q)},
    rest ⊆ rows → Listed rows l → (purgeAll rest).Guarded AfterListing l
  | [], _, _, _ => trivial
  | req :: rest, l, hsub, hl => by
    obtain ⟨hreq, hsub⟩ := cons_subset.mp hsub
    refine fun r => ⟨trivial, ?_⟩
    cases r with
    | some e => trivial
    | none =>
    refine fun r => ⟨⟨rows, hl.cons _, req, hreq, rfl, rfl⟩, ?_⟩
    have hrest := fun l hl => guarded_purgeAll (l := l) hsub hl
    cases r <;> exact fun now => ⟨trivial, fun r => ⟨trivial, hrest _ ((((hl.cons _).cons _).cons _).cons _)⟩⟩

theorem guarded_body : ∀ c : Call, (body c).Guarded AfterListing []
  | .tick n => by
    refine fun cutoff => ⟨trivial, fun r => ⟨trivial, ?_⟩⟩
    cases r with
    | error e => trivial
    | ok rows => exact guarded_purgeAll (List.Subset.refl rows) ⟨cutoff, n, mem_cons_self, mem_cons_of_mem _ mem_cons_self⟩
  | .upsert req => by
    have hsends : (upsert req).Sends fun q => ∀ t c, q ≠ .purgeContact t c := by
      unfold upsert
      cases req.validate with
      | some e => exact .ret _
      | none =>
      refine Sends.bind ?_ fun id => Sends.bind ?_ fun createdAt => ?_
      · split_ifs
        · exact .ask (by simp) fun _ => .ret _
        · exact .ret _
      · split_ifs
        · exact .ask (by simp) fun _ => .ret _
        · exact .ret _
      · refine .ask (by simp) fun updatedAt => .ask (by simp) fun r => ?_
        cases r <;> exact .ret _
    refine Guarded.of_sends (fun l q hq => ?_) hsends
    cases q with
    | purgeContact t c => exact absurd rfl (hq t c)
    | _ => trivial

/-- No request of the contact is pending beyond `cutoff`. -/
def DueBy (t c : UUID) (cutoff : Time) (s : RetentionDB) : Prop := ∀ r ∈ s.requests, r.pendingFor t c → r.retentionUntil ≤ cutoff

def Elsewhere (t c : UUID) : Req → Prop
  | .upsert req => ¬ (req.tenantID = t ∧ req.contactID = c)
  | _ => True

theorem dueBy_step {cutoff : Time} {q : Req} {r : Resp q} {s s' : RetentionDB} (h : exec q s r s') (hq : Elsewhere t c q) (hs : DueBy t c cutoff s) :
    DueBy t c cutoff s' := by
  obtain ⟨now, -, rfl | ⟨t, c, -, rfl⟩ | ⟨id, t, -, rfl⟩ | ⟨id, t, -, rfl⟩ | ⟨req, a, rfl, hup⟩⟩ := exec_cases h
  · exact hs
  · exact hs
  · exact fun r hr hp => hs r (mem_of_mem_mark (s := s.later now) (by decide) hr (pendingFor_iff.mp hp).1) hp
  · exact fun r hr hp => hs r (mem_of_mem_mark (s := s.later now) (by decide) hr (pendingFor_iff.mp hp).1) hp
  intro r hr hp
  rcases upsert_cases hup with rfl | ⟨rfl, -⟩
  · obtain ⟨r₀, hr0, rfl⟩ := mem_map.mp hr
    rw [pendingFor_refresh] at hp
    have hother : ¬ r₀.pendingFor req.tenantID req.contactID := fun h =>
      hq ⟨(pendingFor_iff.mp h).2.1.symm.trans (pendingFor_iff.mp hp).2.1, (pendingFor_iff.mp h).2.2.symm.trans (pendingFor_iff.mp hp).2.2⟩
    rw [RetentionDB.refresh, if_neg hother]
    exact hs r₀ hr0 hp
  rcases mem_append.mp hr with hr | hr
  · exact hs r hr hp
  · rw [mem_singleton.mp hr] at hp
    exact absurd (pendingFor_iff.mp hp).2 hq

/-- What is listed is due, and no other request of its contact is pending. -/
theorem dueBy_of_listed {cutoff : Time} {limit : ℕ} {rows : List DeletionRequest} {s s' : RetentionDB}
    (h : exec (.listReady cutoff limit) s (.ok rows) s') (hu : PendingUnique s) {r : DeletionRequest} (hr : r ∈ rows) :
    DueBy r.tenantID r.contactID cutoff s' := by
  obtain ⟨now, -, rfl, ⟨_, ⟨full, hperm, -, rfl⟩, hrows⟩ | ⟨e, -, he⟩⟩ := h
  · cases hrows
    have hready := hperm.mem_iff.mp (mem_of_mem_take hr)
    obtain ⟨hmem, hdue⟩ := mem_filter.mp hready
    simp only [Bool.and_eq_true, decide_eq_true_eq] at hdue
    intro r' hr' hp'
    rw [hu _ _ r' hr' r hmem hp' (pendingFor_iff.mpr ⟨hdue.1, rfl, rfl⟩)]
    exact hdue.2.trans (timestamptz_le cutoff)
  · cases he

/-- **No erasure before the deadline.**  When a contact is purged and no `Upsert` for it has come between the listing of that tick and the purge, every pending
request of the contact is past its deadline. -/
theorem purge_after_deadline {s : RetentionDB} (hu : PendingUnique s) {σ : Conf Req Resp RetentionDB Call Res} (hr : Reach system s σ) {i : ℕ}
    {r : Resp (.purgeContact t c)} {pre post : RetentionDB} {h₁ h₂ : List (Event Req Resp RetentionDB Call Res)}
    (h : σ.world.hist = h₁ ++ .act i (.purgeContact t c) r pre post :: h₂)
    (hquiet : ∀ cutoff limit rows pre' post' newer older, h₂ = newer ++ .act i (.listReady cutoff limit) (.ok rows) pre' post' :: older →
      ∀ j q r' s₁ s₂, .act j q r' s₁ s₂ ∈ newer → Elsewhere t c q) :
    ∀ req ∈ pre.requests, req.pendingFor t c → req.retentionUntil ≤ post.now := by
  obtain ⟨rows, ⟨cutoff, limit, hlist, hclock⟩, req, hreq, rfl, rfl⟩ := hr.act_guarded guarded_body h
  obtain ⟨σ', hr', hw, he, -⟩ := hr.act_split h
  obtain rfl : h₂ = σ'.world.hist := by rw [hw]
  obtain rfl : pre = σ'.world.store := by rw [hw]
  obtain ⟨s₁, s₂, hlist⟩ := World.mem_trace.mp hlist
  obtain ⟨s₃, s₄, hclock⟩ := World.mem_trace.mp hclock
  have hdue : DueBy req.tenantID req.contactID cutoff σ'.world.store := by
    obtain ⟨newer, older, hcut⟩ := append_of_mem hlist
    obtain ⟨σ₁, hr1, hw1, hlisted, -⟩ := hr'.act_split hcut
    have hunique : PendingUnique s₁ := by
      have hkept := Reach.store_kept (I := PendingUnique) (fun _ _ _ _ _ hex _ hs => pendingUnique_step hex hs) hu hr1
      rwa [hw1] at hkept
    exact hr'.since hcut (dueBy_of_listed hlisted hunique hreq) fun j q r' s₁ s₂ hm hex =>
      dueBy_step hex (hquiet cutoff limit rows _ _ newer older hcut j q r' s₁ s₂ hm)
  have hpassed : cutoff ≤ σ'.world.store.now := by
    obtain ⟨newer, older, hcut⟩ := append_of_mem hclock
    obtain ⟨now, -, hread, rfl⟩ := hr'.act_exec hclock
    exact hr'.since (I := fun s => cutoff ≤ s.now) hcut (Int.le_of_eq hread) fun _ _ _ _ _ _ hex hs => hs.trans (exec_now hex)
  intro req' hreq' hp
  exact ((hdue req' hreq' hp).trans hpassed).trans (exec_now he)

/-! ### A refreshed request -/

/-- Every request answered by its own transaction, with the clock at the time of the tables. -/
def serve : (q : Req) → RetentionDB → Resp q × RetentionDB
  | .clock, s => (s.now, s)
  | .newID, s => ((1 : UUID), s)
  | .ctxErr, s => (none, s)
  | .upsert req, s => Tx.run s (s.upsert req)
  | .listReady cutoff limit, s =>
    (.ok (((s.ready cutoff).insertionSort fun a b => a.createdAt ≤ b.createdAt).take (if limit = 0 then 100 else limit)), s)
  | .purgeContact t c, s => (.ok (), s.purgeContact t c)
  | .markCompleted id t, s => (.ok (), s.markCompleted id t)
  | .markFailed id t, s => (.ok (), s.markFailed id t)

theorem exec_serve (q : Req) (s : RetentionDB) : exec q s (serve q s).1 (serve q s).2 := by
  refine ⟨s.now, Int.le_refl _, ?_⟩
  cases q with
  | clock => exact ⟨rfl, rfl⟩
  | newID => exact ⟨show (1 : UUID) ≠ UUID.Nil by decide, rfl⟩
  | ctxErr => rfl
  | upsert req => exact Tx.of_run s _
  | listReady cutoff limit =>
    exact ⟨rfl, .inl ⟨_, ⟨_, perm_insertionSort _ _, pairwise_insertionSort (fun a b : DeletionRequest => a.createdAt ≤ b.createdAt) _, rfl⟩, rfl⟩⟩
  | purgeContact t c | markCompleted id t | markFailed id t => exact .done rfl

def dueRequest : DeletionRequest := ⟨5, 2, 3, 4, "art. 18", .pending, 1000, none, 0, 0⟩

def dueTables : RetentionDB := ⟨2000, [dueRequest], [⟨3, 2, "Ann", 0⟩], [⟨2, 3⟩], [], []⟩

/-- The request is renewed, with a deadline that has not passed. -/
def renewal : DeletionRequest := ⟨0, 2, 3, 4, "art. 18", .pending, 9000, none, 1000, 0⟩

def noUpsert : Event Req Resp RetentionDB Call Res → Bool
  | .act _ (.upsert _) _ _ _ => false
  | _ => true

theorem purge_after_deadline_tick : ∃ σ : Conf Req Resp RetentionDB Call Res, ∃ h₁ h₂ pre post, Reach system dueTables σ ∧
    σ.world.hist = h₁ ++ .act 0 (.purgeContact 2 3) (.ok ()) pre post :: h₂ ∧ ∀ req ∈ pre.requests, req.pendingFor 2 3 → req.retentionUntil ≤ post.now := by
  have hr : Reach system dueTables ((Conf.start dueTables).play system serve [.invoke 0 (.tick 10), .move 0, .move 0, .move 0, .move 0]) :=
    Reach.played exec_serve (k := fun _ _ => true) (fun _ _ _ => trivial) _ (by decide +kernel)
  refine ⟨_, [], _, _, _, hr, rfl, purge_after_deadline (fun t c r hr r' hr' _ _ => ?_) hr (show _ = [] ++ _ :: _ from rfl) ?_⟩
  · rw [mem_singleton.mp hr, mem_singleton.mp hr']
  intro cutoff limit rows pre' post' newer older hcut j q r' s₁ s₂ hm
  have hall : newer.all noUpsert = true := by
    have hboth : (newer ++ .act 0 (.listReady cutoff limit) (.ok rows) pre' post' :: older).all noUpsert = true := by
      rw [← hcut]
      decide +kernel
    rw [all_append] at hboth
    exact (Bool.and_eq_true_iff.mp hboth).1
  have hq := all_eq_true.mp hall _ hm
  cases q with
  | upsert req => cases hq
  | _ => trivial

/-- **The deadline is not looked at again.**  A request that is renewed between the listing and the purge does not stop the purge. -/
theorem renewed_yet_purged : ∃ σ : Conf Req Resp RetentionDB Call Res, ∃ pre post h₂, Reach system dueTables σ ∧
    σ.world.hist = .act 0 (.purgeContact 2 3) (.ok ()) pre post :: h₂ ∧ ∃ req ∈ pre.requests, req.pendingFor 2 3 ∧ post.now < req.retentionUntil := by
  have hr : Reach system dueTables ((Conf.start dueTables).play system serve
      [.invoke 0 (.tick 10), .move 0, .move 0, .invoke 1 (.upsert renewal), .move 1, .move 1, .move 1, .move 1, .move 0, .move 0]) :=
    Reach.played exec_serve (k := fun _ _ => true) (fun _ _ _ => trivial) _ (by decide +kernel)
  exact ⟨_, _, _, _, hr, rfl, _, mem_cons_self, by decide +kernel, by decide +kernel⟩

end Deadline

/-! ## Transient failures -/

section Progress

def failed : (q : Req) → Resp q → Bool
  | .listReady _ _, .error _ | .purgeContact _ _, .error _ | .markCompleted _ _, .error _ | .markFailed _ _, .error _ | .upsert _, .error _ => true
  | .ctxErr, some _ => true
  | _, _ => false

variable (x : Exchange Req Resp RetentionDB)

/-- A failure has no effect, and the context is not cancelled. -/
def Transient : Prop :=
  x.q ≠ .ctxErr ∧ x.post = x.pre.later x.post.now ∨ failed x.q x.r = false

/-- Nothing of the contact is left but its anonymised row. -/
structure Purged (t c : UUID) (s : RetentionDB) : Prop where
  contacts : ∀ k ∈ s.contacts, k.id = c ∧ k.tenantID = t → k.displayName = RetentionDB.anonymised
  identities : ∀ k ∈ s.identities, ¬ (k.contactID = c ∧ k.tenantID = t)
  conversations : ∀ k ∈ s.conversations, ¬ (k.contactID = c ∧ k.tenantID = t)

def Erased (row : DeletionRequest) (s : RetentionDB) : Prop :=
  (∃ r ∈ s.requests, r.id = row.id ∧ r.status = .completed) ∧ Purged row.tenantID row.contactID s

def Open (row : DeletionRequest) (s : RetentionDB) : Prop :=
  ∃ r ∈ s.requests, r.id = row.id ∧ r.status = .pending ∧ r.retentionUntil ≤ timestamptz s.now

def Keyed (row : DeletionRequest) (s : RetentionDB) : Prop :=
  ∀ r ∈ s.requests, r.id = row.id → r.tenantID = row.tenantID ∧ r.contactID = row.contactID

variable {row : DeletionRequest} {s s' : RetentionDB} {now at_ : Time} {id : UUID} {status : DeletionStatus} {stamp : Option Time}

theorem Open.later (h : Open row s) (hnow : s.now ≤ now) : Open row (s.later now) := by
  obtain ⟨r, hr, hid, hp, hdue⟩ := h
  exact ⟨r, hr, hid, hp, hdue.trans (timestamptz_mono hnow)⟩

theorem purged_purgeContact (s : RetentionDB) (t c : UUID) : Purged t c (s.purgeContact t c) where
  contacts k hk hm := by
    obtain ⟨k₀, hk0, rfl⟩ := mem_map.mp hk
    by_cases hc : k₀.id = c ∧ k₀.tenantID = t
    · simp only [if_pos hc]
    · simp only [if_neg hc] at hm
      exact absurd hm hc
  identities k hk := of_decide_eq_true (mem_filter.mp hk).2
  conversations k hk := of_decide_eq_true (mem_filter.mp hk).2

theorem Purged.purgeContact {t c t' c' : UUID} (h : Purged t c s) : Purged t c (s.purgeContact t' c') where
  contacts k hk hm := by
    obtain ⟨k₀, hk0, rfl⟩ := mem_map.mp hk
    by_cases hc : k₀.id = c' ∧ k₀.tenantID = t'
    · simp only [if_pos hc]
    · simp only [if_neg hc] at hm ⊢
      exact h.contacts k₀ hk0 hm
  identities k hk := h.identities k (mem_of_mem_filter hk)
  conversations k hk := h.conversations k (mem_of_mem_filter hk)

theorem mem_mark_iff {r : DeletionRequest} :
    r ∈ (s.mark id status stamp at_).requests ↔ ∃ r₀ ∈ s.requests, r = if r₀.id = id ∧ r₀.status = .pending then
      { r₀ with status := status, completedAt := stamp <|> r₀.completedAt, updatedAt := timestamptz at_ } else r₀ := by
  simp [RetentionDB.mark, eq_comm]

theorem Keyed.mark (h : Keyed row s) : Keyed row (s.mark id status stamp at_) := by
  intro r hr hid
  obtain ⟨r₀, hr0, rfl⟩ := mem_mark_iff.mp hr
  split_ifs at hid ⊢ with hc
  · exact h r₀ hr0 hid
  · exact h r₀ hr0 hid

theorem Open.mark (h : Open row s) (hne : id ≠ row.id) :
    Open row (s.mark id status stamp at_) := by
  obtain ⟨r, hr, hid, hp, hdue⟩ := h
  refine ⟨r, mem_mark_iff.mpr ⟨r, hr, ?_⟩, hid, hp, hdue⟩
  rw [if_neg fun hc => hne (hc.1.symm.trans hid)]

theorem Erased.mark (h : Erased row s) : Erased row (s.mark id status stamp at_) := by
  obtain ⟨⟨r, hr, hid, hdone⟩, hpurged⟩ := h
  refine ⟨⟨r, mem_mark_iff.mpr ⟨r, hr, ?_⟩, hid, hdone⟩, ⟨hpurged.contacts, hpurged.identities, hpurged.conversations⟩⟩
  rw [if_neg fun hc => by rw [hdone] at hc; cases hc.2]

theorem Open.completed {at_ : Time} (h : Open row s) (hpurged : Purged row.tenantID row.contactID s) : Erased row (s.markCompleted row.id at_) := by
  obtain ⟨r, hr, hid, hp, -⟩ := h
  refine ⟨⟨_, mem_mark_iff.mpr ⟨r, hr, rfl⟩, ?_, ?_⟩, ⟨hpurged.contacts, hpurged.identities, hpurged.conversations⟩⟩
  · rw [if_pos ⟨hid, hp⟩]
    exact hid
  · rw [if_pos ⟨hid, hp⟩]

theorem Erased.later (h : Erased row s) : Erased row (s.later now) :=
  ⟨h.1, ⟨h.2.contacts, h.2.identities, h.2.conversations⟩⟩

def ByWorker (q : Req) : Prop := ∀ req, q ≠ .upsert req

theorem sends_purgeAll : ∀ rows : List DeletionRequest, (purgeAll rows).Sends ByWorker
  | [] => .ret _
  | _ :: rest => .ask (by simp [ByWorker]) fun r => by
      cases r with
      | some e => exact .ret _
      | none =>
      refine .ask (by simp [ByWorker]) fun r => ?_
      cases r <;> exact .ask (by simp [ByWorker]) fun now => .ask (by simp [ByWorker]) fun _ => sends_purgeAll rest

theorem sends_tick (n : ℕ) : (tick n).Sends ByWorker := by
  refine .ask (by simp [ByWorker]) fun cutoff => .ask (by simp [ByWorker]) fun r => ?_
  cases r with
  | error e => exact .ret _
  | ok rows => exact sends_purgeAll rows

theorem erased_step (q : Req) (s : RetentionDB) (r : Resp q) (s' : RetentionDB) (hq : ByWorker q) (he : exec q s r s') (h : Erased row s) :
    Erased row s' := by
  obtain ⟨now, -, rfl | ⟨t, c, -, rfl⟩ | ⟨id, t, -, rfl⟩ | ⟨id, t, -, rfl⟩ | ⟨req, a, rfl, -⟩⟩ := exec_cases he
  all_goals have hlater : Erased row (s.later now) := h.later
  · exact hlater
  · exact ⟨h.1, hlater.2.purgeContact⟩
  · exact hlater.mark
  · exact hlater.mark
  · exact absurd rfl (hq req)

theorem keyed_step (q : Req) (s : RetentionDB) (r : Resp q) (s' : RetentionDB) (hq : ByWorker q) (he : exec q s r s') (h : Keyed row s) :
    Keyed row s' := by
  obtain ⟨now, -, rfl | ⟨t, c, -, rfl⟩ | ⟨id, t, -, rfl⟩ | ⟨id, t, -, rfl⟩ | ⟨req, a, rfl, -⟩⟩ := exec_cases he
  · exact h
  · exact h
  · exact Keyed.mark (s := s.later now) h
  · exact Keyed.mark (s := s.later now) h
  · exact absurd rfl (hq req)

/-- What a run of a worker has to satisfy: failures are transient, and `row` is not marked as failed. -/
structure Spared (row : DeletionRequest) (x : Exchange Req Resp RetentionDB) : Prop where
  transient : Transient x
  unmarked : ∀ at_, x.q = .markFailed row.id at_ → failed x.q x.r = true

theorem Transient.later {x : Exchange Req Resp RetentionDB} (h : Transient x) (hf : failed x.q x.r = true) : x.post = x.pre.later x.post.now := by
  rcases h with h | h
  · exact h.2
  · rw [hf] at h
    cases h

theorem Open.passed {q : Req} {r : Resp q} (h : Open row s) (he : exec q s r s') (hs : s' = s.later s'.now) : Open row s' := by
  rw [hs]
  exact h.later (exec_now he)

theorem markFailed_open {id : UUID} {t : Time} {r : Resp (.markFailed id t)} (he : exec (.markFailed id t) s r s')
    (hx : Spared row ⟨.markFailed id t, r, s, s'⟩) (h : Open row s) : Open row s' := by
  by_cases hid : id = row.id
  · exact h.passed he (hx.transient.later (hx.unmarked t (by rw [hid])))
  obtain ⟨now, hnow, rfl | ⟨_, _, hq, -⟩ | ⟨_, _, hq, -⟩ | ⟨_, _, hq, rfl⟩ | ⟨_, _, hq, -⟩⟩ := exec_cases he
  · exact h.later hnow
  · cases hq
  · cases hq
  · cases hq
    exact (h.later hnow).mark hid
  · cases hq

theorem markCompleted_open {id : UUID} {t : Time} {r : Resp (.markCompleted id t)} (he : exec (.markCompleted id t) s r s')
    (hx : Transient ⟨.markCompleted id t, r, s, s'⟩) (hpurged : id = row.id → Purged row.tenantID row.contactID s) (h : Open row s) :
    (Open row s' ∨ Erased row s') ∧ (failed (.markCompleted id t) r = false → id = row.id → Erased row s') := by
  by_cases hid : id = row.id
  · cases r with
    | error e => exact ⟨.inl (h.passed he (hx.later rfl)), fun hf => by cases hf⟩
    | ok _ =>
      obtain ⟨now, hnow, htx⟩ := he
      obtain ⟨-, rfl⟩ := Prod.mk.inj (Except.ok.inj (Tx.of_ok htx))
      have hp := hpurged hid
      have herased : Erased row ((s.later now).markCompleted id t) := by
        rw [hid]
        exact (h.later hnow).completed ⟨hp.contacts, hp.identities, hp.conversations⟩
      exact ⟨.inr herased, fun _ _ => herased⟩
  refine ⟨.inl ?_, fun _ h => absurd h hid⟩
  obtain ⟨now, hnow, rfl | ⟨_, _, hq, -⟩ | ⟨_, _, hq, rfl⟩ | ⟨_, _, hq, -⟩ | ⟨_, _, hq, -⟩⟩ := exec_cases he
  · exact h.later hnow
  · cases hq
  · cases hq
    exact (h.later hnow).mark hid
  · cases hq
  · cases hq

/-- **The loop.**  The request stays open, or is closed with its contact purged; without failures it is closed if it is among the rows. -/
theorem purgeAll_open : ∀ {rest : List DeletionRequest} {s : RetentionDB} {l : List (Exchange Req Resp RetentionDB)} {a : Except Err Unit}
    {s' : RetentionDB}, (∀ r ∈ rest, r.id = row.id → r.tenantID = row.tenantID ∧ r.contactID = row.contactID) → Runs exec (purgeAll rest) s l a s' →
    (∀ x ∈ l, Spared row x) → Open row s →
    (Open row s' ∨ Erased row s') ∧ ((∀ x ∈ l, failed x.q x.r = false) → (∃ r ∈ rest, r.id = row.id) → Erased row s')
  | [], s, l, a, s', _, hrun, _, hopen => by
    obtain ⟨rfl, rfl⟩ := hrun.ret_inv
    exact ⟨.inl hopen, fun _ ⟨r, hr, _⟩ => absurd hr not_mem_nil⟩
  | req :: rest, s, l, a, s', hall, hrun, hl, hopen => by
    obtain ⟨hkey, hkeys⟩ := forall_mem_cons.mp hall
    obtain ⟨r, s₁, l₁, rfl, he1, hk1⟩ := hrun.ask_inv
    obtain ⟨hx1, hl1⟩ := forall_mem_cons.mp hl
    have hopen1 : Open row s₁ := by
      obtain ⟨now, hnow, rfl⟩ := he1
      exact hopen.later hnow
    cases r with
    | some e =>
      rcases hx1.transient with h | h
      · exact absurd rfl h.1
      · cases h
    | none =>
    obtain ⟨r, s₂, l₂, rfl, he2, hk2⟩ := hk1.ask_inv
    obtain ⟨hx2, hl2⟩ := forall_mem_cons.mp hl1
    cases r with
    | error e =>
      have hopen2 : Open row s₂ := hopen1.passed he2 (hx2.transient.later rfl)
      obtain ⟨now, s₃, l₃, rfl, he3, hk3⟩ := hk2.ask_inv
      obtain ⟨-, hl3⟩ := forall_mem_cons.mp hl2
      obtain ⟨r, s₄, l₄, rfl, he4, hk4⟩ := hk3.ask_inv
      obtain ⟨hx4, hl4⟩ := forall_mem_cons.mp hl3
      have hopen3 : Open row s₃ := by
        obtain ⟨now, hnow, -, rfl⟩ := he3
        exact hopen2.later hnow
      refine ⟨(purgeAll_open hkeys hk4 hl4 (markFailed_open he4 hx4 hopen3)).1, fun hok => ?_⟩
      have hpurge := hok ⟨.purgeContact req.tenantID req.contactID, .error e, s₁, s₂⟩ (by simp)
      cases hpurge
    | ok _ =>
    obtain ⟨now₂, hnow2, htx⟩ := he2
    obtain ⟨-, rfl⟩ := Prod.mk.inj (Except.ok.inj (Tx.of_ok htx))
    have hopen2 : Open row ((s₁.later now₂).purgeContact req.tenantID req.contactID) := hopen1.later hnow2
    obtain ⟨now, s₃, l₃, rfl, he3, hk3⟩ := hk2.ask_inv
    obtain ⟨-, hl3⟩ := forall_mem_cons.mp hl2
    obtain ⟨r, s₄, l₄, rfl, he4, hk4⟩ := hk3.ask_inv
    obtain ⟨hx4, hl4⟩ := forall_mem_cons.mp hl3
    obtain ⟨now₃, hnow3, -, rfl⟩ := he3
    have hpurged := purged_purgeContact (s₁.later now₂) req.tenantID req.contactID
    obtain ⟨hstage, hdone⟩ := markCompleted_open he4 hx4.transient (fun hid => by
      rw [← (hkey hid).1, ← (hkey hid).2]
      exact ⟨hpurged.contacts, hpurged.identities, hpurged.conversations⟩) (hopen2.later hnow3)
    have hkept : Erased row s₄ → Erased row s' := fun h =>
      Ensures.of_sends erased_step (sends_purgeAll rest) h _ _ _ hk4
    constructor
    · rcases hstage with h | h
      · exact (purgeAll_open hkeys hk4 hl4 h).1
      · exact .inr (hkept h)
    rintro hok ⟨r', hr', hid⟩
    simp only [forall_mem_cons] at hok
    obtain ⟨-, -, -, hmark, hrest⟩ := hok
    rcases hstage with h | h
    · rcases mem_cons.mp hr' with rfl | hr'
      · exact hkept (hdone hmark hid)
      · exact (purgeAll_open hkeys hk4 hl4 h).2 hrest ⟨r', hr', hid⟩
    · exact hkept h

def Roomy : Prop := ∀ cutoff limit, x.q = .listReady cutoff limit → (x.pre.ready cutoff).length < limit

/-- **One tick.**  The request stays open, or is closed with its contact purged; without failures it is closed. -/
theorem tick_open {n : ℕ} {l : List (Exchange Req Resp RetentionDB)} {a : Except Err Unit} (hrun : Runs exec (tick n) s l a s')
    (hl : ∀ x ∈ l, Spared row x) (hroom : ∀ x ∈ l, Roomy x) (hkeyed : Keyed row s) (hopen : Open row s) :
    (Open row s' ∨ Erased row s') ∧ ((∀ x ∈ l, failed x.q x.r = false) → Erased row s') := by
  obtain ⟨cutoff, s₁, l₁, rfl, he1, hk1⟩ := hrun.ask_inv
  obtain ⟨now₁, hnow1, rfl, rfl⟩ := he1
  obtain ⟨r, s₂, l₂, rfl, he2, hk2⟩ := hk1.ask_inv
  simp only [forall_mem_cons] at hl hroom
  obtain ⟨-, -, hl2⟩ := hl
  have hopen1 := hopen.later hnow1
  obtain ⟨now₂, hnow2, rfl, hrows⟩ := he2
  cases r with
  | error e =>
    obtain ⟨rfl, rfl⟩ := hk2.ret_inv
    refine ⟨.inl (hopen1.later hnow2), fun hok => ?_⟩
    simp only [forall_mem_cons] at hok
    cases hok.2.1
  | ok rows =>
  obtain ⟨_, ⟨full, hperm, -, rfl⟩, hrows⟩ | ⟨_, -, he⟩ := hrows
  · cases hrows
    have hlen : full.length < n := hperm.length_eq.trans_lt (hroom.2.1 _ n rfl)
    have hall : full.take (if n = 0 then 100 else n) = full := take_of_length_le (by split_ifs <;> omega)
    rw [hall] at hk2
    obtain ⟨hstage, hdone⟩ := purgeAll_open (fun r hr => hkeyed r (mem_of_mem_filter (hperm.mem_iff.mp hr))) hk2 hl2 (hopen1.later hnow2)
    refine ⟨hstage, fun hok => hdone (fun x hx => hok x (by simp [hx])) ?_⟩
    obtain ⟨r, hr, hid, hp, hdue⟩ := hopen1
    exact ⟨r, hperm.mem_iff.mpr (mem_filter.mpr ⟨hr, Bool.and_eq_true_iff.mpr ⟨decide_eq_true hp, decide_eq_true hdue⟩⟩), hid⟩
  · cases he

/-- Ticks one after the other, with failures that have no effect and end. -/
structure TransientRun (n : ℕ) (s : ℕ → RetentionDB) (l : ℕ → List (Exchange Req Resp RetentionDB)) (a : ℕ → Except Err Unit) : Prop where
  runs : ∀ k, Runs exec (tick n) (s k) (l k) (a k) (s (k + 1))
  transient : ∀ k, ∀ x ∈ l k, Transient x
  finite : ∃ m, ∀ k, m ≤ k → ∀ x ∈ l k, failed x.q x.r = false
  room : ∀ k, ∀ x ∈ l k, Roomy x

/-- The request is in the table, under its own identifier, pending and due. -/
structure IsDue (row : DeletionRequest) (s : RetentionDB) : Prop where
  mem : row ∈ s.requests
  key : ∀ r ∈ s.requests, r.id = row.id → r = row
  pending : row.status = .pending
  due : row.retentionUntil ≤ timestamptz s.now

/-- **An erasure that is not given up is carried out.**  If no failed purge of the request is followed by a successful `MarkFailed`, some tick completes it. -/
theorem erasure_completed {n : ℕ} {s : ℕ → RetentionDB} {l : ℕ → List (Exchange Req Resp RetentionDB)} {a : ℕ → Except Err Unit}
    (h : TransientRun n s l a) (hdue : IsDue row (s 0)) (hmark : ∀ k, ∀ x ∈ l k, ∀ at_, x.q = .markFailed row.id at_ → failed x.q x.r = true) :
    ∃ k, Erased row (s k) := by
  by_contra hnever
  have hkeyed : ∀ k, Keyed row (s k) := by
    intro k
    induction k with
    | zero =>
      intro r hr hid
      rw [hdue.key r hr hid]
      exact ⟨rfl, rfl⟩
    | succ k ih => exact Ensures.of_sends keyed_step (sends_tick n) ih _ _ _ (h.runs k)
  have hstep := fun k hopen => tick_open (h.runs k) (fun x hx => ⟨h.transient k x hx, hmark k x hx⟩) (h.room k) (hkeyed k) hopen
  have hopen : ∀ k, Open row (s k) := by
    intro k
    induction k with
    | zero => exact ⟨row, hdue.mem, rfl, hdue.pending, hdue.due⟩
    | succ k ih => exact (hstep k ih).1.resolve_right fun herased => hnever ⟨k + 1, herased⟩
  obtain ⟨m, hm⟩ := h.finite
  exact hnever ⟨m + 1, (hstep m (hopen m)).2 (hm m le_rfl)⟩

/-! ### Two runs -/

/-- The checks of a run, as a function; `calm` asks for no failure at all. -/
def bearable : Bool :=
  (!failed x.q x.r || x.q ≠ .ctxErr && x.post = x.pre.later x.post.now) && match x.q with
    | .listReady cutoff limit => (x.pre.ready cutoff).length < limit
    | _ => true

def calm : Bool :=
  bearable x && !failed x.q x.r && match x.q with
    | .markFailed _ _ => false
    | _ => true

theorem bearable_sound {x : Exchange Req Resp RetentionDB} (h : bearable x = true) : Transient x ∧ Roomy x := by
  obtain ⟨hf, hroom⟩ := Bool.and_eq_true_iff.mp h
  refine ⟨?_, fun cutoff limit hq => ?_⟩
  · simpa [Transient, or_comm] using hf
  · rw [hq] at hroom
    exact of_decide_eq_true hroom

theorem calm_sound {x : Exchange Req Resp RetentionDB} (h : calm x = true) :
    bearable x = true ∧ failed x.q x.r = false ∧ ∀ id at_, x.q ≠ .markFailed id at_ := by
  obtain ⟨h, hmark⟩ := Bool.and_eq_true_iff.mp h
  obtain ⟨hb, hf⟩ := Bool.and_eq_true_iff.mp h
  refine ⟨hb, by simpa using hf, fun id at_ hq => ?_⟩
  rw [hq] at hmark
  cases hmark

variable (serve₀ : (q : Req) → RetentionDB → Resp q × RetentionDB)

def afterTick : RetentionDB := ((tick 10).eval serve₀ dueTables).2

def settled : ℕ → RetentionDB
  | 0 => dueTables
  | _ + 1 => afterTick serve₀

def exchanges : ℕ → List (Exchange Req Resp RetentionDB)
  | 0 => (tick 10).served serve₀ dueTables
  | _ + 1 => (tick 10).served serve (afterTick serve₀)

theorem transientRun_settled {serve₀ : (q : Req) → RetentionDB → Resp q × RetentionDB} (he : ∀ q s, exec q s (serve₀ q s).1 (serve₀ q s).2)
    (hfirst : (exchanges serve₀ 0).all bearable = true) (hrest : (exchanges serve₀ 1).all calm = true)
    (hfix : (tick 10).eval serve (afterTick serve₀) = (.ok (), afterTick serve₀)) (hok : ((tick 10).eval serve₀ dueTables).1 = .ok ()) :
    TransientRun 10 (settled serve₀) (exchanges serve₀) fun _ => .ok () := by
  have hcalm := fun k x (hx : x ∈ exchanges serve₀ (k + 1)) => calm_sound (all_eq_true.mp hrest x hx)
  have hbear : ∀ k, ∀ x ∈ exchanges serve₀ k, Transient x ∧ Roomy x := by
    intro k x hx
    cases k with
    | zero => exact bearable_sound (all_eq_true.mp hfirst x hx)
    | succ k => exact bearable_sound (hcalm k x hx).1
  refine ⟨fun k => ?_, fun k x hx => (hbear k x hx).1, ⟨1, fun k hk x hx => ?_⟩, fun k x hx => (hbear k x hx).2⟩
  · cases k with
    | zero =>
      have hrun := Runs.served he (tick 10) dueTables
      rwa [hok] at hrun
    | succ k =>
      have hrun := Runs.served exec_serve (tick 10) (afterTick serve₀)
      rwa [hfix] at hrun
  · obtain ⟨k, rfl⟩ := Nat.exists_eq_add_of_le' hk
    exact (hcalm k x hx).2.1

theorem isDue_dueRequest : IsDue dueRequest dueTables :=
  ⟨mem_singleton.mpr rfl, fun r hr _ => mem_singleton.mp hr, rfl, by decide⟩

theorem erasure_completed_first : ∃ k, Erased dueRequest (settled serve k) := by
  have hfirst : (exchanges serve 0).all calm = true := by decide +kernel
  have hrest : (exchanges serve 1).all calm = true := by decide +kernel
  have hbear : (exchanges serve 0).all bearable = true := by decide +kernel
  refine erasure_completed (transientRun_settled exec_serve hbear hrest (by decide +kernel) (by decide +kernel)) isDue_dueRequest fun k x hx at_ hq => ?_
  cases k with
  | zero => exact absurd hq ((calm_sound (all_eq_true.mp hfirst x hx)).2.2 _ at_)
  | succ k => exact absurd hq ((calm_sound (all_eq_true.mp hrest x hx)).2.2 _ at_)

def flaky : (q : Req) → RetentionDB → Resp q × RetentionDB
  | .purgeContact _ _, s => (.error (.other "timeout"), s)
  | q, s => serve q s

theorem exec_flaky (q : Req) (s : RetentionDB) : exec q s (flaky q s).1 (flaky q s).2 := by
  cases q with
  | purgeContact t c => exact ⟨s.now, Int.le_refl _, .down ⟨_, rfl⟩⟩
  | _ => exact exec_serve _ s

/-- **One failed purge strands the request.**  The worker marks it as failed, and no later tick lists it. -/
theorem purge_failure_strands : TransientRun 10 (settled flaky) (exchanges flaky) (fun _ => .ok ()) ∧ IsDue dueRequest (settled flaky 0) ∧
    ∀ k, ¬ Erased dueRequest (settled flaky k) := by
  have hopen : ∀ r ∈ dueTables.requests, r.status ≠ .completed := by decide
  have hstays : ∀ r ∈ (afterTick flaky).requests, r.status ≠ .completed := by decide +kernel
  refine ⟨transientRun_settled exec_flaky (by decide +kernel) (by decide +kernel) (by decide +kernel) (by decide +kernel), isDue_dueRequest, fun k h => ?_⟩
  obtain ⟨⟨r, hr, -, hdone⟩, -⟩ := h
  cases k with
  | zero => exact hopen r hr hdone
  | succ k => exact hstays r hr hdone

end Progress

end Crm.Lgpd
