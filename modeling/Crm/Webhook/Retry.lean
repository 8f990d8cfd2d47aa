import Crm.Webhook.Intake

/-!
# Crm.Webhook.Retry — the second delivery of a webhook

The key of a delivery is claimed before its event is inserted.  A failure before the claim leaves nothing behind; one after it leaves a
key without an event, and every further delivery is dropped as a replay of it (`webhook_lost`).  When the failures of the earlier
deliveries come before the claim (`Harmless`), a key stands for a stored event, and a delivery in which nothing fails stores the event
unless it is stored already (`retry_stored`).
-/

namespace Crm.Webhook

open Interleave Prog List

/-- An authentic delivery to tenant `T`: the signature holds, and the token, when it can be looked up, is the tenant's. -/
def Authentic (T : UUID) : (q : Req) → Resp q → Prop
  | .verifyApp _ _ _, r => r = .ok ()
  | .verifyTenant _ _ _ _, r => r = .ok ()
  | .lookup _ _ _, r => r = .ok T ∨ ∃ e, Err.fault e ∧ r = .error e
  | _, _ => True

def delivery (T : UUID) (q : Req) (s : WebhookDB) (r : Resp q) (s' : WebhookDB) : Prop := exec q s r s' ∧ Authentic T q r

/-- Failures that leave no key without an event: a claim that fails has not committed, and the insert commits whatever it answers. -/
def Harmless : Exchange Req Resp WebhookDB → Prop
  | ⟨.checkAndStore _ _ _ _, .error _, pre, post⟩ => post = pre
  | ⟨.insert row, _, pre, post⟩ => ∃ id, pre.insert row id = .ok (id, post)
  | _ => True

/-- The store calls succeed, the body belongs to the tenant, and the clock lies within the replay window of `ts`. -/
def Succeeds (S : Service) (ts : Time) : Exchange Req Resp WebhookDB → Prop
  | ⟨.clock, now, _, _⟩ => S.timestampInWindow ts now = true
  | ⟨.lookup _ _ _, r, _, _⟩ => ∃ T, r = .ok T
  | ⟨.checkAssociation _ _ _, r, _, _⟩ => r = .ok true
  | ⟨.checkAndStore _ _ _ _, r, _, _⟩ => ∃ b, r = .ok b
  | ⟨.insert _, r, _, _⟩ => ∃ id, r = .ok id
  | _ => True

section Deliver

variable (S : Service) (T : UUID) (req : Request)

def Claimed (s : WebhookDB) : Prop := s.HasKey T req.channel (S.computeIdempotencyKey T req.channel req.body)

def Stored (s : WebhookDB) : Prop := ∃ e ∈ s.rawEvents, e.tenantID = T ∧ e.channel = req.channel ∧ e.payload = req.body

def Settled (s : WebhookDB) : Prop := Claimed S T req s → Stored T req s

/-- What one delivery from a settled store does; `inTime` is what has to hold besides for the event to be stored. -/
structure Answered (ts : Time) (inTime : Prop) (s : WebhookDB) (l : List (Exchange Req Resp WebhookDB)) (a : Result) (s' : WebhookDB) :
    Prop where
  settled : (∀ x ∈ l, Harmless x) → Settled S T req s'
  replay : a.outcome = .replay → Stored T req s
  stores : inTime → (∀ x ∈ l, Succeeds S ts x) → Stored T req s' ∧ (¬ Stored T req s → a.outcome = .accepted)

variable {S T req} {ts now : Time} {inTime : Prop} {s s' : WebhookDB} {adapter : ChannelAdapter} {tokenHash : Digest}
variable {x : Exchange Req Resp WebhookDB} {ev : Event}

theorem Answered.cons {l : List (Exchange Req Resp WebhookDB)} {a : Result} (h : Answered S T req ts inTime s l a s') :
    Answered S T req ts inTime s (x :: l) a s' where
  settled hl := h.settled fun y hy => hl y (mem_cons_of_mem x hy)
  replay := h.replay
  stores ht hl := h.stores ht fun y hy => hl y (mem_cons_of_mem x hy)

theorem Answered.failed {a : Result} (hs : Settled S T req s) (ha : a.outcome ≠ .replay) (hfail : ¬ Succeeds S ts x) :
    Answered S T req ts inTime s [x] a s where
  settled _ := hs
  replay h := absurd h ha
  stores _ hl := absurd (hl x mem_cons_self) hfail

theorem WebhookDB.insert_stored {row : RawEventRow} {id id' : UUID} (h : s.insert row id = .ok (id', s')) :
    ∃ e ∈ s'.rawEvents, e.tenantID = row.tenantID ∧ e.channel = row.channel ∧ e.payload = row.payload := by
  unfold WebhookDB.insert at h
  split_ifs at h
  cases h
  exact ⟨_, mem_append_right _ mem_cons_self, rfl, rfl, rfl⟩

theorem WebhookDB.checkAndStore_ok {channel : String} {key : Digest} {b : Bool} (h : s.checkAndStore T channel key now = .ok (b, s')) :
    (b = false ∧ s' = s ∧ s.HasKey T channel key) ∨ (b = true ∧ ¬ s.HasKey T channel key ∧
      ∃ hk, s' = s.addKey ⟨T, channel, key, timestamptz now⟩ hk) := by
  unfold WebhookDB.checkAndStore at h
  split_ifs at h with hk
  · cases h
    exact .inl ⟨rfl, rfl, hk⟩
  · cases h
    exact .inr ⟨rfl, hk, hk, rfl⟩

variable (ts) in
theorem storeEvent_answered (hparse : adapter.parseEvent req.body = .ok ev) :
    Ensures (delivery T) (storeEvent S adapter req T tokenHash now) s fun l a s' =>
      a.outcome ≠ .replay ∧ ((∀ x ∈ l, Harmless x) → Stored T req s') ∧
        ((∀ x ∈ l, Succeeds S ts x) → Stored T req s' ∧ a.outcome = .accepted) := by
  simp only [storeEvent, hparse, send_bind, pure_eq]
  refine Ensures.ask fun r s₁ he => ?_
  cases r with
  | error e =>
    refine Ensures.ret ⟨by simp [finishAuth], fun hl => ?_, fun hl => ?_⟩
    · obtain ⟨id, hid⟩ := hl _ mem_cons_self
      exact WebhookDB.insert_stored hid
    · obtain ⟨id, hid⟩ := hl _ mem_cons_self
      cases hid
  | ok id =>
  obtain ⟨id', htx⟩ := he.1
  have hst := WebhookDB.insert_stored (Tx.of_ok htx)
  refine Ensures.ask fun r s₂ he2 => Ensures.ret ?_
  obtain rfl : s₂ = s₁ := he2.1
  exact ⟨by simp [finishAuth], fun _ => hst, fun _ => ⟨hst, rfl⟩⟩

theorem claimEvent_answered (hs : Settled S T req s) (hts : adapter.extractTimestamp req.headers req.body = .ok ts)
    (hparse : adapter.parseEvent req.body = .ok ev) :
    Ensures (delivery T) (claimEvent S adapter req T tokenHash now) s
      (Answered S T req ts (S.timestampInWindow ts now = true) s) := by
  simp only [claimEvent, hts, send_bind, pure_eq]
  split_ifs with hwindow
  · exact Ensures.ret ⟨fun _ => hs, by simp [finishAuth], fun h => by simp [hwindow] at h⟩
  refine Ensures.ask fun r s₁ he => ?_
  cases r with
  | error e =>
    refine Ensures.ret ⟨fun hl => ?_, by simp [finishAuth], fun _ hl => ?_⟩
    · obtain rfl : s₁ = s := hl _ mem_cons_self
      exact hs
    · obtain ⟨b, hb⟩ := hl _ mem_cons_self
      cases hb
  | ok b =>
  obtain ⟨rfl, rfl, hkey⟩ | ⟨rfl, hkey, hk, rfl⟩ := WebhookDB.checkAndStore_ok (Tx.of_ok he.1)
  · -- the key is claimed already
    exact Ensures.ret ⟨fun _ => hs, fun _ => hs hkey, fun _ _ => ⟨hs hkey, fun h => absurd (hs hkey) h⟩⟩
  refine (storeEvent_answered ts hparse).mono fun l a s' ⟨hne, hharmless, hok⟩ => ⟨fun hl _ => ?_, fun h => absurd h hne, ?_⟩
  · exact hharmless fun x hx => hl x (mem_cons_of_mem _ hx)
  · intro _ hl
    obtain ⟨hst, hacc⟩ := hok fun x hx => hl x (mem_cons_of_mem _ hx)
    exact ⟨hst, fun _ => hacc⟩

theorem proceedAuthenticated_answered (hs : Settled S T req s) (hts : adapter.extractTimestamp req.headers req.body = .ok ts)
    (hparse : adapter.parseEvent req.body = .ok ev) :
    Ensures (delivery T) (proceedAuthenticated S adapter req T tokenHash now) s
      (Answered S T req ts (S.timestampInWindow ts now = true) s) := by
  unfold proceedAuthenticated
  cases adapter.bodyTenantAssociation req.body with
  | none => exact claimEvent_answered hs hts hparse
  | some assoc =>
  simp only [send_bind, pure_eq]
  refine Ensures.ask fun r s₁ he => ?_
  obtain rfl : s₁ = s := he.1
  rcases r with e | _ | _
  · exact Ensures.ret (.failed hs (by simp [finishAuth]) (by rintro ⟨⟩))
  · exact Ensures.ret (.failed hs (by simp [finishAuth]) (by rintro ⟨⟩))
  · exact (claimEvent_answered hs hts hparse).mono fun _ _ _ h => h.cons

/-- The adapter of the request's channel reads its time stamp and parses it. -/
def WellFormed (S : Service) (req : Request) (ts : Time) : Prop :=
  ∃ adapter ev, S.find req.channel = some adapter ∧ adapter.secretScope ≠ .unknown ∧
    adapter.extractTimestamp req.headers req.body = .ok ts ∧ adapter.parseEvent req.body = .ok ev

theorem handle_answered (hs : Settled S T req s) (hreq : WellFormed S req ts) :
    Ensures (delivery T) (handle S req) s (Answered S T req ts True s) := by
  obtain ⟨adapter, ev, hfind, hscope, hts, hparse⟩ := hreq
  simp only [handle, hfind, send_bind, pure_eq]
  refine Ensures.ask fun now s₁ he => ?_
  obtain rfl : s₁ = s := he.1
  -- the clock's answer decides whether the delivery is in time
  refine Ensures.mono (Q := Answered S T req ts (S.timestampInWindow ts now = true) s₁) ?_ fun l a s' h =>
    ⟨h.cons.settled, h.replay, fun _ hl => h.cons.stores (hl _ mem_cons_self) hl⟩
  have hlookup : ∀ e : Err, (finishPreAuth (classifyTokenError e) (some e)).outcome ≠ .replay := by
    intro e
    simp only [finishPreAuth, classifyTokenError]
    split_ifs <;> simp
  cases hsc : adapter.secretScope with
  | unknown => exact absurd hsc hscope
  | app =>
    refine Ensures.ask fun r s₂ he => ?_
    obtain rfl : s₂ = s₁ := he.1
    obtain rfl : r = .ok () := he.2
    refine Ensures.ask fun r s₃ he => ?_
    obtain rfl : s₃ = s₂ := he.1
    cases r with
    | error e => exact Ensures.ret (Answered.failed hs (hlookup e) (by rintro ⟨_, ⟨⟩⟩)).cons
    | ok T' =>
    obtain hT | ⟨e, -, hT⟩ := he.2
    · cases hT
      exact (proceedAuthenticated_answered hs hts hparse).mono fun _ _ _ h => h.cons.cons
    · cases hT
  | tenant =>
  refine Ensures.ask fun r s₂ he => ?_
  obtain rfl : s₂ = s₁ := he.1
  cases r with
  | error e => exact Ensures.ret (Answered.failed hs (hlookup e) (by rintro ⟨_, ⟨⟩⟩))
  | ok T' =>
  obtain hT | ⟨e, -, hT⟩ := he.2
  · cases hT
    refine Ensures.ask fun r s₃ he => ?_
    obtain rfl : s₃ = s₂ := he.1
    obtain rfl : r = .ok () := he.2
    exact (proceedAuthenticated_answered hs hts hparse).mono fun _ _ _ h => h.cons.cons
  · cases hT

end Deliver

/-! ## Sequences of deliveries -/

/-- What may happen between two deliveries: other webhooks are received, but the request's key is not claimed and its event is not
removed. -/
structure Meanwhile (S : Service) (T : UUID) (req : Request) (s s' : WebhookDB) : Prop where
  claimed : Claimed S T req s' → Claimed S T req s
  stored : Stored T req s → Stored T req s'

/-- The stores after a sequence of deliveries of one request in which every exchange is in `P`. -/
inductive Deliveries (P : Exchange Req Resp WebhookDB → Prop) (S : Service) (T : UUID) (req : Request) (s : WebhookDB) : WebhookDB → Prop
  | nil : Deliveries P S T req s s
  | deliver {s₁ s₂ : WebhookDB} {l : List (Exchange Req Resp WebhookDB)} {a : Result} (h : Deliveries P S T req s s₁)
      (hr : Runs (delivery T) (handle S req) s₁ l a s₂) (hP : ∀ x ∈ l, P x) : Deliveries P S T req s s₂
  | between {s₁ s₂ : WebhookDB} (h : Deliveries P S T req s s₁) (hm : Meanwhile S T req s₁ s₂) : Deliveries P S T req s s₂

variable {s : WebhookDB}

theorem Deliveries.settled {S : Service} {T : UUID} {req : Request} {ts : Time} {s' : WebhookDB} (h : Deliveries Harmless S T req s s')
    (hreq : WellFormed S req ts) (h0 : ¬ Claimed S T req s) : Settled S T req s' := by
  induction h with
  | nil => exact fun hc => absurd hc h0
  | deliver _ hr hP ih => exact (handle_answered ih hreq _ _ _ hr).settled hP
  | between _ hm ih => exact fun hc => hm.stored (ih (hm.claimed hc))

/-! ## A delivery that fails -/

def echoAdapter : ChannelAdapter := ⟨"echo", .app, fun _ _ => .ok 0, fun _ => .ok ⟨0, "echo", ""⟩, fun _ => none⟩

def echoService : Service := ⟨fun _ => 0, fun c => if c = "echo" then some echoAdapter else none, 300000000000, 60000000000⟩

def ping : Request := ⟨"echo", "secret", [1], []⟩

def emptyDB : WebhookDB := ⟨[], [], .nil, .nil⟩

def claimedDB : WebhookDB := emptyDB.addKey ⟨1, "echo", 0, 0⟩ not_mem_nil

def storedDB : WebhookDB := claimedDB.addEvent (rawEventRow echoService ping 1 0) 5 not_mem_nil

theorem ping_wellFormed : WellFormed echoService ping 0 := ⟨echoAdapter, ⟨0, "echo", ""⟩, rfl, by decide, rfl, rfl⟩

def opening (s : WebhookDB) : List (Exchange Req Resp WebhookDB) :=
  [⟨.clock, (0 : Time), s, s⟩, ⟨.verifyApp "echo" [1] [], .ok (), s, s⟩, ⟨.lookup "echo" (echoService.sha256Sum "secret") 0, .ok 1, s, s⟩]

abbrev claimPing : Client Result := claimEvent echoService echoAdapter ping 1 (echoService.sha256Sum "secret") 0

theorem runs_opening {s' : WebhookDB} {l : List (Exchange Req Resp WebhookDB)} {a : Result} (h : Runs (delivery 1) claimPing s l a s') :
    Runs (delivery 1) (handle echoService ping) s (opening s ++ l) a s' :=
  .ask ⟨rfl, trivial⟩ (.ask ⟨rfl, rfl⟩ (.ask ⟨rfl, .inl rfl⟩ h))

theorem opening_harmless : ∀ x ∈ opening s, Harmless x ∧ Succeeds echoService 0 x := by
  intro x hx
  simp only [opening, mem_cons, not_mem_nil, or_false] at hx
  rcases hx with rfl | rfl | rfl
  · exact ⟨trivial, rfl⟩
  · exact ⟨trivial, trivial⟩
  · exact ⟨trivial, 1, rfl⟩

/-- **A retry stores the event.**  After any sequence of deliveries of an authentic request whose failures are harmless, a delivery in
which nothing fails leaves the event stored, and is accepted unless it was stored before; and a delivery is dropped as a replay only if
the event is stored. -/
theorem retry_stored {S : Service} {T : UUID} {req : Request} {ts : Time} {s₀ s : WebhookDB} (hreq : WellFormed S req ts)
    (h0 : ¬ Claimed S T req s₀) (hd : Deliveries Harmless S T req s₀ s) {l : List (Exchange Req Resp WebhookDB)} {a : Result}
    {s' : WebhookDB} (hr : Runs (delivery T) (handle S req) s l a s') :
    ((∀ x ∈ l, Succeeds S ts x) → Stored T req s' ∧ (¬ Stored T req s → a.outcome = .accepted)) ∧
    (a.outcome = .replay → Stored T req s) := by
  have h := handle_answered (hd.settled hreq h0) hreq l a s' hr
  exact ⟨h.stores trivial, h.replay⟩

/-- The claim loses its connection before it commits; the next delivery is accepted. -/
theorem retry_stored_claim_failed : ∃ l a l' a', Runs (delivery 1) (handle echoService ping) emptyDB l a emptyDB ∧
    a.outcome = .internalError ∧ Runs (delivery 1) (handle echoService ping) emptyDB l' a' storedDB ∧
    Stored 1 ping storedDB ∧ a'.outcome = .accepted := by
  have hfail : Runs (delivery 1) claimPing emptyDB [⟨.checkAndStore 1 "echo" 0 0, .error (.other "connection reset"), emptyDB, emptyDB⟩]
      ⟨.internalError, 1, some (.other "connection reset")⟩ emptyDB := .ask ⟨.down ⟨_, rfl⟩, trivial⟩ (.ret _ _)
  have hok : Runs (delivery 1) claimPing emptyDB [⟨.checkAndStore 1 "echo" 0 0, .ok true, emptyDB, claimedDB⟩,
      ⟨.insert (rawEventRow echoService ping 1 0), .ok 5, claimedDB, storedDB⟩,
      ⟨.markUsed "echo" (echoService.sha256Sum "secret") 0, .ok (), storedDB, storedDB⟩] ⟨.accepted, 1, none⟩ storedDB :=
    .ask ⟨.done rfl, trivial⟩ (.ask ⟨⟨5, .done rfl⟩, trivial⟩ (.ask ⟨rfl, trivial⟩ (.ret _ _)))
  have hd : Deliveries Harmless echoService 1 ping emptyDB emptyDB := by
    refine .deliver .nil (runs_opening hfail) fun x hx => ?_
    rcases mem_append.mp hx with hx | hx
    · exact (opening_harmless x hx).1
    · obtain rfl := mem_singleton.mp hx
      rfl
  obtain ⟨hst, hacc⟩ := (retry_stored ping_wellFormed not_mem_nil hd (runs_opening hok)).1 fun x hx => by
    rcases mem_append.mp hx with hx | hx
    · exact (opening_harmless x hx).2
    simp only [mem_cons, not_mem_nil, or_false] at hx
    rcases hx with rfl | rfl | rfl
    · exact ⟨true, rfl⟩
    · exact ⟨5, rfl⟩
    · trivial
  exact ⟨_, _, _, _, runs_opening hfail, rfl, runs_opening hok, hst, hacc fun ⟨_, he, _⟩ => absurd he not_mem_nil⟩

/-- **A webhook lost.**  The key is claimed, then the insert loses its connection; the next delivery, in which nothing fails, is dropped as
a replay, and there is no event. -/
theorem webhook_lost : ∃ l a l' a', Runs (delivery 1) (handle echoService ping) emptyDB l a claimedDB ∧ a.outcome = .internalError ∧
    Runs (delivery 1) (handle echoService ping) claimedDB l' a' claimedDB ∧ (∀ x ∈ l', Succeeds echoService 0 x) ∧
    a'.outcome = .replay ∧ claimedDB.rawEvents = [] := by
  have hfail : Runs (delivery 1) claimPing emptyDB [⟨.checkAndStore 1 "echo" 0 0, .ok true, emptyDB, claimedDB⟩,
      ⟨.insert (rawEventRow echoService ping 1 0), .error (.other "connection reset"), claimedDB, claimedDB⟩]
      ⟨.internalError, 1, some (.other "connection reset")⟩ claimedDB :=
    .ask ⟨.done rfl, trivial⟩ (.ask ⟨⟨5, .down ⟨_, rfl⟩⟩, trivial⟩ (.ret _ _))
  have hagain : Runs (delivery 1) claimPing claimedDB [⟨.checkAndStore 1 "echo" 0 0, .ok false, claimedDB, claimedDB⟩] ⟨.replay, 1, none⟩
      claimedDB := .ask ⟨.done rfl, trivial⟩ (.ret _ _)
  refine ⟨_, _, _, _, runs_opening hfail, rfl, runs_opening hagain, fun x hx => ?_, rfl, rfl⟩
  rcases mem_append.mp hx with hx | hx
  · exact (opening_harmless x hx).2
  · obtain rfl := mem_singleton.mp hx
    exact ⟨false, rfl⟩

end Crm.Webhook
