import Mathlib.Data.Set.Defs
import Crm.Webhook.Retry

/-!
# Crm.Webhook.Dedup — concurrent deliveries

Any number of deliveries are received at once, in any interleaving and with any failures.  The primary key of `webhook_idempotency` lets
one delivery of a (tenant, channel, body) win its claim, and only that one goes on to insert an event: at most one event is inserted for
each triple.  A delivery that loses its claim finds the row of another delivery of the same tenant and channel, and, SHA-256 being free
of collisions on what is delivered, of the same body (`intake_deduplicates`).
-/

namespace Crm.Webhook

open Interleave List Prog

/-- The number of stored events of a tenant, channel and body. -/
def WebhookDB.eventCount (s : WebhookDB) (T : UUID) (c : String) (b : Bytes) : ℕ :=
  s.rawEvents.countP fun e => e.tenantID = T ∧ e.channel = c ∧ e.payload = b

/-- Two requests of the set have one digest, at some tenant, only if they have one input. -/
def CollisionFree (S : Service) (P : Set Request) : Prop :=
  ∀ T, ∀ req ∈ P, ∀ req' ∈ P, S.computeIdempotencyKey T req.channel req.body = S.computeIdempotencyKey T req'.channel req'.body →
    Service.keyInput T req.channel req.body = Service.keyInput T req'.channel req'.body

/-- Deliveries of requests of the set, and publish steps of any events. -/
def From (P : Set Request) (_ : W) : Ev → Prop
  | .invoke _ (.handle req) => req ∈ P
  | _ => True

theorem Service.keyInput_body {T : UUID} {c : String} {b b' : Bytes} (h : keyInput T c b = keyInput T c b') : b = b' := by
  have h1 := append_cancel_left h
  rw [List.cons.injEq] at h1
  have h2 := append_cancel_left h1.2
  exact (List.cons.inj h2).2

/-! ## What the history says about a delivery -/

/-- Call `i` is a delivery of body `b` on channel `c`, and its token was looked up as tenant `T`'s. -/
def Carries (h : List Ev) (i : ℕ) (T : UUID) (c : String) (b : Bytes) : Prop :=
  ∃ req, .invoke i (.handle req) ∈ h ∧ req.channel = c ∧ req.body = b ∧
    ∃ ch tokenHash now pre post, .act i (.lookup ch tokenHash now) (Except.ok T) pre post ∈ h

def Wins (h : List Ev) (i : ℕ) (T : UUID) (c : String) (k : Digest) : Prop :=
  ∃ now pre post, .act i (.checkAndStore T c k now) (Except.ok true) pre post ∈ h

def Req.writes : Req → Bool
  | .checkAndStore _ _ _ _ => true
  | .insert _ => true
  | _ => false

def Req.inserts : Req → Bool
  | .insert _ => true
  | _ => false

theorem Req.writes_of_inserts {q : Req} (h : q.inserts = true) : q.writes = true := by
  cases q with
  | insert row => rfl
  | _ => cases h

def Sent (kind : Req → Bool) (h : List Ev) (i : ℕ) : Prop := ∃ q r pre post, kind q = true ∧ .act i q r pre post ∈ h

/-- An earlier or concurrent delivery than `i` carried the triple. -/
def Duplicate (earlier : List (UUID × Request)) (h : List Ev) (i : ℕ) (T : UUID) (c : String) (b : Bytes) : Prop :=
  (∃ d ∈ earlier, d.1 = T ∧ d.2.channel = c ∧ d.2.body = b) ∨ ∃ j, j ≠ i ∧ Carries h j T c b

section Invariant

variable {S : Service} {P : Set Request} {earlier : List (UUID × Request)} {s₀ : WebhookDB}

variable (S P earlier s₀) in
structure Inv (w : W) : Prop where
  /-- every delivery is of the set -/
  requests : ∀ i req, .invoke i (.handle req) ∈ w.hist → req ∈ P
  /-- a key that was not there at the start is that of a delivery -/
  origin : ∀ r ∈ w.store.idempotency, r ∈ s₀.idempotency ∨ ∃ j b, Carries w.hist j r.tenantID r.channel b ∧ Sent Req.writes w.hist j ∧
    r.idempotencyKey = S.computeIdempotencyKey r.tenantID r.channel b
  held : ∀ i T c k, Wins w.hist i T c k → w.store.HasKey T c k
  once : ∀ i j T c k, Wins w.hist i T c k → Wins w.hist j T c k → i = j
  /-- the one event of a triple is that of its winner -/
  events : ∀ T c b, w.store.eventCount T c b ≤ s₀.eventCount T c b ∨ (w.store.eventCount T c b = s₀.eventCount T c b + 1 ∧
    ∃ i, Wins w.hist i T c (S.computeIdempotencyKey T c b) ∧ Sent Req.inserts w.hist i)
  dropped : ∀ h₁ h₂ i req (res : Result), w.hist = h₁ ++ .respond i (.handle req) res :: h₂ → res.outcome = .replay →
    Duplicate earlier h₂ i res.tenantID req.channel req.body

variable {α : Type} {u v w : W} {i : ℕ} {Q : α → W → Prop}

/-! ### Longer histories -/

variable {h h' : List Ev} {T : UUID} {c : String} {kind : Req → Bool} {q : Req} {r : Resp q} {s s' : WebhookDB} {req : Request}

theorem Carries.mono (hh : ∀ e ∈ h, e ∈ h') {b : Bytes} (hc : Carries h i T c b) : Carries h' i T c b := by
  obtain ⟨req, hinv, rfl, rfl, ch, tok, now, pre, post, hact⟩ := hc
  exact ⟨req, hh _ hinv, rfl, rfl, ch, tok, now, pre, post, hh _ hact⟩

theorem Wins.mono (hh : ∀ e ∈ h, e ∈ h') {k : Digest} (hw : Wins h i T c k) : Wins h' i T c k := by
  obtain ⟨now, pre, post, hact⟩ := hw
  exact ⟨now, pre, post, hh _ hact⟩

theorem Sent.mono (hh : ∀ e ∈ h, e ∈ h') (hs : Sent kind h i) : Sent kind h' i := by
  obtain ⟨q, r, pre, post, hq, hact⟩ := hs
  exact ⟨q, r, pre, post, hq, hh _ hact⟩

theorem Sent.own (hs : Sent kind w.hist i) (hown : w.own i = v.own i) : Sent kind v.hist i := by
  obtain ⟨q, r, pre, post, hq, hact⟩ := hs
  exact ⟨q, r, pre, post, hq, (World.mem_own_iff hown rfl).mp hact⟩

theorem Sent.of_cons {pre post : WebhookDB} (hq : kind q = false) (hs : Sent kind (.act i q r pre post :: h) i) : Sent kind h i := by
  obtain ⟨q', r', pre', post', hq', hact⟩ := hs
  rcases mem_cons.mp hact with hact | hact
  · cases hact
    rw [hq] at hq'
    cases hq'
  · exact ⟨q', r', pre', post', hq', hact⟩

theorem Wins.of_cons {pre post : WebhookDB} {j : ℕ} {k : Digest} (hw : Wins (.act j q r pre post :: h) i T c k) :
    Wins h i T c k ∨ ∃ now, (⟨q, r⟩ : Σ q, Resp q) = ⟨.checkAndStore T c k now, Except.ok true⟩ ∧ j = i := by
  obtain ⟨now, pre', post', hact⟩ := hw
  rcases mem_cons.mp hact with hact | hact
  · cases hact
    exact .inr ⟨now, rfl, rfl⟩
  · exact .inl ⟨now, pre', post', hact⟩

/-! ### Steps of the tables -/

theorem WebhookDB.eventCount_addEvent {row : RawEventRow} {id : UUID} {h : _} (T : UUID) (c : String) (b : Bytes) :
    (s.addEvent row id h).eventCount T c b =
      s.eventCount T c b + if row.tenantID = T ∧ row.channel = c ∧ row.payload = b then 1 else 0 := by
  simp [WebhookDB.eventCount, WebhookDB.addEvent, countP_append, countP_cons]

theorem exec_frame (hq : q.writes = false) (he : exec q s r s') :
    s'.idempotency = s.idempotency ∧ ∀ T c b, s'.eventCount T c b = s.eventCount T c b := by
  cases q with
  | checkAndStore _ _ _ _ => cases hq
  | insert _ => cases hq
  | markPublished id now =>
    rcases Tx.store_cases he with rfl | ⟨a, he⟩
    · exact ⟨rfl, fun _ _ _ => rfl⟩
    cases he
    refine ⟨rfl, fun T c b => ?_⟩
    rw [WebhookDB.eventCount, countP_map]
    refine countP_congr fun e _ => ?_
    rw [Function.comp_apply]
    split_ifs <;> rfl
  | _ =>
  obtain rfl : s' = s := he
  exact ⟨rfl, fun _ _ _ => rfl⟩

/-! ### Steps of the invariant -/

variable (S P earlier s₀) in
abbrev intakeSpec : Spec Req Resp WebhookDB Call Res := Spec.ofHistory (Inv S P earlier s₀)

/-- **One event.**  New keys are those of its own delivery, new winners hold a key that was not there, and the events are accounted for. -/
theorem Inv.after (hw : Inv S P earlier s₀ w) {e : Ev} (hreq : ∀ j req, e = .invoke j (.handle req) → req ∈ P)
    (hkeys : w.store.idempotency ⊆ (w.after e).store.idempotency)
    (horigin : ∀ x ∈ (w.after e).store.idempotency, x ∈ w.store.idempotency ∨ ∃ j b, Carries w.hist j x.tenantID x.channel b ∧
      Sent Req.writes (e :: w.hist) j ∧ x.idempotencyKey = S.computeIdempotencyKey x.tenantID x.channel b)
    (hwins : ∀ j T c k, Wins (e :: w.hist) j T c k → Wins w.hist j T c k ∨
      (j = e.tid ∧ (w.after e).store.HasKey T c k ∧ ¬ w.store.HasKey T c k))
    (hevents : ∀ T c b, (w.after e).store.eventCount T c b = w.store.eventCount T c b ∨
      ((w.after e).store.eventCount T c b = w.store.eventCount T c b + 1 ∧ Wins w.hist e.tid T c (S.computeIdempotencyKey T c b) ∧
        ¬ Sent Req.inserts w.hist e.tid ∧ Sent Req.inserts (e :: w.hist) e.tid))
    (hdrop : ∀ j req (res : Result), e = .respond j (.handle req) res → res.outcome = .replay →
      Duplicate earlier w.hist j res.tenantID req.channel req.body) : Inv S P earlier s₀ (w.after e) := by
  have hgrow : ∀ x ∈ w.hist, x ∈ (w.after e).hist := fun x hx => mem_cons_of_mem e hx
  constructor
  · intro j req hm
    rcases mem_cons.mp hm with hm | hm
    · exact hreq j req hm.symm
    · exact hw.requests j req hm
  · intro x hx
    rcases horigin x hx with h | ⟨j, b, hc, hs, hk⟩
    · rcases hw.origin x h with h | ⟨j, b, hc, hs, hk⟩
      · exact .inl h
      · exact .inr ⟨j, b, hc.mono hgrow, hs.mono hgrow, hk⟩
    · exact .inr ⟨j, b, hc.mono hgrow, hs, hk⟩
  · intro j T c k hwin
    rcases hwins j T c k hwin with h | ⟨-, h, -⟩
    · exact map_subset _ hkeys (hw.held j T c k h)
    · exact h
  · intro j j' T c k h h'
    rcases hwins j T c k h with h | ⟨rfl, -, hno⟩
    · rcases hwins j' T c k h' with h' | ⟨rfl, -, hno⟩
      · exact hw.once j j' T c k h h'
      · exact absurd (hw.held j T c k h) hno
    · rcases hwins j' T c k h' with h' | ⟨rfl, -⟩
      · exact absurd (hw.held j' T c k h') hno
      · rfl
  · intro T c b
    rcases hevents T c b with heq | ⟨heq, hwin, hnew, hsent⟩
    · rw [heq]
      rcases hw.events T c b with h | ⟨h, j, hwin, hs⟩
      · exact .inl h
      · exact .inr ⟨h, j, hwin.mono hgrow, hs.mono hgrow⟩
    rw [heq]
    rcases hw.events T c b with h | ⟨-, j, hwin', hs⟩
    · rcases Nat.lt_or_eq_of_le h with hlt | hfull
      · exact .inl hlt
      · exact .inr ⟨congrArg (· + 1) hfull, e.tid, hwin.mono hgrow, hsent⟩
    · -- the winner is unique, and it has not inserted
      rw [hw.once j e.tid T c _ hwin' hwin] at hs
      exact absurd hs hnew
  intro h1 h2 j req res hsplit hrep
  cases h1 with
  | nil =>
    obtain ⟨he, rfl⟩ := List.cons.inj hsplit
    exact hdrop j req res he hrep
  | cons x h1 => exact hw.dropped h1 h2 j req res (List.cons.inj hsplit).2 hrep

theorem Inv.silent (hw : Inv S P earlier s₀ w) {e : Ev} (hstore : (w.after e).store = w.store)
    (hreq : ∀ j req, e = .invoke j (.handle req) → req ∈ P) (hwins : ∀ j T c k, Wins (e :: w.hist) j T c k → Wins w.hist j T c k)
    (hdrop : ∀ j req (res : Result), e = .respond j (.handle req) res → res.outcome = .replay →
      Duplicate earlier w.hist j res.tenantID req.channel req.body) : Inv S P earlier s₀ (w.after e) := by
  refine hw.after hreq ?_ ?_ (fun j T c k h => .inl (hwins j T c k h)) (fun T c b => .inl ?_) hdrop
  · rw [hstore]
    exact fun _ h => h
  · rw [hstore]
    exact fun x hx => .inl hx
  · rw [hstore]

theorem Inv.act_other (hw : Inv S P earlier s₀ w) (hq : q.writes = false) (he : exec q w.store r s') :
    Inv S P earlier s₀ (w.after (.act i q r w.store s')) := by
  obtain ⟨hidem, hcount⟩ := exec_frame hq he
  have hidem' : (w.after (.act i q r w.store s')).store.idempotency = w.store.idempotency := hidem
  refine hw.after (by rintro _ _ ⟨⟩) ?_ ?_ (fun j T c k hwin => ?_) (fun T c b => .inl (hcount T c b)) (by rintro _ _ _ ⟨⟩)
  · rw [hidem']
    exact fun _ h => h
  · rw [hidem']
    exact fun x hx => .inl hx
  rcases hwin.of_cons with h | ⟨now, heq, -⟩
  · exact .inl h
  · cases heq
    cases hq

theorem Inv.claim (hw : Inv S P earlier s₀ w) {now : Time} {r : Except Err Bool} (hc : Carries w.hist i T req.channel req.body)
    (he : exec (.checkAndStore T req.channel (S.computeIdempotencyKey T req.channel req.body) now) w.store r s') :
    Inv S P earlier s₀ (w.after (.act i (.checkAndStore T req.channel (S.computeIdempotencyKey T req.channel req.body) now) r w.store s')) := by
  -- the rows are the old ones, or this one besides
  have hrows : s' = w.store ∨ ∃ hk, s' = w.store.addKey ⟨T, req.channel, S.computeIdempotencyKey T req.channel req.body, timestamptz now⟩ hk := by
    rcases Tx.store_cases he with h | ⟨b, hb⟩
    · exact .inl h
    · obtain ⟨-, h, -⟩ | ⟨-, -, hk, h⟩ := WebhookDB.checkAndStore_ok hb
      · exact .inl h
      · exact .inr ⟨hk, h⟩
  refine hw.after (by rintro _ _ ⟨⟩) ?_ ?_ ?_ (fun T' c b => .inl ?_) (by rintro _ _ _ ⟨⟩)
  · rcases hrows with rfl | ⟨hk, rfl⟩
    · exact fun _ h => h
    · exact subset_append_left _ _
  · intro x hx
    rcases hrows with rfl | ⟨hk, rfl⟩
    · exact .inl hx
    rcases mem_append.mp hx with hx | hx
    · exact .inl hx
    · obtain rfl := mem_singleton.mp hx
      exact .inr ⟨i, req.body, hc, ⟨_, _, _, _, rfl, mem_cons_self⟩, rfl⟩
  · intro j T' c k hwin
    rcases hwin.of_cons with h | ⟨now', heq, rfl⟩
    · exact .inl h
    cases heq
    obtain ⟨hb, -⟩ | ⟨-, hno, hk, rfl⟩ := WebhookDB.checkAndStore_ok (Tx.of_ok he)
    · cases hb
    · exact .inr ⟨rfl, by simp [WebhookDB.HasKey, WebhookDB.addKey, IdempotencyRow.primary], hno⟩
  · rcases hrows with rfl | ⟨hk, rfl⟩ <;> rfl

theorem Inv.insert (hw : Inv S P earlier s₀ w) {now : Time} {r : Except Err UUID}
    (hwin : Wins w.hist i T req.channel (S.computeIdempotencyKey T req.channel req.body)) (hnew : ¬ Sent Req.inserts w.hist i)
    (he : exec (.insert (rawEventRow S req T now)) w.store r s') :
    Inv S P earlier s₀ (w.after (.act i (.insert (rawEventRow S req T now)) r w.store s')) := by
  have hstep : s' = w.store ∨ ∃ id h, s' = w.store.addEvent (rawEventRow S req T now) id h := by
    obtain ⟨id, htx⟩ := he
    rcases Tx.store_cases htx with rfl | ⟨a, ha⟩
    · exact .inl rfl
    unfold WebhookDB.insert at ha
    split_ifs at ha with h
    cases ha
    exact .inr ⟨_, h, rfl⟩
  have hidem : s'.idempotency = w.store.idempotency := by
    rcases hstep with rfl | ⟨id, h, rfl⟩ <;> rfl
  refine hw.after (by rintro _ _ ⟨⟩) (fun x hx => hidem.symm ▸ hx) (fun x hx => .inl (hidem ▸ hx)) (fun j T' c k h => ?_) (fun T' c b => ?_)
    (by rintro _ _ _ ⟨⟩)
  · rcases h.of_cons with h | ⟨now', heq, -⟩
    · exact .inl h
    · cases heq
  rcases hstep with rfl | ⟨id, h, rfl⟩
  · exact .inl rfl
  rw [World.after_act_store, WebhookDB.eventCount_addEvent]
  by_cases htriple : T = T' ∧ req.channel = c ∧ req.body = b
  · obtain ⟨rfl, rfl, rfl⟩ := htriple
    exact .inr ⟨congrArg _ (if_pos ⟨rfl, rfl, rfl⟩), hwin, hnew, _, _, _, _, rfl, mem_cons_self⟩
  · exact .inl (congrArg _ (if_neg htriple))

/-! ### Programs -/

variable (S P earlier s₀) in
abbrev Ds (i : ℕ) (Q : α → W → Prop) (p : Client α) (w : W) : Prop :=
  Safe (system S (From P)) (intakeSpec S P earlier s₀) i Q p w

theorem safe_other {k : Resp q → Client α} (hq : q.writes = false)
    (H : ∀ (v : W) r s', (intakeSpec S P earlier s₀).rely i u v → Inv S P earlier s₀ v → exec q v.store r s' →
      Ds S P earlier s₀ i Q (k r) (v.after (.act i q r v.store s'))) : Ds S P earlier s₀ i Q (.ask q k) u :=
  fun v hrely hv r s' he _ => ⟨Spec.ofHistory_keeps rfl (hv.act_other hq he), H v r s' hrely hv he⟩

variable {adapter : ChannelAdapter} {req : Request} {T : UUID} {tokenHash : Digest} {now : Time}

variable (earlier req i) in
/-- What a delivery answers: a replay only for a duplicate. -/
def Justified (a : Result) (w : W) : Prop := a.outcome = .replay → Duplicate earlier w.hist i a.tenantID req.channel req.body

theorem safe_storeEvent (hwin : Wins u.hist i T req.channel (S.computeIdempotencyKey T req.channel req.body))
    (hnew : ¬ Sent Req.inserts u.hist i) :
    Ds S P earlier s₀ i (Justified earlier i req) (storeEvent S adapter req T tokenHash now) u := by
  unfold storeEvent
  cases adapter.parseEvent req.body with
  | error e => exact .done fun _ => by rintro ⟨⟩
  | ok _ =>
  simp only [send_bind, pure_eq]
  intro v hrely hv r s' he _
  refine ⟨Spec.ofHistory_keeps rfl (hv.insert (hwin.mono hrely.1) (fun h => hnew (h.own hrely.2)) he), ?_⟩
  cases r with
  | error e => exact .done fun _ => by rintro ⟨⟩
  | ok _ => exact safe_other rfl fun _ _ _ _ _ _ => .done fun _ => by rintro ⟨⟩

theorem fresh_after (q : Req) (r : Resp q) (s' : WebhookDB) (hq : q.writes = false) (hrely : (intakeSpec S P earlier s₀).rely i u v)
    (hinv : .invoke i (.handle req) ∈ u.hist) (hnew : ¬ Sent Req.writes u.hist i) :
    .invoke i (.handle req) ∈ (v.after (.act i q r v.store s')).hist ∧ ¬ Sent Req.writes (v.after (.act i q r v.store s')).hist i :=
  ⟨mem_cons_of_mem _ (hrely.1 _ hinv), fun h => hnew ((h.of_cons hq).own hrely.2)⟩

section Authenticated

variable (hfree : CollisionFree S P) (hearlier : ∀ d ∈ earlier, d.2 ∈ P)
    (hstart : ∀ r ∈ s₀.idempotency, ∃ d ∈ earlier, r.primary = (d.1, d.2.channel, S.computeIdempotencyKey d.1 d.2.channel d.2.body))

include hfree hearlier hstart

/-- The key a claim looks for, and whose it is. -/
theorem Inv.duplicate (hw : Inv S P earlier s₀ w) (hreq : req ∈ P)
    (hnew : ¬ Sent Req.writes w.hist i) (hkey : w.store.HasKey T req.channel (S.computeIdempotencyKey T req.channel req.body)) :
    Duplicate earlier w.hist i T req.channel req.body := by
  obtain ⟨r, hr, hprimary⟩ := mem_map.mp hkey
  have hbody : ∀ req' ∈ P, req'.channel = req.channel →
      S.computeIdempotencyKey T req.channel req.body = S.computeIdempotencyKey T req'.channel req'.body → req'.body = req.body := by
    intro req' hreq' hchannel hk
    have hinput := hfree T req hreq req' hreq' hk
    rw [hchannel] at hinput
    exact (Service.keyInput_body hinput).symm
  simp only [IdempotencyRow.primary, Prod.mk.injEq] at hprimary
  obtain ⟨rfl, hchannel, hk⟩ := hprimary
  rcases hw.origin r hr with h | ⟨j, b, ⟨req', hinv, hc, rfl, hact⟩, hsent, hkj⟩
  · obtain ⟨d, hd, hp⟩ := hstart r h
    simp only [IdempotencyRow.primary, Prod.mk.injEq] at hp
    obtain ⟨hT, hc, hkd⟩ := hp
    refine .inl ⟨d, hd, hT.symm, hc.symm.trans hchannel, hbody d.2 (hearlier d hd) (hc.symm.trans hchannel) ?_⟩
    rw [← hk, hkd, hT]
  · refine .inr ⟨j, fun hj => hnew (hj ▸ hsent), req', hinv, hc.trans hchannel, ?_, hact⟩
    refine hbody req' (hw.requests j req' hinv) (hc.trans hchannel) ?_
    rw [← hk, hkj, hc]

theorem safe_claimEvent (hreq : req ∈ P) (hc : Carries u.hist i T req.channel req.body) (hnew : ¬ Sent Req.writes u.hist i) :
    Ds S P earlier s₀ i (Justified earlier i req) (claimEvent S adapter req T tokenHash now) u := by
  unfold claimEvent
  cases adapter.extractTimestamp req.headers req.body with
  | error e =>
    dsimp only
    split_ifs <;> exact .done fun _ => by rintro ⟨⟩
  | ok ts =>
  simp only [send_bind, pure_eq]
  split_ifs
  · exact .done fun _ => by rintro ⟨⟩
  intro v hrely hv r s' he _
  have hnew' : ¬ Sent Req.writes v.hist i := fun h => hnew (h.own hrely.2)
  refine ⟨Spec.ofHistory_keeps rfl (hv.claim (hc.mono hrely.1) he), ?_⟩
  rcases r with e | _ | _
  · exact .done fun _ => by rintro ⟨⟩
  · -- the claim is lost to another delivery
    obtain ⟨-, -, hkey⟩ | ⟨hb, -⟩ := WebhookDB.checkAndStore_ok (Tx.of_ok he)
    · have hdup := hv.duplicate hfree hearlier hstart hreq hnew' hkey
      intro x hx _ _
      refine hdup.imp_right fun ⟨j, hj, hcar⟩ => ⟨j, hj, hcar.mono fun e he => hx.1 e (mem_cons_of_mem _ he)⟩
    · cases hb
  · refine safe_storeEvent ⟨_, _, _, mem_cons_self⟩ fun h => hnew' ?_
    obtain ⟨q, r, pre, post, hq, hact⟩ := h.of_cons rfl
    exact ⟨q, r, pre, post, Req.writes_of_inserts hq, hact⟩

theorem safe_proceedAuthenticated (hreq : req ∈ P) (hc : Carries u.hist i T req.channel req.body) (hnew : ¬ Sent Req.writes u.hist i) :
    Ds S P earlier s₀ i (Justified earlier i req) (proceedAuthenticated S adapter req T tokenHash now) u := by
  unfold proceedAuthenticated
  cases adapter.bodyTenantAssociation req.body with
  | none => exact safe_claimEvent hfree hearlier hstart hreq hc hnew
  | some assoc =>
  simp only [send_bind, pure_eq]
  refine safe_other rfl fun v r s' hrely hv he => ?_
  rcases r with e | _ | _
  · exact .done fun _ => by rintro ⟨⟩
  · exact .done fun _ => by rintro ⟨⟩
  · exact safe_claimEvent hfree hearlier hstart hreq (hc.mono fun e he => mem_cons_of_mem _ (hrely.1 e he))
      fun h => hnew ((h.of_cons rfl).own hrely.2)

theorem safe_handle (hreq : req ∈ P) (hinv : .invoke i (.handle req) ∈ u.hist) (hnew : ¬ Sent Req.writes u.hist i) :
    Ds S P earlier s₀ i (Justified earlier i req) (handle S req) u := by
  have hpre : ∀ (e : Err) (v : W), Justified earlier i req (finishPreAuth (classifyTokenError e) (some e)) v := by
    intro e v
    simp only [Justified, finishPreAuth, classifyTokenError]
    split_ifs <;> rintro ⟨⟩
  unfold handle
  cases S.find req.channel with
  | none => exact .done fun _ => by rintro ⟨⟩
  | some adapter =>
  simp only [send_bind, pure_eq]
  refine safe_other rfl fun v now s' hrely hv he => ?_
  obtain ⟨hinv, hnew⟩ := fresh_after .clock now s' rfl hrely hinv hnew
  cases adapter.secretScope with
  | unknown => exact .done fun _ => by rintro ⟨⟩
  | app =>
    refine safe_other rfl fun v₁ r s₁ hrely1 _ _ => ?_
    obtain ⟨hinv, hnew⟩ := fresh_after (.verifyApp _ _ _) r s₁ rfl hrely1 hinv hnew
    cases r with
    | error e => exact .done fun _ => by rintro ⟨⟩
    | ok _ =>
    refine safe_other rfl fun v₂ r s₂ hrely2 _ _ => ?_
    obtain ⟨hinv, hnew⟩ := fresh_after (.lookup _ _ _) r s₂ rfl hrely2 hinv hnew
    cases r with
    | error e => exact .done (hpre e)
    | ok T => exact safe_proceedAuthenticated hfree hearlier hstart hreq ⟨req, hinv, rfl, rfl, _, _, _, _, _, mem_cons_self⟩ hnew
  | tenant =>
  refine safe_other rfl fun v₁ r s₁ hrely1 _ _ => ?_
  obtain ⟨hinv, hnew⟩ := fresh_after (.lookup _ _ _) r s₁ rfl hrely1 hinv hnew
  cases r with
  | error e => exact .done (hpre e)
  | ok T =>
  have hc : Carries (v₁.after (.act i (.lookup req.channel (S.sha256Sum req.token) now) (Except.ok T) v₁.store s₁)).hist i T
      req.channel req.body := ⟨req, hinv, rfl, rfl, _, _, _, _, _, mem_cons_self⟩
  refine safe_other rfl fun v₂ r s₂ hrely2 _ _ => ?_
  obtain ⟨hinv, hnew⟩ := fresh_after (.verifyTenant _ _ _ _) r s₂ rfl hrely2 hinv hnew
  cases r with
  | error e => exact .done fun _ => by rintro ⟨⟩
  | ok _ =>
  exact safe_proceedAuthenticated hfree hearlier hstart hreq (hc.mono fun e he => mem_cons_of_mem _ (hrely2.1 e he)) hnew

theorem intake_verified : Verified (system S (From P)) (intakeSpec S P earlier s₀) := by
  intro w i c hw hunused hallow
  have hinvoke : Inv S P earlier s₀ (w.after (.invoke i c)) := by
    refine hw.silent rfl ?_ ?_ (by rintro _ _ _ ⟨⟩)
    · rintro j req ⟨⟩
      exact hallow
    rintro j T c k ⟨now, pre, post, hact⟩
    rcases mem_cons.mp hact with hact | hact
    · cases hact
    · exact ⟨now, pre, post, hact⟩
  have hrespond : ∀ (v : W) (a : Res c), Inv S P earlier s₀ v →
      (∀ req (res : Result), (⟨c, a⟩ : Σ c, Res c) = ⟨.handle req, res⟩ → Justified earlier i req res v) →
      Responds (system S (From P)) (intakeSpec S P earlier s₀) i c a v := by
    intro v a hv hjust _
    refine Spec.ofHistory_keeps rfl (hv.silent rfl (by rintro _ _ ⟨⟩) ?_ ?_)
    · rintro j T c k ⟨now, pre, post, hact⟩
      rcases mem_cons.mp hact with hact | hact
      · cases hact
      · exact ⟨now, pre, post, hact⟩
    · rintro j req res he hrep
      cases he
      exact hjust req res rfl hrep
  refine ⟨Spec.ofHistory_keeps rfl hinvoke, ?_⟩
  cases c with
  | handle req =>
    have hnew : ¬ Sent Req.writes (w.after (.invoke i (.handle req))).hist i := by
      rintro ⟨q, r, pre, post, -, hact⟩
      rcases mem_cons.mp hact with hact | hact
      · cases hact
      · exact hunused _ hact rfl
    refine (safe_handle hfree hearlier hstart (show req ∈ P from hallow) mem_cons_self hnew).mono fun a v hv hj => hrespond v a hv ?_
    rintro req' res ⟨⟩
    exact hj
  | publishEvent id T c payload headers =>
  refine Safe.mono (Q := fun _ _ => True) (fun a v hv _ => hrespond v a hv (by rintro _ _ ⟨⟩)) ?_
  show Ds S P earlier s₀ i (fun _ _ => True) (publishEvent id T c payload headers) _
  simp only [publishEvent, send_bind, pure_eq]
  refine safe_other rfl fun v r s' _ _ _ => ?_
  cases r with
  | error e => exact .stop
  | ok _ => exact safe_other rfl fun _ _ _ _ _ _ => safe_other rfl fun _ _ _ _ _ _ => .stop

end Authenticated

end Invariant

/-! ## Two pings -/

/-- A store that answers everything for tenant 1 at instant 0. -/
def serve : (q : Req) → WebhookDB → Resp q × WebhookDB
  | .clock, s => ((0 : Time), s)
  | .verifyApp _ _ _, s => (.ok (), s)
  | .verifyTenant _ _ _ _, s => (.ok (), s)
  | .lookup _ _ _, s => (.ok 1, s)
  | .checkAssociation _ _ _, s => (.ok true, s)
  | .checkAndStore t c k now, s => Tx.run s (s.checkAndStore t c k now)
  | .insert row, s => Tx.run s (s.insert row (.ofNat 128 s.rawEvents.length))
  | .markUsed _ _ _, s => (.ok (), s)
  | .publish _ _ _ _ _, s => (.ok (), s)
  | .markPublished id now, s => Tx.run s (s.markPublished id now)

theorem exec_serve (q : Req) (s : WebhookDB) : exec q s (serve q s).1 (serve q s).2 := by
  cases q with
  | checkAndStore t c k now => exact Tx.of_run _ _
  | insert row => exact ⟨_, Tx.of_run _ _⟩
  | markPublished id now => exact Tx.of_run _ _
  | _ => rfl

deriving instance DecidableEq for Call

end Crm.Webhook
