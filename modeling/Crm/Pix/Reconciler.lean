import Mathlib.Data.List.Nodup
import Crm.Lib.Interleave
import Crm.Pix.Domain

/-!
# Crm.Pix.Reconciler — the webhook reconciler over its two tables

`pix_charges` and `webhook_events` with the statements of `internal/adapter/db/postgres/pix`, and `reconciler.Apply` of
`internal/billing/pix/reconciler.go` as a client of them.  The tables carry their constraints, so every statement has to keep them.  `Record`,
`GetByExternalID`, `Save` and `Forget` are transactions of their own, and each may fail with any error, before its commit or after it.
-/

namespace Crm.Pix

open Interleave List

/-! ## Tables -/

/-- `pix_charges` with its primary key, its partial unique index and its check. -/
structure ChargeTable where
  rows : List PIXCharge
  ids : (rows.map PIXCharge.id).Nodup
  externalIDs : ∀ r ∈ rows, ∀ r' ∈ rows, r.externalID ≠ "" → r.externalID = r'.externalID → r.id = r'.id
  consistent : ∀ r ∈ rows, r.Consistent

structure WebhookEventRow where
  source : String
  externalID : String
  eventType : WebhookEventType
  payload : String
  receivedAt : Time
  deriving DecidableEq, Repr

def WebhookEventRow.key (r : WebhookEventRow) : String × String × WebhookEventType := (r.source, r.externalID, r.eventType)

structure EventTable where
  rows : List WebhookEventRow
  keys : (rows.map WebhookEventRow.key).Nodup

structure PixDB where
  charges : ChargeTable
  events : EventTable

namespace ChargeTable

/-- The columns an upsert of `c` writes over the row with its id. -/
def overwrite (c r : PIXCharge) : PIXCharge :=
  { r with externalID := c.externalID, status := c.status, paidAt := c.paidAt.map timestamptz,
           updatedAt := timestamptz c.updatedAt }

/-- The row an upsert of `c` inserts when there is none with its id. -/
def inserted (c : PIXCharge) : PIXCharge :=
  { c with paidAt := c.paidAt.map timestamptz, expiresAt := timestamptz c.expiresAt, createdAt := timestamptz c.createdAt,
           updatedAt := timestamptz c.updatedAt }

def Taken (t : ChargeTable) (c : PIXCharge) : Prop := ∃ r ∈ t.rows, r.id ≠ c.id ∧ c.externalID ≠ "" ∧ r.externalID = c.externalID

instance (t : ChargeTable) (c : PIXCharge) : Decidable (t.Taken c) := inferInstanceAs (Decidable (∃ r ∈ t.rows, _))

variable {c : PIXCharge} {t t' : ChargeTable}

theorem consistent_stored {r : PIXCharge} (hc : c.Consistent) (hs : r.status = c.status) (hp : r.paidAt = c.paidAt.map timestamptz) :
    r.Consistent := by
  unfold PIXCharge.Consistent at *
  rw [hs, hp, hc]
  simp

/-- `ON CONFLICT (id) DO UPDATE`. -/
def update (t : ChargeTable) (c : PIXCharge) (hc : c.Consistent) (hx : ¬ t.Taken c) : ChargeTable where
  rows := t.rows.map fun r => if r.id = c.id then overwrite c r else r
  ids := by
    have hid : (PIXCharge.id ∘ fun r => if r.id = c.id then overwrite c r else r) = PIXCharge.id := by
      funext r
      simp only [Function.comp_apply]
      split_ifs <;> rfl
    rw [map_map, hid]
    exact t.ids
  externalIDs := by
    have hx' : ∀ r ∈ t.rows, r.id ≠ c.id → c.externalID ≠ "" → r.externalID ≠ c.externalID :=
      fun r hr hne hn he => hx ⟨r, hr, hne, hn, he⟩
    intro r hr r' hr' hne heq
    obtain ⟨a, ha, rfl⟩ := mem_map.mp hr
    obtain ⟨b, hb, rfl⟩ := mem_map.mp hr'
    -- two updated rows have the id of `c`; an updated and another row differ in the external id
    by_cases hac : a.id = c.id <;> by_cases hbc : b.id = c.id
    · simp only [hac, hbc, if_true]
      exact hac.trans hbc.symm
    · simp only [hac, hbc, if_true, if_false] at hne heq
      exact absurd heq.symm (hx' b hb hbc hne)
    · simp only [hac, hbc, if_true, if_false] at hne heq
      exact absurd heq (hx' a ha hac (heq ▸ hne))
    · simp only [hac, hbc, if_false] at hne heq ⊢
      exact t.externalIDs a ha b hb hne heq
  consistent := by
    intro r hr
    obtain ⟨a, ha, rfl⟩ := mem_map.mp hr
    split_ifs
    · exact consistent_stored hc rfl rfl
    · exact t.consistent a ha

def insert (t : ChargeTable) (c : PIXCharge) (hc : c.Consistent) (hx : ¬ t.Taken c) (hid : ∀ r ∈ t.rows, r.id ≠ c.id) :
    ChargeTable where
  rows := t.rows ++ [inserted c]
  ids := by
    rw [map_append, map_singleton, ← concat_eq_append, nodup_concat]
    refine ⟨fun hm => ?_, t.ids⟩
    obtain ⟨r, hr, he⟩ := mem_map.mp hm
    exact hid r hr he
  externalIDs := by
    have hx' : ∀ r ∈ t.rows, c.externalID ≠ "" → r.externalID ≠ c.externalID :=
      fun r hr hn he => hx ⟨r, hr, hid r hr, hn, he⟩
    intro r hr r' hr' hne heq
    rcases mem_append.mp hr with hr | hr <;> rcases mem_append.mp hr' with hr' | hr'
    · exact t.externalIDs r hr r' hr' hne heq
    · rw [mem_singleton] at hr'
      subst hr'
      exact absurd heq (hx' r hr (heq ▸ hne))
    · rw [mem_singleton] at hr
      subst hr
      exact absurd heq.symm (hx' r' hr' hne)
    · rw [mem_singleton.mp hr, mem_singleton.mp hr']
  consistent := by
    intro r hr
    rcases mem_append.mp hr with hr | hr
    · exact t.consistent r hr
    · rw [mem_singleton.mp hr]
      exact consistent_stored hc rfl rfl

/-- `Save`: the check comes first, then the primary key decides, then the unique index. -/
def save (c : PIXCharge) (t : ChargeTable) : Except Err ChargeTable :=
  if hc : c.Consistent then
    if hx : t.Taken c then .error .pixExternalIDAlreadySet
    else if hid : ∀ r ∈ t.rows, r.id ≠ c.id then .ok (t.insert c hc hx hid)
    else .ok (t.update c hc hx)
  else .error .pixInvalidTransition

def getByExternalID (externalID : String) (t : ChargeTable) : Except Err PIXCharge :=
  if externalID = "" then .error .pixNotFound
  else match t.rows.find? fun r => r.externalID = externalID with
    | some r => .ok r
    | none => .error .pixNotFound

def find (id : UUID) (t : ChargeTable) : Option PIXCharge := t.rows.find? fun r => r.id = id

theorem find_of_mem {r : PIXCharge} (h : r ∈ t.rows) : t.find r.id = some r := by
  obtain ⟨x, hx⟩ : ∃ x, t.find r.id = some x := by
    rw [← Option.isSome_iff_exists]
    exact find?_isSome.mpr ⟨r, h, decide_eq_true rfl⟩
  have hid : x.id = r.id := by simpa using find?_some hx
  rw [hx, inj_on_of_nodup_map t.ids (mem_of_find?_eq_some hx) h hid]

theorem getByExternalID_ok {x : String} (h : t.getByExternalID x = .ok c) : x ≠ "" ∧ c ∈ t.rows ∧ c.externalID = x := by
  unfold getByExternalID at h
  split_ifs at h with hx
  split at h
  · rename_i r hr
    cases h
    exact ⟨hx, mem_of_find?_eq_some hr, by simpa using find?_some hr⟩
  · cases h

theorem save_ok (h : t.save c = .ok t') :
    ((∀ r ∈ t.rows, r.id ≠ c.id) ∧ t'.rows = t.rows ++ [inserted c]) ∨
      ((∃ r ∈ t.rows, r.id = c.id) ∧ t'.rows = t.rows.map fun r => if r.id = c.id then overwrite c r else r) := by
  unfold save at h
  split_ifs at h with hc hx hid
  · cases h
    exact .inl ⟨hid, rfl⟩
  · cases h
    exact .inr ⟨by simpa using hid, rfl⟩

theorem save_mem (h : t.save c = .ok t') : ∃ r ∈ t'.rows, r.externalID = c.externalID ∧ r.status = c.status := by
  rcases save_ok h with ⟨-, hr⟩ | ⟨⟨r, hm, hid⟩, hr⟩
  · exact ⟨inserted c, by simp [hr], rfl, rfl⟩
  · exact ⟨overwrite c r, by rw [hr]; exact mem_map.mpr ⟨r, hm, if_pos hid⟩, rfl, rfl⟩

/-- A charge that moves on from the row it was read from can be saved. -/
theorem save_transition {c' : PIXCharge} (hc : c ∈ t.rows) (hx : c.externalID ≠ "") (ht : Transition c c') : ∃ t', t.save c' = .ok t' := by
  have hcon := ht.consistent (t.consistent c hc)
  have hfree : ¬ t.Taken c' := by
    rintro ⟨r, hr, hne, -, he⟩
    rw [ht.externalID] at he
    rw [ht.id] at hne
    exact hne (t.externalIDs c hc r hr hx he.symm).symm
  have hid : ¬ ∀ r ∈ t.rows, r.id ≠ c'.id := fun h => h c hc ht.id.symm
  exact ⟨_, by rw [save, dif_pos hcon, dif_neg hfree, dif_neg hid]⟩

theorem save_find (h : t.save c = .ok t') {id : UUID} (hid : id ≠ c.id) : t'.find id = t.find id := by
  rcases save_ok h with ⟨-, hr⟩ | ⟨-, hr⟩
  · have hne : ¬ c.id = id := fun he => hid he.symm
    simp [find, hr, find?_append, inserted, hne]
  unfold find
  rw [hr, find?_map]
  have hsame : ((fun r : PIXCharge => decide (r.id = id)) ∘ fun r => if r.id = c.id then overwrite c r else r) =
      fun r => decide (r.id = id) := by
    funext r
    simp only [Function.comp_apply]
    split_ifs <;> rfl
  rw [hsame]
  cases hf : t.rows.find? fun r => r.id = id with
  | none => rfl
  | some r =>
  have hr : r.id = id := by simpa using find?_some hf
  simp [hr, hid]

end ChargeTable

namespace EventTable

def Has (t : EventTable) (key : String × String × WebhookEventType) : Prop := key ∈ t.rows.map WebhookEventRow.key

instance (t : EventTable) (key : String × String × WebhookEventType) : Decidable (t.Has key) :=
  inferInstanceAs (Decidable (_ ∈ _))

def insert (t : EventTable) (row : WebhookEventRow) (h : ¬ t.Has row.key) : EventTable where
  rows := t.rows ++ [row]
  keys := by
    rw [map_append, map_singleton, ← concat_eq_append, nodup_concat]
    exact ⟨h, t.keys⟩

def erase (t : EventTable) (key : String × String × WebhookEventType) : EventTable where
  rows := t.rows.filter fun r => r.key ≠ key
  keys := List.Nodup.sublist (filter_sublist.map _) t.keys

variable {key : String × String × WebhookEventType}

theorem has_insert {t : EventTable} {row : WebhookEventRow} {h : ¬ t.Has row.key} : (t.insert row h).Has key ↔ t.Has key ∨ key = row.key := by
  simp [Has, insert, mem_append, eq_comm]

theorem has_erase {t : EventTable} {key' : String × String × WebhookEventType} : (t.erase key).Has key' ↔ t.Has key' ∧ key' ≠ key := by
  unfold Has erase
  constructor
  · intro h
    obtain ⟨r, hr, rfl⟩ := mem_map.mp h
    obtain ⟨hr, hne⟩ := mem_filter.mp hr
    exact ⟨mem_map_of_mem hr, of_decide_eq_true hne⟩
  · rintro ⟨h, hne⟩
    obtain ⟨r, hr, rfl⟩ := mem_map.mp h
    exact mem_map_of_mem (mem_filter.mpr ⟨hr, decide_eq_true hne⟩)

end EventTable

namespace PixDB

/-- `EventLogStore.Record`; an empty payload is stored as the empty object. -/
def record (source externalID : String) (eventType : WebhookEventType) (payload : String) (receivedAt : Time) (db : PixDB) :
    Except Err (Unit × PixDB) :=
  if source = "" then .error (.other "pix/postgres: Record: source is empty")
  else if externalID = "" then .error .pixEmptyExternalID
  else if ¬ eventType.isKnown then .error .pixUnknownEventType
  else
    let row : WebhookEventRow :=
      { source, externalID, eventType, payload := if payload = "" then "\x7b\x7d" else payload,
        receivedAt := timestamptz receivedAt }
    if h : db.events.Has row.key then .error .pixDuplicateEvent
    else .ok ((), { db with events := db.events.insert row h })

def forget (source externalID : String) (eventType : WebhookEventType) (db : PixDB) : Except Err (Unit × PixDB) :=
  if source = "" then .error (.other "pix/postgres: Forget: source is empty")
  else if externalID = "" then .error .pixEmptyExternalID
  else if ¬ eventType.isKnown then .error .pixUnknownEventType
  else .ok ((), { db with events := db.events.erase (source, externalID, eventType) })

def save (c : PIXCharge) (db : PixDB) : Except Err (Unit × PixDB) :=
  match db.charges.save c with
  | .error e => .error e
  | .ok charges => .ok ((), { db with charges })

end PixDB

/-! ## The ports -/

inductive Req : Type
  | record (source externalID : String) (eventType : WebhookEventType) (payload : String) (receivedAt : Time)
  | forget (source externalID : String) (eventType : WebhookEventType)
  | getByExternalID (externalID : String)
  | save (c : PIXCharge)

abbrev Resp : Req → Type
  | .record _ _ _ _ _ => Except Err Unit
  | .forget _ _ _ => Except Err Unit
  | .getByExternalID _ => Except Err PIXCharge
  | .save _ => Except Err Unit

/-- A port call may fail with any error. -/
def anyError (_ : Err) : Prop := True

def exec : (q : Req) → PixDB → Resp q → PixDB → Prop
  | .record src x e payload t, s, r, s' => Tx anyError s (s.record src x e payload t) r s'
  | .forget src x e, s, r, s' => Tx anyError s (s.forget src x e) r s'
  | .getByExternalID x, s, r, s' => Read anyError s (s.charges.getByExternalID x) r s'
  | .save c, s, r, s' => Tx anyError s (s.save c) r s'

abbrev Client (α : Type) : Type := Prog Req Resp α

namespace Port

abbrev record (source externalID : String) (eventType : WebhookEventType) (payload : String) (receivedAt : Time) :
    Client (Except Err Unit) := .send (Req.record source externalID eventType payload receivedAt)

abbrev forget (source externalID : String) (eventType : WebhookEventType) : Client (Except Err Unit) :=
  .send (Req.forget source externalID eventType)

abbrev getByExternalID (externalID : String) : Client (Except Err PIXCharge) := .send (Req.getByExternalID externalID)

abbrev save (c : PIXCharge) : Client (Except Err Unit) := .send (Req.save c)

end Port

/-! ## Apply -/

/-- After a dedup hit: whether the charge looks stuck.  A failed lookup is not reported. -/
def peek (externalID : String) : Client (Except Err Outcome) := do
  match ← Port.getByExternalID externalID with
  | .ok c =>
    return .ok { duplicate := true, transitioned := false, charge := none, stuckPendingSuspected := c.status = .pending }
  | .error _ => return .ok { duplicate := true, transitioned := false, charge := none, stuckPendingSuspected := false }

def transition (evt : WebhookEvent) : Client (Except Err Outcome) := do
  match ← Port.getByExternalID evt.externalID with
  | .error e =>
    if e.is .pixNotFound then
      -- the charge is not there yet: take the dedup row back so that a retry is not taken for a duplicate
      match ← Port.forget evt.source evt.externalID evt.eventType with
      | .error ferr => return .error (.join e (.wrap "pix: compensate dedup row" ferr))
      | .ok () => return .error e
    return .error e
  | .ok charge =>
    match applyEvent charge evt.eventType evt.occurredAt with
    | .error e => return .error e
    | .ok (changed, charge) =>
      if changed then
        match ← Port.save charge with
        | .error e => return .error e
        | .ok () =>
          return .ok { duplicate := false, transitioned := true, charge := some charge, stuckPendingSuspected := false }
      return .ok { duplicate := false, transitioned := false, charge := some charge, stuckPendingSuspected := false }

def apply (evt : WebhookEvent) : Client (Except Err Outcome) := do
  if ¬ evt.eventType.isKnown then return .error .pixUnknownEventType
  if evt.externalID = "" then return .error .pixEmptyExternalID
  match ← Port.record evt.source evt.externalID evt.eventType evt.payload evt.occurredAt with
  | .error e => if e.is .pixDuplicateEvent then peek evt.externalID else return .error e
  | .ok () => transition evt

/-! ## Deliveries in flight -/

abbrev Call : Type := WebhookEvent

abbrev Res (_ : Call) : Type := Except Err Outcome

abbrev Ev : Type := Event Req Resp PixDB Call Res

abbrev W : Type := World Req Resp PixDB Call Res

abbrev Cfg : Type := Conf Req Resp PixDB Call Res

def system (allow : W → Ev → Prop) : System Req Resp PixDB Call Res where
  exec := exec
  body := apply
  allow := allow

/-! ## What the statements do to the tables -/

namespace PixDB

variable {db db' : PixDB}
variable {src x : String} {e : WebhookEventType}

theorem record_ok {payload : String} {t : Time} (h : db.record src x e payload t = .ok ((), db')) :
    db'.charges = db.charges ∧ ¬ db.events.Has (src, x, e) ∧
      ∀ key, db'.events.Has key ↔ db.events.Has key ∨ key = (src, x, e) := by
  unfold record at h
  iterate 3
    split at h
    · cases h
  dsimp only at h
  generalize (if payload = "" then _ else payload) = stored at h
  split at h
  · cases h
  · rename_i hh
    cases h
    exact ⟨rfl, hh, fun key => EventTable.has_insert (h := hh)⟩

theorem record_fresh (payload : String) (t : Time) (hsrc : src ≠ "") (hx : x ≠ "") (hknown : e.isKnown = true) (hnew : ¬ db.events.Has (src, x, e)) :
    ∃ db', db.record src x e payload t = .ok ((), db') := by
  simp only [record, if_neg hsrc, if_neg hx, hknown, not_true, if_false]
  exact ⟨_, dif_neg hnew⟩

theorem forget_ok (h : db.forget src x e = .ok ((), db')) :
    db'.charges = db.charges ∧ ∀ key, db'.events.Has key ↔ db.events.Has key ∧ key ≠ (src, x, e) := by
  unfold forget at h
  split_ifs at h
  cases h
  exact ⟨rfl, fun key => EventTable.has_erase⟩

theorem save_ok {c : PIXCharge} (h : db.save c = .ok ((), db')) :
    db.charges.save c = .ok db'.charges ∧ db'.events = db.events := by
  unfold save at h
  split at h
  · cases h
  · rename_i charges hc
    cases h
    exact ⟨hc, rfl⟩

end PixDB

theorem exec_charges {q : Req} {s s' : PixDB} {r : Resp q} (h : exec q s r s') (hq : ∀ c, q ≠ .save c) :
    s'.charges = s.charges := by
  cases q with
  | record src x e payload t =>
    rcases Tx.store_cases h with rfl | ⟨_, h⟩
    · rfl
    · exact (PixDB.record_ok h).1
  | forget src x e =>
    rcases Tx.store_cases h with rfl | ⟨_, h⟩
    · rfl
    · exact (PixDB.forget_ok h).1
  | getByExternalID x => rw [h.1]
  | save c => exact absurd rfl (hq c)

/-- Every request answered by its own transaction: nothing fails on the way. -/
def serve : (q : Req) → PixDB → Resp q × PixDB
  | .record src x e payload t, s => Tx.run s (s.record src x e payload t)
  | .forget src x e, s => Tx.run s (s.forget src x e)
  | .getByExternalID x, s => (s.charges.getByExternalID x, s)
  | .save c, s => Tx.run s (s.save c)

theorem exec_serve (q : Req) (s : PixDB) : exec q s (serve q s).1 (serve q s).2 := by
  cases q with
  | getByExternalID x => exact ⟨rfl, .inl rfl⟩
  | _ => exact Tx.of_run _ _

end Crm.Pix
