import Mathlib.Data.List.Nodup
import Crm.Basic
import Crm.Lib.Calendar
import Crm.Lib.Interleave
import Crm.Lib.Text
import Crm.Lib.Uuid

/-!
# Crm.Slug.Reservation — slugs that have been released

`internal/slugreservation` over `tenant_slug_reservation`.  Whether a slug is reserved is decided when it is asked for, by `expires_at`; which
rows exclude each other is decided by `released_by_master` alone, since an index cannot look at the clock.  The store does not fail; the
audit log of a master override may.
-/

namespace Crm.Slug

open Interleave Text List Prog

def reservationWindow : ℤ := 365 * Calendar.day

/-! ## Slugs -/

def isAlnum (c : Char) : Bool := ('a' ≤ c && c ≤ 'z') || ('0' ≤ c && c ≤ '9')

/-- `^[a-z0-9](?:[a-z0-9-]*[a-z0-9])?$`. -/
def slugPattern (s : String) : Bool :=
  s.toList.all (fun c => isAlnum c || c == '-') && s.toList.head?.any isAlnum && s.toList.getLast?.any isAlnum

def normalizeSlug (T : CaseTables) (raw : String) : Except Err String :=
  let s := T.lower (trimSpace raw)
  if s = "" ∨ 63 < s.utf8ByteSize then .error .slugInvalid
  else if slugPattern s then .ok s
  else .error .slugInvalid

/-! ## The table -/

structure Row where
  id : UUID
  slug : String
  releasedAt : Time
  releasedByTenantID : Option UUID
  expiresAt : Time
  releasedByMaster : Bool
  createdAt : Time
  deriving DecidableEq, Repr

structure Reservation where
  id : UUID
  slug : String
  releasedAt : Time
  releasedByTenantID : UUID
  expiresAt : Time
  createdAt : Time
  deriving DecidableEq, Repr

def scanReservation (r : Row) : Reservation :=
  ⟨r.id, r.slug, r.releasedAt, r.releasedByTenantID.getD UUID.Nil, r.expiresAt, r.createdAt⟩

/-- `tenant_slug_reservation` with `tenant_slug_reservation_active_idx`: a slug has one row that no master has released. -/
structure Table where
  rows : List Row
  slugs : ((rows.filter fun r => !r.releasedByMaster).map Row.slug).Nodup

namespace Table

variable (t : Table)

def active (slug : String) (now : Time) : Option Row :=
  t.rows.find? fun r => r.slug = slug && !r.releasedByMaster && now < r.expiresAt

def add (row : Row) (h : ∀ r ∈ t.rows, r.releasedByMaster = false → r.slug ≠ row.slug) : Table where
  rows := t.rows ++ [row]
  slugs := by
    rw [filter_append, map_append]
    refine List.Nodup.append t.slugs ?_ ?_
    · exact (nodup_singleton row.slug).sublist (filter_sublist.map Row.slug)
    intro slug hold hnew
    obtain ⟨r, hr, rfl⟩ := mem_map.mp hold
    obtain ⟨r', hr', he⟩ := mem_map.mp hnew
    obtain rfl := mem_singleton.mp (mem_filter.mp hr').1
    exact h r (mem_filter.mp hr).1 (by simpa using (mem_filter.mp hr).2) he.symm

def insert (row : Row) : Option Table :=
  if h : ∀ r ∈ t.rows, r.releasedByMaster = false → r.slug ≠ row.slug then some (t.add row h) else none

def release (slug : String) (at_ : Time) (r : Row) : Row :=
  if r.slug = slug ∧ r.releasedByMaster = false ∧ at_ < r.expiresAt then { r with expiresAt := at_, releasedByMaster := true } else r

theorem release_slug (slug : String) (at_ : Time) (r : Row) : (release slug at_ r).slug = r.slug := by
  unfold release
  split_ifs <;> rfl

theorem release_kept {slug : String} {at_ : Time} {r : Row} (h : (release slug at_ r).releasedByMaster = false) :
    r.releasedByMaster = false := by
  unfold release at h
  split_ifs at h
  exact h

/-- The update of the master override, and the row it returns. -/
def softDelete (slug : String) (at_ : Time) : Option (Row × Table) :=
  (t.active slug at_).map fun r => (release slug at_ r, {
    rows := t.rows.map (release slug at_)
    slugs := by
      have hslug : Row.slug ∘ release slug at_ = Row.slug := funext (release_slug slug at_)
      rw [filter_map, map_map, hslug]
      refine t.slugs.sublist (List.Sublist.map _ (monotone_filter_right _ fun r hr => ?_))
      simp only [Function.comp_apply, Bool.not_eq_true'] at hr ⊢
      exact release_kept hr })

end Table

/-! ## The service -/

structure MasterOverrideEvent where
  slug : String
  masterID : UUID
  reason : String
  at_ : Time
  deriving DecidableEq, Repr

inductive Req : Type
  | clock
  | active (slug : String)
  | insert (slug : String) (byTenant : UUID) (releasedAt expiresAt : Time)
  | softDelete (slug : String) (at_ : Time)
  | logMasterOverride (ev : MasterOverrideEvent)
  | notifyAlert (ev : MasterOverrideEvent)

abbrev Resp : Req → Type
  | .clock => Time
  | .active _ => Except Err Reservation
  | .insert _ _ _ _ => Except Err Reservation
  | .softDelete _ _ => Except Err Reservation
  | .logMasterOverride _ => Except Err Unit
  | .notifyAlert _ => Except Err Unit

abbrev Client (α : Type) : Type := Prog Req Resp α

/-- SQLSTATE 23505. -/
def uniqueViolation : Err := .wrap "slug reservation scan" (.other "23505")

def reservedError (r : Reservation) : Err :=
  .wrap ("slugreservation: slug \"" ++ r.slug ++ "\" reserved until " ++ String.ofList (Calendar.dateText (Calendar.dateOf r.expiresAt)))
    .slugReserved

/-- `SlugReservationStore.Insert`: after a unique violation the reservation that is in the way is read, if it can be found. -/
def storeInsert (slug : String) (byTenant : UUID) (releasedAt expiresAt : Time) : Client (Except Err Reservation) := do
  match ← .send (Req.insert slug byTenant releasedAt expiresAt) with
  | .ok res => return .ok res
  | .error e =>
    if e ≠ uniqueViolation then return .error e
    match ← .send (Req.active slug) with
    | .ok existing => return .error (reservedError existing)
    | .error _ => return .error e

def checkAvailable (T : CaseTables) (rawSlug : String) : Client (Except Err Unit) := do
  match normalizeSlug T rawSlug with
  | .error e => return .error e
  | .ok slug =>
    match ← .send (Req.active slug) with
    | .error e =>
      if e.is .slugNotReserved then return .ok ()
      return .error (.wrap "slugreservation: check available" e)
    | .ok res => return .error (reservedError res)

def releaseSlug (T : CaseTables) (rawSlug : String) (byTenantID : UUID) : Client (Except Err Reservation) := do
  match normalizeSlug T rawSlug with
  | .error e => return .error e
  | .ok slug =>
    let now ← .send Req.clock
    match ← storeInsert slug byTenantID now (now + reservationWindow) with
    | .error e => return .error (.wrap "slugreservation: release" e)
    | .ok res => return .ok res

/-- `OverrideRelease`: the row is released before the audit log is written, and stays so when that fails. -/
def overrideRelease (T : CaseTables) (rawSlug : String) (masterID : UUID) (reason : String) : Client (Except Err Reservation) := do
  if masterID = UUID.Nil then return .error .slugZeroMaster
  if trimSpace reason = "" then return .error .slugReasonRequired
  match normalizeSlug T rawSlug with
  | .error e => return .error e
  | .ok slug =>
    let now ← .send Req.clock
    match ← .send (Req.softDelete slug now) with
    | .error e =>
      if e.is .slugNotReserved then return .error .slugNotReserved
      return .error (.wrap "slugreservation: override" e)
    | .ok res =>
      let ev : MasterOverrideEvent := ⟨slug, masterID, trimSpace reason, now⟩
      match ← .send (Req.logMasterOverride ev) with
      | .error e => return .error (.wrap "slugreservation: override audit" e)
      | .ok () =>
        let _ ← .send (Req.notifyAlert ev)
        return .ok res

/-! ## Calls at an instant -/

/-- The clock, which the process and the database share, and the table. -/
structure State where
  now : Time
  table : Table

/-- What a call meets beside the table: the identifier a row would get, and how the audit log and the notifier answer. -/
structure Ports where
  id : UUID
  logged : Except Err Unit
  notified : Except Err Unit

def newRow (id : UUID) (slug : String) (byTenant : UUID) (releasedAt expiresAt now : Time) : Row where
  id := id
  slug := slug
  releasedAt := timestamptz releasedAt
  releasedByTenantID := if byTenant = UUID.Nil then none else some byTenant
  expiresAt := timestamptz expiresAt
  releasedByMaster := false
  createdAt := timestamptz now

def serve (P : Ports) : (q : Req) → State → Resp q × State
  | .clock, s => (s.now, s)
  | .active slug, s =>
    match s.table.active slug (timestamptz s.now) with
    | some r => (.ok (scanReservation r), s)
    | none => (.error .slugNotReserved, s)
  | .insert slug byTenant releasedAt expiresAt, s =>
    let row := newRow P.id slug byTenant releasedAt expiresAt s.now
    match s.table.insert row with
    | some t => (.ok (scanReservation row), { s with table := t })
    | none => (.error uniqueViolation, s)
  | .softDelete slug at_, s =>
    match s.table.softDelete slug (timestamptz at_) with
    | some (r, t) => (.ok (scanReservation r), { s with table := t })
    | none => (.error .slugNotReserved, s)
  | .logMasterOverride _, s => (P.logged, s)
  | .notifyAlert _, s => (P.notified, s)

def call {α : Type} (P : Ports) (p : Client α) (s : State) : α × State := p.eval (serve P) s

theorem serve_now (P : Ports) (q : Req) (s : State) : (serve P q s).2.now = s.now := by
  cases q with
  | active slug =>
    simp only [serve]
    split <;> rfl
  | insert slug byTenant releasedAt expiresAt =>
    simp only [serve]
    split <;> rfl
  | softDelete slug at_ =>
    simp only [serve]
    split <;> rfl
  | _ => rfl

theorem call_now {α : Type} (P : Ports) : ∀ (p : Client α) (s : State), (call P p s).2.now = s.now
  | .ret _, _ => rfl
  | .ask q k, s => (call_now P (k (serve P q s).1) (serve P q s).2).trans (serve_now P q s)

/-! ### What the calls do -/

section Calls

variable {T : CaseTables} {P : Ports} {s : State} {rawSlug slug : String}

theorem call_checkAvailable (h : normalizeSlug T rawSlug = .ok slug) : (call P (checkAvailable T rawSlug) s).1 =
    match s.table.active slug (timestamptz s.now) with
    | some r => .error (reservedError (scanReservation r))
    | none => .ok () := by
  simp only [call, checkAvailable, h, send_bind, pure_eq, eval_ask, serve]
  cases s.table.active slug (timestamptz s.now) with
  | some r => rfl
  | none => rfl

theorem call_releaseSlug_free (h : normalizeSlug T rawSlug = .ok slug) (byTenantID : UUID)
    (hfree : ∀ r ∈ s.table.rows, r.releasedByMaster = false → r.slug ≠ slug) :
    call P (releaseSlug T rawSlug byTenantID) s =
      (.ok (scanReservation (newRow P.id slug byTenantID s.now (s.now + reservationWindow) s.now)),
        { s with table := s.table.add (newRow P.id slug byTenantID s.now (s.now + reservationWindow) s.now) hfree }) := by
  have hins : s.table.insert (newRow P.id slug byTenantID s.now (s.now + reservationWindow) s.now) =
      some (s.table.add (newRow P.id slug byTenantID s.now (s.now + reservationWindow) s.now) hfree) := dif_pos hfree
  simp only [call, releaseSlug, storeInsert, h, send_bind, ask_bind, pure_eq, eval_ask, serve, hins]
  rfl

theorem call_releaseSlug_taken (h : normalizeSlug T rawSlug = .ok slug) (byTenantID : UUID)
    (htaken : ¬ ∀ r ∈ s.table.rows, r.releasedByMaster = false → r.slug ≠ slug) :
    (∃ e, (call P (releaseSlug T rawSlug byTenantID) s).1 = .error e) ∧ (call P (releaseSlug T rawSlug byTenantID) s).2 = s := by
  have hins : s.table.insert (newRow P.id slug byTenantID s.now (s.now + reservationWindow) s.now) = none := dif_neg htaken
  simp only [call, releaseSlug, storeInsert, h, send_bind, ask_bind, pure_eq, eval_ask, serve, hins, ne_eq,
    not_true_eq_false, if_false]
  cases s.table.active slug (timestamptz s.now) with
  | some r => exact ⟨⟨_, rfl⟩, rfl⟩
  | none => exact ⟨⟨_, rfl⟩, rfl⟩

theorem call_releaseSlug_invalid {e : Err} (h : normalizeSlug T rawSlug = .error e) (byTenantID : UUID) :
    call P (releaseSlug T rawSlug byTenantID) s = (.error e, s) := by
  simp only [call, releaseSlug, h, pure_eq, eval_ret]

/-- An override leaves the table, or releases the row of its slug; then it fails only by the audit log. -/
theorem call_overrideRelease (masterID : UUID) (reason : String) :
    (call P (overrideRelease T rawSlug masterID reason) s).2 = s ∨
    ∃ slug r t, normalizeSlug T rawSlug = .ok slug ∧ s.table.softDelete slug (timestamptz s.now) = some (r, t) ∧
      (call P (overrideRelease T rawSlug masterID reason) s).2 = { s with table := t } ∧
      (P.logged = .ok () → (call P (overrideRelease T rawSlug masterID reason) s).1 = .ok (scanReservation r)) := by
  simp only [call, overrideRelease, send_bind, pure_eq]
  split_ifs
  · exact .inl rfl
  · exact .inl rfl
  cases h : normalizeSlug T rawSlug with
  | error e => exact .inl rfl
  | ok slug =>
  simp only [eval_ask, serve]
  cases hsoft : s.table.softDelete slug (timestamptz s.now) with
  | none => exact .inl rfl
  | some x =>
  obtain ⟨r, t⟩ := x
  refine .inr ⟨slug, r, t, rfl, hsoft, ?_⟩
  simp only [eval_ask, serve]
  cases P.logged with
  | error e => exact ⟨rfl, by rintro ⟨⟩⟩
  | ok => exact ⟨rfl, fun _ => rfl⟩

end Calls

end Crm.Slug
