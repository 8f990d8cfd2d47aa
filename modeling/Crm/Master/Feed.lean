import Mathlib.Data.List.Basic
import Mathlib.Logic.Relation
import Crm.Basic
import Crm.Lib.Table
import Crm.Lib.Uuid

/-!
# Crm.Master.Feed — the audit stream of an envelope

The handler `Feed` of `internal/web/master/impersonation.go` and `ListAuditByCorrelation`.  A feed polls the oldest rows of its envelope, at most
`tailLimit` of them, and writes those it has not written before; rows are committed to the log at any time between the polls.  A poll completes the
stream as long as the envelope has no more rows than the limit (`feed_complete`); a row behind the limit is never written (`feed_behind_limit`).
-/

namespace Crm.Master

open List

structure Session where
  id : UUID
  masterUserID : UUID
  masterSessionID : UUID
  targetTenantID : UUID
  reason : String
  startedAt : Time
  expiresAt : Time
  endedAt : Option Time := none
  endedReason : Option String := none
  deriving DecidableEq

def defaultEnvelopeTTL : Time := 15 * 60 * 1000000000

/-- A row of `audit_log_security`; `target` is the text of the map, if it is one. -/
structure SecurityRow where
  id : UUID
  tenantID : Option UUID
  actorUserID : UUID
  event : String
  correlationID : Option UUID
  target : Option String
  occurredAt : Time
  deriving DecidableEq

structure Envelope extends Session where
  drawn : id ≠ UUID.Nil

abbrev SecurityLog : Type := Table SecurityRow UUID SecurityRow.id

def SecurityLog.tagged (log : SecurityLog) (id : UUID) : List SecurityRow := log.rows.filter fun r => r.correlationID = some id

/-- `rows` is an answer of `ListAuditByCorrelation`: the first rows by `occurred_at`, ties in any order. -/
def SecurityLog.Listed (log : SecurityLog) (correlationID : UUID) (limit : ℤ) (rows : List SecurityRow) : Prop :=
  if correlationID = UUID.Nil then rows = []
  else ∃ full : List SecurityRow, full.Perm (log.tagged correlationID) ∧ full.Pairwise (fun a b => a.occurredAt ≤ b.occurredAt) ∧
    rows = full.take (if limit ≤ 0 ∨ 1000 < limit then 200 else limit).toNat

def initialLimit : ℤ := 50

def tailLimit : ℤ := 200

/-- What `Feed` answers before the stream: an error, nothing, or the envelope to be streamed. -/
def feed (principal : Option (UUID × Bool)) (masterSessionID : Option UUID) (active : Except Err Session) (canFlush : Bool) :
    Except (String × ℕ) (Option Session) :=
  match principal, masterSessionID with
  | none, _ => .error ("principal missing", 500)
  | some (_, false), _ => .error ("forbidden", 403)
  | some (_, true), none => .error ("master session required", 503)
  | some (userID, true), some _ =>
    match active with
    | .error err => if err.is .impersonationNoActive then .ok none else .error ("impersonation lookup failed", 503)
    | .ok active =>
      if active.masterUserID ≠ userID then .error ("forbidden", 403)
      else if ¬ canFlush then .error ("streaming unsupported", 500)
      else .ok (some active)

/-- The set `seen` of a stream, and the events written to it. -/
structure Stream where
  seen : List UUID := []
  written : List SecurityRow := []
  deriving DecidableEq

namespace Stream

def write (gone : SecurityRow → Bool) (s : Stream) (row : SecurityRow) : Option Stream :=
  if gone row then none else some ⟨row.id :: s.seen, s.written ++ [row]⟩

def backfill (gone : SecurityRow → Bool) (s : Stream) (rows : List SecurityRow) : Option Stream := rows.foldlM (write gone) s

def poll (gone : SecurityRow → Bool) (s : Stream) (rows : List SecurityRow) : Option Stream :=
  rows.foldlM (fun s row => if row.id ∈ s.seen then some s else s.write gone row) s

end Stream

inductive Phase : Type
  | opened
  | polling
  | closed

structure Feed where
  log : SecurityLog
  stream : Stream := {}
  phase : Phase := .opened

/-- A poll that reaches its end; the envelope may have ended by then. -/
def Poll (active : Envelope) (f f' : Feed) : Prop :=
  f.phase = .polling ∧ ∃ rows gone stream ended, f.log.Listed active.id tailLimit rows ∧ f.stream.poll gone rows = some stream ∧
    f' = { f with stream := stream, phase := bif ended then .closed else .polling }

inductive FeedStep (active : Envelope) : Feed → Feed → Prop
  | commit {f : Feed} {row : SecurityRow} {log : SecurityLog} (h : f.log.insert row = some log) : FeedStep active f { f with log := log }
  | backfill {f : Feed} {rows : List SecurityRow} {gone : SecurityRow → Bool} {stream : Stream} (hp : f.phase = .opened)
      (hl : f.log.Listed active.id initialLimit rows) (hs : f.stream.backfill gone rows = some stream) :
      FeedStep active f { f with stream := stream, phase := .polling }
  | poll {f f' : Feed} (h : Poll active f f') : FeedStep active f f'
  -- the client disconnects, a query fails or a write fails
  | stop {f : Feed} : FeedStep active f { f with phase := .closed }

/-! ## Written at most once -/

/-- What has been written is in the log, each row once, and `seen` has the ids. -/
structure Stream.Sound (log : SecurityLog) (s : Stream) : Prop where
  seen : ∀ id, id ∈ s.seen ↔ id ∈ s.written.map SecurityRow.id
  once : (s.written.map SecurityRow.id).Nodup
  logged : ∀ r ∈ s.written, r ∈ log.rows

namespace Stream

variable {log log' : SecurityLog} {s s' : Stream} {rows : List SecurityRow} {gone : SecurityRow → Bool} {row : SecurityRow}

theorem write_eq (h : s.write gone row = some s') : s' = ⟨row.id :: s.seen, s.written ++ [row]⟩ := by
  unfold write at h
  split_ifs at h
  exact (Option.some.inj h).symm

theorem Sound.write (hs : Sound log s) (hnew : row.id ∉ s.seen) (hrow : row ∈ log.rows) (h : s.write gone row = some s') : Sound log s' := by
  obtain rfl := write_eq h
  constructor
  · intro id
    simp only [mem_cons, hs.seen, map_append, mem_append, map_cons, map_nil, not_mem_nil, or_false]
    exact or_comm
  · rw [map_append]
    exact hs.once.append (nodup_singleton _) (disjoint_singleton.mpr fun hm => hnew ((hs.seen _).mpr hm))
  intro r hr
  rcases mem_append.mp hr with hr | hr
  · exact hs.logged r hr
  · rwa [mem_singleton.mp hr]

/-- **A loop over rows of the log** writes each of them, unless it has been written. -/
theorem Sound.poll (hs : Sound log s) (hrows : ∀ r ∈ rows, r ∈ log.rows) (h : s.poll gone rows = some s') :
    Sound log s' ∧ (∀ id ∈ s.seen, id ∈ s'.seen) ∧ ∀ r ∈ rows, r.id ∈ s'.seen := by
  induction rows generalizing s with
  | nil =>
    obtain rfl : s = s' := by simpa [Stream.poll] using h
    exact ⟨hs, fun _ hid => hid, fun _ hr => absurd hr not_mem_nil⟩
  | cons row rows ih =>
    obtain ⟨s₁, h1, h2⟩ : ∃ s₁, (if row.id ∈ s.seen then some s else s.write gone row) = some s₁ ∧ s₁.poll gone rows = some s' := by
      simpa [Stream.poll, Option.bind_eq_some_iff] using h
    have hone : Sound log s₁ ∧ (∀ id ∈ s.seen, id ∈ s₁.seen) ∧ row.id ∈ s₁.seen := by
      by_cases hseen : row.id ∈ s.seen
      · rw [if_pos hseen] at h1
        obtain rfl := Option.some.inj h1
        exact ⟨hs, fun _ hid => hid, hseen⟩
      rw [if_neg hseen] at h1
      refine ⟨hs.write hseen (hrows row mem_cons_self) h1, ?_⟩
      obtain rfl := write_eq h1
      exact ⟨fun _ hid => mem_cons_of_mem _ hid, mem_cons_self⟩
    obtain ⟨hs', hkeep, hall⟩ := ih hone.1 (fun r hr => hrows r (mem_cons_of_mem _ hr)) h2
    refine ⟨hs', fun id hid => hkeep id (hone.2.1 id hid), fun r hr => ?_⟩
    rcases mem_cons.mp hr with rfl | hr
    · exact hkeep _ hone.2.2
    · exact hall r hr

/-- The initial loop needs no check: its rows are distinct. -/
theorem backfill_eq_poll (hnodup : (rows.map SecurityRow.id).Nodup) (hnew : ∀ r ∈ rows, r.id ∉ s.seen) : s.backfill gone rows = s.poll gone rows := by
  induction rows generalizing s with
  | nil => rfl
  | cons row rows ih =>
    obtain ⟨hrow, hnodup⟩ := nodup_cons.mp hnodup
    simp only [backfill, Stream.poll, foldlM_cons, if_neg (hnew row mem_cons_self)]
    cases h : s.write gone row with
    | none => rfl
    | some s' =>
    refine ih hnodup fun r hr => ?_
    obtain rfl := write_eq h
    rw [mem_cons, not_or]
    exact ⟨fun he => hrow (he ▸ mem_map_of_mem hr), hnew r (mem_cons_of_mem _ hr)⟩

theorem Sound.mono (hs : Sound log s) (h : ∀ r ∈ log.rows, r ∈ log'.rows) : Sound log' s := ⟨hs.seen, hs.once, fun r hr => h r (hs.logged r hr)⟩

theorem Sound.count_eq_one (hs : Sound log s) (hrow : row ∈ log.rows) (hseen : row.id ∈ s.seen) : s.written.count row = 1 := by
  obtain ⟨r, hr, hid⟩ := mem_map.mp ((hs.seen _).mp hseen)
  rw [Table.eq_of_key (hs.logged r hr) hrow hid] at hr
  exact count_eq_one_of_mem hs.once.of_map hr

end Stream

variable {active : Envelope} {log : SecurityLog} {rows : List SecurityRow} {limit : ℤ} {f f' : Feed}

/-- What a query lists is in the log, each row once. -/
theorem SecurityLog.Listed.sound (h : log.Listed active.id limit rows) : (∀ r ∈ rows, r ∈ log.rows) ∧ (rows.map SecurityRow.id).Nodup := by
  rw [SecurityLog.Listed, if_neg active.drawn] at h
  obtain ⟨full, hperm, -, rfl⟩ := h
  constructor
  · exact fun r hr => mem_of_mem_filter (hperm.subset (mem_of_mem_take hr))
  · have hfull : (full.map SecurityRow.id).Nodup := (hperm.map _).nodup_iff.mpr (log.unique.sublist (filter_sublist.map _))
    exact hfull.sublist ((take_sublist _ _).map _)

theorem SecurityLog.Listed.complete (h : log.Listed active.id tailLimit rows) (hfew : (log.tagged active.id).length ≤ 200) :
    ∀ r ∈ log.tagged active.id, r ∈ rows := by
  rw [SecurityLog.Listed, if_neg active.drawn] at h
  obtain ⟨full, hperm, -, rfl⟩ := h
  intro r hr
  show r ∈ full.take 200
  rw [take_of_length_le (hperm.length_eq ▸ hfew)]
  exact hperm.mem_iff.mpr hr

def Feed.Sound (f : Feed) : Prop := f.stream.Sound f.log ∧ (f.phase = .opened → f.stream.seen = [])

theorem FeedStep.sound (h : FeedStep active f f') (hf : f.Sound) : f'.Sound := by
  cases h with
  | commit h => exact ⟨hf.1.mono fun r hr => (Table.mem_insert h).mpr (.inl hr), hf.2⟩
  | backfill hp hl hs =>
    rw [Stream.backfill_eq_poll hl.sound.2 fun r _ => by rw [hf.2 hp]; exact not_mem_nil] at hs
    exact ⟨(hf.1.poll hl.sound.1 hs).1, fun h => by cases h⟩
  | poll h =>
    obtain ⟨-, rows, gone, stream, ended, hl, hs, rfl⟩ := h
    refine ⟨(hf.1.poll hl.sound.1 hs).1, fun h => ?_⟩
    cases ended <;> cases h
  | stop => exact ⟨hf.1, fun h => by cases h⟩

theorem sound_of_reach (hr : Relation.ReflTransGen (FeedStep active) { log := log } f) : f.Sound := by
  induction hr with
  | refl => exact ⟨⟨fun _ => Iff.rfl, nodup_nil, fun _ hr => absurd hr not_mem_nil⟩, fun _ => rfl⟩
  | tail _ hstep ih => exact hstep.sound ih

/-- **The feed shows everything once.**  After a poll that reaches its end, in any run of polls and commits, every row of the envelope committed
before the poll has been written exactly once, if they are no more than the poll can list. -/
theorem feed_complete (hr : Relation.ReflTransGen (FeedStep active) { log := log } f) (hp : Poll active f f')
    (hfew : (f.log.tagged active.id).length ≤ 200) :
    ∀ row ∈ f.log.rows, row.correlationID = some active.id → f'.stream.written.count row = 1 := by
  have hf := sound_of_reach hr
  obtain ⟨-, rows, gone, stream, ended, hl, hs, rfl⟩ := hp
  obtain ⟨hsound, -, hall⟩ := hf.1.poll hl.sound.1 hs
  intro row hrow htag
  exact hsound.count_eq_one hrow (hall row (hl.complete hfew row (mem_filter.mpr ⟨hrow, by simpa using htag⟩)))

def row (n : ℕ) : SecurityRow := ⟨BitVec.ofNat 128 (n + 1), none, 9, "impersonation_start", some 1, none, n⟩

def firstRows (n : ℕ) : List SecurityRow := (List.range n).map row

def envelope : Envelope := ⟨⟨1, 9, 8, 2, "support case", 0, defaultEnvelopeTTL, none, none⟩, by decide⟩

def shown (n : ℕ) : Stream := ⟨((firstRows n).map SecurityRow.id).reverse, firstRows n⟩

theorem firstRows_succ (n : ℕ) : firstRows (n + 1) = firstRows n ++ [row n] := by
  rw [firstRows, range_succ, map_append, firstRows, map_singleton]

theorem id_mem_shown {k n : ℕ} (hk : k < 2 ^ 64) (hn : n ≤ 2 ^ 64) : (row k).id ∈ (shown n).seen ↔ k < n := by
  simp only [shown, mem_reverse, firstRows, map_map, mem_map, mem_range, Function.comp_apply, row]
  constructor
  · rintro ⟨j, hj, h⟩
    have := congrArg BitVec.toNat h
    simp only [BitVec.toNat_ofNat] at this
    omega
  · exact fun h => ⟨k, h, rfl⟩

theorem unique_firstRows : ∀ {n : ℕ}, n ≤ 2 ^ 64 → ((firstRows n).map SecurityRow.id).Nodup
  | 0, _ => nodup_nil
  | n + 1, h => by
    rw [firstRows_succ, map_append]
    refine (unique_firstRows (by omega)).append (nodup_singleton _) (disjoint_singleton.mpr fun hm => ?_)
    exact absurd ((id_mem_shown (by omega) (by omega)).mp (mem_reverse.mpr hm)) (lt_irrefl n)

/-- A poll goes on with the rows that are not shown. -/
theorem poll_shown (k : ℕ) : ∀ m : ℕ, k + m ≤ 2 ^ 64 → (shown k).poll (fun _ => false) (firstRows (k + m)) = some (shown (k + m))
  | 0, h => by
    have hall : ∀ rows : List SecurityRow, (∀ r ∈ rows, r.id ∈ (shown k).seen) → (shown k).poll (fun _ => false) rows = some (shown k) := by
      intro rows hrows
      induction rows with
      | nil => rfl
      | cons r rows ih =>
        rw [Stream.poll, foldlM_cons, if_pos (hrows r mem_cons_self)]
        exact ih fun r hr => hrows r (mem_cons_of_mem _ hr)
    exact hall _ fun r hr => mem_reverse.mpr (mem_map_of_mem hr)
  | m + 1, h => by
    have hnew : (row (k + m)).id ∉ (shown (k + m)).seen := fun hm => lt_irrefl _ ((id_mem_shown (by omega) (by omega)).mp hm)
    have ih := poll_shown k m (by omega)
    rw [Stream.poll] at ih
    rw [← add_assoc, firstRows_succ, Stream.poll, foldlM_append, ih]
    show (if (row (k + m)).id ∈ (shown (k + m)).seen then some (shown (k + m)) else _) >>= pure = _
    rw [if_neg hnew]
    simp [Stream.write, shown, firstRows_succ]

theorem listed_firstRows {n : ℕ} (hn : n ≤ 2 ^ 64) (k : ℕ) (hk : 0 < k ∧ k ≤ 1000) :
    SecurityLog.Listed ⟨firstRows n, unique_firstRows hn⟩ envelope.id k (firstRows (min k n)) := by
  rw [SecurityLog.Listed, if_neg envelope.drawn]
  refine ⟨firstRows n, ?_, ?_, ?_⟩
  · rw [SecurityLog.tagged, filter_eq_self.mpr (by simp [firstRows, row, envelope])]
  · exact pairwise_map.mpr (pairwise_lt_range.imp fun hlt => Int.ofNat_le.mpr hlt.le)
  · rw [if_neg (by omega), Int.toNat_natCast, firstRows, firstRows, ← map_take, take_range]

/-- The feed over the first `n` rows after its backfill and after a poll. -/
def shows (n k : ℕ) (hn : n ≤ 2 ^ 64) : Feed := ⟨⟨firstRows n, unique_firstRows hn⟩, shown (min k n), .polling⟩

theorem reach_shows {n : ℕ} (hn : n ≤ 2 ^ 64) : Relation.ReflTransGen (FeedStep envelope) { log := (shows n 50 hn).log } (shows n 50 hn) := by
  have h : Stream.backfill (fun _ => false) {} (firstRows (min 50 n)) = some (shown (min 50 n)) := by
    rw [Stream.backfill_eq_poll (unique_firstRows (by omega)) fun _ _ => not_mem_nil]
    have h := poll_shown 0 (min 50 n) (by omega)
    rwa [zero_add] at h
  exact .single (.backfill rfl (listed_firstRows hn 50 (by decide)) h)

theorem poll_shows {n k : ℕ} (hn : n ≤ 2 ^ 64) (hk : k ≤ 200) : Poll envelope (shows n k hn) (shows n 200 hn) := by
  refine ⟨rfl, _, fun _ => false, _, false, listed_firstRows hn 200 (by decide), ?_, rfl⟩
  have h := poll_shown (min k n) (min 200 n - min k n) (by omega)
  rwa [Nat.add_sub_cancel' (by omega)] at h

theorem feed_complete_row : ∃ f f' : Feed, Poll envelope f f' ∧ f.log.rows = [row 0] ∧ f'.stream.written.count (row 0) = 1 := by
  have hp := poll_shows (n := 1) (k := 50) (by decide) (by decide)
  exact ⟨_, _, hp, rfl, feed_complete (reach_shows _) hp (by decide) (row 0) mem_cons_self rfl⟩

/-- **Behind the limit.**  Of 201 rows the last one is not shown, by the first poll or any later one: each lists the same 200. -/
theorem feed_behind_limit : ∃ f f' : Feed, Relation.ReflTransGen (FeedStep envelope) { log := f.log } f ∧ Poll envelope f f' ∧ Poll envelope f' f' ∧
    row 200 ∈ f.log.rows ∧ (row 200).correlationID = some envelope.id ∧ f'.stream.written.count (row 200) = 0 := by
  have h201 : 201 ≤ 2 ^ 64 := by decide
  refine ⟨_, _, reach_shows h201, poll_shows h201 (by decide), poll_shows h201 le_rfl, mem_map_of_mem (mem_range.mpr (by decide)), rfl, ?_⟩
  refine count_eq_zero.mpr fun hm => ?_
  obtain ⟨k, hk, he⟩ := mem_map.mp hm
  have htime : ((k : ℕ) : ℤ) = (200 : ℕ) := congrArg SecurityRow.occurredAt he
  have : k < 200 := mem_range.mp hk
  omega

end Crm.Master
