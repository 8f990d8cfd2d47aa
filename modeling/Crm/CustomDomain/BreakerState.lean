import Crm.CustomDomain.Breaker

/-!
# Crm.CustomDomain.BreakerState — the state of the circuit breaker in Redis

`internal/customdomain/circuitbreaker`, the two implementations of the state port.  They answer alike as long as one window is used (`states_agree`): Redis
forgets a tenant one minute after the window of its last failure.
-/

open List

namespace Crm.CustomDomain.Breaker

open SlidingWindow

inductive Op : Type
  | recordFailure (window : ℤ)
  | trip (freezeFor : ℤ)
  | isOpen
  | reset

inductive Reply : Type
  | count (n : ℤ)
  | opened (b : Bool)
  | done
  deriving DecidableEq

def Entry.exec (now : Time) : Op → Entry → Reply × Entry
  | .recordFailure window, e => ((e.recordFailure now window).map .count id)
  | .trip freezeFor, e => (.done, e.trip now freezeFor)
  | .isOpen, e => ((e.isOpen now).map .opened id)
  | .reset, _ => (.done, ⟨[], none⟩)

def InMemory.exec (now : Time) (tenantID : UUID) (op : Op) (s : InMemory) : Except Err Reply × InMemory :=
  let r := (s tenantID).exec now op
  (.ok r.1, Function.update s tenantID r.2)

/-! ## The state in Redis -/

structure Zset where
  scores : List ℤ
  expires : Time

namespace Zset

def live (z : Zset) (now : Time) : List ℤ := if now < z.expires then z.scores else []

/-- The script that counts: `ZREMRANGEBYSCORE key 0 cutoff`, `ZADD`, `ZCARD`, `EXPIRE`. -/
def count (z : Zset) (now : Time) (window : ℤ) : ℤ × Zset :=
  let ttl := window.tdiv second + 60
  let scores := ((z.live now).filter fun score => ¬ (0 ≤ score ∧ score ≤ now - window)) ++ [now]
  (scores.length, ⟨scores, now + ttl * second⟩)

/-- The set counts the hits of a log, now and as long as it is not written. -/
structure Counts (window now : ℤ) (z : Zset) (log : List ℤ) : Prop where
  exact : ∀ t : ℤ, now ≤ t → Exact window t (z.live t) log
  nonneg : ∀ score ∈ z.scores, 0 ≤ score
  past : ∀ h ∈ log, h ≤ now

variable {z : Zset} {window now now' : ℤ} {log : List ℤ}

theorem Counts.later (h : Counts window now z log) (hn : now ≤ now') : Counts window now' z log :=
  ⟨fun t ht => h.exact t (hn.trans ht), h.nonneg, fun x hx => (h.past x hx).trans hn⟩

theorem Counts.count (h : Counts window now z log) (hnow : 0 ≤ now) :
    (z.count now window).1 = since (now - window) log + 1 ∧ Counts window now (z.count now window).2 (now :: log) := by
  have hnonneg : ∀ score ∈ z.live now, 0 ≤ score := by
    unfold live
    split_ifs
    · exact h.nonneg
    · simp
  have hscores : (z.count now window).2.scores = record window now (z.live now) := by
    refine congrArg (· ++ [now]) (filter_congr fun score hs => ?_)
    simp [hnonneg score hs]
  have hexact := (h.exact now le_rfl).record
  have hpast : ∀ x ∈ now :: log, x ≤ now := forall_mem_cons.mpr ⟨le_rfl, h.past⟩
  refine ⟨?_, fun t ht => ?_, ?_, hpast⟩
  · have hlen : (z.count now window).1 = ((z.count now window).2.scores.length : ℤ) := rfl
    rw [hlen, hscores, length_record, h.exact now le_rfl _ le_rfl]
    push_cast
    rfl
  · rw [live]
    split_ifs with hlt
    · rw [hscores]
      exact hexact.later ht
    -- the lifetime is longer than the window
    refine Exact.nil fun x hx => (hpast x hx).trans ?_
    have hdiv := Int.tmod_add_tdiv_mul window second
    have hmod := Int.tmod_lt_of_pos window (show 0 < second by decide)
    have hend : now + (window.tdiv second + 60) * second ≤ t := not_lt.mp hlt
    rw [second] at hdiv hmod hend
    omega
  rw [hscores]
  intro score hs
  rcases mem_append.mp hs with hs | hs
  · exact hnonneg score (mem_of_mem_filter hs)
  · rwa [mem_singleton.mp hs]

end Zset

/-- The two keys of a tenant; `frozen` is the end of the lifetime of the second one. -/
structure Keys where
  fail : Zset
  frozen : Time

def Keys.gone (now : Time) : Keys := ⟨⟨[], now⟩, now⟩

def Keys.exec (now : Time) : Op → Keys → Except Err Reply × Keys
  | .recordFailure window, k =>
    if window ≤ 0 then (.error (.other "redisstate: window must be positive"), k)
    else ((k.fail.count now window).map (fun n => .ok (.count n)) fun fail => { k with fail })
  | .trip freezeFor, k =>
    if freezeFor ≤ 0 then (.error (.other "redisstate: freezeFor must be positive"), k)
    else
      let freezeMS := freezeFor.tdiv 1000000
      (.ok .done, { k with frozen := now + (if freezeMS ≤ 0 then 1 else freezeMS) * 1000000 })
  | .isOpen, k => (.ok (.opened (now < k.frozen)), k)
  | .reset, _ => (.ok .done, .gone now)

abbrev Redis : Type := UUID → Keys

def Redis.new : Redis := fun _ => .gone 0

def Redis.exec (now : Time) (tenantID : UUID) (op : Op) (s : Redis) : Except Err Reply × Redis :=
  if tenantID = UUID.Nil then (.error (.other "redisstate: tenantID must not be uuid.Nil"), s)
  else
    let r := (s tenantID).exec now op
    (r.1, Function.update s tenantID r.2)

/-! ## The two states agree -/

def replies {S : Type} (exec : Time → UUID → Op → S → Except Err Reply × S) : S → List (Time × UUID × Op) → List (Except Err Reply)
  | _, [] => []
  | s, (now, x, op) :: l => (exec now x op s).1 :: replies exec (exec now x op s).2 l

/-- An operation that waits a positive number of milliseconds; failures are counted in the window `w`. -/
def Op.Fits (w : ℤ) : Op → Prop
  | .recordFailure window => window = w
  | .trip freezeFor => 0 < freezeFor ∧ 1000000 ∣ freezeFor
  | _ => True

structure Agree (window now : ℤ) (k : Keys) (e : Entry) : Prop where
  failures : ∃ log, k.fail.Counts window now log ∧ Exact window now e.failures log
  frozen : ∀ t : ℤ, now ≤ t → (t < k.frozen ↔ e.OpenAt t)

section Agree

variable {window now now' : ℤ} {k : Keys} {e : Entry} {op : Op}

theorem Agree.later (h : Agree window now k e) (hn : now ≤ now') : Agree window now' k e :=
  ⟨h.failures.imp fun _ h => ⟨h.1.later hn, h.2.later hn⟩, fun t ht => h.frozen t (hn.trans ht)⟩

theorem Agree.gone (now : ℤ) : Agree window now (.gone now) ⟨[], none⟩ where
  failures := by
    refine ⟨[], ⟨fun t _ => ?_, by simp [Keys.gone], by simp⟩, fun _ _ => rfl⟩
    rw [Keys.gone, Zset.live, ite_self]
    exact fun _ _ => rfl
  frozen := fun t ht => iff_of_false (not_lt.mpr ht) fun ⟨_, hd, _⟩ => nomatch hd

/-- **One operation** is answered alike, and leaves the states in agreement. -/
theorem Agree.exec (h : Agree window now k e) (hw : 0 < window) (hnow : 0 ≤ now) (hop : op.Fits window) :
    (k.exec now op).1 = .ok (e.exec now op).1 ∧ Agree window now (k.exec now op).2 (e.exec now op).2 := by
  obtain ⟨log, hk, he⟩ := h.failures
  cases op with
  | recordFailure w =>
    obtain rfl : w = window := hop
    obtain ⟨hcount, hk⟩ := hk.count hnow
    rw [Keys.exec, if_neg (not_le.mpr hw)]
    exact ⟨congrArg (fun n => Except.ok (Reply.count n)) (hcount.trans (Entry.length_recordFailure he).symm), ⟨_, hk, he.record⟩, h.frozen⟩
  | trip freezeFor =>
    obtain ⟨hpos, hms⟩ := hop
    have hdiv : freezeFor.tdiv 1000000 * 1000000 = freezeFor := Int.tdiv_mul_cancel hms
    rw [Keys.exec, if_neg (not_le.mpr hpos)]
    refine ⟨rfl, h.failures, fun t _ => ?_⟩
    simp only [Entry.exec, Entry.trip, Entry.OpenAt, Option.mem_some_iff, exists_eq_left']
    rw [if_neg (by omega), hdiv]
  | isOpen =>
    have hopen : decide (now < k.frozen) = (e.isOpen now).1 := by rw [Bool.eq_iff_iff, decide_eq_true_iff, h.frozen now le_rfl, Entry.isOpen_iff]
    refine ⟨congrArg (fun b => Except.ok (Reply.opened b)) hopen, ⟨log, hk, ?_⟩, fun t ht => (h.frozen t ht).trans (Entry.isOpen_openAt ht).symm⟩
    show Exact window now (e.isOpen now).2.failures log
    rwa [Entry.isOpen_failures]
  | reset => exact ⟨rfl, .gone now⟩

theorem replies_agree (hw : 0 < window) : ∀ (l : List (Time × UUID × Op)) (start : ℤ) (r : Redis) (s : InMemory), 0 ≤ start →
    (start :: l.map (·.1)).Pairwise (· ≤ ·) → (∀ c ∈ l, c.2.1 ≠ UUID.Nil ∧ c.2.2.Fits window) → (∀ x, Agree window start (r x) (s x)) →
    replies Redis.exec r l = replies InMemory.exec s l
  | [], _, _, _, _, _, _, _ => rfl
  | (now, x, op) :: l, start, r, s, h0, hl, hops, h => by
    obtain ⟨⟨hx, hop⟩, hops⟩ := forall_mem_cons.mp hops
    have hnow : start ≤ now := rel_of_pairwise_cons hl mem_cons_self
    obtain ⟨hreply, hnext⟩ := ((h x).later hnow).exec hw (h0.trans hnow) hop
    rw [replies, replies, Redis.exec, if_neg hx]
    refine congrArg₂ List.cons hreply (replies_agree hw l now _ _ (h0.trans hnow) hl.of_cons hops fun y => ?_)
    by_cases hy : y = x
    · subst hy
      simpa [InMemory.exec] using hnext
    · simpa [InMemory.exec, Function.update_of_ne hy] using (h y).later hnow

end Agree

end Crm.CustomDomain.Breaker
