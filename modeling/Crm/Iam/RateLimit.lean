import Crm.Basic
import Crm.Lib.SlidingWindow

/-!
# Crm.Iam.RateLimit — policies and the sliding-window limiter

`internal/iam/ratelimit` with the table of default policies, and the Redis adapter: the script keeps the whole milliseconds of the hits of a key, and
one call of `allow` is one run of it.  `slidingScript_accept` reads the script as the counter of `SlidingWindow`.
-/

namespace Crm.Iam

open List

def second : ℤ := 1000000000

def minute : ℤ := 60 * second

def hour : ℤ := 60 * minute

/-! ## Policies -/

structure Bucket where
  name : String
  window : ℤ
  max : ℤ
  deriving DecidableEq, Repr

structure Lockout where
  threshold : ℤ
  duration : ℤ
  alertOnLock : Bool
  deriving DecidableEq, Repr

structure Policy where
  name : String
  buckets : List Bucket
  lockout : Lockout
  deriving DecidableEq, Repr

def invalidPolicy (msg : String) : Err := .detail .ratelimitInvalidPolicy (.other msg)

def quoted (s : String) : String := "\"" ++ s ++ "\""

def checkBuckets (name : String) : ℕ → List String → List Bucket → Except Err Unit
  | _, _, [] => .ok ()
  | i, seen, b :: buckets =>
    if b.name = "" then .error (invalidPolicy (quoted name ++ " bucket #" ++ toString i ++ ": name is empty"))
    else if b.window ≤ 0 then .error (invalidPolicy (quoted name ++ " bucket " ++ quoted b.name ++ ": window must be > 0"))
    else if b.max ≤ 0 then .error (invalidPolicy (quoted name ++ " bucket " ++ quoted b.name ++ ": max must be > 0"))
    else if b.name ∈ seen then .error (invalidPolicy (quoted name ++ " bucket " ++ quoted b.name ++ ": duplicate name"))
    else checkBuckets name (i + 1) (b.name :: seen) buckets

def newPolicy (name : String) (buckets : List Bucket) (lockout : Lockout) : Except Err Policy := do
  if name = "" then throw (invalidPolicy "name is empty")
  if buckets = [] then throw (invalidPolicy (quoted name ++ " has no buckets"))
  checkBuckets name 0 [] buckets
  if lockout.threshold < 0 then throw (invalidPolicy (quoted name ++ " lockout threshold must be >= 0"))
  if lockout.duration < 0 then throw (invalidPolicy (quoted name ++ " lockout duration must be >= 0"))
  if 0 < lockout.threshold ∧ lockout.duration = 0 then
    throw (invalidPolicy (quoted name ++ " lockout threshold > 0 requires duration > 0"))
  return ⟨name, buckets, lockout⟩

def Policy.lockoutEnabled (p : Policy) : Bool := 0 < p.lockout.threshold ∧ 0 < p.lockout.duration

def loginPolicy : Policy := ⟨"login", [⟨"ip", minute, 5⟩, ⟨"email", hour, 10⟩], ⟨10, 15 * minute, false⟩⟩

def mLoginPolicy : Policy := ⟨"m_login", [⟨"ip", minute, 3⟩, ⟨"email", hour, 5⟩], ⟨5, 30 * minute, true⟩⟩

def policySpecs : List Policy := [
  loginPolicy,
  ⟨"2fa_verify", [⟨"session", minute, 5⟩, ⟨"user", hour, 20⟩], ⟨0, 0, false⟩⟩,
  ⟨"password_reset", [⟨"ip", hour, 3⟩, ⟨"email", hour, 3⟩], ⟨0, 0, false⟩⟩,
  mLoginPolicy,
  ⟨"m_2fa_verify", [⟨"session", minute, 3⟩, ⟨"user", hour, 10⟩], ⟨0, 0, false⟩⟩]

def defaultPolicies : Except Err (List (String × Policy)) :=
  policySpecs.mapM fun p => return (p.name, ← newPolicy p.name p.buckets p.lockout)

/-! ## The limiter -/

def unixMilli (t : Time) : ℤ := t / 1000000

def milliseconds (d : ℤ) : ℤ := Int.tdiv d 1000000

theorem unixMilli_mono {t t' : Time} (h : t ≤ t') : unixMilli t ≤ unixMilli t' := Int.ediv_le_ediv (by decide) h

/-- A deadline that is stored in whole microseconds is a full duration away, in whole milliseconds. -/
theorem unixMilli_deadline {d : ℤ} (hd : 0 ≤ d) (t : Time) : unixMilli t + milliseconds d ≤ unixMilli (timestamptz (t + d)) := by
  unfold unixMilli milliseconds timestamptz
  rw [Int.tdiv_eq_ediv_of_nonneg hd]
  omega

/-- In whole milliseconds a window holds the same instants. -/
theorem unixMilli_window {start d t : ℤ} (hstart : (1000000 : ℤ) ∣ start) (hd : (1000000 : ℤ) ∣ d) (hpos : 0 ≤ d) :
    (start ≤ t ∧ t < start + d) ↔ unixMilli start ≤ unixMilli t ∧ unixMilli t < unixMilli start + milliseconds d := by
  unfold unixMilli milliseconds
  rw [Int.tdiv_eq_ediv_of_nonneg hpos]
  omega

/-- The wait until the oldest hit leaves the window. -/
def retry (now window : ℤ) (hits : List ℤ) : ℤ :=
  match hits.min? with
  | none => window
  | some oldest => if 0 < oldest + window - now then oldest + window - now else 1

/-- The script on one key: whether the hit is allowed, the suggested wait, and the scores that it leaves. -/
def slidingScript (now window max : ℤ) (hits : List ℤ) : (Bool × ℤ) × List ℤ :=
  let cutoff := now - window
  let kept := hits.filter fun h => cutoff < h
  if max ≤ kept.length then ((false, retry now window kept), kept) else ((true, 0), kept ++ [now])

abbrev Redis : Type := String → List ℤ

def Redis.allow (key : String) (window max : ℤ) (now : Time) (R : Redis) : Except Err (Bool × ℤ) × Redis :=
  if key = "" then (.error (.other "redis/ratelimit: empty key"), R)
  else if window ≤ 0 then (.error (.other "redis/ratelimit: window must be > 0"), R)
  else if max ≤ 0 then (.error (.other "redis/ratelimit: max must be > 0"), R)
  else
    let ((allowed, retryMs), hits) := slidingScript (unixMilli now) (milliseconds window) max (R key)
    (.ok (allowed, retryMs * 1000000), Function.update R key hits)

section

variable {now window max : ℤ} {hits : List ℤ}

theorem slidingScript_accept : ((slidingScript now window max hits).1.1, (slidingScript now window max hits).2) =
    SlidingWindow.accept window max now hits := by
  unfold slidingScript SlidingWindow.accept SlidingWindow.live
  dsimp only
  split_ifs <;> rfl

variable {key : String} {t : Time} {R : Redis}

/-- A call with a usable key and policy is answered as the counter answers. -/
theorem Redis.allow_eq (hk : key ≠ "") (hw : 0 < window) (hm : 0 < max) :
    ∃ wait, Redis.allow key window max t R =
      (.ok ((SlidingWindow.accept (milliseconds window) max (unixMilli t) (R key)).1, wait),
        Function.update R key (SlidingWindow.accept (milliseconds window) max (unixMilli t) (R key)).2) := by
  refine ⟨(slidingScript (unixMilli t) (milliseconds window) max (R key)).1.2 * 1000000, ?_⟩
  rw [Redis.allow, if_neg hk, if_neg (not_le.mpr hw), if_neg (not_le.mpr hm), ← slidingScript_accept]

/-- What a call does to a log of the hits that were let through. -/
theorem Redis.allow_log {t₀ : ℤ} {log : List ℤ} (hk : key ≠ "") (hw : 0 < window) (hm : 0 < max)
    (hcov : SlidingWindow.Covers (milliseconds window) t₀ (R key) log) (hcap : SlidingWindow.Capped (milliseconds window) max log)
    (ht : t₀ ≤ unixMilli t) :
    ∃ allowed wait R', Redis.allow key window max t R = (.ok (allowed, wait), R') ∧
      SlidingWindow.Covers (milliseconds window) (unixMilli t) (R' key) (if allowed = true then unixMilli t :: log else log) ∧
      SlidingWindow.Capped (milliseconds window) max (if allowed = true then unixMilli t :: log else log) := by
  obtain ⟨wait, hallow⟩ := Redis.allow_eq (t := t) (R := R) hk hw hm
  refine ⟨_, wait, _, hallow, ?_, ?_⟩
  · rw [Function.update_self]
    exact hcov.accept ht
  · split_ifs with hin
    · exact hcap.accept (hcov.later ht) hin
    · exact hcap

theorem Redis.allow_of_ne {key' : String} (h : key' ≠ key) : (Redis.allow key window max t R).2 key' = R key' := by
  unfold Redis.allow
  split_ifs
  · rfl
  · rfl
  · rfl
  · exact Function.update_of_ne h _ _

/-- The answer and what is left of the key depend on the key alone. -/
theorem Redis.allow_congr (window max : ℤ) (t : Time) {R' : Redis} (h : R key = R' key) :
    (Redis.allow key window max t R).1 = (Redis.allow key window max t R').1 ∧
      (Redis.allow key window max t R).2 key = (Redis.allow key window max t R').2 key := by
  unfold Redis.allow
  rw [h]
  split_ifs
  · exact ⟨rfl, h⟩
  · exact ⟨rfl, h⟩
  · exact ⟨rfl, h⟩
  · exact ⟨rfl, by simp⟩

end

/-! ## Exactness -/

section Exact

open SlidingWindow

/-- The script on a key with the deadline that `PEXPIRE` gave it, in milliseconds. -/
def evalScript (now window max : ℤ) (key : List ℤ × ℤ) : (Bool × ℤ) × (List ℤ × ℤ) :=
  let hits := if key.2 ≤ now then [] else key.1
  let ((allowed, retryMs), hits) := slidingScript now window max hits
  ((allowed, retryMs), hits, if allowed then now + window * 2 else key.2)

structure Answer where
  time : ℤ
  allowed : Bool
  retry : ℤ

/-- The answers to calls for one key at non-decreasing times, newest first, and what they leave of the key. -/
inductive Calls (window max : ℤ) : List Answer → List ℤ × ℤ → Prop
  | nil : Calls window max [] ([], 0)
  | call {log : List Answer} {key : List ℤ × ℤ} (t : ℤ) (h : Calls window max log key) (ht : ∀ x ∈ log, x.time ≤ t) :
    Calls window max (⟨t, (evalScript t window max key).1.1, (evalScript t window max key).1.2⟩ :: log) (evalScript t window max key).2

def admitted (log : List Answer) : List ℤ := (log.filter Answer.allowed).map Answer.time

variable {window max : ℤ} {log l l' : List Answer} {key : List ℤ × ℤ} {x : Answer} {t : ℤ}

theorem admitted_cons : admitted (x :: log) = if x.allowed = true then x.time :: admitted log else admitted log := by
  cases hx : x.allowed <;> simp [admitted, hx]

theorem le_of_mem_admitted (ht : ∀ x ∈ log, x.time ≤ t) : ∀ y ∈ admitted log, y ≤ t := by
  simp only [admitted, mem_map, mem_filter]
  rintro _ ⟨x, ⟨hx, -⟩, rfl⟩
  exact ht x hx

theorem evalScript_accept : ((evalScript t window max key).1.1, (evalScript t window max key).2.1) =
    accept window max t (if key.2 ≤ t then [] else key.1) := slidingScript_accept

/-- From `t` on the key counts as the calls that were allowed do. -/
def Counts (window t : ℤ) (key : List ℤ × ℤ) (log : List Answer) : Prop :=
  ∀ t', t ≤ t' → ∀ c, t' - window ≤ c → since c (if key.2 ≤ t' then [] else key.1) = since c (admitted log)

theorem since_eq_zero {c : ℤ} {hits : List ℤ} (h : ∀ x ∈ hits, x ≤ c) : since c hits = 0 :=
  countP_eq_zero.mpr fun x hx => by simpa using h x hx

/-- The deadline never drops a hit that still counts. -/
theorem Counts.call (hw : 0 < window) (ht : ∀ x ∈ log, x.time ≤ t) (h : Counts window t key log) :
    Counts window t (evalScript t window max key).2 (⟨t, (evalScript t window max key).1.1, (evalScript t window max key).1.2⟩ :: log) := by
  intro t' htt c hc
  have hnext : since c (accept window max t (if key.2 ≤ t then [] else key.1)).2 = _ := since_accept (show t - window ≤ c by omega)
  rw [h t le_rfl c (by omega), ← evalScript_accept] at hnext
  have hdeadline : (evalScript t window max key).2.2 = if (evalScript t window max key).1.1 then t + window * 2 else key.2 := rfl
  rw [admitted_cons, hdeadline]
  cases hin : (evalScript t window max key).1.1 with
  | false =>
    simp only [hin, Bool.false_eq_true, if_false, false_and] at hnext ⊢
    split_ifs with hexp
    · simpa [hexp] using h t' htt c hc
    · exact hnext
  | true =>
  simp only [hin, if_true, true_and] at hnext ⊢
  split_ifs with hexp
  · refine (since_eq_zero fun y hy => ?_).symm
    rcases mem_cons.mp hy with rfl | hy
    · omega
    · have := le_of_mem_admitted ht y hy
      omega
  · rw [hnext, since_cons]

theorem Calls.counts (hw : 0 < window) (h : Calls window max log key) (ht : ∀ x ∈ log, x.time ≤ t) : Counts window t key log := by
  induction h generalizing t with
  | nil => exact fun t' _ c _ => by simp [admitted]
  | call t₀ _ ht0 ih =>
    exact fun t' ht' => Counts.call hw ht0 (ih ht0) t' ((ht _ mem_cons_self).trans ht')

theorem Calls.capped (hw : 0 < window) (hm : 0 ≤ max) (h : Calls window max log key) : Capped window max (admitted log) := by
  induction h with
  | nil => exact fun y => by simpa [admitted, within] using hm
  | @call log key t h ht ih =>
    have hcov : Covers window t (if key.2 ≤ t then [] else key.1) (admitted log) := fun c hc => (h.counts hw ht t le_rfl c hc).ge
    rw [admitted_cons]
    split_ifs with hin
    · exact ih.accept hcov (by rw [← evalScript_accept]; exact hin)
    · exact ih

theorem Calls.cut (h : Calls window max log key) (hlog : log = l ++ x :: l') : ∃ key', Calls window max l' key' ∧ (∀ e ∈ l', e.time ≤ x.time) ∧
    x.allowed = (evalScript x.time window max key').1.1 ∧ x.retry = (evalScript x.time window max key').1.2 := by
  induction h generalizing l with
  | nil => cases l <;> cases hlog
  | call t h ht ih =>
    cases l with
    | nil =>
      obtain ⟨rfl, rfl⟩ := List.cons.inj hlog
      exact ⟨_, h, ht, rfl, rfl⟩
    | cons e l => exact ih (List.cons.inj hlog).2

theorem Calls.allowed_iff (hw : 0 < window) (h : Calls window max log key) (hlog : log = l ++ x :: l') :
    x.allowed = true ↔ (since (x.time - window) (admitted l') : ℤ) < max := by
  obtain ⟨key', h', ht, ha, -⟩ := h.cut hlog
  have hiff : (accept window max x.time (if key'.2 ≤ x.time then [] else key'.1)).1 = true ↔ _ := accept_iff
  rwa [← evalScript_accept, ← ha, h'.counts hw ht x.time le_rfl _ le_rfl] at hiff

theorem since_lt_length {c y : ℤ} {hits : List ℤ} (h : hits.min? = some y) : since c hits < hits.length ↔ y ≤ c := by
  obtain ⟨hy, hmin⟩ := min?_eq_some_iff.mp h
  rw [since, lt_iff_le_and_ne, and_iff_right countP_le_length, Ne, countP_eq_length]
  constructor
  · intro hne
    by_contra hc
    exact hne fun x hx => by simpa using (not_le.mp hc).trans_le (hmin x hx)
  intro hc hall
  have := hall y hy
  simp at this
  omega

/-- **The limiter is exact.**  No window holds more than `max` allowed calls; a call is refused when its window is full, and only then; and the
wait that a refused call is told is the least one after which a call is allowed, if none is in between. -/
theorem limiter_exact (hw : 0 < window) (hm : 1 ≤ max) (h : Calls window max log key) :
    Capped window max (admitted log) ∧
      (∀ l x l', log = l ++ x :: l' → (x.allowed = false ↔ (since (x.time - window) (admitted l') : ℤ) = max)) ∧
      ∀ l x l', log = l ++ x :: l' → x.allowed = false → 0 < x.retry ∧
        ∀ l₁ x' l₂, l = l₁ ++ x' :: l₂ → (∀ e ∈ l₂, e.allowed = false) → (x'.allowed = true ↔ x.time + x.retry ≤ x'.time) := by
  have hfull : ∀ l x l', log = l ++ x :: l' → (x.allowed = false ↔ (since (x.time - window) (admitted l') : ℤ) = max) := by
    intro l x l' hlog
    obtain ⟨key', h', ht, -⟩ := h.cut hlog
    have hle : since (x.time - window) (admitted l') ≤ within window (x.time - window + 1) (admitted l') := by
      refine countP_mono_left fun y hy hc => ?_
      have := le_of_mem_admitted ht y hy
      simp only [decide_eq_true_eq] at hc ⊢
      omega
    have hcap := h'.capped hw (by omega) (x.time - window + 1)
    rw [← Bool.not_eq_true, h.allowed_iff hw hlog]
    omega
  refine ⟨h.capped hw (by omega), hfull, fun l x l' hlog hx => ?_⟩
  obtain ⟨key', h', ht, ha, hr⟩ := h.cut hlog
  obtain ⟨hits, hhits⟩ : ∃ hits, hits = if key'.2 ≤ x.time then [] else key'.1 := ⟨_, rfl⟩
  have hcounts := h'.counts hw ht x.time le_rfl
  rw [← hhits] at hcounts
  have hlen : ((live window x.time hits).length : ℤ) = max := by
    rw [length_live, hcounts _ le_rfl]
    exact (hfull l x l' hlog).mp hx
  -- the wait ends when the oldest hit leaves the window
  cases hmin : (live window x.time hits).min? with
  | none =>
    rw [min?_eq_none_iff.mp hmin, length_nil] at hlen
    omega
  | some y =>
  have hy : x.time - window < y := by simpa [live] using (mem_filter.mp (min?_mem hmin)).2
  have hretry : x.retry = y + window - x.time := by
    rw [hr, evalScript, ← hhits, slidingScript]
    simp only [show (hits.filter fun h => decide (x.time - window < h)) = live window x.time hits from rfl, hlen.ge, if_true, Iam.retry, hmin]
    exact if_pos (by omega)
  refine ⟨by omega, fun l₁ x' l₂ hl hden => ?_⟩
  subst hl
  have hlog' : log = l₁ ++ x' :: (l₂ ++ x :: l') := by simp [hlog]
  obtain ⟨-, -, ht', -⟩ := h.cut hlog'
  have hxx := ht' x (by simp)
  have hnone : l₂.filter Answer.allowed = [] := filter_eq_nil_iff.mpr fun e he => by simp [hden e he]
  have hadm : admitted (l₂ ++ x :: l') = admitted l' := by simp [admitted, hx, hnone]
  rw [h.allowed_iff hw hlog', hadm, ← hcounts _ (by omega), ← since_live (show x.time - window ≤ x'.time - window by omega), ← hlen, Nat.cast_lt,
    since_lt_length hmin]
  omega

theorem limiter_exact_one : ∃ log key, Calls 10 1 log key ∧ log.map Answer.allowed = [true, false, true] ∧ log.map Answer.retry = [0, 6, 0] ∧
    Capped 10 1 (admitted log) := by
  have h : Calls 10 1 _ _ := .call 20 (.call 14 (.call 10 .nil (by simp)) (by simp)) (by simp)
  exact ⟨_, _, h, by decide, by decide, (limiter_exact (by decide) le_rfl h).1⟩

end Exact

end Crm.Iam
