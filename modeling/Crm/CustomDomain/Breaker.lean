import Crm.Basic
import Crm.Lib.SlidingWindow
import Crm.Lib.Uuid

/-!
# Crm.CustomDomain.Breaker — the circuit breaker of certificate issuance

The use case of `internal/customdomain/circuitbreaker` over its state in memory.  `RecordFailure` trips the breaker whenever `Threshold` failures lie in the
window, whether it is open or not, so failures that keep coming trip it again and again (`trips_again`); `trips_once` is the part that holds.
-/

open List

namespace Crm.CustomDomain.Breaker

open SlidingWindow

def second : ℤ := 1000000000

/-! ## The state in memory -/

/-- What `InMemoryState` holds for a tenant; `frozen` is the deadline of the freeze. -/
structure Entry where
  failures : List Time
  frozen : Option Time

namespace Entry

def recordFailure (e : Entry) (now : Time) (window : ℤ) : ℤ × Entry :=
  let kept := record window now e.failures
  (kept.length, { e with failures := kept })

def trip (e : Entry) (now : Time) (freezeFor : ℤ) : Entry := { e with frozen := some (now + freezeFor) }

def isOpen (e : Entry) (now : Time) : Bool × Entry :=
  match e.frozen with
  | none => (false, e)
  | some deadline => if now < deadline then (true, e) else (false, { e with frozen := none })

/-- The freeze lasts beyond `t`. -/
def OpenAt (e : Entry) (t : Time) : Prop := ∃ deadline ∈ e.frozen, t < deadline

variable {e : Entry} {now t : ℤ}

theorem isOpen_iff : (e.isOpen now).1 = true ↔ e.OpenAt now := by
  unfold isOpen OpenAt
  cases hf : e.frozen with
  | none => simp
  | some d => by_cases hd : now < d <;> simp [hd]

theorem isOpen_failures : (e.isOpen now).2.failures = e.failures := by
  unfold isOpen
  split
  · rfl
  · split_ifs <;> rfl

theorem isOpen_openAt (ht : now ≤ t) : (e.isOpen now).2.OpenAt t ↔ e.OpenAt t := by
  unfold isOpen OpenAt
  cases hf : e.frozen with
  | none => simp [hf]
  | some d =>
  dsimp only
  split_ifs with hd
  · rw [hf]
  · simpa using (not_lt.mp hd).trans ht

theorem length_recordFailure {window : ℤ} {log : List ℤ} (h : Exact window now e.failures log) :
    (e.recordFailure now window).1 = since (now - window) log + 1 := by
  rw [recordFailure, length_record, h _ le_rfl]
  push_cast
  rfl

end Entry

abbrev InMemory : Type := UUID → Entry

def InMemory.new : InMemory := fun _ => ⟨[], none⟩

/-! ## The use case -/

structure Config where
  threshold : ℤ
  window : ℤ
  freezeFor : ℤ

def defaultConfig : Config := ⟨5, 3600 * second, 24 * 3600 * second⟩

inductive Call : Type
  | recordFailure
  | recordSuccess
  | isOpen
  deriving DecidableEq

inductive Answer : Type
  -- the count that the alert names, if the call trips the breaker
  | tripped (alert : Option ℤ)
  | opened (b : Bool)
  | done
  deriving DecidableEq

def Call.exec (cfg : Config) (now : Time) : Call → Entry → Answer × Entry
  | .recordFailure, e =>
    let r := e.recordFailure now cfg.window
    if r.1 < cfg.threshold then (.tripped none, r.2) else (.tripped (some r.1), r.2.trip now cfg.freezeFor)
  | .recordSuccess, _ => (.done, ⟨[], none⟩)
  | .isOpen, e => (e.isOpen now).map .opened id

abbrev Event : Type := Time × UUID × Call

def call (cfg : Config) (s : InMemory) (c : Event) : Except Err Answer × InMemory :=
  if c.2.1 = UUID.Nil then (.error (.other "circuitbreaker: tenantID must not be uuid.Nil"), s)
  else
    let r := c.2.2.exec cfg c.1 (s c.2.1)
    (.ok r.1, Function.update s c.2.1 r.2)

def after (cfg : Config) (l : List Event) : InMemory := l.foldl (fun s c => (call cfg s c).2) .new

def Call.logged (now : Time) : Call → List Time → List Time
  | .recordFailure, log => now :: log
  | .recordSuccess, _ => []
  | .isOpen, log => log

def failureLog (x : UUID) (l : List Event) : List Time :=
  l.foldl (fun log c => if c.2.1 = x then c.2.2.logged c.1 log else log) []

/-- A failure at `t` makes fewer than `Threshold` in its window. -/
def Sparse (cfg : Config) (x : UUID) (l : List Event) (t : Time) : Prop := since (t - cfg.window) (failureLog x l) + 1 < cfg.threshold

section UseCase

variable {cfg : Config} {x : UUID} {l l₁ l₂ : List Event} {now t : ℤ} {c : Event}

theorem call_exec (hx : x ≠ UUID.Nil) (s : InMemory) (k : Call) : (call cfg s (now, x, k)).1 = .ok (k.exec cfg now (s x)).1 := by
  rw [call, if_neg hx]

theorem after_append (hx : x ≠ UUID.Nil) : after cfg (l ++ [c]) x = if c.2.1 = x then (c.2.2.exec cfg c.1 (after cfg l x)).2 else after cfg l x := by
  have happend : after cfg (l ++ [c]) = (call cfg (after cfg l) c).2 := foldl_append
  rw [happend, call]
  split_ifs with hnil hc hc
  · exact absurd (hc.symm.trans hnil) hx
  · rfl
  · rw [← hc]
    exact Function.update_self ..
  · exact Function.update_of_ne (Ne.symm hc) ..

theorem failureLog_append : failureLog x (l ++ [c]) = if c.2.1 = x then c.2.2.logged c.1 (failureLog x l) else failureLog x l := foldl_append

theorem Call.exec_exact {e : Entry} {log : List ℤ} (h : Exact cfg.window now e.failures log) :
    ∀ k : Call, Exact cfg.window now (k.exec cfg now e).2.failures (k.logged now log)
  | .recordFailure => by
    unfold Call.exec
    dsimp only
    split_ifs <;> exact h.record
  | .recordSuccess => fun _ _ => rfl
  | .isOpen => by
    show Exact cfg.window now (e.isOpen now).2.failures log
    rwa [Entry.isOpen_failures]

theorem exact_after (hx : x ≠ UUID.Nil) (hl : (l.map Prod.fst ++ [now]).Pairwise (· ≤ ·)) : Exact cfg.window now (after cfg l x).failures (failureLog x l) := by
  induction l using List.reverseRecOn generalizing now with
  | nil => exact fun _ _ => rfl
  | append_singleton l c ih =>
    rw [map_append, pairwise_append] at hl
    have h := ih hl.1
    refine Exact.later ?_ (hl.2.2 c.1 (by simp) now (by simp))
    rw [after_append hx, failureLog_append]
    split_ifs
    · exact Call.exec_exact h c.2.2
    · exact h

theorem exec_sparse (hx : x ≠ UUID.Nil) (hl : (l.map Prod.fst ++ [now]).Pairwise (· ≤ ·)) (h : Sparse cfg x l now) :
    Call.recordFailure.exec cfg now (after cfg l x) = (.tripped none, ((after cfg l x).recordFailure now cfg.window).2) :=
  if_pos ((Entry.length_recordFailure (exact_after hx hl)).trans_lt h)

theorem exec_tripped {e : Entry} {n : ℤ} (h : (Call.recordFailure.exec cfg t e).1 = .tripped (some n)) :
    (Call.recordFailure.exec cfg t e).2.frozen = some (t + cfg.freezeFor) := by
  unfold Call.exec at h ⊢
  dsimp only at h ⊢
  split_ifs at h ⊢ with hcount
  · cases h
  · rfl

/-- **The freeze** ends when it was set to, unless a success or a failure that is not sparse intervenes. -/
theorem openAt_after (hx : x ≠ UUID.Nil) (hfrozen : (after cfg l₁ x).frozen = some (t + cfg.freezeFor))
    (hl : ((l₁ ++ l₂).map Prod.fst ++ [now]).Pairwise (· ≤ ·)) (hreset : ∀ c ∈ l₂, c.2 ≠ (x, .recordSuccess))
    (hsparse : ∀ l c, l ++ [c] <+: l₂ → c.2 = (x, .recordFailure) → Sparse cfg x (l₁ ++ l) c.1) (u : ℤ) (hu : now ≤ u) :
    (after cfg (l₁ ++ l₂) x).OpenAt u ↔ u < t + cfg.freezeFor := by
  induction l₂ using List.reverseRecOn generalizing now with
  | nil => simp [Entry.OpenAt, hfrozen]
  | append_singleton l c ih =>
    obtain ⟨now', y, k⟩ := c
    rw [← append_assoc, map_append, pairwise_append] at hl
    have hnow' : now' ≤ u := (hl.2.2 now' (by simp) now (by simp)).trans hu
    have h := ih hl.1 (fun c hc => hreset c (mem_append_left _ hc)) (fun l' c hc => hsparse l' c (hc.trans (prefix_append ..))) hnow'
    rw [← append_assoc, after_append hx]
    dsimp only
    split_ifs with hy
    · subst hy
      refine Iff.trans ?_ h
      cases k with
      | recordFailure => rw [exec_sparse hx hl.1 (hsparse l _ prefix_rfl rfl)]; rfl
      | recordSuccess => exact absurd rfl (hreset _ (mem_append_right _ mem_cons_self))
      | isOpen => exact Entry.isOpen_openAt hnow'
    · exact h

end UseCase

end Crm.CustomDomain.Breaker
