import Crm.Wallet.Runs

/-!
# Crm.Wallet.Replay — one reservation per idempotency key

Two reserves under one key can both miss the lookup and draw different reservation ids; the unique index lets one of
them in, and the other comes back with the winner's id.  None of this depends on the version stamp.

What a single call does with its answers is read off its program (`reserve_always`): a lookup that finds the key under another
kind or amount is its last request, and an `ApplyWithLock` it goes on after has not written.
-/

namespace Crm.Wallet

open Int64Arith Interleave Crm.Store Crm.Grant List

/-- The row found under the key is no reserve row of amount `a`. -/
def Conflicting (a : ℤ) (prior : LedgerEntry) : Prop := prior.kind ≠ .reserve ∨ wrap (-prior.amount) ≠ a

def ReservePass (a : ℤ) : (q : Req) → Resp q → Client (Attempt (Except Err Reservation)) → Prop
  | .loadByTenant _, _, _ => True
  | .lookupByIdempotencyKey _ _ _, .ok prior, p => Conflicting a prior → p = .ret (.done (.error .idempotencyConflict))
  | .lookupByIdempotencyKey _ _ _, .error _, _ => True
  | .clock, _, _ => True
  | .newUUID, _, _ => True
  | .applyWithLock _ _, r, p => ∃ x, p = .ret (settle r x)
  | _, _, _ => False

/-- The same of the whole call: it goes on after `ApplyWithLock` only on a conflict. -/
def ReserveCall (a : ℤ) : (q : Req) → Resp q → Client (Except Err Reservation) → Prop
  | .loadByTenant _, _, _ => True
  | .lookupByIdempotencyKey _ _ _, .ok prior, p => Conflicting a prior → p = .ret (.error .idempotencyConflict)
  | .lookupByIdempotencyKey _ _ _, .error _, _ => True
  | .clock, _, _ => True
  | .newUUID, _, _ => True
  | .applyWithLock _ _, r, p => (∃ q k, p = .ask q k) → ∃ e, r = .error e ∧ retryable e = true
  | _, _, _ => False

variable {a : ℤ}

theorem replayReserve_conflict {k : String} {prior : LedgerEntry} (h : Conflicting a prior) :
    replayReserve prior a k = .error .idempotencyConflict := by
  unfold replayReserve
  rcases h with h | h
  · rw [if_pos h]
  · split_ifs
    · rfl
    · rfl

theorem reserveAttempt_always (t : UUID) (a : ℤ) (k : String) : (reserveAttempt t a k).Always (ReservePass a) := by
  simp only [reserveAttempt, Prog.send_bind, Prog.pure_eq]
  intro r
  refine ⟨trivial, ?_⟩
  cases r with
  | error e => trivial
  | ok w =>
  intro r
  cases r with
  | ok prior => exact ⟨fun h => congrArg (fun x => Prog.ret (Attempt.done x)) (replayReserve_conflict h), trivial⟩
  | error e =>
  refine ⟨trivial, ?_⟩
  dsimp only
  split_ifs
  swap
  · trivial
  intro now
  refine ⟨trivial, ?_⟩
  dsimp only
  split
  · trivial
  · exact fun rid => ⟨trivial, fun entryID => ⟨trivial, fun r => ⟨⟨_, rfl⟩, trivial⟩⟩⟩

/-- A pass that is followed by another one has not written. -/
theorem ReservePass.call {f : Attempt (Except Err Reservation) → Client (Except Err Reservation)} (hdone : ∀ x, f (.done x) = .ret x) (q : Req)
    (r : Resp q) (p : Client (Attempt (Except Err Reservation))) (h : ReservePass a q r p) : ReserveCall a q r (p >>= f) := by
  cases q with
  | lookupByIdempotencyKey t w k =>
    cases r with
    | ok prior =>
      intro hc
      rw [h hc]
      exact hdone _
    | error e => trivial
  | applyWithLock w entries =>
    obtain ⟨x, rfl⟩ := h
    rintro ⟨q, k, hk⟩
    have hk : f (settle r x) = .ask q k := hk
    cases r with
    | ok _ =>
      rw [settle, hdone] at hk
      cases hk
    | error e =>
    cases he : retryable e with
    | true => exact ⟨e, rfl, he⟩
    | false =>
    simp only [settle, he, Bool.false_eq_true, if_false, hdone] at hk
    cases hk
  | loadByTenant _ => trivial
  | clock => trivial
  | newUUID => trivial
  | _ => exact h.elim

theorem retry_always {msg : String} {attempt : Client (Attempt (Except Err Reservation))} (h : attempt.Always (ReservePass a)) :
    ∀ (n : ℕ) (last : Option Err), (retry msg attempt n last).Always (ReserveCall a) := by
  intro n
  induction n with
  | zero => exact fun _ => trivial
  | succ n ih =>
    intro last
    refine Prog.Always.bind (ReservePass.call fun _ => rfl) ?_ h
    intro x
    cases x with
    | done x => trivial
    | again e => exact ih _

theorem reserve_always (t : UUID) (a : ℤ) (k : String) : (reserve t a k).Always (ReserveCall a) := by
  unfold reserve
  split_ifs
  · trivial
  · trivial
  · split
    · trivial
    · exact retry_always (reserveAttempt_always t a k) _ _

/-- A conflict that is retried has left the store alone. -/
theorem not_fault_of_retryable {e : Err} (h : retryable e = true) : ¬ e.fault := by
  intro hf
  simp [retryable, Err.not_is_of_fault hf Err.not_fault_versionConflict,
    Err.not_is_of_fault hf Err.not_fault_idempotencyConflict] at h

theorem ReserveCall.store_eq {q : Req} {r : Resp q} {p : Client (Except Err Reservation)} {s s' : DB} (h : ReserveCall a q r p)
    (hp : ∃ q' k', p = .ask q' k') (he : exec q s r s') : s' = s := by
  cases q with
  | loadByTenant _ => exact he.1
  | lookupByIdempotencyKey _ _ _ => exact he.1
  | clock => exact he
  | newUUID => exact he
  | applyWithLock w entries =>
    obtain ⟨e, rfl, hr⟩ := h hp
    obtain ⟨now, htx⟩ := he
    exact (htx.of_error (not_fault_of_retryable hr)).2
  | _ => exact h.elim

section Calls

variable {db : DB} {σ : Cfg} {i : ℕ} {t : UUID} {a : ℤ} {k : String}

/-- The requests of a reserve call that was invoked lead from its program to where it stands. -/
theorem reserve_path (hr : WalletReach db σ) (hinv : .invoke i (.reserve t a k) ∈ σ.world.hist) :
    ∃ p, (reserve t a k).Path (σ.world.trace i) p ∧
      (σ.pool i = .running (.reserve t a k) p ∨ ∃ x, p = .ret x ∧ .respond i (.reserve t a k) x ∈ σ.world.hist) := by
  have hag := Reach.agrees hr i
  cases hp : σ.pool i with
  | idle =>
    rw [hp] at hag
    exact absurd rfl (hag _ hinv)
  | running c p =>
    rw [hp] at hag
    obtain ⟨hpath, -, hc, -⟩ := hag
    obtain rfl := hc _ hinv
    exact ⟨p, hpath, .inl rfl⟩
  | done =>
  rw [hp] at hag
  obtain ⟨c, x, hpath, -, hc, hresp, -⟩ := hag
  obtain rfl := hc _ hinv
  exact ⟨_, hpath, .inr ⟨x, rfl, hresp⟩⟩

/-- A lookup that finds a conflict is the last request of its call, and no request of the call has written. -/
theorem reserve_conflict (hr : WalletReach db σ) (hinv : .invoke i (.reserve t a k) ∈ σ.world.hist)
    {t' wid : UUID} {k' : String} {prior : LedgerEntry} {pre post : DB}
    (hact : .act i (.lookupByIdempotencyKey t' wid k') (.ok prior) pre post ∈ σ.world.hist) (hc : Conflicting a prior) :
    (σ.pool i = .running (.reserve t a k) (.ret (.error .idempotencyConflict)) ∨
        .respond i (.reserve t a k) (.error .idempotencyConflict) ∈ σ.world.hist) ∧
      ∀ q r pre post, .act i q r pre post ∈ σ.world.hist → post = pre := by
  obtain ⟨p, hpath, hend⟩ := reserve_path hr hinv
  have halways := reserve_always t a k
  have hmem : (⟨.lookupByIdempotencyKey t' wid k', .ok prior⟩ : Σ q, Resp q) ∈ σ.world.trace i :=
    World.mem_trace.mpr ⟨pre, post, hact⟩
  cases htrace : σ.world.trace i with
  | nil => rw [htrace] at hmem; cases hmem
  | cons x l =>
  rw [htrace] at hpath hmem
  have htail := hpath.always_tail halways
  -- were it not the last request, the program after it would be a return that asks
  obtain rfl : x = ⟨.lookupByIdempotencyKey t' wid k', .ok prior⟩ := by
    rcases mem_cons.mp hmem with h | h
    · exact h.symm
    · obtain ⟨q, k, hk⟩ := htail _ h
      cases hk hc
  have hp : p = .ret (.error .idempotencyConflict) := hpath.always_head halways hc
  subst hp
  refine ⟨?_, ?_⟩
  · rcases hend with h | ⟨x, hx, hresp⟩
    · exact .inl h
    · cases hx
      exact .inr hresp
  intro q r pre' post' h
  have hq : (⟨q, r⟩ : Σ q, Resp q) ∈ σ.world.trace i := World.mem_trace.mpr ⟨pre', post', h⟩
  rw [htrace] at hq
  rcases mem_cons.mp hq with hq | hq
  · cases hq
    exact (hr.act_exec h).1
  · obtain ⟨q', k', hk⟩ := htail _ hq
    exact hk.store_eq ⟨q', k', rfl⟩ (hr.act_exec h)

end Calls

theorem length_filter_le_one {α β : Type} [DecidableEq β] {l : List α} {f : α → β} (h : (l.map f).Nodup) (b : β) :
    (l.filter fun x => f x = b).length ≤ 1 := by
  have hsub : ((l.filter fun x => f x = b).map f).Nodup := h.sublist (filter_sublist.map f)
  have hrep : (l.filter fun x => f x = b).map f = List.replicate (l.filter fun x => f x = b).length b := by
    rw [eq_replicate_iff]
    refine ⟨length_map _, fun y hy => ?_⟩
    obtain ⟨x, hx, rfl⟩ := mem_map.mp hy
    simpa using (mem_filter.mp hx).2
  rw [hrep] at hsub
  exact nodup_replicate.mp hsub

end Crm.Wallet
