import Mathlib.Data.List.Basic
import Crm.Basic
import Crm.Inbox.Domain
import Crm.Lib.Interleave

/-!
# Crm.Dispatch.Idempotent — at most one send per key

`internal/adapter/channel/dispatch/idempotent.go`: a decorator of the carrier that claims `(tenant, key)` in an in-process ledger before it sends, and
completes or releases the claim behind the send.  Every method of the ledger is one step (they hold its mutex), and so is the carrier's answer, which is
arbitrary.  `at_most_once`: the ledger's entry of a key is free, held by the one call that is sending, or done with the id of the one send.
-/

namespace Crm.Dispatch

open Interleave Crm.Inbox List Function

structure LedgerResult where
  channelExternalID : String := ""
  done : Bool
  deriving DecidableEq, Repr

/-- The map `entries`. -/
abbrev MemoryLedger : Type := String → Option LedgerResult

def newMemoryLedger : MemoryLedger := fun _ => none

def memKey (tenantID : UUID) (key : String) : String := tenantID.string ++ "|" ++ key

theorem memKey_injective {t t' : UUID} {k k' : String} (h : memKey t k = memKey t' k') : t = t' ∧ k = k' := by
  have hlist := congrArg String.toList h
  simp only [memKey, String.toList_append, append_assoc] at hlist
  obtain ⟨ht, hk⟩ := append_inj hlist (by rw [UUID.length_string, UUID.length_string])
  refine ⟨UUID.string_injective (String.toList_injective ht), String.toList_injective ?_⟩
  exact append_cancel_left hk

namespace MemoryLedger

variable (l : MemoryLedger)

def claim (tenantID : UUID) (key : String) : (LedgerResult × Bool) × MemoryLedger :=
  match l (memKey tenantID key) with
  | some prior => ((prior, false), l)
  | none => ((⟨"", false⟩, true), Function.update l (memKey tenantID key) (some ⟨"", false⟩))

def complete (tenantID : UUID) (key channelExternalID : String) : MemoryLedger :=
  Function.update l (memKey tenantID key) (some ⟨channelExternalID, true⟩)

def release (tenantID : UUID) (key : String) : MemoryLedger := Function.update l (memKey tenantID key) none

end MemoryLedger

/-! ## Requests -/

inductive Req : Type
  | claim (tenantID : UUID) (key : String)
  | complete (tenantID : UUID) (key channelExternalID : String)
  | release (tenantID : UUID) (key : String)
  /-- The carrier's `SendMessage`. -/
  | send (m : OutboundMessage)

abbrev Resp : Req → Type
  | .claim _ _ => Except Err (LedgerResult × Bool)
  | .complete _ _ _ => Except Err Unit
  | .release _ _ => Except Err Unit
  | .send _ => Except Err String

abbrev Client (α : Type) : Type := Prog Req Resp α

/-- The ledger never fails; the carrier accepts with any id, or fails with any error. -/
def exec : (q : Req) → MemoryLedger → Resp q → MemoryLedger → Prop
  | .claim t k, l, r, l' => r = .ok (l.claim t k).1 ∧ l' = (l.claim t k).2
  | .complete t k id, l, r, l' => r = .ok () ∧ l' = l.complete t k id
  | .release t k, l, r, l' => r = .ok () ∧ l' = l.release t k
  | .send _, l, _, l' => l' = l

variable (m : OutboundMessage)

def settle : Except Err String → Client (Except Err String)
  | .error sendErr => do
    let _ ← Prog.send (Req.release m.tenantID m.idempotencyKey)
    return .error sendErr
  | .ok wamid => do
    let _ ← Prog.send (Req.complete m.tenantID m.idempotencyKey wamid)
    return .ok wamid

def claimed : Except Err (LedgerResult × Bool) → Client (Except Err String)
  | .error err => return .error (.detail .inboxChannelTransient (.wrap "idempotency claim" err))
  | .ok (prior, false) =>
    if prior.done then return .ok prior.channelExternalID
    else return .error (.detail .inboxChannelTransient (.other "outbound send already in-flight for idempotency key"))
  | .ok (_, true) => Prog.send (Req.send m) >>= settle m

def sendMessage : Client (Except Err String) :=
  if m.idempotencyKey = "" then Prog.send (Req.send m)
  else Prog.send (Req.claim m.tenantID m.idempotencyKey) >>= claimed m

abbrev Ev : Type := Event Req Resp MemoryLedger OutboundMessage fun _ => Except Err String

abbrev W : Type := World Req Resp MemoryLedger OutboundMessage fun _ => Except Err String

def system : System Req Resp MemoryLedger OutboundMessage fun _ => Except Err String := ⟨exec, sendMessage, fun _ _ => True⟩

def For (t : UUID) (k : String) (m : OutboundMessage) : Prop := m.tenantID = t ∧ m.idempotencyKey = k

instance (t : UUID) (k : String) (m : OutboundMessage) : Decidable (For t k m) := inferInstanceAs (Decidable (_ ∧ _))

def accepts (t : UUID) (k : String) : Ev → Bool
  | .act _ (.send m) (.ok _) _ _ => For t k m
  | _ => false

/-- A call asks the ledger for its own key only, and sends its own message. -/
def Ours : Req → Prop
  | .claim t k => For t k m
  | .complete t k _ => For t k m
  | .release t k => For t k m
  | .send m' => m' = m

theorem sends_sendMessage : (sendMessage m).Sends (Ours m) := by
  unfold sendMessage
  by_cases hk : m.idempotencyKey = ""
  · rw [if_pos hk]
    exact .ask rfl fun r => .ret r
  rw [if_neg hk, Prog.send_bind]
  refine .ask ⟨rfl, rfl⟩ fun r => ?_
  rcases r with e | ⟨prior, _ | _⟩
  · exact .ret _
  · rw [claimed]
    split_ifs <;> exact .ret _
  · refine .ask rfl fun r => ?_
    cases r <;> exact .ask ⟨rfl, rfl⟩ fun _ => .ret _

/-! ## The entry of one key -/

section Key

variable (t : UUID) (k : String)

def accepted (w : W) : List Ev := w.hist.filter (accepts t k)

/-- Call `i` has claimed the key and has not given it back. -/
def Holding (i : ℕ) (w : W) : Prop :=
  (∃ res s s', .act i (.claim t k) (.ok (res, true)) s s' ∈ w.hist) ∧ (∀ r s s', .act i (.release t k) r s s' ∉ w.hist) ∧
    ∀ id r s s', .act i (.complete t k id) r s s' ∉ w.hist

/-- The carrier has accepted a send for the key and answered `id`. -/
def Sent (id : String) (w : W) : Prop := ∃ j m s s', .act j (.send m) (.ok id) s s' ∈ w.hist ∧ For t k m

/-- The entry of the key: free, held by the one call that may be sending, or done. -/
inductive Entry (w : W) : Option LedgerResult → Prop
  | free (hfree : ∀ i, ¬ Holding t k i w) (hnone : accepted t k w = []) : Entry w none
  | busy (i : ℕ) (hi : Holding t k i w) (hone : ∀ j, Holding t k j w → j = i) (hle : (accepted t k w).length ≤ 1) : Entry w (some ⟨"", false⟩)
  | done {id : String} (hfree : ∀ i, ¬ Holding t k i w) (hsent : Sent t k id w) (hle : (accepted t k w).length ≤ 1) : Entry w (some ⟨id, true⟩)

structure Inv (w : W) : Prop where
  entry : Entry t k w (w.store (memKey t k))
  answers : ∀ i m a, .respond i m a ∈ w.hist → ¬ Holding t k i w ∧ (For t k m → ∀ id, a = .ok id → Sent t k id w)

variable {t k} in
theorem Holding.congr {i : ℕ} {u v : W} (h : v.own i = u.own i) : Holding t k i v ↔ Holding t k i u := by
  have hact : ∀ (q : Req) (r : Resp q) (s s' : MemoryLedger), .act i q r s s' ∈ v.hist ↔ .act i q r s s' ∈ u.hist :=
    fun q r s s' => World.mem_own_iff h rfl
  simp only [Holding, hact]

/-- Nobody else touches the entry while a call holds it, nor has a send for the key accepted. -/
def spec : Spec Req Resp MemoryLedger OutboundMessage fun _ => Except Err String where
  inv := Inv t k
  rely := fun i u v => (∀ e ∈ u.hist, e ∈ v.hist) ∧ v.own i = u.own i ∧
    (Holding t k i u → v.store (memKey t k) = u.store (memKey t k) ∧ accepted t k v = accepted t k u)
  refl := fun _ _ => ⟨fun _ h => h, rfl, fun _ => ⟨rfl, rfl⟩⟩
  trans := by
    intro i u v w h₁ h₂
    refine ⟨fun e he => h₂.1 e (h₁.1 e he), h₂.2.1.trans h₁.2.1, fun hu => ?_⟩
    have hv : Holding t k i v := (Holding.congr h₁.2.1).mpr hu
    exact ⟨(h₂.2.2 hv).1.trans (h₁.2.2 hu).1, (h₂.2.2 hv).2.trans (h₁.2.2 hu).2⟩

variable {t k} {i j : ℕ} {u v w : W} {m : OutboundMessage}

theorem Sent.mono {id : String} (h : ∀ e ∈ u.hist, e ∈ v.hist) (hs : Sent t k id u) : Sent t k id v := by
  obtain ⟨j, m, s, s', hm, hfor⟩ := hs
  exact ⟨j, m, s, s', h _ hm, hfor⟩

variable {q : Req} {r : Resp q} {s s' : MemoryLedger} {o : Option LedgerResult} {a : Except Err String}

theorem holding_after_of_ne (h : i ≠ j) : Holding t k j (w.after (.act i q r s s')) ↔ Holding t k j w := Holding.congr (World.own_after_of_ne h)

theorem Entry.transfer (h : Entry t k u o) (hgrow : ∀ e ∈ u.hist, e ∈ v.hist) (hold : ∀ j, Holding t k j v ↔ Holding t k j u)
    (hacc : accepted t k v = accepted t k u) : Entry t k v o := by
  cases h with
  | free hfree hnone => exact .free (fun i => mt (hold i).mp (hfree i)) (hacc.trans hnone)
  | busy i hi hone hle => exact .busy i ((hold i).mpr hi) (fun j hj => hone j ((hold j).mp hj)) (hacc ▸ hle)
  | done hfree hsent hle => exact .done (fun i => mt (hold i).mp (hfree i)) (hsent.mono hgrow) (hacc ▸ hle)

theorem Entry.of_busy (h : Entry t k w o) (hi : Holding t k i w) : o = some ⟨"", false⟩ ∧ ∀ j, Holding t k j w → j = i := by
  cases h with
  | free hfree _ => exact absurd hi (hfree i)
  | busy l hl hone _ =>
    obtain rfl := hone i hi
    exact ⟨rfl, hone⟩
  | done hfree _ _ => exact absurd hi (hfree i)

theorem Entry.length_le (h : Entry t k w o) : (accepted t k w).length ≤ 1 := by
  cases h with
  | free _ hnone =>
    rw [hnone]
    exact Nat.zero_le 1
  | busy _ _ _ hle => exact hle
  | done _ _ hle => exact hle

theorem accepted_after_of_not {e : Ev} (h : accepts t k e = false) : accepted t k (w.after e) = accepted t k w := by
  rw [accepted, World.after_hist, filter_cons_of_neg (by simp [h])]
  rfl

def Foreign (t : UUID) (k : String) : Req → Prop
  | .send m => ¬ For t k m
  | .claim t' k' => ¬ (t' = t ∧ k' = k)
  | .complete t' k' _ => ¬ (t' = t ∧ k' = k)
  | .release t' k' => ¬ (t' = t ∧ k' = k)

theorem Foreign.of_ours (hm : ¬ For t k m) (hq : Ours m q) : Foreign t k q := by
  cases q with
  | claim t' k' => exact fun h => hm ⟨hq.1.trans h.1, hq.2.trans h.2⟩
  | complete t' k' id => exact fun h => hm ⟨hq.1.trans h.1, hq.2.trans h.2⟩
  | release t' k' => exact fun h => hm ⟨hq.1.trans h.1, hq.2.trans h.2⟩
  | send m' =>
  obtain rfl := hq
  exact hm

theorem Foreign.holding (hq : Foreign t k q) : Holding t k j (w.after (.act i q r s s')) ↔ Holding t k j w := by
  simp only [Holding, World.after_hist, mem_cons]
  constructor
  · rintro ⟨⟨res, s₀, s₀', h | h⟩, hrel, hcom⟩
    · cases h
      exact absurd ⟨rfl, rfl⟩ hq
    · exact ⟨⟨res, s₀, s₀', h⟩, fun r s s' hm => hrel r s s' (.inr hm), fun id r s s' hm => hcom id r s s' (.inr hm)⟩
  rintro ⟨⟨res, s₀, s₀', h⟩, hrel, hcom⟩
  refine ⟨⟨res, s₀, s₀', .inr h⟩, ?_, ?_⟩
  · rintro r₁ s₁ s₁' (h1 | h1)
    · cases h1
      exact absurd ⟨rfl, rfl⟩ hq
    · exact hrel r₁ s₁ s₁' h1
  rintro id r₁ s₁ s₁' (h1 | h1)
  · cases h1
    exact absurd ⟨rfl, rfl⟩ hq
  · exact hcom id r₁ s₁ s₁' h1

theorem Foreign.entry (hq : Foreign t k q) (he : exec q s r s') : s' (memKey t k) = s (memKey t k) := by
  have hne : ∀ {t' k'}, ¬ (t' = t ∧ k' = k) → memKey t k ≠ memKey t' k' := fun h heq => h
    ⟨(memKey_injective heq).1.symm, (memKey_injective heq).2.symm⟩
  cases q with
  | claim t' k' =>
    obtain ⟨-, rfl⟩ := he
    rw [MemoryLedger.claim]
    cases s (memKey t' k') with
    | some prior => rfl
    | none => exact update_of_ne (hne hq) _ _
  | complete t' k' id =>
    obtain ⟨-, rfl⟩ := he
    exact update_of_ne (hne hq) _ _
  | release t' k' =>
    obtain ⟨-, rfl⟩ := he
    exact update_of_ne (hne hq) _ _
  | send m => rw [show s' = s from he]

theorem Foreign.accepts (hq : Foreign t k q) : accepts t k (.act i q r s s') = false := by
  cases q with
  | send m =>
    cases r with
    | ok id => exact decide_eq_false hq
    | error e => rfl
  | _ => rfl

/-- An event that concerns neither the entry nor its holders keeps the invariant. -/
theorem Inv.quiet {e : Ev} (h : Inv t k w) (hst : (w.after e).store (memKey t k) = w.store (memKey t k))
    (hold : ∀ j, Holding t k j (w.after e) ↔ Holding t k j w) (hacc : accepted t k (w.after e) = accepted t k w)
    (hres : ∀ i m a, e = .respond i m a → ¬ Holding t k i w ∧ (For t k m → ∀ id, a = .ok id → Sent t k id w)) : Inv t k (w.after e) := by
  have hgrow : ∀ e' ∈ w.hist, e' ∈ (w.after e).hist := fun e' hm => mem_cons_of_mem _ hm
  constructor
  · rw [hst]
    exact h.entry.transfer hgrow hold hacc
  intro i m a hm
  rw [hold]
  rcases mem_cons.mp hm with hm | hm
  · exact ⟨(hres i m a hm.symm).1, fun hfor id hid => ((hres i m a hm.symm).2 hfor id hid).mono hgrow⟩
  · exact ⟨(h.answers i m a hm).1, fun hfor id hid => ((h.answers i m a hm).2 hfor id hid).mono hgrow⟩

theorem Foreign.keeps (hq : Foreign t k q) (hinv : Inv t k v) (he : exec q v.store r s') : (spec t k).Keeps i v (.act i q r v.store s') := by
  refine ⟨hinv.quiet (hq.entry he) (fun j => hq.holding) (accepted_after_of_not hq.accepts) (by rintro i m a ⟨⟩), fun j hj =>
    ⟨fun e hm => mem_cons_of_mem _ hm, World.own_after_of_ne (Ne.symm hj), fun _ => ⟨hq.entry he, accepted_after_of_not hq.accepts⟩⟩⟩

/-! ### A call for the key -/

def Good (t : UUID) (k : String) (i : ℕ) (a : Except Err String) (w : W) : Prop :=
  ¬ Holding t k i w ∧ ∀ id, a = .ok id → Sent t k id w

theorem Good.rely (huv : (spec t k).rely i u v) (h : Good t k i a u) : Good t k i a v :=
  ⟨mt (Holding.congr huv.2.1).mp h.1, fun id hid => (h.2 id hid).mono huv.1⟩

theorem safe_ret (h : Good t k i a w) : Safe system (spec t k) i (Good t k i) (.ret a) w := fun _ hv _ => h.rely hv

/-- The requests of the holder: nobody else can hold the key before or after them. -/
theorem keeps_holder (hinv : Inv t k v) (hi : Holding t k i v) (hentry : Entry t k (v.after (.act i q r v.store s')) (s' (memKey t k))) :
    (spec t k).Keeps i v (.act i q r v.store s') := by
  have hothers : ∀ j, j ≠ i → ¬ Holding t k j v := fun j hj hh => hj ((hinv.entry.of_busy hi).2 j hh)
  refine ⟨⟨hentry, ?_⟩, fun j hj =>
    ⟨fun e hm => mem_cons_of_mem _ hm, World.own_after_of_ne (Ne.symm hj), fun hh => absurd hh (hothers j hj)⟩⟩
  intro j m a hm
  have hm' : .respond j m a ∈ v.hist := (mem_cons.mp hm).resolve_left (by rintro ⟨⟩)
  obtain ⟨hnot, hsent⟩ := hinv.answers j m a hm'
  have hne : i ≠ j := by
    rintro rfl
    exact hnot hi
  refine ⟨mt (holding_after_of_ne hne).mp hnot, fun hfor id hid => (hsent hfor id hid).mono fun e he => mem_cons_of_mem _ he⟩

theorem not_holding_after (hq : q = .release t k ∨ ∃ id, q = .complete t k id) (hone : ∀ j, Holding t k j v → j = i) (j : ℕ) :
    ¬ Holding t k j (v.after (.act i q r s s')) := by
  intro hj
  by_cases hij : i = j
  · subst hij
    rcases hq with rfl | ⟨id, rfl⟩
    · exact hj.2.1 _ _ _ mem_cons_self
    · exact hj.2.2 _ _ _ _ mem_cons_self
  · exact hij (hone j ((holding_after_of_ne hij).mp hj)).symm

theorem safe_settle (hm : For t k m) (r : Except Err String) (hi : Holding t k i w) (hacc : (accepted t k w).length ≤ 1)
    (hr : ∀ e, r = .error e → accepted t k w = []) (hok : ∀ id, r = .ok id → Sent t k id w) :
    Safe system (spec t k) i (Good t k i) (settle m r) w := by
  obtain ⟨rfl, rfl⟩ := hm
  cases r with
  | error e =>
    intro v hv hinv r s' he _
    obtain ⟨-, rfl⟩ := he
    have hvi := (Holding.congr hv.2.1).mpr hi
    obtain ⟨-, hone⟩ := hinv.entry.of_busy hvi
    have hnot : ∀ j, ¬ Holding m.tenantID m.idempotencyKey j
        (v.after (.act i (.release m.tenantID m.idempotencyKey) r v.store (v.store.release m.tenantID m.idempotencyKey))) :=
      not_holding_after (.inl rfl) hone
    refine ⟨keeps_holder hinv hvi ?_, safe_ret ⟨hnot i, by rintro id ⟨⟩⟩⟩
    rw [MemoryLedger.release, update_self]
    refine .free hnot ?_
    rw [accepted_after_of_not rfl, (hv.2.2 hi).2]
    exact hr e rfl
  | ok id =>
  intro v hv hinv r s' he _
  obtain ⟨-, rfl⟩ := he
  have hvi := (Holding.congr hv.2.1).mpr hi
  obtain ⟨-, hone⟩ := hinv.entry.of_busy hvi
  have hsent : Sent m.tenantID m.idempotencyKey id (v.after (.act i (.complete m.tenantID m.idempotencyKey id) r v.store
      (v.store.complete m.tenantID m.idempotencyKey id))) := ((hok id rfl).mono hv.1).mono fun e he => mem_cons_of_mem _ he
  have hnot : ∀ j, ¬ Holding m.tenantID m.idempotencyKey j
      (v.after (.act i (.complete m.tenantID m.idempotencyKey id) r v.store (v.store.complete m.tenantID m.idempotencyKey id))) :=
    not_holding_after (.inr ⟨id, rfl⟩) hone
  refine ⟨keeps_holder hinv hvi ?_, safe_ret ⟨hnot i, ?_⟩⟩
  · rw [MemoryLedger.complete, update_self]
    refine .done hnot hsent ?_
    rw [accepted_after_of_not rfl, (hv.2.2 hi).2]
    exact hacc
  · rintro id' ⟨⟩
    exact hsent

theorem safe_send (hm : For t k m) (hi : Holding t k i w) (hacc : accepted t k w = []) :
    Safe system (spec t k) i (Good t k i) (Prog.send (Req.send m) >>= settle m) w := by
  intro v hv hinv r s' he _
  obtain rfl : s' = v.store := he
  have hvi := (Holding.congr hv.2.1).mpr hi
  have hvacc : accepted t k v = [] := (hv.2.2 hi).2.trans hacc
  obtain ⟨hst, hone⟩ := hinv.entry.of_busy hvi
  -- a send leaves the holders
  have hold : ∀ j, Holding t k j (v.after (.act i (.send m) r v.store v.store)) ↔ Holding t k j v := by
    intro j
    simp [Holding]
  have hlen : (accepted t k (v.after (.act i (.send m) r v.store v.store))).length ≤ 1 := by
    rw [accepted, World.after_hist, filter_cons]
    have hnil : v.hist.filter (accepts t k) = [] := hvacc
    split_ifs <;> simp [hnil]
  refine ⟨keeps_holder hinv hvi ?_, safe_settle hm r ((hold i).mpr hvi) hlen ?_ ?_⟩
  · rw [hst]
    exact .busy i ((hold i).mpr hvi) (fun j hj => hone j ((hold j).mp hj)) hlen
  · rintro e rfl
    rw [accepted_after_of_not rfl]
    exact hvacc
  · rintro id rfl
    exact ⟨i, m, _, _, mem_cons_self, hm⟩

theorem safe_sendMessage (hk : k ≠ "") (hm : For t k m) (hi : ∀ e ∈ w.hist, e.tid = i → ∃ m, e = .invoke i m) :
    Safe system (spec t k) i (Good t k i) (sendMessage m) w := by
  obtain ⟨ht, hkey⟩ := hm
  unfold sendMessage
  rw [ht, hkey, if_neg hk]
  intro v hv hinv r s' he _
  obtain ⟨rfl, rfl⟩ := he
  -- the call has done nothing so far
  have hown : ∀ e ∈ v.hist, e.tid = i → ∃ m, e = .invoke i m := fun e hmem htid => hi e ((World.mem_own_iff hv.2.1 htid).mp hmem) htid
  have hnot : ¬ Holding t k i v := by
    rintro ⟨⟨res, s, s', hmem⟩, -⟩
    obtain ⟨_, ⟨⟩⟩ := hown _ hmem rfl
  have hothers : ∀ (r : Resp (.claim t k)) (s s' : MemoryLedger) (j : ℕ), j ≠ i →
      (Holding t k j (v.after (.act i (.claim t k) r s s')) ↔ Holding t k j v) :=
    fun r s s' j hj => holding_after_of_ne (Ne.symm hj)
  have hentry := hinv.entry
  unfold MemoryLedger.claim
  cases hstate : v.store (memKey t k) with
  | none =>
    rw [hstate] at hentry
    cases hentry with
    | free hfree hnone =>
    dsimp only
    -- the call is the holder from here on
    have hmine : Holding t k i (v.after (.act i (.claim t k) (.ok (⟨"", false⟩, true)) v.store
        (Function.update v.store (memKey t k) (some ⟨"", false⟩)))) := by
      refine ⟨⟨_, _, _, mem_cons_self⟩, fun r s s' hmem => ?_, fun id r s s' hmem => ?_⟩
      · obtain ⟨_, ⟨⟩⟩ := hown _ ((mem_cons.mp hmem).resolve_left (by rintro ⟨⟩)) rfl
      · obtain ⟨_, ⟨⟩⟩ := hown _ ((mem_cons.mp hmem).resolve_left (by rintro ⟨⟩)) rfl
    have hacc := (accepted_after_of_not (w := v) (t := t) (k := k) (e := .act i (.claim t k) (.ok (⟨"", false⟩, true)) v.store
        (Function.update v.store (memKey t k) (some ⟨"", false⟩))) rfl).trans hnone
    refine ⟨⟨⟨?_, ?_⟩, ?_⟩, safe_send ⟨ht, hkey⟩ hmine hacc⟩
    · rw [World.after_act_store, update_self]
      refine .busy i hmine (fun j hj => ?_) (by rw [hacc]; exact Nat.zero_le 1)
      by_contra hij
      exact hfree j ((hothers _ _ _ j hij).mp hj)
    · intro j m' a hmem
      have hmem' : .respond j m' a ∈ v.hist := (mem_cons.mp hmem).resolve_left (by rintro ⟨⟩)
      have hij : j ≠ i := by
        rintro rfl
        obtain ⟨_, ⟨⟩⟩ := hown _ hmem' rfl
      refine ⟨mt (hothers _ _ _ j hij).mp (hfree j), fun hfor id hid => ((hinv.answers j m' a hmem').2 hfor id hid).mono fun e he =>
        mem_cons_of_mem _ he⟩
    · exact fun j hj => ⟨fun e hm => mem_cons_of_mem _ hm, World.own_after_of_ne (Ne.symm hj), fun hh => absurd hh (hfree j)⟩
  | some prior =>
  dsimp only
  -- nothing changes
  have hold : ∀ j, Holding t k j (v.after (.act i (.claim t k) (.ok (prior, false)) v.store v.store)) ↔
      Holding t k j v := by
    intro j
    simp [Holding]
  have hquiet := hinv.quiet (e := .act i (.claim t k) (.ok (prior, false)) v.store v.store) rfl hold
    (accepted_after_of_not rfl) (by rintro i m a ⟨⟩)
  refine ⟨⟨hquiet, fun j hj => ⟨fun e hm => mem_cons_of_mem _ hm, World.own_after_of_ne (Ne.symm hj), fun _ =>
    ⟨rfl, accepted_after_of_not rfl⟩⟩⟩, ?_⟩
  have hnot' := mt (hold i).mp hnot
  rw [hstate] at hentry
  cases hentry with
  | busy l _ _ _ => exact safe_ret ⟨hnot', by rintro id ⟨⟩⟩
  | @done id _ hsent _ =>
  refine safe_ret ⟨hnot', ?_⟩
  rintro id' ⟨⟩
  exact hsent.mono fun e he => mem_cons_of_mem _ he

theorem verified (hk : k ≠ "") : Verified system (spec t k) := by
  intro w i m hinv hu _
  have hold : ∀ j, Holding t k j (w.after (.invoke i m)) ↔ Holding t k j w := by
    intro j
    simp [Holding]
  have hafter : Inv t k (w.after (.invoke i m)) := hinv.quiet rfl hold (accepted_after_of_not rfl) (by rintro i m a ⟨⟩)
  have hrespond : ∀ (m : OutboundMessage) (a : Except Err String) (v : W), Inv t k v → ¬ Holding t k i v → (For t k m → ∀ id, a = .ok id → Sent t k id v) →
      (spec t k).Keeps i v (.respond i m a) := by
    intro m a v hv hnot hsent
    refine ⟨hv.quiet rfl (fun j => by simp [Holding]) (accepted_after_of_not rfl) ?_, fun j hj =>
      ⟨fun e hm => mem_cons_of_mem _ hm, World.own_after_of_ne (Ne.symm hj), fun _ => ⟨rfl, accepted_after_of_not rfl⟩⟩⟩
    rintro i' m' a' ⟨⟩
    exact ⟨hnot, hsent⟩
  refine ⟨⟨hafter, fun j hj => ⟨fun e hm => mem_cons_of_mem _ hm, World.own_after_of_ne (Ne.symm hj), fun _ =>
    ⟨rfl, accepted_after_of_not rfl⟩⟩⟩, ?_⟩
  by_cases hm : For t k m
  · refine Safe.mono (fun a v hv ha _ => hrespond m a v hv ha.1 fun _ => ha.2) (safe_sendMessage hk hm fun e he htid => ?_)
    rcases mem_cons.mp he with rfl | he
    · exact ⟨m, rfl⟩
    · exact absurd htid (hu e he)
  -- a call for another key never holds this one
  have hrely : ∀ {u v : W}, (spec t k).rely i u v → ¬ Holding t k i u → ¬ Holding t k i v := fun huv => mt (Holding.congr huv.2.1).mp
  refine Safe.of_sends (P := Ours m) (K := fun v => ¬ Holding t k i v) (fun a v hv hnot _ => hrespond m a v hv hnot fun h => absurd h hm)
    hrely (fun v q r s' hv hnot hq he _ => ?_) ?_ (sends_sendMessage m)
  · have hforeign : Foreign t k q := .of_ours hm hq
    exact ⟨hforeign.keeps hv he, mt hforeign.holding.mp hnot⟩
  · rw [hold]
    rintro ⟨⟨res, s, s', hmem⟩, -⟩
    exact hu _ hmem rfl

theorem Inv.start : Inv t k ⟨newMemoryLedger, []⟩ := by
  refine ⟨.free ?_ rfl, fun i m a hm => absurd hm not_mem_nil⟩
  rintro i ⟨⟨res, s, s', hm⟩, -⟩
  exact absurd hm not_mem_nil

/-- Over a free entry a call reaches the carrier, and returns its answer. -/
theorem sendMessage_free (hk : m.idempotencyKey ≠ "") {l : MemoryLedger} (hl : l (memKey m.tenantID m.idempotencyKey) = none) :
    (∀ a, ∃ x l', Prog.Runs exec (sendMessage m) l x a l') ∧
    Prog.Ensures exec (sendMessage m) l fun x a _ => ∃ s s', (⟨.send m, a, s, s'⟩ : Prog.Exchange Req Resp MemoryLedger) ∈ x := by
  have hclaim : l.claim m.tenantID m.idempotencyKey =
      ((⟨"", false⟩, true), Function.update l (memKey m.tenantID m.idempotencyKey) (some ⟨"", false⟩)) := by
    rw [MemoryLedger.claim, hl]
  unfold sendMessage
  rw [if_neg hk]
  constructor
  · intro a
    have he : exec (.claim m.tenantID m.idempotencyKey) l (.ok (⟨"", false⟩, true)) (l.claim m.tenantID m.idempotencyKey).2 := by
      rw [hclaim]
      exact ⟨by rw [hclaim], by rw [hclaim]⟩
    cases a with
    | ok id =>
      have hcomplete : exec (.complete m.tenantID m.idempotencyKey id) (l.claim m.tenantID m.idempotencyKey).2 (.ok ()) _ := ⟨rfl, rfl⟩
      have hsend : Prog.Runs exec (Prog.send (Req.send m) >>= settle m) (l.claim m.tenantID m.idempotencyKey).2 _ (.ok id) _ :=
        .ask (r := .ok id) rfl (.ask hcomplete (.ret (Except.ok id) _))
      exact ⟨_, _, .ask he hsend⟩
    | error e =>
    have hrelease : exec (.release m.tenantID m.idempotencyKey) (l.claim m.tenantID m.idempotencyKey).2 (.ok ()) _ := ⟨rfl, rfl⟩
    have hsend : Prog.Runs exec (Prog.send (Req.send m) >>= settle m) (l.claim m.tenantID m.idempotencyKey).2 _ (.error e) _ :=
      .ask (r := .error e) rfl (.ask hrelease (.ret (Except.error e) _))
    exact ⟨_, _, .ask he hsend⟩
  refine .ask fun r l' he => ?_
  obtain ⟨rfl, rfl⟩ := he
  rw [hclaim]
  refine .ask fun r l' _ => ?_
  cases r <;> exact .ask fun _ _ _ => .ret ⟨_, _, mem_cons_of_mem _ mem_cons_self⟩

end Key

/-- **At most once.**  However the calls interleave, for every tenant and non-empty key: the carrier accepts at most one send; a call that succeeds
returns the id of an accepted send; when no send was accepted and no call for the key is under way, the next one reaches the carrier and returns its
answer; and the calls for the key run as they would without the others. -/
theorem at_most_once (t : UUID) (k : String) (hk : k ≠ "") {σ : Conf Req Resp MemoryLedger OutboundMessage fun _ => Except Err String}
    (hr : Reach system newMemoryLedger σ) :
    (σ.world.hist.filter (accepts t k)).length ≤ 1 ∧
    (∀ i m id, .respond i m (.ok id) ∈ σ.world.hist → For t k m → ∃ j m' s s', .act j (.send m') (.ok id) s s' ∈ σ.world.hist ∧ For t k m') ∧
    ((∀ e ∈ σ.world.hist, accepts t k e = false) → (∀ i m p, σ.pool i = .running m p → ¬ For t k m) → ∀ m, For t k m →
      (∀ a, ∃ x l, Prog.Runs exec (sendMessage m) σ.world.store x a l) ∧
      Prog.Ensures exec (sendMessage m) σ.world.store fun x a _ => ∃ s s', (⟨.send m, a, s, s'⟩ : Prog.Exchange Req Resp MemoryLedger) ∈ x) ∧
    ∃ σ', Reach system newMemoryLedger σ' ∧ σ.Restricts (fun l => l (memKey t k)) (For t k) σ' := by
  have hinv : Inv t k σ.world := (verified hk).inv Inv.start hr
  refine ⟨?_, fun i m id hm hfor => (hinv.answers i m _ hm).2 hfor id rfl, ?_, ?_⟩
  · exact hinv.entry.length_le
  · rintro hnone hidle m ⟨rfl, rfl⟩
    refine sendMessage_free hk ?_
    have hentry := hinv.entry
    cases hstate : σ.world.store (memKey m.tenantID m.idempotencyKey) with
    | none => rfl
    | some res =>
    rw [hstate] at hentry
    cases hentry with
    | busy i hi _ _ =>
      -- the holder would be under way
      obtain ⟨⟨res, s, s', hclaim⟩, -⟩ := id hi
      have hslot := hr.agrees i
      obtain ⟨m', hinvoke, hfor⟩ := hr.act_sends sends_sendMessage hclaim
      cases hp : σ.pool i with
      | idle =>
        rw [hp] at hslot
        exact absurd rfl (hslot _ hclaim)
      | running m'' p =>
        rw [hp] at hslot
        obtain rfl := hslot.2.2.1 m' hinvoke
        exact absurd hfor (hidle i m' p hp)
      | done =>
      obtain ⟨a, hres⟩ := hr.responded hinvoke hp
      exact absurd hi (hinv.answers i m' a hres).1
    | done _ hsent _ =>
    obtain ⟨j, m', s, s', hm, hfor⟩ := hsent
    have hacc := hnone _ hm
    rw [show accepts m.tenantID m.idempotencyKey _ = decide (For m.tenantID m.idempotencyKey m') from rfl, decide_eq_true hfor] at hacc
    cases hacc
  refine Reach.restrict (P := Ours) sends_sendMessage ?_ ?_ (fun _ _ => trivial) hr
  · intro m q s r s' hm hq he
    exact (Foreign.of_ours hm hq).entry he
  rintro m q s r s' l ⟨rfl, rfl⟩ hq he hview
  cases q with
  | claim t' k' =>
    obtain ⟨rfl, rfl⟩ := hq
    obtain ⟨rfl, rfl⟩ := he
    refine ⟨_, ⟨?_, rfl⟩, ?_⟩
    · simp only [MemoryLedger.claim, hview]
      cases s (memKey m.tenantID m.idempotencyKey) <;> rfl
    simp only [MemoryLedger.claim, hview]
    cases hs : s (memKey m.tenantID m.idempotencyKey) with
    | none => simp only [update_self]
    | some prior => exact hview
  | complete t' k' id =>
    obtain ⟨rfl, rfl⟩ := hq
    obtain ⟨rfl, rfl⟩ := he
    exact ⟨_, ⟨rfl, rfl⟩, by simp only [MemoryLedger.complete, update_self]⟩
  | release t' k' =>
    obtain ⟨rfl, rfl⟩ := hq
    obtain ⟨rfl, rfl⟩ := he
    exact ⟨_, ⟨rfl, rfl⟩, by simp only [MemoryLedger.release, update_self]⟩
  | send m' =>
  obtain rfl : s' = s := he
  exact ⟨l, rfl, hview⟩

def serve : (q : Req) → MemoryLedger → Resp q × MemoryLedger
  | .claim t k, l => (.ok (l.claim t k).1, (l.claim t k).2)
  | .complete t k id, l => (.ok (), l.complete t k id)
  | .release t k, l => (.ok (), l.release t k)
  | .send m, l => (.ok ("wamid." ++ m.body), l)

theorem exec_serve (q : Req) (l : MemoryLedger) : exec q l (serve q l).1 (serve q l).2 := by
  cases q <;> first | exact ⟨rfl, rfl⟩ | rfl

/-- Two submissions of one message: the second overtakes the first between its claim and its send, and is turned away. -/
theorem at_most_once_pair : ∃ σ : Conf Req Resp MemoryLedger OutboundMessage fun _ => Except Err String, Reach system newMemoryLedger σ ∧
    .respond 0 ⟨1, 2, "whatsapp", "+5511", "a", "k"⟩ (.ok "wamid.a") ∈ σ.world.hist ∧
    (∃ e, .respond 1 ⟨1, 2, "whatsapp", "+5511", "a", "k"⟩ (.error e) ∈ σ.world.hist) ∧
    (σ.world.hist.filter (accepts 1 "k")).length ≤ 1 := by
  have hr := Conf.steps_serve (M := system) exec_serve (fun _ _ _ _ => trivial) (fun _ _ _ _ => trivial)
    (overtaking ⟨1, 2, "whatsapp", "+5511", "a", "k"⟩ ⟨1, 2, "whatsapp", "+5511", "a", "k"⟩ 1 2 3) (Conf.start newMemoryLedger) fun _ _ _ _ => trivial
  exact ⟨_, hr, World.mem_of_result (by decide +kernel), ⟨_, World.mem_of_result rfl⟩, (at_most_once 1 "k" (by decide) hr).1⟩

end Crm.Dispatch
