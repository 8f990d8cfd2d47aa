import Crm.Basic
import Crm.Lib.Uuid
import Mathlib.Logic.Function.Basic
import Mathlib.Logic.Relation

/-!
# Crm.Wasession.Manager — the supervisors of the WhatsApp sessions

`internal/wasession/manager.go` over the devices of `whatsmeowdev`.  The manager keeps one session for a tenant in its map; each session has a device
and a supervisor that connects it again and again.  A step is one critical section of the manager, one step of a supervisor or one status event of
a device; `Phase` says where a session is between two steps.  A device reports under its tenant, so its events reach the session that is in the map
then.  A device may return from `Connect` at any time: the dial fails, the context is cancelled, or the ban latch is tripped.
-/

namespace Crm.Wasession

inductive Status : Type
  | unpaired
  | pairing
  | connected
  | disconnected
  | banned
  deriving DecidableEq, Repr

def Status.terminal : Status → Bool
  | .banned => true
  | _ => false

inductive Phase : Type
  -- in `StartSession`: not begun, past the first check, with a device, in the map
  | unused
  | starting
  | created
  | registered
  -- in `supervise`: at the top of the loop, before `Connect`, inside it, behind it, before the status check, in the backoff, returned
  | top
  | ready
  | connecting
  | returned
  | checked
  | waiting
  | exited
  deriving DecidableEq, Repr

def Phase.supervised : Phase → Bool
  | .top | .ready | .connecting | .returned | .checked | .waiting => true
  | _ => false

/-- Registered, and the supervisor has not returned. -/
def Phase.active (p : Phase) : Bool := p = .registered || p.supervised

structure Session where
  tenantID : UUID
  initial : Status
  status : Status
  /-- The context of the supervisor is cancelled. -/
  cancelled : Bool
  /-- `StopSession` or `Shutdown` has taken it out of the map. -/
  removed : Bool
  phase : Phase
  deriving DecidableEq, Repr

structure Manager where
  sessions : UUID → Option ℕ
  pool : ℕ → Session
  closed : Bool

namespace Manager

def new : Manager := ⟨fun _ => none, fun _ => ⟨UUID.Nil, .unpaired, .unpaired, false, false, .unused⟩, false⟩

def modify (m : Manager) (n : ℕ) (f : Session → Session) : Manager := { m with pool := Function.update m.pool n (f (m.pool n)) }

def emit (m : Manager) (tenantID : UUID) (status : Status) : Manager :=
  match m.sessions tenantID with
  | some n => m.modify n fun s => { s with status := status }
  | none => m

end Manager

def Session.advance (s : Session) : Phase :=
  match s.phase with
  | .top => if s.cancelled then .exited else .ready
  | .ready => .connecting
  | .connecting => .returned
  | .returned => if s.cancelled then .exited else .checked
  | .checked => if s.status.terminal then .exited else .waiting
  -- the timer of the backoff
  | .waiting => .top
  | p => p

inductive Act : Type
  | begin (n : ℕ) (tenantID : UUID)
  | newDevice (n : ℕ) (paired : Bool)
  | register (n : ℕ)
  | announce (n : ℕ)
  | move (n : ℕ)
  | giveUp (n : ℕ)
  | emit (n : ℕ) (status : Status)
  | stop (tenantID : UUID)
  | cancel (n : ℕ)
  | shutdown
  deriving DecidableEq, Repr

namespace Manager

def perform (m : Manager) : Act → Option Manager
  -- `StartSession`: the first check, the device, the second check with the entry in the map, the announcement and the supervisor
  | .begin n t =>
    if (m.pool n).phase = .unused ∧ m.closed = false ∧ m.sessions t = none then
      some (m.modify n fun _ => ⟨t, .unpaired, .unpaired, false, false, .starting⟩)
    else none
  | .newDevice n paired =>
    let initial := if paired then Status.disconnected else .unpaired
    if (m.pool n).phase = .starting then some (m.modify n fun s => { s with initial := initial, status := initial, phase := .created }) else none
  | .register n =>
    if (m.pool n).phase = .created then
      if m.closed = true ∨ m.sessions (m.pool n).tenantID ≠ none then some (m.modify n fun s => { s with cancelled := true, phase := .exited })
      else some { m.modify n fun s => { s with phase := .registered } with sessions := Function.update m.sessions (m.pool n).tenantID (some n) }
    else none
  | .announce n =>
    if (m.pool n).phase = .registered then some ((m.emit (m.pool n).tenantID (m.pool n).initial).modify n fun s => { s with phase := .top }) else none
  | .move n => if (m.pool n).phase.supervised then some (m.modify n fun s => { s with phase := s.advance }) else none
  | .giveUp n => if (m.pool n).phase = .waiting ∧ (m.pool n).cancelled then some (m.modify n fun s => { s with phase := .exited }) else none
  | .emit n status => if (m.pool n).phase ≠ .unused ∧ (m.pool n).phase ≠ .starting then some (m.emit (m.pool n).tenantID status) else none
  -- `StopSession` takes the session out of the map and cancels it afterwards
  | .stop t =>
    match m.sessions t with
    | some n => some { m.modify n fun s => { s with removed := true } with sessions := Function.update m.sessions t none }
    | none => none
  | .cancel n => if (m.pool n).removed then some (m.modify n fun s => { s with cancelled := true }) else none
  | .shutdown =>
    if m.closed = false then some { sessions := fun _ => none, pool := fun n => { m.pool n with removed := true }, closed := true } else none

/-- The step calls `Connect` on the device of session `n`. -/
def Connects (m : Manager) (a : Act) (n : ℕ) : Prop := a = .move n ∧ (m.pool n).phase = .ready

variable {m m' : Manager} {a : Act} {k : ℕ}

theorem modify_pool (m : Manager) (n : ℕ) (f : Session → Session) (k : ℕ) : (m.modify n f).pool k = if k = n then f (m.pool k) else m.pool k := by
  by_cases h : k = n
  · subst h
    simp [modify]
  · simp [modify, h]

theorem emit_pool (m : Manager) (t : UUID) (status : Status) (k : ℕ) :
    (m.emit t status).pool k = if m.sessions t = some k then { m.pool k with status := status } else m.pool k := by
  unfold emit
  cases hs : m.sessions t with
  | none => simp
  | some n =>
  rw [modify_pool]
  by_cases h : k = n
  · simp [h]
  · simp [h, Ne.symm h]

@[simp] theorem emit_sessions (m : Manager) (t : UUID) (status : Status) : (m.emit t status).sessions = m.sessions := by
  unfold emit
  cases m.sessions t <;> rfl

/-- **What a step can do to session `k`.** -/
inductive Change (m : Manager) (a : Act) (k : ℕ) : Session → Prop
  | same : Change m a k (m.pool k)
  | begin {s : Session} (h : (m.pool k).phase = .unused) (hs : s.phase = .starting) : Change m a k s
  | newDevice {initial : Status} (h : (m.pool k).phase = .starting) :
      Change m a k { m.pool k with initial := initial, status := initial, phase := .created }
  | refuse (h : (m.pool k).phase = .created) : Change m a k { m.pool k with cancelled := true, phase := .exited }
  | register (ha : a = .register k) (h : (m.pool k).phase = .created) (hfree : m.sessions (m.pool k).tenantID = none) :
      Change m a k { m.pool k with phase := .registered }
  | announce {status : Status} (h : (m.pool k).phase = .registered) (hs : status = (m.pool k).status ∨ status = (m.pool k).initial) :
      Change m a k { m.pool k with status := status, phase := .top }
  | announced {n : ℕ} (ha : a = .announce n) (hne : k ≠ n) (h : (m.pool n).phase = .registered) (hmap : m.sessions (m.pool n).tenantID = some k) :
      Change m a k { m.pool k with status := (m.pool n).initial }
  | move (ha : a = .move k) (h : (m.pool k).phase.supervised = true) : Change m a k { m.pool k with phase := (m.pool k).advance }
  | giveUp (h : (m.pool k).phase = .waiting) : Change m a k { m.pool k with phase := .exited }
  | emit {n : ℕ} {status : Status} (ha : a = .emit n status) (hmap : m.sessions (m.pool n).tenantID = some k) :
      Change m a k { m.pool k with status := status }
  | remove : Change m a k { m.pool k with removed := true }
  | cancel : Change m a k { m.pool k with cancelled := true }

theorem change_modify {n : ℕ} {f : Session → Session} (h : k = n → Change m a k (f (m.pool k))) : Change m a k ((m.modify n f).pool k) := by
  rw [modify_pool]
  split_ifs with hk
  · exact h hk
  · exact .same

theorem perform_change (h : m.perform a = some m') (k : ℕ) : Change m a k (m'.pool k) := by
  cases a with
  | begin n t =>
    obtain ⟨⟨hphase, -, -⟩, ⟨⟩⟩ := Option.ite_none_right_eq_some.mp h
    exact change_modify fun hk => .begin (hk ▸ hphase) rfl
  | newDevice n paired =>
    obtain ⟨hphase, ⟨⟩⟩ := Option.ite_none_right_eq_some.mp h
    exact change_modify fun hk => .newDevice (hk ▸ hphase)
  | register n =>
    obtain ⟨hphase, h⟩ := Option.ite_none_right_eq_some.mp h
    split_ifs at h with hbusy
    · cases h
      exact change_modify fun hk => .refuse (hk ▸ hphase)
    cases h
    obtain ⟨-, hfree⟩ := not_or.mp hbusy
    show Change m (.register n) k ((m.modify n fun s => { s with phase := .registered }).pool k)
    refine change_modify fun hk => ?_
    subst hk
    exact .register rfl hphase (not_not.mp hfree)
  | announce n =>
    obtain ⟨hphase, ⟨⟩⟩ := Option.ite_none_right_eq_some.mp h
    rw [modify_pool, emit_pool]
    by_cases hk : k = n
    · subst hk
      rw [if_pos rfl]
      split_ifs
      · exact .announce hphase (.inr rfl)
      · exact .announce hphase (.inl (Eq.refl (m.pool k).status))
    rw [if_neg hk]
    split_ifs with hmap
    · exact .announced rfl hk hphase hmap
    · exact .same
  | move n =>
    obtain ⟨hphase, ⟨⟩⟩ := Option.ite_none_right_eq_some.mp h
    refine change_modify fun hk => ?_
    subst hk
    exact .move rfl hphase
  | giveUp n =>
    obtain ⟨⟨hphase, -⟩, ⟨⟩⟩ := Option.ite_none_right_eq_some.mp h
    exact change_modify fun hk => .giveUp (hk ▸ hphase)
  | emit n status =>
    obtain ⟨-, ⟨⟩⟩ := Option.ite_none_right_eq_some.mp h
    rw [emit_pool]
    split_ifs with hmap
    · exact .emit rfl hmap
    · exact .same
  | stop t =>
    cases hs : m.sessions t with
    | none => simp [perform, hs] at h
    | some n =>
    simp only [perform, hs, Option.some.injEq] at h
    cases h
    show Change m (.stop t) k ((m.modify n fun s => { s with removed := true }).pool k)
    exact change_modify fun _ => .remove
  | cancel n =>
    obtain ⟨-, ⟨⟩⟩ := Option.ite_none_right_eq_some.mp h
    exact change_modify fun _ => .cancel
  | shutdown =>
  obtain ⟨-, ⟨⟩⟩ := Option.ite_none_right_eq_some.mp h
  exact .remove

theorem perform_sessions (h : m.perform a = some m') (t : UUID) : m'.sessions t = m.sessions t ∨ m'.sessions t = none ∨
    ∃ n, a = .register n ∧ (m.pool n).tenantID = t ∧ m'.sessions t = some n ∧ m'.pool n = { m.pool n with phase := .registered } := by
  cases a with
  | register n =>
    obtain ⟨hphase, h⟩ := Option.ite_none_right_eq_some.mp h
    split_ifs at h with hbusy
    · cases h
      exact .inl rfl
    cases h
    by_cases ht : t = (m.pool n).tenantID
    · exact .inr (.inr ⟨n, rfl, ht.symm, by simp [ht], by simp [modify]⟩)
    · exact .inl (Function.update_of_ne ht _ _)
  | announce n =>
    obtain ⟨-, ⟨⟩⟩ := Option.ite_none_right_eq_some.mp h
    exact .inl (congrFun (emit_sessions m _ _) t)
  | emit n status =>
    obtain ⟨-, ⟨⟩⟩ := Option.ite_none_right_eq_some.mp h
    exact .inl (congrFun (emit_sessions m _ _) t)
  | stop t' =>
    cases hs : m.sessions t' with
    | none => simp [perform, hs] at h
    | some n =>
    simp only [perform, hs, Option.some.injEq] at h
    cases h
    by_cases ht : t = t'
    · exact .inr (.inl (by simp [ht]))
    · exact .inl (Function.update_of_ne ht _ _)
  | shutdown =>
    obtain ⟨-, ⟨⟩⟩ := Option.ite_none_right_eq_some.mp h
    exact .inr (.inl rfl)
  | _ =>
  obtain ⟨-, ⟨⟩⟩ := Option.ite_none_right_eq_some.mp h
  exact .inl rfl

/-! ## A banned session -/

/-- The step is no status event that reaches session `n` before its supervisor has returned. -/
def Quiet (n : ℕ) (m : Manager) : Act → Prop
  | .emit k _ => m.sessions (m.pool k).tenantID = some n → (m.pool n).phase = .exited
  | .announce k => m.sessions (m.pool k).tenantID = some n → (m.pool n).phase = .exited
  | _ => True

/-- The supervisor is on its way to the check that will stop it, or has returned. -/
def Ending (n : ℕ) (m : Manager) : Prop :=
  (m.pool n).status = .banned ∧ ((m.pool n).phase = .connecting ∨ (m.pool n).phase = .returned ∨ (m.pool n).phase = .checked) ∨ (m.pool n).phase = .exited

theorem ending_step {n : ℕ} (h : m.perform a = some m') (hquiet : Quiet n m a) (hm : Ending n m) : Ending n m' := by
  unfold Ending at hm ⊢
  have hchange := perform_change h n
  generalize m'.pool n = s' at hchange
  cases hchange with
  | same | remove | cancel => exact hm
  | begin h _ | newDevice h | refuse h | register _ h _ | announce h _ | giveUp h => simp [h] at hm
  | announced ha _ _ hmap =>
    subst ha
    exact .inr (hquiet hmap)
  | emit ha hmap =>
    subst ha
    exact .inr (hquiet hmap)
  | move _ hsup =>
  rcases hm with ⟨hbanned, hphase | hphase | hphase⟩ | hphase
  · simp [Session.advance, hphase, hbanned]
  · simp only [Session.advance, hphase, hbanned, true_and]
    split_ifs <;> simp
  · simp [Session.advance, hphase, hbanned, Status.terminal]
  · simp [hphase, Phase.supervised] at hsup

/-- **A ban is final.**  If the ban reaches a session between the call of `Connect` and the status check behind it, and no other status event reaches it
until its supervisor has returned, then `Connect` is not called on it again. -/
theorem banned_not_reconnected {n k : ℕ} (hban : m.perform (.emit k .banned) = some m') (hmap : m.sessions (m.pool k).tenantID = some n)
    (hphase : (m.pool n).phase = .connecting ∨ (m.pool n).phase = .returned ∨ (m.pool n).phase = .checked) {m₁ : Manager}
    (hrun : Relation.ReflTransGen (fun m₁ m₂ => ∃ a, m₁.perform a = some m₂ ∧ Quiet n m₁ a) m' m₁) (a : Act) : ¬ m₁.Connects a n := by
  have hending : Ending n m₁ := by
    induction hrun with
    | refl =>
      obtain ⟨-, ⟨⟩⟩ := Option.ite_none_right_eq_some.mp hban
      exact .inl (by simpa [emit_pool, hmap] using hphase)
    | tail _ hs ih =>
      obtain ⟨a, hs, hq⟩ := hs
      exact ending_step hs hq ih
  rintro ⟨-, hready⟩
  simp [Ending, hready] at hending

def run (m : Manager) : List Act → Option Manager
  | [] => some m
  | a :: as => (m.perform a).bind fun m' => m'.run as

def after (as : List Act) : Manager := (new.run as).getD new

/-- From the start of a session of tenant 1 to the inside of `Connect`. -/
def connected (n : ℕ) : List Act := [.begin n 1, .newDevice n true, .register n, .announce n, .move n, .move n]

theorem banned_not_reconnected_check :
    ¬ (after (connected 0 ++ [.emit 0 .banned, .move 0, .move 0, .move 0])).Connects (.move 0) 0 :=
  banned_not_reconnected (m := after (connected 0)) (k := 0) rfl rfl (.inl rfl)
    (((Relation.ReflTransGen.single ⟨.move 0, rfl, trivial⟩).tail ⟨.move 0, rfl, trivial⟩).tail ⟨.move 0, rfl, trivial⟩) _

/-- **A later event revives it.**  The device reports a disconnection behind the ban, and the supervisor connects again. -/
theorem banned_reconnected : ∃ m m' m₁ : Manager, new.run (connected 0) = some m ∧ m.sessions (m.pool 0).tenantID = some 0 ∧
    (m.pool 0).phase = .connecting ∧ m.perform (.emit 0 .banned) = some m' ∧
    m'.run [.emit 0 .disconnected, .move 0, .move 0, .move 0, .move 0, .move 0] = some m₁ ∧ m₁.Connects (.move 0) 0 :=
  ⟨after (connected 0), _, _, rfl, rfl, rfl, rfl, rfl, rfl, rfl⟩

/-! ## One device of a tenant -/

/-- A session is registered only when no other one of its tenant is active, and a device reports only while its supervisor is running. -/
def Orderly (m : Manager) : Act → Prop
  | .register n => ∀ k, (m.pool k).phase.active = true → (m.pool k).tenantID ≠ (m.pool n).tenantID
  | .emit n _ => (m.pool n).phase.supervised = true
  | _ => True

structure Inv (m : Manager) : Prop where
  mapped : ∀ t n, m.sessions t = some n → (m.pool n).tenantID = t ∧ ((m.pool n).phase.active = true ∨ (m.pool n).phase = .exited)
  only : ∀ t n, m.sessions t = some n → ∀ k, (m.pool k).phase.active = true → (m.pool k).tenantID = t → k = n
  single : ∀ k k', (m.pool k).phase.active = true → (m.pool k').phase.active = true → (m.pool k).tenantID = (m.pool k').tenantID → k = k'
  fresh : ∀ k, (m.pool k).phase = .created ∨ (m.pool k).phase = .registered → (m.pool k).status = (m.pool k).initial

theorem active_of_supervised {p : Phase} (h : p.supervised = true) : p.active = true := by
  simp [Phase.active, h]

theorem active_step (h : m.perform a = some m') (hk : (m'.pool k).phase.active = true) : (m'.pool k).tenantID = (m.pool k).tenantID ∧
    ((m.pool k).phase.active = true ∨ a = .register k ∧ m.sessions (m.pool k).tenantID = none) := by
  have hchange := perform_change h k
  generalize m'.pool k = s' at hchange hk
  cases hchange with
  | same | remove | cancel | announced _ _ _ _ | emit _ _ => exact ⟨rfl, .inl hk⟩
  | begin _ hs => simp [hs, Phase.active, Phase.supervised] at hk
  | newDevice _ | refuse _ | giveUp _ => simp [Phase.active, Phase.supervised] at hk
  | register ha _ hfree => exact ⟨rfl, .inr ⟨ha, hfree⟩⟩
  | announce h _ => exact ⟨rfl, .inl (by rw [h]; rfl)⟩
  | move _ hsup => exact ⟨rfl, .inl (active_of_supervised hsup)⟩

theorem advance_cases {s : Session} (h : s.phase.supervised = true) : s.advance.supervised = true ∨ s.advance = .exited := by
  unfold Session.advance
  cases hp : s.phase <;> simp only [hp, Phase.supervised, Bool.false_eq_true] at h ⊢ <;> try split_ifs
  all_goals simp

theorem mapped_step (h : m.perform a = some m') (hk : (m.pool k).phase.active = true ∨ (m.pool k).phase = .exited) :
    (m'.pool k).tenantID = (m.pool k).tenantID ∧ ((m'.pool k).phase.active = true ∨ (m'.pool k).phase = .exited) := by
  have hchange := perform_change h k
  generalize m'.pool k = s' at hchange
  cases hchange with
  | same | remove | cancel | announced _ _ _ _ | emit _ _ => exact ⟨rfl, hk⟩
  | begin h _ | newDevice h | refuse h | register _ h _ => simp [h, Phase.active, Phase.supervised] at hk
  | announce h _ => exact ⟨rfl, .inl rfl⟩
  | giveUp _ => exact ⟨rfl, .inr rfl⟩
  | move _ hsup => exact ⟨rfl, (advance_cases hsup).imp active_of_supervised id⟩

theorem inv_new : Inv new where
  mapped := by rintro t n ⟨⟩
  only := by rintro t n ⟨⟩
  single := by rintro k k' ⟨⟩
  fresh := fun _ _ => rfl

theorem inv_step (h : m.perform a = some m') (ha : Orderly m a) (hm : Inv m) : Inv m' where
  mapped t n hmap := by
    rcases perform_sessions h t with hs | hs | ⟨n', -, ht, hs, hpool⟩
    · rw [hs] at hmap
      obtain ⟨ht, hphase⟩ := hm.mapped t n hmap
      obtain ⟨htenant, hphase⟩ := mapped_step h hphase
      exact ⟨htenant.trans ht, hphase⟩
    · rw [hs] at hmap
      cases hmap
    rw [hs] at hmap
    cases hmap
    rw [hpool]
    exact ⟨ht, .inl rfl⟩
  only t n hmap k hk ht := by
    obtain ⟨htenant, hk⟩ := active_step h hk
    rw [htenant] at ht
    rcases perform_sessions h t with hs | hs | ⟨n', rfl, ht', hs, -⟩
    · rw [hs] at hmap
      rcases hk with hk | ⟨-, hfree⟩
      · exact hm.only t n hmap k hk ht
      · rw [ht, hmap] at hfree
        cases hfree
    · rw [hs] at hmap
      cases hmap
    rw [hs] at hmap
    cases hmap
    rcases hk with hk | ⟨hk, -⟩
    · exact absurd (ht.trans ht'.symm) (ha k hk)
    · cases hk
      rfl
  single k k' hk hk' ht := by
    obtain ⟨htenant, hk⟩ := active_step h hk
    obtain ⟨htenant', hk'⟩ := active_step h hk'
    rw [htenant, htenant'] at ht
    rcases hk with hk | ⟨rfl, -⟩
    · rcases hk' with hk' | ⟨rfl, -⟩
      · exact hm.single k k' hk hk' ht
      · exact absurd ht (ha k hk)
    rcases hk' with hk' | ⟨hk', -⟩
    · exact absurd ht.symm (ha k' hk')
    · cases hk'
      rfl
  fresh k hk := by
    have hchange := perform_change h k
    generalize m'.pool k = s' at hchange hk
    cases hchange with
    | same | remove | cancel => exact hm.fresh k hk
    | begin _ hs => simp [hs] at hk
    | newDevice _ => rfl
    | refuse _ | announce _ _ | giveUp _ => simp at hk
    | register _ hphase _ => exact hm.fresh k (.inl hphase)
    | announced _ hne hphase hmap => exact absurd (hm.only _ k hmap _ (by rw [hphase]; rfl) rfl).symm hne
    | move _ hsup =>
      dsimp only at hk
      rcases advance_cases hsup with hadv | hadv <;> rcases hk with hk | hk <;> rw [hk] at hadv <;> cases hadv
    | @emit n status hact hmap =>
    subst hact
    obtain rfl := hm.only _ k hmap n (active_of_supervised ha) rfl
    dsimp only at hk
    have hsup : (m.pool n).phase.supervised = true := ha
    rcases hk with hk | hk <;> rw [hk] at hsup <;> cases hsup

end Manager

end Crm.Wasession
