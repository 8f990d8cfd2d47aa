import Crm.Basic
import Crm.Lib.Interleave
import Crm.Lib.Table
import Crm.Lib.Uuid

/-!
# Crm.Media.Worker — scan verdicts and their announcement

`internal/media/worker/worker.go` over the store of `internal/adapter/db/postgres/messagemedia/messagemedia.go`.  A delivery scans the object, stores the
verdict, publishes it and acks; the broker delivers again until a delivery is acked.  The row takes the first verdict only, and a delivery that finds the row
finalised acks without publishing: what the delivery that stored the verdict fails to publish is lost.
-/

namespace Crm.Media

open Interleave List

/-- The three states, and the texts that are none of them. -/
inductive Status : Type
  | pending
  | clean
  | infected
  | other (text : String)
  deriving DecidableEq, Repr

def Status.valid : Status → Bool
  | .other _ => false
  | _ => true

structure ScanResult where
  status : Status
  engineID : String
  signature : String
  deriving DecidableEq, Repr

structure Request where
  tenantID : UUID
  messageID : UUID
  key : String
  deriving DecidableEq, Repr

structure Completed where
  tenantID : UUID
  messageID : UUID
  key : String
  status : Status
  engineID : String
  deriving DecidableEq, Repr

structure AlertEvent where
  tenantID : UUID
  messageID : UUID
  key : String
  engineID : String
  signature : String
  deriving DecidableEq, Repr

/-! ## Store -/

structure Verdict where
  status : Status
  engineID : String
  deriving DecidableEq, Repr

/-- A row of `message`, with the terminal verdict in `media`. -/
structure MediaRow where
  id : UUID
  tenantID : UUID
  verdict : Option Verdict
  deriving DecidableEq, Repr

structure State where
  rows : Table MediaRow UUID MediaRow.id
  published : List Completed
  /-- The delivery has been acked. -/
  acked : Bool
  deriving DecidableEq

namespace State

def verdict (s : State) (tenantID messageID : UUID) : Option Verdict :=
  match s.rows.get messageID with
  | none => none
  | some row => if row.tenantID = tenantID then row.verdict else none

def updateScanResult (s : State) (tenantID messageID : UUID) (result : ScanResult) : Except Err (Unit × State) :=
  if tenantID = UUID.Nil then .error (.other "messagemedia: UpdateScanResult: tenant id is nil")
  else if messageID = UUID.Nil then .error .scannerNotFound
  else if ¬ result.status.valid ∨ result.status = .pending then .error (.other "messagemedia: UpdateScanResult: not a terminal verdict")
  else match s.rows.get messageID with
    | none => .error .scannerNotFound
    | some row =>
      if row.tenantID ≠ tenantID then .error .scannerNotFound
      else if row.verdict ≠ none then .error .scannerAlreadyFinalised
      else .ok ((), { s with rows := s.rows.modify messageID (fun row => { row with verdict := some ⟨result.status, result.engineID⟩ }) fun _ => rfl })

end State

/-! ## Requests -/

inductive Req : Type
  | scan (key : String)
  | updateScanResult (tenantID messageID : UUID) (result : ScanResult)
  | move (key : String)
  | notify (event : AlertEvent)
  | publish (c : Completed)
  | ack

abbrev Resp : Req → Type
  | .scan _ => Except Err ScanResult
  | .updateScanResult _ _ _ => Except Err Unit
  | .move _ => Except Err Unit
  | .notify _ => Except Err Unit
  | .publish _ => Except Err Unit
  | .ack => Except Err Unit

abbrev Client (α : Type) : Type := Prog Req Resp α

/-- Every port may fail with the errors of `fault`, before or after it has had its effect; the scanner, the quarantine and the alerter answer anything. -/
def exec (fault : Err → Prop) : (q : Req) → State → Resp q → State → Prop
  | .scan _, s, _, s' => s' = s
  | .updateScanResult t m result, s, r, s' => Tx fault s (s.updateScanResult t m result) r s'
  | .move _, s, _, s' => s' = s
  | .notify _, s, _, s' => s' = s
  | .publish c, s, r, s' => Tx fault s (.ok ((), { s with published := s.published ++ [c] })) r s'
  | .ack, s, r, s' => Tx fault s (.ok ((), { s with acked := true })) r s'

/-! ## The handler -/

structure Handler where
  quarantiner : Bool
  alerter : Bool

def ackPoison : Client (Except Err Unit) := do
  match ← Prog.send Req.ack with
  | .error e => return .error (.wrap "worker: ack poison" e)
  | .ok () => return .ok ()

def attempt (wired : Bool) (q : Req) : Client Unit :=
  if wired then do
    let _ ← Prog.send q
    return ()
  else return ()

def runDefenseInDepth (h : Handler) (req : Request) (result : ScanResult) : Client Unit := do
  attempt h.quarantiner (.move req.key)
  attempt h.alerter (.notify ⟨req.tenantID, req.messageID, req.key, result.engineID, result.signature⟩)

def announce (req : Request) (result : ScanResult) : Client (Except Err Unit) := do
  match ← Prog.send (Req.publish ⟨req.tenantID, req.messageID, req.key, result.status, result.engineID⟩) with
  | .error e => return .error (.wrap "worker: publish completed" e)
  | .ok () =>
    match ← Prog.send Req.ack with
    | .error e => return .error (.wrap "worker: ack" e)
    | .ok () => return .ok ()

def persist (h : Handler) (req : Request) (result : ScanResult) : Client (Except Err Unit) := do
  match ← Prog.send (Req.updateScanResult req.tenantID req.messageID result) with
  | .error persistErr =>
    if persistErr.is .scannerAlreadyFinalised then ackPoison
    else if persistErr.is .scannerNotFound then ackPoison
    else return .error (.wrap "worker: persist" persistErr)
  | .ok () =>
    if result.status = .infected then do
      runDefenseInDepth h req result
      announce req result
    else announce req result

/-- One delivery; `none` is a payload that does not parse. -/
def handle (h : Handler) : Option Request → Client (Except Err Unit)
  | none => ackPoison
  | some req =>
    if req.tenantID = UUID.Nil ∨ req.messageID = UUID.Nil ∨ req.key = "" then ackPoison
    else do
      match ← Prog.send (Req.scan req.key) with
      | .error e => return .error (.wrap "worker: scan" e)
      | .ok result => persist h req result

def redeliver (h : Handler) (payload : Option Request) : ℕ → Client Unit
  | 0 => return ()
  | n + 1 => do
    let _ ← handle h payload
    redeliver h payload n

/-! ## Announcements -/

/-- An event with the stored verdict of the request's message has been published. -/
def Announced (req : Request) (s : State) : Prop :=
  ∀ v, s.verdict req.tenantID req.messageID = some v → ∃ c ∈ s.published, c.tenantID = req.tenantID ∧ c.messageID = req.messageID ∧ c.status = v.status ∧
    c.engineID = v.engineID

abbrev Log : Type := List (Prog.Exchange Req Resp State)

/-- The exchange is no failed `Publish`, and no `UpdateScanResult` that has stored the verdict and then failed. -/
def Sound : (q : Req) → Resp q → State → State → Prop
  | .publish _, .error _, _, _ => False
  | .updateScanResult _ _ _, .error _, pre, post => post = pre
  | _, _, _, _ => True

instance : (q : Req) → (r : Resp q) → (pre post : State) → Decidable (Sound q r pre post)
  | .publish _, .error _, _, _ => .isFalse id
  | .publish _, .ok _, _, _ => .isTrue trivial
  | .updateScanResult _ _ _, .error _, pre, post => inferInstanceAs (Decidable (post = pre))
  | .updateScanResult _ _ _, .ok _, _, _ => .isTrue trivial
  | .scan _, _, _, _ => .isTrue trivial
  | .move _, _, _, _ => .isTrue trivial
  | .notify _, _, _, _ => .isTrue trivial
  | .ack, _, _, _ => .isTrue trivial

def Orderly (l : Log) : Prop := ∀ x ∈ l, Sound x.q x.r x.pre x.post

section Run

variable {fault : Err → Prop} {h : Handler} {req : Request} {result : ScanResult} {s s' : State}

/-- Steps that leave the rows and lose no event. -/
theorem Announced.frame (hs : Announced req s) (hrows : s'.rows = s.rows) (hpub : ∀ c ∈ s.published, c ∈ s'.published) : Announced req s' := by
  intro v hv
  rw [State.verdict, hrows] at hv
  obtain ⟨c, hc, hrest⟩ := hs v hv
  exact ⟨c, hpub c hc, hrest⟩

theorem verdict_update (hupd : s.updateScanResult req.tenantID req.messageID result = .ok ((), s')) :
    s'.verdict req.tenantID req.messageID = some ⟨result.status, result.engineID⟩ := by
  rw [State.updateScanResult] at hupd
  split_ifs at hupd
  cases hget : s.rows.get req.messageID with
  | none =>
    rw [hget] at hupd
    cases hupd
  | some row =>
  simp only [hget] at hupd
  split_ifs at hupd with hten hver
  cases hupd
  simp only [State.verdict, Table.get_modify, if_true, hget, Option.map_some]
  rw [if_pos (not_not.mp hten)]

theorem ensures_ackPoison (hs : Announced req s) : Prog.Ensures (exec fault) ackPoison s fun _ _ s' => Announced req s' := by
  refine .ask fun r s' he => ?_
  have hs' : Announced req s' := by
    rcases he.store_cases with rfl | ⟨_, heq⟩
    · exact hs
    · cases heq
      exact hs.frame rfl fun c hc => hc
  cases r <;> exact .ret hs'

theorem ensures_attempt {wired : Bool} {q : Req} (hq : ∀ s r s', exec fault q s r s' → s' = s) :
    Prog.Ensures (exec fault) (attempt wired q) s fun _ _ s' => s' = s := by
  unfold attempt
  cases wired with
  | false => exact .ret rfl
  | true => exact .ask fun r s' he => .ret (hq s r s' he)

/-- The verdict has just been stored; if the event gets out, it is announced. -/
theorem ensures_announce (hv : s.verdict req.tenantID req.messageID = some ⟨result.status, result.engineID⟩) :
    Prog.Ensures (exec fault) (announce req result) s fun l _ s' => Orderly l → Announced req s' := by
  refine .ask fun r s₁ he => ?_
  cases r with
  | error e => exact .ret fun hl => (hl _ mem_cons_self).elim
  | ok _ =>
  have hpub := he.of_ok
  cases hpub
  have hs1 : Announced req { s with published := s.published ++ [⟨req.tenantID, req.messageID, req.key, result.status, result.engineID⟩] } := by
    intro v hv'
    obtain rfl : _ = v := Option.some.inj (hv.symm.trans hv')
    exact ⟨_, mem_append_right _ (mem_singleton_self _), rfl, rfl, rfl, rfl⟩
  refine .ask fun r s₂ he2 => ?_
  have hs2 : Announced req s₂ := by
    rcases he2.store_cases with rfl | ⟨_, heq⟩
    · exact hs1
    · cases heq
      exact hs1.frame rfl fun c hc => hc
  cases r <;> exact .ret fun _ => hs2

theorem ensures_persist (hs : Announced req s) :
    Prog.Ensures (exec fault) (persist h req result) s fun l _ s' => Orderly l → Announced req s' := by
  rw [persist, Prog.send_bind]
  refine .ask fun r s₁ he => ?_
  cases r with
  | error e =>
    dsimp only
    -- the row is as it was
    have hpost : ∀ {l : Log}, Orderly (⟨.updateScanResult req.tenantID req.messageID result, .error e, s, s₁⟩ :: l) → s₁ = s :=
      fun hl => hl _ mem_cons_self
    have hpoison : Prog.Ensures (exec fault) ackPoison s₁ fun l _ s' =>
        Orderly (⟨.updateScanResult req.tenantID req.messageID result, .error e, s, s₁⟩ :: l) → Announced req s' := by
      intro l a s' hrun hl
      obtain rfl := hpost hl
      exact ensures_ackPoison hs l a s' hrun
    split_ifs
    · exact hpoison
    · exact hpoison
    · exact .ret fun hl => hpost hl ▸ hs
  | ok _ =>
  have hv := verdict_update he.of_ok
  have hann : Prog.Ensures (exec fault) (announce req result) s₁ fun l _ s' => Orderly l → Announced req s' := ensures_announce hv
  dsimp only
  split_ifs
  · have hdef : Prog.Ensures (exec fault) (runDefenseInDepth h req result) s₁ fun _ _ s' => s' = s₁ := by
      have hmove : ∀ s r s', exec fault (.move req.key) s r s' → s' = s := fun _ _ _ he => he
      have hnotify : ∀ event s r s', exec fault (.notify event) s r s' → s' = s := fun _ _ _ _ he => he
      refine (ensures_attempt hmove).bind fun _ _ s₂ hs2 => ?_
      exact (ensures_attempt (hnotify _)).mono fun _ _ _ h => h.trans hs2
    refine hdef.bind fun l₁ _ s₂ hs2 => ?_
    subst hs2
    exact hann.mono fun l _ s' h hl => h fun x hx => hl x (mem_cons_of_mem _ (mem_append_right _ hx))
  · exact hann.mono fun l _ s' h hl => h fun x hx => hl x (mem_cons_of_mem _ hx)

theorem ensures_handle (hs : Announced req s) :
    Prog.Ensures (exec fault) (handle h (some req)) s fun l _ s' => Orderly l → Announced req s' := by
  unfold handle
  dsimp only
  split_ifs
  · exact (ensures_ackPoison hs).mono fun _ _ _ h _ => h
  refine .ask fun r s₁ he => ?_
  obtain rfl : s₁ = s := he
  cases r with
  | error e => exact .ret fun _ => hs
  | ok result => exact (ensures_persist hs).mono fun l _ s' h hl => h fun x hx => hl x (mem_cons_of_mem _ hx)

end Run

/-- **Announcement.**  However often a request is delivered and whatever fails, as long as no `Publish` fails and no `UpdateScanResult` fails behind
its commit: the verdict that is stored for the row has been published. -/
theorem verdict_announced (fault : Err → Prop) (h : Handler) (req : Request) (n : ℕ) {s : State} (hs : Announced req s) :
    Prog.Ensures (exec fault) (redeliver h (some req) n) s fun l _ s' => Orderly l → Announced req s' := by
  induction n generalizing s with
  | zero => exact .ret fun _ => hs
  | succ n ih =>
    refine (ensures_handle hs).bind fun l₁ _ s₁ h1 => ?_
    intro l₂ a s' hrun hl
    exact ih (h1 fun x hx => hl x (mem_append_left _ hx)) l₂ a s' hrun fun x hx => hl x (mem_append_right _ hx)

def pendingMedia : State := ⟨⟨[⟨2, 1, none⟩], by decide⟩, [], false⟩

/-- Ports that never fail, and a scanner that finds everything clean. -/
def serve : (q : Req) → State → Resp q × State
  | .scan _, s => (.ok ⟨.clean, "clamav", ""⟩, s)
  | .updateScanResult t m result, s => Tx.run s (s.updateScanResult t m result)
  | .move _, s => (.ok (), s)
  | .notify _, s => (.ok (), s)
  | .publish c, s => (.ok (), { s with published := s.published ++ [c] })
  | .ack, s => (.ok (), { s with acked := true })

theorem exec_serve (fault : Err → Prop) (q : Req) (s : State) : exec fault q s (serve q s).1 (serve q s).2 := by
  cases q with
  | updateScanResult t m result => exact Tx.of_run s _
  | publish c => exact .done rfl
  | ack => exact .done rfl
  | _ => rfl

theorem verdict_announced_once : ∃ l s', Prog.Runs (exec Err.fault) (redeliver ⟨true, true⟩ (some ⟨1, 2, "k"⟩) 1) pendingMedia l () s' ∧
    s'.verdict 1 2 = some ⟨.clean, "clamav"⟩ ∧ Announced ⟨1, 2, "k"⟩ s' := by
  refine ⟨_, _, Prog.Runs.served (exec_serve Err.fault) _ _, by decide, ?_⟩
  refine verdict_announced Err.fault ⟨true, true⟩ ⟨1, 2, "k"⟩ 1 ?_ _ _ _ (Prog.Runs.served (exec_serve Err.fault) _ _) ?_
  · intro v hv
    cases hv
  · intro x hx
    revert x
    decide

/-- **A lost announcement.**  The first delivery stores the verdict and fails to publish it; the second finds the row finalised and acks. -/
theorem verdict_unannounced : ∃ l s', Prog.Runs (exec Err.fault) (redeliver ⟨true, true⟩ (some ⟨1, 2, "k"⟩) 2) pendingMedia l () s' ∧
    s'.acked = true ∧ s'.verdict 1 2 = some ⟨.clean, "clamav"⟩ ∧ s'.published = [] := by
  have hscan : ∀ s : State, exec Err.fault (.scan "k") s (.ok ⟨.clean, "clamav", ""⟩) s := fun _ => rfl
  have hstore : exec Err.fault (.updateScanResult 1 2 ⟨.clean, "clamav", ""⟩) pendingMedia (.ok ()) (serve (.updateScanResult 1 2 ⟨.clean, "clamav", ""⟩) pendingMedia).2 :=
    exec_serve Err.fault (.updateScanResult 1 2 ⟨.clean, "clamav", ""⟩) pendingMedia
  generalize hs : (serve (.updateScanResult 1 2 ⟨.clean, "clamav", ""⟩) pendingMedia).2 = s at hstore
  have hdown : exec Err.fault (.publish ⟨1, 2, "k", .clean, "clamav"⟩) s (.error (.other "down")) s := .down ⟨_, rfl⟩
  have hagain : exec Err.fault (.updateScanResult 1 2 ⟨.clean, "clamav", ""⟩) s (.error .scannerAlreadyFinalised) s := by
    subst hs
    exact .refused (by decide)
  have hack : exec Err.fault .ack s (.ok ()) { s with acked := true } := .done rfl
  refine ⟨_, _, .ask (hscan _) (.ask hstore (.ask hdown (.ask (hscan _) (.ask hagain (.ask hack (.ret () _)))))), rfl, ?_, ?_⟩
  · subst hs
    decide
  · subst hs
    decide

end Crm.Media
