import Crm.Assist.Coverage

/-!
# Crm.Assist.Staleness — cached summaries and new messages

`Invalidate` marks the summaries that are stored when it runs; a `Summarize` that fixed its prompt earlier stores its row later, and
neither the insert nor the cache lookup asks whether the conversation has been invalidated in between.
-/

namespace Crm.Assist

open Interleave Interleave.Prog List

inductive Call : Type
  | summarize (req : SummarizeRequest)
  | invalidate (tenantID conversationID : UUID)
  deriving DecidableEq

abbrev Res : Call → Type
  | .summarize _ => Except Failure SummarizeResponse
  | .invalidate _ _ => Except Failure Unit

def body (svc : Service) : (c : Call) → Client (Res c)
  | .summarize req => summarize svc req
  | .invalidate t c => invalidate t c

abbrev W : Type := World Req Resp AssistDB Call Res
abbrev Ev : Type := Event Req Resp AssistDB Call Res
abbrev Cfg : Type := Conf Req Resp AssistDB Call Res

def system (svc : Service) (allow : W → Ev → Prop) : System Req Resp AssistDB Call Res where
  exec := exec
  body := body svc
  allow := allow

/-- A call saves a summary only if its conversation has not been invalidated since the call began. -/
def SavesFresh (w : W) : Ev → Prop
  | .act k (.saveSummary m) _ _ _ => ∀ newer older j now pre post,
      w.hist = newer ++ .act j (.invalidateForConversation m.tenantID m.conversationID now) (.ok ()) pre post :: older → ∀ c, .invoke k c ∉ older
  | _ => True

/-! ## What the answers show -/

section Answers

variable {α : Type} {req : SummarizeRequest} {svc : Service}

/-- A cached summary is returned right after the lookup that found it. -/
def Cached (req : SummarizeRequest) (q : Req) (r : Resp q) (p : Client (Except Failure SummarizeResponse)) : Prop :=
  ∀ m, p = .ret (.ok ⟨m, true⟩) → ∃ now, (⟨q, r⟩ : Σ q, Resp q) = ⟨.getLatestValid req.tenantID req.conversationID now, .ok m⟩

/-- The program returns no cached summary but from a lookup of its own. -/
structure LooksUp (req : SummarizeRequest) (p : Client (Except Failure SummarizeResponse)) : Prop where
  ne : ∀ m, p ≠ .ret (.ok ⟨m, true⟩)
  always : p.Always (Cached req)

theorem LooksUp.ret {a : Except Failure SummarizeResponse} (h : ∀ m, a ≠ .ok ⟨m, true⟩) : LooksUp req (.ret a) :=
  ⟨fun m hm => h m (by cases hm; rfl), trivial⟩

theorem LooksUp.ask {q : Req} {k : Resp q → Client (Except Failure SummarizeResponse)} (h : ∀ r, LooksUp req (k r)) : LooksUp req (.ask q k) :=
  ⟨by rintro m ⟨⟩, fun r => ⟨fun m hm => absurd hm ((h r).ne m), (h r).always⟩⟩

theorem LooksUp.bind {f : α → Client (Except Failure SummarizeResponse)} (hf : ∀ a, LooksUp req (f a)) : ∀ {p : Client α}, LooksUp req (p >>= f)
  | .ret a => hf a
  | .ask _ _ => .ask fun _ => LooksUp.bind hf

theorem dispatch_looksUp {policy : Policy} {now : Time} : LooksUp req (dispatch svc req policy now) := by
  unfold dispatch
  refine .bind fun x => ?_
  cases x with
  | error e => exact .ret (by rintro m ⟨⟩)
  | ok prompt =>
  refine .bind fun x => ?_
  cases x with
  | error e => exact .ret (by rintro m ⟨⟩)
  | ok x =>
  refine .bind fun x => ?_
  cases x <;> exact .ret (by rintro m ⟨⟩)

theorem summarize_looksUp : LooksUp req (summarize svc req) := by
  simp only [summarize, send_bind, pure_eq]
  split
  · exact .ret (by rintro m ⟨⟩)
  refine .ask fun r => ?_
  cases r with
  | error e => exact .ret (by rintro m ⟨⟩)
  | ok policy =>
  dsimp only
  split_ifs
  · exact .ret (by rintro m ⟨⟩)
  refine .bind fun x => ?_
  cases x with
  | error e => exact .ret (by rintro m ⟨⟩)
  | ok u =>
  refine .bind fun x => ?_
  cases x with
  | error e => exact .ret (by rintro m ⟨⟩)
  | ok u =>
  refine .ask fun now => ?_
  simp only [lookupCache, send_bind, pure_eq]
  split_ifs
  · exact dispatch_looksUp
  -- the lookup, and the one answer that is returned as it is
  refine ⟨by rintro m ⟨⟩, fun r => ?_⟩
  cases r with
  | ok cached =>
    dsimp only
    split_ifs
    · exact ⟨fun m hm => ⟨now, by cases hm; rfl⟩, trivial⟩
    · exact ⟨fun m hm => absurd hm (dispatch_looksUp.ne m), dispatch_looksUp.always⟩
  | error e =>
  dsimp only
  split_ifs
  · exact ⟨fun m hm => absurd hm (dispatch_looksUp.ne m), dispatch_looksUp.always⟩
  · exact ⟨by rintro m ⟨⟩, trivial⟩

theorem invalidate_last {t c : UUID} : (invalidate t c).Always fun q r p =>
    p = .ret (.ok ()) → ∃ now, (⟨q, r⟩ : Σ q, Resp q) = ⟨.invalidateForConversation t c now, .ok ()⟩ := by
  simp only [invalidate, send_bind, pure_eq]
  split_ifs
  · trivial
  · trivial
  refine fun now => ⟨by rintro ⟨⟩, fun r => ?_⟩
  cases r with
  | error e => exact ⟨by rintro ⟨⟩, trivial⟩
  | ok u => exact ⟨fun _ => ⟨now, rfl⟩, trivial⟩

theorem invalidate_ne {t c : UUID} : invalidate t c ≠ .ret (.ok ()) := by
  simp only [invalidate, send_bind, pure_eq]
  split_ifs <;> rintro ⟨⟩

end Answers

/-! ## The rows of the cache -/

section Rows

variable {s s' : AssistDB} {m : Summary}

/-- A row that has not been invalidated was there before the request, or the request has inserted it. -/
theorem exec_mem {q : Req} {r : Resp q} (he : exec q s r s') (hm : m ∈ s'.summaries) (hnone : m.invalidatedAt = none) :
    m ∈ s.summaries ∨ ∃ m', q = .saveSummary m' ∧ s.saveSummary m' = .ok ((), s') ∧ m = AssistDB.rowOf m' := by
  cases q with
  | reserve t a k => exact .inl (he.2 ▸ hm)
  | commit r a k => exact .inl (he.2 ▸ hm)
  | release r k => exact .inl (he.2 ▸ hm)
  | getLatestValid t c now => exact .inl (he.1 ▸ hm)
  | saveSummary m' =>
    rcases Tx.store_cases he with rfl | ⟨_, hsave⟩
    · exact .inl hm
    have h := hsave
    rw [AssistDB.saveSummary] at h
    split_ifs at h
    cases h
    rcases mem_append.mp hm with hm | hm
    · exact .inl hm
    · exact .inr ⟨m', rfl, hsave, mem_singleton.mp hm⟩
  | invalidateForConversation t c now =>
    rcases Tx.store_cases he with rfl | ⟨_, h⟩
    · exact .inl hm
    rw [AssistDB.invalidateForConversation] at h
    split_ifs at h
    cases h
    -- a row that the update has changed has a time of invalidation
    obtain ⟨m₀, hm0, rfl⟩ := mem_map.mp hm
    by_cases hmatch : m₀.tenantID = t ∧ m₀.conversationID = c ∧ m₀.invalidatedAt = none
    · rw [if_pos hmatch] at hnone
      cases hnone
    · rw [if_neg hmatch]
      exact .inl hm0
  | _ =>
  obtain rfl : s' = s := he
  exact .inl hm

theorem invalidate_clears {t c : UUID} {now : Time} (he : exec (.invalidateForConversation t c now) s (.ok ()) s') (ht : m.tenantID = t)
    (hc : m.conversationID = c) (hnone : m.invalidatedAt = none) : m ∉ s'.summaries := by
  intro hm
  have h := Tx.of_ok he
  rw [AssistDB.invalidateForConversation] at h
  split_ifs at h
  cases h
  obtain ⟨m₀, -, rfl⟩ := mem_map.mp hm
  by_cases hmatch : m₀.tenantID = t ∧ m₀.conversationID = c ∧ m₀.invalidatedAt = none
  · rw [if_pos hmatch] at hnone
    cases hnone
  · rw [if_neg hmatch] at ht hc hnone
    exact hmatch ⟨ht, hc, hnone⟩

theorem lookup_row {t c : UUID} {now : Time} (he : exec (.getLatestValid t c now) s (.ok m) s') :
    m ∈ s.summaries ∧ m.tenantID = t ∧ m.conversationID = c ∧ m.invalidatedAt = none := by
  obtain ⟨-, ⟨-, -, hm, -⟩ | ⟨e, -, h⟩⟩ := he
  · obtain ⟨hm, hrow⟩ := mem_filter.mp hm
    obtain ⟨ht, hc, hnone, -⟩ := of_decide_eq_true hrow
    exact ⟨hm, ht, hc, hnone⟩
  · cases h

end Rows

/-! ## Whole runs -/

/-- **Cached summaries are current.**  Let no call save a summary of a conversation that was invalidated since the call began.  Call `j`
has not begun at `σ₀`; at `σ₁` its `Invalidate` has completed, and call `i` has not begun.  A cached summary that call `i` then returns was
saved by a call that had not begun at `σ₀`. -/
theorem cached_summary_current {svc : Service} {s : AssistDB} {σ₀ σ₁ σ : Cfg} {i j : ℕ} {req : SummarizeRequest} {m : Summary}
    (h₀ : Reach (system svc SavesFresh) s σ₀) (hj : σ₀.world.Unused j) (h₁ : Relation.ReflTransGen (Step (system svc SavesFresh)) σ₀ σ₁)
    (hinv : .respond j (.invalidate req.tenantID req.conversationID) (Except.ok ()) ∈ σ₁.world.hist) (hi : σ₁.world.Unused i)
    (h₂ : Relation.ReflTransGen (Step (system svc SavesFresh)) σ₁ σ) (hres : .respond i (.summarize req) (Except.ok ⟨m, true⟩) ∈ σ.world.hist) :
    ∃ k m' r pre post, .act k (.saveSummary m') r pre post ∈ σ.world.hist ∧ pre.saveSummary m' = .ok ((), post) ∧ m = AssistDB.rowOf m' ∧
      ∀ c, .invoke k c ∉ σ₀.world.hist := by
  have hr1 : Reach (system svc SavesFresh) s σ₁ := h₀.trans h₁
  have hr : Reach (system svc SavesFresh) s σ := hr1.trans h₂
  -- the update of the `Invalidate`, and the lookup that comes after it
  obtain ⟨_, _, pre₁, post₁, x₁, x₂, hx, hlast⟩ := h₀.last_answer hj h₁ hinv invalidate_last invalidate_ne
  obtain ⟨now, heq⟩ := hlast rfl
  cases heq
  obtain ⟨_, _, pre₂, post₂, y₁, y₂, hy, hlast⟩ := hr1.last_answer hi h₂ hres summarize_looksUp.always (summarize_looksUp.ne m)
  obtain ⟨now', heq⟩ := hlast m rfl
  cases heq
  obtain ⟨τ, hτ, hw, he, -⟩ := hr.act_split hy
  obtain ⟨hmem, ht, hc, hnone⟩ := lookup_row he
  have hhist : τ.world.hist = (y₂ ++ x₁) ++ .act j (.invalidateForConversation req.tenantID req.conversationID now) (.ok ()) pre₁ post₁ ::
      (x₂ ++ σ₀.world.hist) := by
    rw [hw, hx, append_assoc]
  have hupdate := hτ.act_exec (by rw [hhist]; exact mem_append_right _ mem_cons_self)
  -- the row came in after the update, by a save
  by_contra hsaved
  have hkept : m ∉ τ.world.store.summaries := by
    refine hτ.since (I := fun s => m ∉ s.summaries) hhist (invalidate_clears hupdate ht hc hnone) fun k q r s₁ s₂ hact hexec hnot hm => ?_
    obtain hm | ⟨m', rfl, hsave, rfl⟩ := exec_mem hexec hm hnone
    · exact hnot hm
    obtain ⟨z₁, z₂, hz⟩ := append_of_mem hact
    have hcut : τ.world.hist = z₁ ++ .act k (.saveSummary m') r s₁ s₂ :: (z₂ ++ .act j (.invalidateForConversation req.tenantID req.conversationID now)
        (.ok ()) pre₁ post₁ :: (x₂ ++ σ₀.world.hist)) := by
      rw [hhist, hz, append_assoc, cons_append]
    obtain ⟨τ', -, hτ', hallow⟩ := hτ.split hcut
    have hfresh := hallow z₂ (x₂ ++ σ₀.world.hist) j now pre₁ post₁ (by rw [hτ']; exact ht ▸ hc ▸ rfl)
    refine hsaved ⟨k, m', r, s₁, s₂, ?_, hsave, rfl, fun c hc => hfresh c (mem_append_right _ hc)⟩
    rw [hy]
    refine mem_append_right _ (mem_cons_of_mem _ ?_)
    rcases mem_append.mp hact with hm | hm
    · exact mem_append_left _ hm
    · rw [hx]
      exact mem_append_right _ (mem_append_left _ hm)
  rw [hw] at hkept
  exact hkept hmem

/-- `SavesFresh`, evaluated: a call that saves has no events before an `Invalidate`. -/
def savesFresh (w : W) : Ev → Bool
  | .act k (.saveSummary _) _ _ _ => w.hist.tails.all fun
    | .act _ (.invalidateForConversation _ _ _) _ _ _ :: older => older.all fun e => e.tid ≠ k
    | _ => true
  | _ => true

theorem savesFresh_sound (w : W) (e : Ev) (h : savesFresh w e) : SavesFresh w e := by
  cases e with
  | act k q r pre post =>
    cases q with
    | saveSummary m =>
      intro newer older j now pre' post' hw c hm
      have hall := all_eq_true.mp h _ ((mem_tails _ _).mpr ⟨newer, hw.symm⟩)
      exact absurd rfl (of_decide_eq_true (all_eq_true.mp hall _ hm))
    | _ => trivial
  | _ => trivial

/-- The service with the default TTL, and the summary that it makes. -/
def dayService : Service := { plainService with ttl := defaultSummaryTTL, ttl_pos := by decide }
def daySummary : Summary := newSummary 7 2 3 "ok" "m" 4 6 0 defaultSummaryTTL

def invalidation : List (Turn Call) := [.invoke 1 (.invalidate 2 3), .move 1, .move 1, .move 1]

/-- A `Summarize` by call 0 up to the answer of the model, and the rest of it. -/
def dispatching : List (Turn Call) := [.invoke 0 (.summarize (request false)), .move 0, .move 0, .move 0, .move 0, .move 0]
def persisting : List (Turn Call) := [.move 0, .move 0, .move 0, .move 0]

def rereading : List (Turn Call) := [.invoke 2 (.summarize (request false)), .move 2, .move 2, .move 2, .move 2]

/-- The conversation is summarised after the `Invalidate`, and the summary is found again. -/
theorem cached_summary_current_again : ∃ (σ₁ σ : Cfg) (m : Summary), .respond 1 (.invalidate 2 3) (Except.ok ()) ∈ σ₁.world.hist ∧
    .respond 2 (.summarize (request false)) (Except.ok ⟨m, true⟩) ∈ σ.world.hist ∧
    ∃ k m' r pre post, .act k (.saveSummary m') r pre post ∈ σ.world.hist ∧ pre.saveSummary m' = .ok ((), post) ∧ m = AssistDB.rowOf m' ∧
      ∀ c, .invoke k c ∉ (Conf.start fundedAssist : Cfg).world.hist := by
  let M := system dayService SavesFresh
  let σ₁ : Cfg := (Conf.start fundedAssist).play M serve invalidation
  let σ : Cfg := σ₁.play M serve (dispatching ++ persisting ++ rereading)
  obtain ⟨hc1, hc, hi, hinv, hres⟩ : (Conf.start fundedAssist).checks M serve answers savesFresh invalidation = true ∧
      σ₁.checks M serve answers savesFresh (dispatching ++ persisting ++ rereading) = true ∧ σ₁.world.Unused 2 ∧
      σ₁.world.result 1 (.invalidate 2 3) = some (Except.ok ()) ∧
      σ.world.result 2 (.summarize (request false)) = some (Except.ok ⟨AssistDB.rowOf daySummary, true⟩) := by decide +kernel
  exact ⟨σ₁, σ, _, World.mem_of_result hinv, World.mem_of_result hres, cached_summary_current .refl (by rintro _ ⟨⟩)
    (Conf.steps_play exec_serve savesFresh_sound _ _ hc1) (World.mem_of_result hinv) hi (Conf.steps_play exec_serve savesFresh_sound _ _ hc)
    (World.mem_of_result hres)⟩

/-- **A late save.**  Call 0 has its answer from the model when the conversation is invalidated; it then saves its summary, which call 2
is served. -/
theorem stale_summary_served : ∃ (σ₀ σ₁ σ : Cfg) (m : Summary), Reach (system dayService fun _ _ => True) fundedAssist σ₀ ∧
    .invoke 0 (.summarize (request false)) ∈ σ₀.world.hist ∧ σ₀.world.Unused 1 ∧
    Relation.ReflTransGen (Step (system dayService fun _ _ => True)) σ₀ σ₁ ∧ .respond 1 (.invalidate 2 3) (Except.ok ()) ∈ σ₁.world.hist ∧
    σ₁.world.Unused 2 ∧ Relation.ReflTransGen (Step (system dayService fun _ _ => True)) σ₁ σ ∧
    .respond 0 (.summarize (request false)) (Except.ok ⟨m, false⟩) ∈ σ.world.hist ∧
    .respond 2 (.summarize (request false)) (Except.ok ⟨AssistDB.rowOf m, true⟩) ∈ σ.world.hist := by
  let M := system dayService fun _ _ => True
  let σ₀ : Cfg := (Conf.start fundedAssist).play M serve dispatching
  let σ₁ : Cfg := σ₀.play M serve invalidation
  let σ : Cfg := σ₁.play M serve (persisting ++ rereading)
  obtain ⟨hc0, hc1, hc, hbegun, hj, hinv, hi, hfirst, hsecond⟩ :
      (Conf.start fundedAssist).checks M serve answers (fun _ _ => true) dispatching = true ∧
      σ₀.checks M serve answers (fun _ _ => true) invalidation = true ∧
      σ₁.checks M serve answers (fun _ _ => true) (persisting ++ rereading) = true ∧
      σ₀.world.invoked 0 (.summarize (request false)) = true ∧ σ₀.world.Unused 1 ∧
      σ₁.world.result 1 (.invalidate 2 3) = some (Except.ok ()) ∧ σ₁.world.Unused 2 ∧
      σ.world.result 0 (.summarize (request false)) = some (Except.ok ⟨daySummary, false⟩) ∧
      σ.world.result 2 (.summarize (request false)) = some (Except.ok ⟨AssistDB.rowOf daySummary, true⟩) := by decide +kernel
  have hk : ∀ (w : W) (e : Ev), true → M.allow w e := fun _ _ _ => trivial
  exact ⟨σ₀, σ₁, σ, daySummary, Conf.steps_play exec_serve hk _ _ hc0, World.mem_of_invoked hbegun, hj, Conf.steps_play exec_serve hk _ _ hc1,
    World.mem_of_result hinv, hi, Conf.steps_play exec_serve hk _ _ hc, World.mem_of_result hfirst, World.mem_of_result hsecond⟩

end Crm.Assist
