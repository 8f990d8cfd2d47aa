import Crm.CustomDomain.Management

/-!
# Crm.CustomDomain.Cap — the number of domains of a tenant

The gate of an enrolment counts the active domains of the tenant and compares with the hard cap; the row is inserted several requests
later, by a statement that counts nothing.  Two enrolments that overlap are both counted against the rows there were before
(`two_enrolments`).  In every run in which no enrolment inserts into more rows of its tenant than it has counted, the cap holds
(`active_within_cap`).
-/

namespace Crm.CustomDomain.Cap

open Interleave List Prog

/-- When an insert of call `i` adds a row of the tenant, the tenant has no more active rows than at the call's count. -/
def Undisturbed (tenantID : UUID) (w : W) : Ev → Prop
  | .act i (.insert _) _ pre post => pre.activeCount tenantID < post.activeCount tenantID →
      ∀ r s s', .act i (.activeCount tenantID) r s s' ∈ w.hist → pre.activeCount tenantID ≤ s.activeCount tenantID
  | _ => True

/-! ## What a request does to the count -/

section Count

variable {s s' : DomainDB} (tenantID : UUID)

theorem activeCount_change (id : UUID) (u : Update) : (s.change id u).activeCount tenantID ≤ s.activeCount tenantID := by
  rw [DomainDB.activeCount, DomainDB.activeCount, DomainDB.change, countP_map]
  refine countP_mono_left fun d _ hd => ?_
  simp only [Function.comp_apply, Update.apply_tenantID, Bool.and_eq_true, decide_eq_true_eq] at hd ⊢
  exact ⟨hd.1, u.apply_active id d hd.2⟩

theorem activeCount_append {d : Domain} (h : s'.rows = s.rows ++ [DomainDB.inserted d]) :
    s'.activeCount tenantID = s.activeCount tenantID + if d.tenantID = tenantID then 1 else 0 := by
  rw [DomainDB.activeCount, DomainDB.activeCount, h, countP_append]
  by_cases ht : d.tenantID = tenantID
  · simp [ht, DomainDB.inserted, Domain.active]
  · simp [ht, DomainDB.inserted]

theorem activeCount_of_exec {q : Req} {r : Resp q} (hq : ∀ d, q ≠ .insert d) (h : exec q s r s') :
    s'.activeCount tenantID ≤ s.activeCount tenantID := by
  rcases exec_cases h with rfl | ⟨d, rfl, -⟩ | ⟨id, u, -, rfl⟩
  · exact le_rfl
  · exact absurd rfl (hq d)
  · exact activeCount_change tenantID id u

end Count

/-! ## The invariant -/

section Invariant

variable {U : UseCase} {tenantID : UUID} {i : ℕ} {w : W}

def Within (U : UseCase) (tenantID : UUID) (w : W) : Prop := (w.store.activeCount tenantID : ℤ) ≤ U.quota.orDefault.hardCap

abbrev Φ (U : UseCase) (tenantID : UUID) : Spec Req Resp DomainDB Call Res := Spec.ofHistory (Within U tenantID)

abbrev M (U : UseCase) (tenantID : UUID) : System Req Resp DomainDB Call Res := system U (Undisturbed tenantID)

/-- Call `i` has counted the rows of the tenant and found room. -/
def Counted (U : UseCase) (tenantID : UUID) (i : ℕ) (w : W) : Prop := ∃ r s s', .act i (.activeCount tenantID) r s s' ∈ w.hist ∧
  (DomainDB.activeCount s tenantID : ℤ) < U.quota.orDefault.hardCap

variable {v : W}

theorem Counted.mono (h : Counted U tenantID i w) (hh : ∀ e ∈ w.hist, e ∈ v.hist) : Counted U tenantID i v := by
  obtain ⟨r, s, s', hm, hlt⟩ := h
  exact ⟨r, s, s', hh _ hm, hlt⟩

theorem keeps_of_ne_insert {q : Req} {r : Resp q} {s' : DomainDB} (hv : Within U tenantID v) (hq : ∀ d, q ≠ .insert d) (he : exec q v.store r s') :
    (Φ U tenantID).Keeps i v (.act i q r v.store s') := by
  refine Spec.ofHistory_keeps rfl (le_trans ?_ hv)
  exact_mod_cast activeCount_of_exec tenantID hq he

theorem ne_insert_of_read {q : Req} (h : q.writes = false) : ∀ d, q ≠ .insert d := by
  rintro d rfl
  cases h

/-- A program without inserts keeps the cap, and what the call has counted. -/
theorem safe_of_sends {α : Type} {p : Client α} {K : W → Prop} {Q : α → W → Prop} (hQ : ∀ a v, Within U tenantID v → K v → Q a v)
    (hgrow : ∀ {u v : W}, (∀ e ∈ u.hist, e ∈ v.hist) → K u → K v) (hK : K w) (hp : p.Sends fun q => ∀ d, q ≠ .insert d) :
    Safe (M U tenantID) (Φ U tenantID) i Q p w :=
  Safe.of_sends (K := K) hQ (fun {_ _} (h : (Φ U tenantID).rely i _ _) => hgrow h.1) (fun v _ _ _ hv hKv hq he _ =>
    ⟨keeps_of_ne_insert hv hq he, hgrow (u := v) (fun _ hm => mem_cons_of_mem _ hm) hKv⟩) hK hp

/-- An enrolment that the gate lets through has counted, and found room. -/
theorem safe_enrollmentGate (hw : Within U tenantID w) : Safe (M U tenantID) (Φ U tenantID) i
    (fun dec v => dec.allowed = true → Counted U tenantID i v) (enrollmentGate U tenantID) w := by
  have hread : ∀ q : Req, q.writes = false → ∀ d, q ≠ .insert d := fun q => ne_insert_of_read
  refine Safe.bind (R := fun res v => res.decision = .allowed → Counted U tenantID i v) ?_ hw ?_
  · rintro ⟨decision, resetAfter, err⟩ v - hres
    cases decision with
    | allowed => exact fun u hu _ _ => (hres rfl).mono hu.1
    | _ => rintro u hu _ ⟨⟩
  simp only [allow, Port.activeCount, send_bind, pure_eq]
  split_ifs with hnil
  · rintro v _ _ ⟨⟩
  simp only [send_bind]
  intro v _ hi now s₁ he _
  refine ⟨keeps_of_ne_insert hi (ne_insert_of_read rfl) he, ?_⟩
  intro v' _ hi' r s₂ he' _
  refine ⟨keeps_of_ne_insert hi' (ne_insert_of_read rfl) he', ?_⟩
  cases r with
  | error e => rintro u _ _ ⟨⟩
  | ok active =>
  have hcount : (v'.store.activeCount tenantID : ℤ) = active := Except.ok.inj (Read.of_ok he')
  dsimp only
  split_ifs with hcap
  · rintro u _ _ ⟨⟩
  have hK : Counted U tenantID i (v'.after (.act i (.activeCount tenantID) (.ok active) v'.store s₂)) :=
    ⟨_, _, _, mem_cons_self, by rw [hcount]; exact not_le.mp hcap⟩
  refine safe_of_sends (fun _ _ _ hKv _ => hKv) (fun hh h => h.mono hh) hK ?_
  exact sends_checkWindow hread tenantID _ _ _ _ <| sends_checkWindow hread tenantID _ _ _ _ <|
    sends_checkWindow hread tenantID _ _ _ _ <| sends_checkBreaker hread tenantID U now

/-- The insert of a call that, if the row is the tenant's, has counted. -/
theorem keeps_insert {d : Domain} {r : Except Err Domain} {s' : DomainDB} (hv : Within U tenantID v)
    (hcount : d.tenantID = tenantID → Counted U tenantID i v) (he : exec (.insert d) v.store r s')
    (hmay : Undisturbed tenantID v (.act i (.insert d) r v.store s')) : (Φ U tenantID).Keeps i v (.act i (.insert d) r v.store s') := by
  refine Spec.ofHistory_keeps rfl ?_
  have hv : (v.store.activeCount tenantID : ℤ) ≤ U.quota.orDefault.hardCap := hv
  show (s'.activeCount tenantID : ℤ) ≤ U.quota.orDefault.hardCap
  rcases exec_cases he with rfl | ⟨d', hd, hrows⟩ | ⟨id, u, h, -⟩
  · exact hv
  · cases hd
    have hadd := activeCount_append tenantID hrows
    split_ifs at hadd with ht
    · obtain ⟨r₀, s₀, s₀', hm, hlt⟩ := hcount ht
      have hle := hmay (by omega) r₀ s₀ s₀' hm
      omega
    · omega
  · cases h

theorem safe_enroll (hw : Within U tenantID w) (tenantID' : UUID) (rawHost : String) :
    Safe (M U tenantID) (Φ U tenantID) i (fun _ _ => True) (enroll U tenantID' rawHost) w := by
  have hread : ∀ q : Req, q.writes = false → ∀ d, q ≠ .insert d := fun q => ne_insert_of_read
  have hgate : ∀ {v : W}, Within U tenantID v → Safe (M U tenantID) (Φ U tenantID) i
      (fun dec v => dec.allowed = true → tenantID' = tenantID → Counted U tenantID i v) (enrollmentGate U tenantID') v := by
    intro v hv
    by_cases ht : tenantID' = tenantID
    · subst ht
      exact (safe_enrollmentGate hv).mono fun _ _ _ h ha _ => h ha
    · exact safe_of_sends (K := fun _ => True) (fun _ _ _ _ _ h => absurd h ht) (fun _ _ => trivial) trivial
        (sends_enrollmentGate hread tenantID' U)
  simp only [enroll, send_bind, pure_eq]
  split_ifs
  · exact .stop
  cases normalizeHost U.tables rawHost with
  | error e => exact .stop
  | ok host =>
  refine Safe.bind (R := fun _ _ => True) ?_ hw
    (safe_of_sends (K := fun _ => True) (fun _ _ _ _ => trivial) (fun _ _ => trivial) trivial (sends_hostValidator hread U host))
  rintro r v hv -
  cases r with
  | error e => exact .stop
  | ok =>
  refine Safe.bind ?_ hv (hgate hv)
  rintro dec v' hv' hdec
  cases dec.err with
  | some e => exact .stop
  | none =>
  dsimp only
  split_ifs with hallowed
  · -- what was counted is known up to the insert
    refine Safe.bind ?_ hv' (safe_of_sends (K := fun v => tenantID' = tenantID → Counted U tenantID i v) (fun _ _ _ h => h)
      (fun hh h ht => (h ht).mono hh) (hdec hallowed) (sends_defaultTokenGen hread))
    rintro r u hu hcount
    cases r with
    | error e => exact .stop
    | ok token =>
    intro u₁ hu1 hi1 now s₁ he1 _
    refine ⟨keeps_of_ne_insert hi1 (ne_insert_of_read rfl) he1, ?_⟩
    intro u₂ hu2 hi2 id s₂ he2 _
    refine ⟨keeps_of_ne_insert hi2 (ne_insert_of_read rfl) he2, ?_⟩
    intro u₃ hu3 hi3 r s₃ he3 hmay
    have hold : ∀ e ∈ u.hist, e ∈ u₃.hist := fun e hm =>
      hu3.1 e (mem_cons_of_mem _ (hu2.1 e (mem_cons_of_mem _ (hu1.1 e hm))))
    refine ⟨keeps_insert hi3 (fun ht => (hcount ht).mono hold) he3 hmay, ?_⟩
    cases r <;> exact .stop
  · exact .stop

theorem verified : Verified (M U tenantID) (Φ U tenantID) := by
  intro w i c hw _ _
  have hinv : Within U tenantID (w.after (.invoke i c)) := hw
  refine ⟨Spec.ofHistory_keeps rfl hinv, ?_⟩
  have hres : ∀ (a : Res c) (v : W), Within U tenantID v → Responds (M U tenantID) (Φ U tenantID) i c a v := fun a v hv _ =>
    Spec.ofHistory_keeps rfl hv
  have hread : ∀ q : Req, q.writes = false → ∀ d, q ≠ .insert d := fun q => ne_insert_of_read
  have hsafe : (body U c).Sends (fun q => ∀ d, q ≠ .insert d) →
      Safe (M U tenantID) (Φ U tenantID) i (Responds (M U tenantID) (Φ U tenantID) i c) (body U c) (w.after (.invoke i c)) :=
    safe_of_sends (K := fun _ => True) (fun a v hv _ => hres a v hv) (fun _ _ => trivial) trivial
  cases c with
  | enroll tenantID' rawHost => exact (safe_enroll hinv tenantID' rawHost).mono fun a v hv _ => hres a v hv
  | verify tenantID' id => exact hsafe (sends_verify hread tenantID' id (by rintro _ _ _ _ _ _ ⟨⟩) U)
  | setPaused tenantID' id paused => exact hsafe (sends_setPaused hread tenantID' id (by rintro _ _ _ _ ⟨⟩) paused)
  | delete tenantID' id => exact hsafe (sends_delete hread tenantID' id (by rintro _ _ _ ⟨⟩) U)
  | regenerateToken tenantID' id => exact hsafe (sends_regenerateToken hread tenantID' id (by rintro _ _ _ _ ⟨⟩))

end Invariant

def oneDomain : UseCase := ⟨.ascii, ⟨5, 20, 50, 1⟩, true, true, true, true, 0⟩

/-- **Without overlap the cap holds.**  In every interleaving of calls in which no enrolment of the tenant inserts its row among more active
rows than it has counted, the tenant has at most `HardCap` active domains. -/
theorem active_within_cap {U : UseCase} {tenantID : UUID} {s₀ : DomainDB} {σ : Conf Req Resp DomainDB Call Res}
    (h₀ : (s₀.activeCount tenantID : ℤ) ≤ U.quota.orDefault.hardCap) (hr : Reach (system U (Undisturbed tenantID)) s₀ σ) :
    (σ.world.store.activeCount tenantID : ℤ) ≤ U.quota.orDefault.hardCap := verified.inv h₀ hr

/-- A table that takes one domain of tenant 7, and then is down for inserts. -/
def serveOnce : (q : Req) → DomainDB → Resp q × DomainDB
  | .insert d, s => if s.activeCount 7 = 0 then serve (publicPorts []) (.insert d) s else (.error (.other "connection refused"), s)
  | q, s => serve (publicPorts []) q s

theorem exec_serveOnce (q : Req) (s : DomainDB) : exec q s (serveOnce q s).1 (serveOnce q s).2 := by
  cases q with
  | insert d =>
    simp only [serveOnce]
    split_ifs
    · exact exec_serve (publicPorts []) (.insert d) s
    · exact Tx.down ⟨_, rfl⟩
  | _ => exact exec_serve (publicPorts []) _ s

theorem serveOnce_undisturbed (w : W) (i : ℕ) (q : Req) (s : DomainDB) :
    Undisturbed 7 w (.act i q (serveOnce q s).1 s (serveOnce q s).2) := by
  cases q with
  | insert d =>
    simp only [serveOnce]
    split_ifs with h
    · exact fun _ r s' s'' _ => h ▸ Nat.zero_le _
    · exact fun h => absurd h (lt_irrefl _)
  | _ => trivial

theorem active_within_cap_one : ∃ σ, Reach (system oneDomain (Undisturbed 7)) emptyDB σ ∧ σ.world.store.activeCount 7 = 1 ∧
    (σ.world.store.activeCount 7 : ℤ) ≤ oneDomain.quota.orDefault.hardCap := by
  have hr := Conf.steps_serve (M := system oneDomain (Undisturbed 7)) exec_serveOnce (fun i w => serveOnce_undisturbed w i) (fun _ _ _ _ => trivial)
    (.invoke 0 (.enroll 7 "a.example.com") :: List.replicate 13 (.move 0)) (Conf.start emptyDB) fun _ _ _ _ => trivial
  exact ⟨_, hr, by decide +kernel, active_within_cap (by decide) hr⟩

/-- **Two enrolments.**  The first has counted no domain and stands; the second counts none either and inserts its row; then the first inserts
its own.  The tenant has two active domains under a cap of one. -/
theorem two_enrolments : ∃ σ, Reach (system oneDomain fun _ _ => True) emptyDB σ ∧ oneDomain.quota.orDefault.hardCap = 1 ∧
    emptyDB.activeCount 7 = 0 ∧ σ.world.store.activeCount 7 = 2 := by
  have hr := Conf.steps_serve (M := system oneDomain fun _ _ => True) (exec_serve (publicPorts [])) (fun _ _ _ _ => trivial) (fun _ _ _ _ => trivial)
    (overtaking (.enroll 7 "a.example.com") (.enroll 7 "b.example.com") 8 13 5) (Conf.start emptyDB) fun _ _ _ _ => trivial
  exact ⟨_, hr, by decide, by decide, by decide +kernel⟩

end Crm.CustomDomain.Cap
