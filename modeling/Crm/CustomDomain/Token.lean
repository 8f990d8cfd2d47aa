import Crm.CustomDomain.Management

/-!
# Crm.CustomDomain.Token — a domain is verified with the token it holds

`Verify` reads the token, leaves for the DNS lookups and comes back with an update that is guarded by the token it read.  In every
interleaving of the calls of the use case a row therefore becomes verified only by a call whose own lookups proved the token that the row
holds at that instant, and only while the row is not deleted.  A verified row keeps its token: the only statement that changes a token is
guarded by `verified_at IS NULL` (`Kept`).
-/

namespace Crm.CustomDomain

open Interleave Text List Prog

/-! ## What a statement does to a verified row -/

namespace Update

variable {u : Update} {id : UUID} {d : Domain}

theorem apply_verified (h : d.verifiedAt ≠ none) :
    (u.apply id d).verifiedAt ≠ none ∧ (u.apply id d).verificationToken = d.verificationToken := by
  unfold apply
  split_ifs with hg
  · cases u with
    | markVerified expectedToken at_ withDNSSEC dnsLogID => exact ⟨Option.some_ne_none _, rfl⟩
    | setPaused pausedAt now => exact ⟨h, rfl⟩
    | softDelete at_ => exact ⟨h, rfl⟩
    | rotateToken newToken issuedAt =>
      simp only [guard, Bool.and_eq_true, Option.isNone_iff_eq_none] at hg
      exact absurd hg.2.1 h
  · exact ⟨h, rfl⟩

/-- A statement after which a row is verified found it verified, or is the compare-and-swap on its token. -/
theorem verified_of_apply (h : (u.apply id d).verifiedAt ≠ none) : d.verifiedAt ≠ none ∨
    ∃ token t dnssec log, u = .markVerified token t dnssec log ∧ d.id = id ∧ d.deletedAt = none ∧ d.verificationToken = token ∧
      (u.apply id d).verificationToken = token := by
  unfold apply at h ⊢
  split_ifs at h ⊢ with hg
  · cases u with
    | markVerified expectedToken at_ withDNSSEC dnsLogID =>
      simp only [guard, Domain.active, Bool.and_eq_true, Option.isNone_iff_eq_none, decide_eq_true_eq] at hg
      exact .inr ⟨expectedToken, at_, withDNSSEC, dnsLogID, rfl, hg.1, hg.2.1, hg.2.2, hg.2.2⟩
    | setPaused pausedAt now => exact .inl h
    | softDelete at_ => exact .inl h
    | rotateToken newToken issuedAt => exact .inl h
  · exact .inl h

end Update

/-- Rows stay, under their id and host; verified ones stay verified, with their token. -/
def Kept (s s' : DomainDB) : Prop := ∀ d ∈ s.rows, ∃ d' ∈ s'.rows, d'.id = d.id ∧ d'.host = d.host ∧
  (d.verifiedAt ≠ none → d'.verifiedAt ≠ none ∧ d'.verificationToken = d.verificationToken)

theorem Kept.refl (s : DomainDB) : Kept s s := fun d hd => ⟨d, hd, rfl, rfl, fun h => ⟨h, rfl⟩⟩

theorem Kept.trans {s₁ s₂ s₃ : DomainDB} (h1 : Kept s₁ s₂) (h2 : Kept s₂ s₃) : Kept s₁ s₃ := by
  intro d hd
  obtain ⟨d₂, hd2, hid2, hhost2, hv2⟩ := h1 d hd
  obtain ⟨d₃, hd3, hid3, hhost3, hv3⟩ := h2 d₂ hd2
  refine ⟨d₃, hd3, hid3.trans hid2, hhost3.trans hhost2, fun hv => ?_⟩
  have h₂' := hv2 hv
  have h₃' := hv3 h₂'.1
  exact ⟨h₃'.1, h₃'.2.trans h₂'.2⟩

theorem Kept.of_exec {q : Req} {s s' : DomainDB} {r : Resp q} (h : exec q s r s') : Kept s s' := by
  rcases exec_cases h with rfl | ⟨d, -, hrows⟩ | ⟨id, u, -, rfl⟩
  · exact Kept.refl s'
  · intro d₀ hd0
    refine ⟨d₀, ?_, rfl, rfl, fun hv => ⟨hv, rfl⟩⟩
    rw [hrows]
    exact mem_append_left _ hd0
  · exact fun d hd => ⟨u.apply id d, mem_map_of_mem hd, u.apply_id id d, u.apply_host id d, Update.apply_verified⟩

/-- A row that is verified after a step was so before, or was verified by the step, with the token it held. -/
theorem verified_of_exec {q : Req} {s s' : DomainDB} {r : Resp q} (h : exec q s r s') {d : Domain} (hd : d ∈ s'.rows)
    (hv : d.verifiedAt ≠ none) : (∃ d₀ ∈ s.rows, d₀.id = d.id ∧ d₀.verifiedAt ≠ none) ∨
      ∃ t dnssec log, q = .update d.id (.markVerified d.verificationToken t dnssec log) ∧
        ∃ d₀ ∈ s.rows, d₀.id = d.id ∧ d₀.deletedAt = none ∧ d₀.verificationToken = d.verificationToken := by
  rcases exec_cases h with rfl | ⟨d', -, hrows⟩ | ⟨id, u, rfl, rfl⟩
  · exact .inl ⟨d, hd, rfl, hv⟩
  · rw [hrows] at hd
    rcases mem_append.mp hd with hd | hd
    · exact .inl ⟨d, hd, rfl, hv⟩
    · rw [mem_singleton.mp hd] at hv
      exact absurd rfl hv
  obtain ⟨d₀, hd0, rfl⟩ := mem_map.mp hd
  rcases Update.verified_of_apply hv with hv0 | ⟨token, t, dnssec, log, rfl, hid, hdel, htok, htok'⟩
  · exact .inl ⟨d₀, hd0, (u.apply_id id d₀).symm, hv0⟩
  · refine .inr ⟨t, dnssec, log, ?_, d₀, hd0, (Update.apply_id _ id d₀).symm, hdel, htok.trans htok'.symm⟩
    rw [htok', Update.apply_id, hid]

namespace Token

/-! ## The invariant -/

/-- Call `i` has looked up `host`, and the answers prove `token`. -/
def Checked (T : CaseTables) (h : List Ev) (i : ℕ) (host token : String) : Prop :=
  ∃ answers txts pre post pre' post', .act i (.lookupIP (trimSpace (T.lower host))) (.ok answers) pre post ∈ h ∧
    .act i (.lookupTXT (Validation.txtSubdomain ++ trimSpace (T.lower host))) (.ok txts) pre' post' ∈ h ∧
    Validation.Passes answers txts token

theorem Checked.mono {T : CaseTables} {h h' : List Ev} {i : ℕ} {host token : String} (hc : Checked T h i host token)
    (hh : ∀ e ∈ h, e ∈ h') : Checked T h' i host token := by
  obtain ⟨answers, txts, pre, post, pre', post', h1, h2, hp⟩ := hc
  exact ⟨answers, txts, pre, post, pre', post', hh _ h1, hh _ h2, hp⟩

/-- Why a row is verified after event `e`, which comes after the events `h`: it was verified before, or `e` is an event of a `Verify` of the
row whose lookups proved the token that the row, which is not deleted, holds. -/
def Justified (T : CaseTables) (e : Ev) (h : List Ev) : Prop :=
  ∀ i q r pre post, e = .act i q r pre post → ∀ d ∈ post.rows, d.verifiedAt ≠ none →
    (∃ d₀ ∈ pre.rows, d₀.id = d.id ∧ d₀.verifiedAt ≠ none) ∨
    ∃ d₀ ∈ pre.rows, d₀.id = d.id ∧ d₀.deletedAt = none ∧ d₀.verificationToken = d.verificationToken ∧
      (∃ tenantID, .invoke i (.verify tenantID d.id) ∈ h) ∧ Checked T h i d₀.host d₀.verificationToken

structure Inv (U : UseCase) (s₀ : DomainDB) (w : W) : Prop where
  start : Kept s₀ w.store
  kept : ∀ {i q r pre post}, .act i q r pre post ∈ w.hist → Kept post w.store
  justified : ∀ {e h}, (e :: h) <:+ w.hist → Justified U.tables e h

section Invariant

variable {U : UseCase} {s₀ : DomainDB} {w : W} {may : W → Ev → Prop} {i : ℕ}
variable {q : Req} {s' : DomainDB} {v : W} {d : Domain} {tenantID : UUID}

theorem Inv.after_act (hw : Inv U s₀ w) {r : Resp q} (he : exec q w.store r s') (hj : Justified U.tables (.act i q r w.store s') w.hist) :
    Inv U s₀ (w.after (.act i q r w.store s')) where
  start := hw.start.trans (Kept.of_exec he)
  kept := by
    intro j q' r' pre post hm
    rcases mem_cons.mp hm with h | h
    · cases h
      exact Kept.refl _
    · exact (hw.kept h).trans (Kept.of_exec he)
  justified := by
    intro e h hs
    rcases suffix_cons_iff.mp hs with h' | h'
    · cases h'
      exact hj
    · exact hw.justified h'

theorem Inv.after_other (hw : Inv U s₀ w) {e : Ev} (he : ∀ i q r pre post, e ≠ .act i q r pre post) : Inv U s₀ (w.after e) := by
  have hstore : (w.after e).store = w.store := by
    cases e with
    | act i q r pre post => exact absurd rfl (he i q r pre post)
    | invoke j c => rfl
    | respond j c a => rfl
  refine ⟨hstore ▸ hw.start, fun hm => hstore ▸ ?_, fun hs => ?_⟩
  · rcases mem_cons.mp hm with h | h
    · exact absurd h.symm (he _ _ _ _ _)
    · exact hw.kept h
  rcases suffix_cons_iff.mp hs with h' | h'
  · cases h'
    exact fun i q r pre post h => absurd h (he i q r pre post)
  · exact hw.justified h'

abbrev Φ (U : UseCase) (s₀ : DomainDB) : Spec Req Resp DomainDB Call Res := Spec.ofHistory (Inv U s₀)

theorem rely_hist {u : W} (h : (Φ U s₀).rely i u v) : ∀ e ∈ u.hist, e ∈ v.hist := h.1

/-- The requests other than the compare-and-swap of `MarkVerified`. -/
def Harmless (q : Req) : Prop := ∀ id token t dnssec log, q ≠ .update id (.markVerified token t dnssec log)

theorem harmless_of_read (h : q.writes = false) : Harmless q := by
  rintro id token t dnssec log rfl
  cases h

theorem keeps_harmless {r : Resp q} (hv : Inv U s₀ v) (hq : Harmless q) (he : exec q v.store r s') : (Φ U s₀).Keeps i v (.act i q r v.store s') := by
  refine Spec.ofHistory_keeps rfl (hv.after_act he ?_)
  rintro j q' r' pre post h d hd hver
  cases h
  rcases verified_of_exec he hd hver with h | ⟨t, dnssec, log, rfl, -⟩
  · exact .inl h
  · exact absurd rfl (hq _ _ _ _ _)

theorem safe_harmless {α : Type} {p : Client α} {Q : α → W → Prop} (hQ : ∀ a v, Inv U s₀ v → Q a v) (hp : p.Sends Harmless) :
    Safe (system U may) (Φ U s₀) i Q p w :=
  Safe.of_sends (K := fun _ => True) (fun a v hv _ => hQ a v hv) (fun _ _ => trivial)
    (fun _ _ _ _ hv _ hq he _ => ⟨keeps_harmless hv hq he, trivial⟩) trivial hp

/-! ## Verify -/

def Seen (h : List Ev) (d : Domain) : Prop := ∃ i q r pre post, .act i q r pre post ∈ h ∧ d ∈ DomainDB.rows post

theorem Seen.mono {h h' : List Ev} (hs : Seen h d) (hh : ∀ e ∈ h, e ∈ h') : Seen h' d := by
  obtain ⟨i, q, r, pre, post, hm, hd⟩ := hs
  exact ⟨i, q, r, pre, post, hh _ hm, hd⟩

theorem safe_get (tenantID id : UUID) : Safe (system U may) (Φ U s₀) i
    (fun x v => (∀ e ∈ w.hist, e ∈ v.hist) ∧ ∀ d, x = .ok d → d.id = id ∧ Seen v.hist d) (get tenantID id) w := by
  simp only [get, send_bind, pure_eq]
  split_ifs
  · exact fun v hv _ => ⟨hv.1, by rintro d ⟨⟩⟩
  intro v hv hi r s' he _
  refine ⟨keeps_harmless hi (harmless_of_read rfl) he, ?_⟩
  have hgrow : ∀ e ∈ w.hist, e ∈ (v.after (.act i (.getByID id) r v.store s')).hist := fun e hm => mem_cons_of_mem _ (hv.1 e hm)
  cases r with
  | error e => exact fun u hu _ => ⟨fun e hm => hu.1 e (hgrow e hm), by rintro d ⟨⟩⟩
  | ok d =>
  have hread : Read Err.fault v.store (v.store.getByID id) (.ok d) s' := he
  have hfound := hread.of_ok
  unfold DomainDB.getByID at hfound
  cases hf : v.store.rows.find? fun d => d.id = id with
  | none =>
    rw [hf] at hfound
    cases hfound
  | some d' =>
  rw [hf] at hfound
  cases hfound
  have hid : d.id = id := by simpa using find?_some hf
  have hmem : d ∈ s'.rows := hread.1 ▸ mem_of_find?_eq_some hf
  dsimp only
  split_ifs
  · exact fun u hu _ => ⟨fun e hm => hu.1 e (hgrow e hm), by rintro d ⟨⟩⟩
  · refine fun u hu _ => ⟨fun e hm => hu.1 e (hgrow e hm), ?_⟩
    rintro d' ⟨⟩
    exact ⟨hid, i, _, _, _, _, hu.1 _ mem_cons_self, hmem⟩

theorem safe_dnsChecker (hw : Inv U s₀ w) (host token : String) : Safe (system U may) (Φ U s₀) i
    (fun x v => (∀ e ∈ w.hist, e ∈ v.hist) ∧ ∀ res, x = .ok res → Checked U.tables v.hist i host token) (dnsChecker U host token) w := by
  refine Safe.bind ?_ hw (Safe.embed rely_hist (fun v q r s' hv he _ => ?_) _ w)
  · rintro x v - ⟨hgrow, l, hruns, hl⟩
    have hgrow : ∀ u : W, (Φ U s₀).rely i v u → ∀ e ∈ w.hist, e ∈ u.hist := fun u hu e hm => hu.1 e (hgrow e hm)
    cases x with
    | error e =>
      simp only [pure_eq]
      split_ifs <;> exact fun u hu _ => ⟨hgrow u hu, by rintro _ ⟨⟩⟩
    | ok res =>
    -- the answers the validator had are recorded as answers to this call
    obtain ⟨answers, txts, pre, post, pre', post', hip, htxt, hp⟩ := Validation.validate_passes l _ _ hruns res rfl
    obtain ⟨r, pr, po, hr, hmem⟩ := hl _ hip
    obtain ⟨r', pr', po', hr', hmem'⟩ := hl _ htxt
    have hr : r = .ok answers := hr
    have hr' : r' = .ok txts := hr'
    subst hr hr'
    exact fun u hu _ => ⟨hgrow u hu, fun _ _ => ⟨answers, txts, pr, po, pr', po', hu.1 _ hmem, hu.1 _ hmem', hp⟩⟩
  · exact keeps_harmless hv (harmless_of_read (by cases q <;> rfl)) he

theorem keeps_markVerified {t : Time} {dnssec : Bool} {log : Option UUID} {r : Except Err Domain} (hv : Inv U s₀ v)
    (hcall : .invoke i (.verify tenantID d.id) ∈ v.hist) (hseen : Seen v.hist d) (hcheck : Checked U.tables v.hist i d.host d.verificationToken)
    (he : exec (.update d.id (.markVerified d.verificationToken t dnssec log)) v.store r s') :
    (Φ U s₀).Keeps i v (.act i (.update d.id (.markVerified d.verificationToken t dnssec log)) r v.store s') := by
  refine Spec.ofHistory_keeps rfl (hv.after_act he ?_)
  rintro j q' r' pre post h d₁ hd1 hver
  cases h
  rcases verified_of_exec he hd1 hver with h | ⟨t', dnssec', log', hq, d₀, hd0, hid0, hdel, htok⟩
  · exact .inl h
  -- the row that is swapped is the one that was read: it has its id, and so its host
  have hid : d.id = d₁.id ∧ d.verificationToken = d₁.verificationToken := by
    simp only [Req.update.injEq, Update.markVerified.injEq] at hq
    exact ⟨hq.1, hq.2.1⟩
  obtain ⟨j, q', r', pre, post, hm, hd⟩ := hseen
  obtain ⟨d', hd', hid', hhost', -⟩ := hv.kept hm d hd
  have hsame : d' = d₀ := inj_on_of_nodup_map v.store.ids hd' hd0 (by rw [hid', hid0, hid.1])
  subst hsame
  refine .inr ⟨d', hd0, hid0, hdel, htok, ⟨tenantID, hid.1 ▸ hcall⟩, ?_⟩
  rw [hhost', htok, ← hid.2]
  exact hcheck

theorem safe_markVerified {t : Time} {dnssec : Bool} {log : Option UUID} (hcall : .invoke i (.verify tenantID d.id) ∈ w.hist) (hseen : Seen w.hist d)
    (hcheck : Checked U.tables w.hist i d.host d.verificationToken) :
    Safe (system U may) (Φ U s₀) i (fun _ _ => True) (Port.markVerified d.id d.verificationToken t dnssec log) w := by
  simp only [Port.markVerified, send_bind, pure_eq]
  intro v hv hi r s' he _
  refine ⟨keeps_markVerified hi (hv.1 _ hcall) (hseen.mono hv.1) (hcheck.mono hv.1) he, ?_⟩
  cases r with
  | ok d => exact .stop
  | error e =>
  dsimp only
  split_ifs
  · intro u hu hiu r' s'' he' _
    refine ⟨keeps_harmless hiu (harmless_of_read rfl) he', ?_⟩
    rcases r' with e | (_ | _) <;> exact .stop
  · exact .stop

theorem safe_verify (hw : Inv U s₀ w) {id : UUID} (hcall : .invoke i (.verify tenantID id) ∈ w.hist) :
    Safe (system U may) (Φ U s₀) i (fun _ _ => True) (verify U tenantID id) w := by
  refine Safe.bind ?_ hw (safe_get tenantID id)
  rintro x v hv ⟨hgrow, hget⟩
  cases x with
  | error e =>
    simp only [pure_eq]
    split_ifs <;> exact .stop
  | ok d =>
  obtain ⟨rfl, hseen⟩ := hget d rfl
  simp only [send_bind, pure_eq]
  by_cases hver : d.verifiedAt = none
  · rw [if_neg (not_not.mpr hver)]
    intro u hu hi now s' (he : exec .clock u.store now s') _
    have hkeep := keeps_harmless (i := i) hi (harmless_of_read rfl) he
    refine ⟨hkeep, ?_⟩
    dsimp only
    split_ifs
    · exact .stop
    · refine Safe.bind ?_ hkeep.1 (safe_dnsChecker hkeep.1 d.host d.verificationToken)
      rintro x v' hv' ⟨hgrow', hcheck⟩
      cases x with
      | error e => exact .stop
      | ok res =>
      -- what was seen and checked stands in every later history
      have hold : ∀ e ∈ v.hist, e ∈ v'.hist := fun e hm => hgrow' e (mem_cons_of_mem _ (hu.1 e hm))
      refine Safe.bind ?_ hv' (safe_markVerified (hold _ (hgrow _ hcall)) (hseen.mono hold) (hcheck res rfl))
      rintro r v'' - -
      cases r with
      | ok saved => exact .stop
      | error e =>
      dsimp only
      split_ifs <;> exact .stop
    · exact .stop
  · rw [if_pos hver]
    exact .stop

theorem verified : Verified (system U may) (Φ U s₀) := by
  intro w i c hw _ _
  have hinv := hw.after_other (e := .invoke i c) (by rintro _ _ _ _ _ ⟨⟩)
  refine ⟨Spec.ofHistory_keeps rfl hinv, ?_⟩
  have hres : ∀ (a : Res c) (v : W), Inv U s₀ v → Responds (system U may) (Φ U s₀) i c a v := fun a v hv _ =>
    Spec.ofHistory_keeps rfl (hv.after_other (by rintro _ _ _ _ _ ⟨⟩))
  have hread : ∀ q : Req, q.writes = false → Harmless q := fun q => harmless_of_read
  cases c with
  | enroll tenantID rawHost => exact safe_harmless hres (sends_enroll hread tenantID (by rintro d _ _ _ _ _ ⟨⟩) U rawHost)
  | verify tenantID id => exact (safe_verify hinv mem_cons_self).mono fun a v hv _ => hres a v hv
  | setPaused tenantID id paused =>
    exact safe_harmless hres (sends_setPaused hread tenantID id (by rintro _ _ _ _ _ _ _ _ ⟨⟩) paused)
  | delete tenantID id => exact safe_harmless hres (sends_delete hread tenantID id (by rintro _ _ _ _ _ _ _ ⟨⟩) U)
  | regenerateToken tenantID id => exact safe_harmless hres (sends_regenerateToken hread tenantID id (by rintro _ _ _ _ _ _ _ _ ⟨⟩))

end Invariant

def shopDB : DomainDB where
  rows := [⟨1, 7, "shop.example.com", "0123", none, false, none, none, none, 0, 0, 0⟩]
  ids := by decide
  hosts := by decide

/-- **A domain is verified only with its current token.**  In every interleaving of calls: the event by which a row becomes verified is one of
a `Verify` of that row, the row is not deleted and holds the token it is verified with, and the lookups that this call made before
proved that token for the host of the row.  And a row that is verified at the start, or after any event, is so for ever after, with the same
token. -/
theorem verified_with_current_token {U : UseCase} {may : W → Ev → Prop} {s₀ : DomainDB} {σ : Conf Req Resp DomainDB Call Res}
    (hr : Reach (system U may) s₀ σ) :
    (∀ h₁ h₂ i q r pre post, σ.world.hist = h₁ ++ .act i q r pre post :: h₂ → ∀ d ∈ DomainDB.rows post, d.verifiedAt ≠ none →
      (∀ d₀ ∈ DomainDB.rows pre, d₀.id = d.id → d₀.verifiedAt = none) →
      ∃ d₀ ∈ DomainDB.rows pre, d₀.id = d.id ∧ d₀.deletedAt = none ∧ d₀.verificationToken = d.verificationToken ∧
        (∃ tenantID, .invoke i (.verify tenantID d.id) ∈ h₂) ∧ Checked U.tables h₂ i d₀.host d₀.verificationToken) ∧
    Kept s₀ σ.world.store ∧ ∀ i q r pre post, .act i q r pre post ∈ σ.world.hist → Kept post σ.world.store := by
  have hinv : Inv U s₀ σ.world := verified.inv
    ⟨Kept.refl s₀, fun h => absurd h not_mem_nil, fun h => absurd (suffix_nil.mp h) (cons_ne_nil _ _)⟩ hr
  refine ⟨?_, hinv.start, fun i q r pre post h => hinv.kept h⟩
  intro h₁ h₂ i q r pre post hsplit d hd hver hnew
  rcases hinv.justified ⟨h₁, hsplit.symm⟩ i q r pre post rfl d hd hver with ⟨d₀, hd0, hid, hv0⟩ | h
  · exact absurd (hnew d₀ hd0 hid) hv0
  · exact h

/-- One `Verify` of the waiting domain: the row is verified in the end, by a call whose lookups proved its token. -/
theorem verified_with_current_token_shop : ∃ σ, Reach (system fullyWired fun _ _ => True) shopDB σ ∧
    ∃ h i d tenantID, h <:+ σ.world.hist ∧ .invoke i (.verify tenantID (Domain.id d)) ∈ h ∧ Checked .ascii h i d.host d.verificationToken := by
  have hr := Conf.steps_serve (M := system fullyWired fun _ _ => True) (exec_serve (publicPorts ["0123"])) (fun _ _ _ _ => trivial)
    (fun _ _ _ _ => trivial) (.invoke 0 (.verify 7 1) :: List.replicate 7 (.move 0)) (Conf.start shopDB) fun _ _ _ _ => trivial
  obtain ⟨h1, i, q, r, pre, post, h2, hh, hpre, d, hd, hver⟩ :=
    Reach.first (P := fun s => ∃ d ∈ DomainDB.rows s, d.verifiedAt ≠ none) hr (by decide) (by decide +kernel)
  obtain ⟨d₀, -, hid, -, -, ⟨tenantID, hcall⟩, hcheck⟩ := (verified_with_current_token hr).1 h1 h2 i q r pre post hh d hd hver
    fun d₀ hd0 _ => by_contra fun hv0 => hpre ⟨d₀, hd0, hv0⟩
  exact ⟨_, hr, h2, i, d₀, tenantID, ⟨h1 ++ [_], by rw [hh, append_assoc, singleton_append]⟩, hid ▸ hcall, hcheck⟩

end Token

end Crm.CustomDomain
