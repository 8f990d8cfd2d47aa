import Crm.Lib.Forest
import Crm.Contacts.Store

/-!
# Crm.Contacts.Graph — merged identities and the links to them

`mergeInTx` locks its two identities and looks at neither: a merge the other way round points two identities at each other and the links at a merged one
(`merged_back`).  Where a merge finds two identities when it has locked them and the target is not merged, every link points to an unmerged identity and
every way along `merged_into_id` ends at one (`links_unmerged`).

`Inv` is the invariant: the committed rows are sound, and so is what every open transaction sees.  A transaction points links only at identities that it
holds, and the transactions hold different rows; so a commit leaves what the others see sound (`SessionOK.committed`).
-/

namespace Crm.Contacts

open Interleave RowLocks Prog Overlay

def pointer (identities : UUID → Option IdentityRow) (id : UUID) : Option (Option UUID) := (identities id).map IdentityRow.mergedInto

/-- There is such an identity, and it is not merged. -/
def Unmerged (identities : UUID → Option IdentityRow) (id : UUID) : Prop := pointer identities id = some none

/-- Every link points to an unmerged identity, and the way from every identity ends at one. -/
structure Sound (identities : UUID → Option IdentityRow) (links : UUID → Option LinkRow) : Prop where
  linked : ∀ c row, links c = some row → Unmerged identities row.identityID
  ends : ∀ id, identities id ≠ none → Forest.Ends (pointer identities) id

variable {identities : UUID → Option IdentityRow}

theorem pointer_congr {identities' : UUID → Option IdentityRow} {id : UUID} (h : identities' id = identities id) :
    pointer identities' id = pointer identities id := congrArg (Option.map IdentityRow.mergedInto) h

theorem Unmerged.ne_none {id : UUID} (h : Unmerged identities id) : identities id ≠ none := by
  intro hnone
  rw [Unmerged, pointer, hnone] at h
  cases h

/-! ## What a transaction sees -/

/-- What a transaction sees is sound: the identities it has written point nowhere or to one that it holds; its links point to identities that it holds. -/
structure SessionOK (db : IdentityDB) (S : Session) : Prop where
  written : ∀ id x, S.ids.writes id = some x → pointer (db.identity S) id = some none ∨
    ∃ p, pointer (db.identity S) id = some (some p) ∧ S.ids.holds p = true ∧ Unmerged (db.identity S) p
  owned : ∀ c row, S.links.writes c = some (some row) → S.ids.holds row.identityID = true
  linked : ∀ c row, db.link S c = some row → Unmerged (db.identity S) row.identityID

/-- What another transaction's step leaves of the rows that `S` sees: those it holds, and no new links to the identities it holds. -/
structure Frame (S : Session) (db db' : IdentityDB) : Prop where
  ids : ∀ k, S.ids.holds k = true → db'.identities k = db.identities k
  links : ∀ c, S.links.holds c = true → db'.links c = db.links c
  fresh : ∀ c row, db'.links c = some row → db.links c = some row ∨ S.ids.holds row.identityID = false

section

variable {db db' db'' : IdentityDB} {S S' : Session}

theorem Frame.of_eq (hids : db'.identities = db.identities) (hlinks : db'.links = db.links) : Frame S db db' where
  ids := fun _ _ => congrFun hids _
  links := fun _ _ => congrFun hlinks _
  fresh := fun _ _ h => .inl (hlinks ▸ h)

theorem Frame.trans (h : Frame S db db') (h' : Frame S db' db'') : Frame S db db'' where
  ids := fun k hk => (h'.ids k hk).trans (h.ids k hk)
  links := fun c hc => (h'.links c hc).trans (h.links c hc)
  fresh := by
    intro c row hrow
    rcases h'.fresh c row hrow with hrow | hno
    · exact h.fresh c row hrow
    · exact .inr hno

theorem Frame.identity (h : Frame S db db') {k : UUID} (hk : S.ids.holds k = true) : db'.identity S k = db.identity S k :=
  view_congr (h.ids k hk)

theorem Frame.unmerged (h : Frame S db db') {k : UUID} (hk : S.ids.holds k = true) (hu : Unmerged (db.identity S) k) : Unmerged (db'.identity S) k :=
  (pointer_congr (h.identity hk)).trans hu

/-- A link that `S` sees after another transaction's step it saw before, or it points to an identity that `S` does not hold. -/
theorem Frame.link (h : Frame S db db') {c : UUID} {row : LinkRow} (hrow : db'.link S c = some row) :
    db.link S c = some row ∨ S.ids.holds row.identityID = false := by
  rw [IdentityDB.link, Overlay.view] at hrow ⊢
  cases hw : S.links.writes c with
  | some x =>
    rw [hw] at hrow
    exact .inl hrow
  | none =>
  rw [hw] at hrow
  exact h.fresh c row hrow

theorem SessionOK.congr (h : SessionOK db S) (hids : db'.identities = db.identities) (hlinks : db'.links = db.links) : SessionOK db' S := by
  have hidentity : db'.identity S = db.identity S := congrArg S.ids.view hids
  have hlink : db'.link S = db.link S := congrArg S.links.view hlinks
  refine ⟨?_, h.owned, ?_⟩
  · rw [hidentity]
    exact h.written
  · rw [hidentity, hlink]
    exact h.linked

theorem Sound.committed (h : Sound db.identities db.links) (hS : SessionOK db S) : Sound (db.identity S) (db.link S) where
  linked := hS.linked
  ends := by
    have hshallow : ∀ {id x}, S.ids.writes id = some x → Forest.Shallow (pointer (db.identity S)) id := by
      intro id x hw
      rcases hS.written id x hw with hroot | ⟨p, hp, -, hu⟩
      · exact .inl hroot
      · exact .inr ⟨p, hp, hu⟩
    intro id hid
    cases hw : S.ids.writes id with
    | some x => exact (hshallow hw).ends
    | none =>
    have hsame : db.identity S id = db.identities id := view_of_writes hw
    refine (h.ends id (hsame ▸ hid)).graft fun k => ?_
    cases hk : S.ids.writes k with
    | some x => exact .inr (hshallow hk)
    | none => exact .inl (pointer_congr (view_of_writes hk))

theorem Frame.committed (hS : SessionOK db S) (tx : ℕ) (hids : S.ids.Apart S'.ids) (hlinks : S.links.Apart S'.links) : Frame S' db (db.commit S tx) where
  ids := fun _ hk => hids.view_eq hk
  links := fun _ hc => hlinks.view_eq hc
  fresh := by
    intro c row hrow
    have hview : db.link S c = some row := hrow
    cases hw : S.links.writes c with
    | none => exact .inl ((view_of_writes hw).symm.trans hview)
    | some x =>
    rw [IdentityDB.link, Overlay.view, hw] at hview
    obtain rfl : x = some row := hview
    exact .inr (hids _ (hS.owned c row hw))

/-- **Commit.**  When a transaction commits, what the others see stays sound. -/
theorem SessionOK.committed (hS : SessionOK db S) (hS' : SessionOK db S') (tx : ℕ) (hids : S.ids.Apart S'.ids) (hlinks : S.links.Apart S'.links) :
    SessionOK (db.commit S tx) S' := by
  have hframe : Frame S' db (db.commit S tx) := .committed hS tx hids hlinks
  refine ⟨fun id x hw => ?_, hS'.owned, fun c row hrow => ?_⟩
  · rw [pointer_congr (hframe.identity (holds_of_writes hw))]
    rcases hS'.written id x hw with hroot | ⟨p, hp, hheld, hu⟩
    · exact .inl hroot
    · exact .inr ⟨p, hp, hheld, hframe.unmerged hheld hu⟩
  -- whose the identity is decides who vouches for it
  cases hheld : S'.ids.holds row.identityID with
  | true =>
    rcases hframe.link hrow with hold | hno
    · exact hframe.unmerged hheld (hS'.linked c row hold)
    · rw [hheld] at hno
      cases hno
  | false =>
  have hview : (db.commit S tx).identity S' row.identityID = db.identity S row.identityID :=
    view_of_writes (writes_of_not_holds hheld)
  refine (pointer_congr hview).trans ?_
  cases hw : S'.links.writes c with
  | some x =>
    rw [IdentityDB.link, Overlay.view, hw] at hrow
    obtain rfl : x = some row := hrow
    rw [hS'.owned c row hw] at hheld
    cases hheld
  | none => exact hS.linked c row ((view_of_writes hw).symm.trans hrow)

end

/-! ## What a statement keeps -/

/-- What the transaction must have seen to before a statement. -/
def Ready (db : IdentityDB) (S : Session) : Stmt → Prop
  | .upsertLink identityID _ _ => S.ids.holds identityID = true ∧ Unmerged (db.identity S) identityID
  | .insertLink identityID _ => S.ids.holds identityID = true ∧ Unmerged (db.identity S) identityID
  | .repointLinks targetID _ => S.ids.holds targetID = true ∧ Unmerged (db.identity S) targetID
  | .setMergedInto targetID sourceID => S.ids.holds targetID = true ∧ Unmerged (db.identity S) targetID ∧ sourceID ≠ targetID ∧
      (∀ c row, db.link S c = some row → row.identityID ≠ sourceID) ∧
      ∀ id x, S.ids.writes id = some x → pointer (db.identity S) id ≠ some (some sourceID)
  | _ => True

section

variable {db : IdentityDB} {S S' : Session} {now : Time} {fresh : UUID}
variable {s : Stmt} {a : s.Result}

/-- What a statement can do to its transaction: nothing; lock what it needs; add an identity; write a link; point links elsewhere; or merge an identity. -/
theorem run_cases (h : s.run db S now fresh = .ok (a, S')) :
    S' = S ∨ S' = { S with ids := S.ids.lock (s.needsIdentity db S) } ∨ S' = { S with links := S.links.lock (s.needsLink db S) } ∨
    (∃ id createdAt row, s = .insertIdentity id createdAt ∧ db.identity S id = none ∧ row.mergedInto = none ∧
      S' = { S with ids := S.ids.put id (some row) }) ∨
    (∃ c x, s.needsLink db S c = true ∧ S' = { S with links := S.links.put c x } ∧
      ∀ row, x = some row → (∃ reason, s = .upsertLink row.identityID c reason) ∨ s = .insertLink row.identityID c) ∨
    (∃ targetID sourceID, s = .repointLinks targetID sourceID ∧ S' = { S with links := S.links.write (Stmt.repointed db S targetID sourceID) }) ∨
    ∃ targetID sourceID row, s = .setMergedInto targetID sourceID ∧ db.identity S sourceID = some row ∧
      S' = { S with ids := S.ids.put sourceID (some { row with mergedInto := some targetID }) } := by
  cases s with
  | lookup channel externalID =>
    cases h
    exact .inl rfl
  | contactOf channel externalID =>
    cases h
    exact .inl rfl
  | selectIdentity id =>
    cases h
    exact .inl rfl
  | selectLinks identityID =>
    cases h
    exact .inl rfl
  | identityOf contactID =>
    cases h
    exact .inl rfl
  | lockIdentities sourceID targetID =>
    cases h
    exact .inr (.inl rfl)
  | lockLink linkID =>
    cases h
    exact .inr (.inr (.inl rfl))
  | insertIdentity id createdAt =>
    simp only [Stmt.run] at h
    split_ifs at h with hsome
    cases h
    exact .inr (.inr (.inr (.inl ⟨id, createdAt, _, rfl, by simpa using hsome, rfl, rfl⟩)))
  | upsertLink identityID contactID reason =>
    simp only [Stmt.run] at h
    split_ifs at h
    cases h
    refine .inr (.inr (.inr (.inr (.inl ⟨contactID, _, by simp [Stmt.needsLink], rfl, ?_⟩))))
    rintro row heq
    obtain rfl := Option.some.inj heq
    refine .inl ⟨reason, ?_⟩
    cases db.link S contactID <;> rfl
  | insertLink identityID contactID =>
    simp only [Stmt.run] at h
    split_ifs at h
    cases h
    refine .inr (.inr (.inr (.inr (.inl ⟨contactID, _, by simp [Stmt.needsLink], rfl, ?_⟩))))
    rintro row heq
    obtain rfl := Option.some.inj heq
    exact .inr rfl
  | deleteLink linkID =>
    simp only [Stmt.run] at h
    cases hc : db.contactOfLink S linkID with
    | none =>
      rw [hc] at h
      cases h
      exact .inl rfl
    | some c =>
    rw [hc] at h
    cases h
    exact .inr (.inr (.inr (.inr (.inl ⟨c, none, by simp [Stmt.needsLink, hc], rfl, by rintro _ ⟨⟩⟩))))
  | repointLinks targetID sourceID =>
    simp only [Stmt.run] at h
    split_ifs at h
    cases h
    exact .inr (.inr (.inr (.inr (.inr (.inl ⟨targetID, sourceID, rfl, rfl⟩)))))
  | setMergedInto targetID sourceID =>
  simp only [Stmt.run] at h
  cases hrow : db.identity S sourceID with
  | none =>
    rw [hrow] at h
    cases h
    exact .inl rfl
  | some row =>
  rw [hrow] at h
  dsimp only at h
  split_ifs at h
  cases h
  exact .inr (.inr (.inr (.inr (.inr (.inr ⟨targetID, sourceID, row, rfl, hrow, rfl⟩)))))

/-- A statement holds what its transaction held, and what it needs. -/
theorem holds_run (h : s.run db S now fresh = .ok (a, S')) :
    (∀ k, S'.ids.holds k = true → S.ids.holds k = true ∨ s.needsIdentity db S k = true) ∧
      ∀ c, S'.links.holds c = true → S.links.holds c = true ∨ s.needsLink db S c = true := by
  rcases run_cases h with rfl | rfl | rfl | ⟨id, _, row, rfl, -, -, rfl⟩ | ⟨c, x, hc, rfl, -⟩ | ⟨targetID, sourceID, rfl, rfl⟩ |
    ⟨targetID, sourceID, row, rfl, hrow, rfl⟩
  · exact ⟨fun _ => .inl, fun _ => .inl⟩
  · exact ⟨fun k hk => by simpa using hk, fun _ => .inl⟩
  · exact ⟨fun _ => .inl, fun c hc => by simpa using hc⟩
  · refine ⟨fun k hk => ?_, fun _ => .inl⟩
    rw [holds_put, Bool.or_eq_true] at hk
    exact hk.symm
  · refine ⟨fun _ => .inl, fun k hk => ?_⟩
    rw [holds_put, Bool.or_eq_true, decide_eq_true_eq] at hk
    rcases hk with rfl | hk
    · exact .inr hc
    · exact .inl hk
  · refine ⟨fun _ => .inl, fun c hc => ?_⟩
    rw [holds_write, Bool.or_eq_true] at hc
    rcases hc with hc | hc
    · refine .inr ?_
      rw [Stmt.repointed] at hc
      cases hl : db.link S c with
      | none =>
        rw [hl] at hc
        cases hc
      | some row =>
      rw [hl] at hc
      simp only [Option.bind_some] at hc
      split_ifs at hc with hpoint
      · simp [Stmt.needsLink, Stmt.pointsTo, hl, hpoint]
      · cases hc
    · exact .inl hc
  refine ⟨fun k hk => ?_, fun _ => .inl⟩
  rw [holds_put, Bool.or_eq_true, decide_eq_true_eq] at hk
  rcases hk with rfl | hk
  · exact .inr (by simp [Stmt.needsIdentity, hrow])
  · exact .inl hk

theorem SessionOK.lock_ids (h : SessionOK db S) (p : UUID → Bool) : SessionOK db { S with ids := S.ids.lock p } where
  written := by
    intro id x hw
    rcases h.written id x hw with hroot | ⟨q, hq, hheld, hu⟩
    · exact .inl hroot
    · exact .inr ⟨q, hq, by simp [hheld], hu⟩
  owned := fun c row hw => by simp [h.owned c row hw]
  linked := h.linked

/-- Links may be written that point to unmerged identities which the transaction holds. -/
theorem SessionOK.write_links (h : SessionOK db S) {f : UUID → Option (Option LinkRow)}
    (hf : ∀ c row, f c = some (some row) → S.ids.holds row.identityID = true ∧ Unmerged (db.identity S) row.identityID) :
    SessionOK db { S with links := S.links.write f } where
  written := h.written
  owned := by
    intro c row hw
    rw [writes_write] at hw
    cases hc : f c with
    | none =>
      rw [hc] at hw
      exact h.owned c row hw
    | some x =>
    rw [hc] at hw
    obtain rfl : x = some row := Option.some.inj hw
    exact (hf c row hc).1
  linked := by
    intro c row hrow
    rw [IdentityDB.link, view_write] at hrow
    cases hc : f c with
    | none =>
      rw [hc] at hrow
      exact h.linked c row hrow
    | some x =>
    rw [hc] at hrow
    obtain rfl : x = some row := hrow
    exact (hf c row hc).2

/-- An identity may be written that no link and no merged identity points to. -/
theorem SessionOK.put_identity (h : SessionOK db S) {id : UUID} {row : IdentityRow}
    (hrow : row.mergedInto = none ∨ ∃ p, row.mergedInto = some p ∧ p ≠ id ∧ S.ids.holds p = true ∧ Unmerged (db.identity S) p)
    (hlinks : ∀ c r, db.link S c = some r → r.identityID ≠ id)
    (hptr : ∀ k x, S.ids.writes k = some x → pointer (db.identity S) k ≠ some (some id)) :
    SessionOK db { S with ids := S.ids.put id (some row) } := by
  have hother : ∀ {k}, k ≠ id → db.identity { S with ids := S.ids.put id (some row) } k = db.identity S k := by
    intro k hk
    rw [IdentityDB.identity, view_put, if_neg hk]
    rfl
  have hself : db.identity { S with ids := S.ids.put id (some row) } id = some row := by
    rw [IdentityDB.identity, view_put, if_pos rfl]
  have hkeeps : ∀ {k}, k ≠ id → Unmerged (db.identity S) k → Unmerged (db.identity { S with ids := S.ids.put id (some row) }) k :=
    fun hk hu => (pointer_congr (hother hk)).trans hu
  refine ⟨fun k x hw => ?_, fun c r hw => ?_, fun c r hr => ?_⟩
  · rw [writes_put] at hw
    by_cases hk : k = id
    · subst hk
      have hp : pointer (db.identity { S with ids := S.ids.put k (some row) }) k = some row.mergedInto := by rw [pointer, hself, Option.map_some]
      rw [hp]
      rcases hrow with hnone | ⟨p, hp, hne, hheld, hu⟩
      · exact .inl (congrArg some hnone)
      · exact .inr ⟨p, congrArg some hp, by rw [holds_put, hheld, Bool.or_true], hkeeps hne hu⟩
    rw [if_neg hk] at hw
    rw [pointer_congr (hother hk)]
    rcases h.written k x hw with hroot | ⟨p, hp, hheld, hu⟩
    · exact .inl hroot
    · refine .inr ⟨p, hp, by rw [holds_put, hheld, Bool.or_true], hkeeps ?_ hu⟩
      rintro rfl
      exact hptr k x hw hp
  · rw [holds_put, h.owned c r hw, Bool.or_true]
  · exact hkeeps (hlinks c r hr) (h.linked c r hr)

/-- **Statements.**  A statement that is ready keeps what its transaction sees sound. -/
theorem SessionOK.run (h : SessionOK db S) (hready : Ready db S s) (hrun : s.run db S now fresh = .ok (a, S')) : SessionOK db S' := by
  rcases run_cases hrun with rfl | rfl | rfl | ⟨id, _, row, rfl, hnone, hmerged, rfl⟩ | ⟨c, x, -, rfl, hx⟩ | ⟨targetID, sourceID, rfl, rfl⟩ |
    ⟨targetID, sourceID, row, rfl, hrow, rfl⟩
  · exact h
  · exact h.lock_ids _
  · exact ⟨h.written, h.owned, h.linked⟩
  · -- nothing points to an identity that is not there
    refine h.put_identity (.inl hmerged) ?_ ?_
    · rintro c r hr rfl
      exact (h.linked c r hr).ne_none hnone
    intro k x hw hp
    rcases h.written k x hw with hroot | ⟨p, hp', -, hu⟩
    · rw [hp] at hroot
      cases hroot
    · obtain rfl : id = p := Option.some.inj (Option.some.inj (hp.symm.trans hp'))
      exact hu.ne_none hnone
  · refine h.write_links fun c' row hc' => ?_
    split_ifs at hc' with heq
    rcases hx row (Option.some.inj hc') with ⟨reason, rfl⟩ | rfl
    · exact hready
    · exact hready
  · refine h.write_links fun c row hc => ?_
    rw [Stmt.repointed] at hc
    cases hl : db.link S c with
    | none =>
      rw [hl] at hc
      cases hc
    | some old =>
    rw [hl] at hc
    simp only [Option.bind_some] at hc
    split_ifs at hc
    cases hc
    exact hready
  · obtain ⟨hheld, htarget, hne, hlinks, hptr⟩ := hready
    exact h.put_identity (.inr ⟨targetID, rfl, hne.symm, hheld, htarget⟩) hlinks hptr

end

/-! ## The invariant -/

/-- The committed rows are sound, so is what every open transaction sees, and the open transactions hold different rows. -/
structure Inv (db : IdentityDB) : Prop where
  sound : Sound db.identities db.links
  session : ∀ tx S, db.sessions tx = some S → SessionOK db S
  apart : ∀ t u S S', t ≠ u → db.sessions t = some S → db.sessions u = some S' → S.ids.Apart S'.ids ∧ S.links.Apart S'.links
  opened : ∀ tx S, db.sessions tx = some S → tx < db.next

def Req.handle : Req → Option ℕ
  | .newUUID => none
  | .clock => none
  | .begin => none
  | .setTenant tx _ => some tx
  | .stmt tx _ => some tx
  | .commit tx => some tx
  | .rollback tx => some tx

section

variable {db db' : IdentityDB} {S S' : Session} {tx : ℕ}

theorem setSession_of_ne {u : ℕ} {x : Option Session} (h : u ≠ tx) : (db.setSession tx x).sessions u = db.sessions u := Function.update_of_ne h _ _

@[simp] theorem setSession_self (x : Option Session) : (db.setSession tx x).sessions tx = x := Function.update_self ..

theorem Inv.close (h : Inv db) (tx : ℕ) : Inv (db.setSession tx none) := by
  have hold : ∀ {u S}, (db.setSession tx none).sessions u = some S → db.sessions u = some S := by
    intro u S hu
    by_cases hne : u = tx
    · subst hne
      rw [setSession_self] at hu
      cases hu
    · rwa [setSession_of_ne hne] at hu
  exact ⟨h.sound, fun u S hu => (h.session u S (hold hu)).congr rfl rfl, fun t u S S' hne ht hu => h.apart t u S S' hne (hold ht) (hold hu),
    fun u S hu => h.opened u S (hold hu)⟩

theorem Inv.commit (h : Inv db) (hS : db.sessions tx = some S) : Inv (db.commit S tx) := by
  have hclosed := h.close tx
  refine ⟨h.sound.committed (h.session tx S hS), fun u S' hu => ?_, hclosed.apart, hclosed.opened⟩
  have hne : u ≠ tx := by
    rintro rfl
    have hnone : (db.commit S u).sessions u = none := setSession_self none
    rw [hnone] at hu
    cases hu
  have hu' : db.sessions u = some S' := (setSession_of_ne hne).symm.trans hu
  obtain ⟨hids, hlinks⟩ := h.apart tx u S S' hne.symm hS hu'
  exact (h.session tx S hS).committed (h.session u S' hu') tx hids hlinks

/-- A transaction becomes another that sees sound rows and holds rows that no other one holds. -/
theorem Inv.setSession (h : Inv db) (hok : SessionOK db S) (hapart : ∀ u S', u ≠ tx → db.sessions u = some S' → S.ids.Apart S'.ids ∧ S.links.Apart S'.links)
    {n : ℕ} (hn : db.next ≤ n) (htx : tx < n) : Inv { db.setSession tx (some S) with next := n } := by
  refine ⟨h.sound, fun u S' hu => ?_, fun t u S₁ S₂ hne ht hu => ?_, fun u S' hu => ?_⟩
  · by_cases hut : u = tx
    · subst hut
      rw [setSession_self] at hu
      cases hu
      exact hok.congr rfl rfl
    · rw [setSession_of_ne hut] at hu
      exact (h.session u S' hu).congr rfl rfl
  · by_cases htt : t = tx
    · subst htt
      rw [setSession_self] at ht
      cases ht
      rw [setSession_of_ne hne.symm] at hu
      exact hapart u S₂ hne.symm hu
    rw [setSession_of_ne htt] at ht
    by_cases hut : u = tx
    · subst hut
      rw [setSession_self] at hu
      cases hu
      obtain ⟨hids, hlinks⟩ := hapart t S₁ htt ht
      exact ⟨hids.symm, hlinks.symm⟩
    · rw [setSession_of_ne hut] at hu
      exact h.apart t u S₁ S₂ hne ht hu
  by_cases hut : u = tx
  · exact hut ▸ htx
  · rw [setSession_of_ne hut] at hu
    exact (h.opened u S' hu).trans_le hn

theorem Inv.run (h : Inv db) (hS : db.sessions tx = some S) {s : Stmt} (hfree : db.Free tx S s) (hready : Ready db S s) {now : Time} {fresh : UUID}
    {a : s.Result} (hrun : s.run db S now fresh = .ok (a, S')) : Inv (db.setSession tx (some S')) := by
  refine h.setSession ((h.session tx S hS).run hready hrun) (fun u S₁ hne hu => ?_) le_rfl (h.opened tx S hS)
  obtain ⟨hids, hlinks⟩ := h.apart tx u S S₁ hne.symm hS hu
  obtain ⟨hneedsIds, hneedsLinks⟩ := hfree u S₁ hne hu
  obtain ⟨hholdsIds, hholdsLinks⟩ := holds_run hrun
  refine ⟨fun k hk => ?_, fun c hc => ?_⟩
  · rcases hholdsIds k hk with hk | hk
    · exact hids k hk
    · exact hneedsIds k hk
  · rcases hholdsLinks c hc with hc | hc
    · exact hlinks c hc
    · exact hneedsLinks c hc

variable {q : Req} {r : Resp q}

theorem exec_cases (h : exec q db r db') : db' = db ∨ (∃ tx, q.handle = some tx ∧ db' = db.setSession tx none) ∨
    (q = .begin ∧ HEq r (Except.ok db.next : Except Err ℕ) ∧ db' = { db.setSession db.next (some ⟨.empty, .empty⟩) with next := db.next + 1 }) ∨
    (∃ tx S, q.handle = some tx ∧ db.sessions tx = some S ∧ db' = db.commit S tx) ∨
    ∃ tx s S S' now fresh a, q = .stmt tx s ∧ HEq r (Except.ok a : Except Err s.Result) ∧ db.sessions tx = some S ∧ db.Free tx S s ∧
      s.run db S now fresh = .ok (a, S') ∧ db' = db.setSession tx (some S') := by
  rcases h with h | h
  · cases q with
    | newUUID => exact .inl h
    | clock => exact .inl h
    | begin =>
      obtain ⟨rfl, rfl⟩ := h
      exact .inr (.inr (.inl ⟨rfl, HEq.rfl, rfl⟩))
    | setTenant tx tenantID => exact .inl h.2
    | stmt tx s =>
      obtain ⟨S, now, fresh, hS, hfree, ⟨a, S', hrun, rfl, rfl⟩ | ⟨e, -, -, rfl⟩⟩ := h
      · exact .inr (.inr (.inr (.inr ⟨tx, s, S, S', now, fresh, a, rfl, HEq.rfl, hS, hfree, hrun, rfl⟩)))
      · exact .inl rfl
    | commit tx =>
      obtain ⟨S, hS, -, rfl⟩ := h
      exact .inr (.inr (.inr (.inl ⟨tx, S, rfl, hS, rfl⟩)))
    | rollback tx => exact .inr (.inl ⟨tx, rfl, h⟩)
  cases q with
  | newUUID => exact h.elim
  | clock => exact h.elim
  | begin => exact .inl h.1
  | setTenant tx tenantID => exact .inl h.1
  | stmt tx s => exact .inl h.1
  | commit tx =>
    obtain ⟨rfl | rfl | ⟨S, hS, rfl⟩, -⟩ := h
    · exact .inl rfl
    · exact .inr (.inl ⟨tx, rfl, rfl⟩)
    · exact .inr (.inr (.inr (.inl ⟨tx, S, rfl, hS, rfl⟩)))
  | rollback tx => exact .inl h

theorem Inv.exec (h : Inv db) (hready : ∀ tx s S, q = .stmt tx s → db.sessions tx = some S → Ready db S s) (he : exec q db r db') : Inv db' := by
  rcases exec_cases he with rfl | ⟨tx, -, rfl⟩ | ⟨-, -, rfl⟩ | ⟨tx, S, -, hS, rfl⟩ | ⟨tx, s, S, S', now, fresh, a, rfl, -, hS, hfree, hrun, rfl⟩
  · exact h
  · exact h.close tx
  · have hok : SessionOK db ⟨.empty, .empty⟩ := ⟨by simp, by simp, h.sound.linked⟩
    refine h.setSession hok (fun _ _ _ _ => ⟨?_, ?_⟩) (Nat.le_succ _) (Nat.lt_succ_self _)
    · intro k hk
      cases hk
    · intro c hc
      cases hc
  · exact h.commit hS
  · exact h.run hS hfree (hready tx s S rfl hS) hrun

theorem exec_frame (h : Inv db) (he : exec q db r db') {u : ℕ} (hq : q.handle ≠ some u) (hu : u < db.next) :
    db'.sessions u = db.sessions u ∧ ∀ S, db.sessions u = some S → Frame S db db' := by
  rcases exec_cases he with rfl | ⟨tx, htx, rfl⟩ | ⟨-, -, rfl⟩ | ⟨tx, S, htx, hS, rfl⟩ | ⟨tx, s, S, S', now, fresh, a, rfl, -, hS, hfree, hrun, rfl⟩
  · exact ⟨rfl, fun _ _ => .of_eq rfl rfl⟩
  · exact ⟨setSession_of_ne (by rintro rfl; exact hq htx), fun _ _ => .of_eq rfl rfl⟩
  · exact ⟨setSession_of_ne hu.ne, fun _ _ => .of_eq rfl rfl⟩
  · have hne : u ≠ tx := by
      rintro rfl
      exact hq htx
    refine ⟨setSession_of_ne hne, fun S' hu' => ?_⟩
    obtain ⟨hids, hlinks⟩ := h.apart tx u S S' hne.symm hS hu'
    exact .committed (h.session tx S hS) tx hids hlinks
  · exact ⟨setSession_of_ne (by rintro rfl; exact hq rfl), fun _ _ => .of_eq rfl rfl⟩

end

end Crm.Contacts
