import Crm.Contacts.Interleaving
import Crm.Contacts.Resolve

/-!
# Crm.Contacts.Proposal — identities with a leader

`DecideMerge` counts the identities whose hits have a leader, but a proposal names the first two hits, which may be of one identity (`proposed_itself`) or
have no leader, and a lookup asks only the contact it has hit for a leader, not the other contacts of the identity (`led_merged`).
-/

namespace Crm.Contacts

open Interleave RowLocks Prog List

/-- A contact of the identity has a leader on some conversation. -/
def Led (db : IdentityDB) (id : UUID) : Prop := ∃ c row, db.links c = some row ∧ row.identityID = id ∧ db.assigned c = true

section

variable {db : IdentityDB} {S : Session} {tenantID : UUID} {mergeEnabled : Bool} {channel externalID phone email : String} {x : MergeCandidate}

theorem mem_hits (h : x ∈ db.hits mergeEnabled channel externalID phone email) :
    ∃ c row, db.links c = some row ∧ row.identityID = x.identityID ∧ db.assigned c = x.hasLeader := by
  have hone : ∀ {reason channel value}, x ∈ candidateOf reason (db.hit channel value) →
      ∃ c row, db.links c = some row ∧ row.identityID = x.identityID ∧ db.assigned c = x.hasLeader := by
    intro reason channel value hx
    obtain ⟨y, hy, rfl⟩ := mem_map.mp hx
    obtain ⟨c, -, hc⟩ := Option.bind_eq_some_iff.mp (Option.mem_toList.mp hy)
    obtain ⟨row, hrow, hy⟩ := Option.bind_eq_some_iff.mp hc
    cases hy
    exact ⟨c, row, hrow, rfl, rfl⟩
  rw [IdentityDB.hits] at h
  by_cases hmerge : mergeEnabled = false
  · rw [if_pos hmerge] at h
    exact hone h
  rw [if_neg hmerge, mem_append, mem_append] at h
  rcases h with (h | h) | h
  · exact hone h
  · split_ifs at h
    · exact hone h
    · cases h
  · split_ifs at h
    · exact hone h
    · cases h

end

/-! ## Proposals -/

/-- The hits are of two identities, and the first two of different ones. -/
def TwoHit (candidates : List MergeCandidate) : Prop := ∃ c₀ c₁ rest, candidates = c₀ :: c₁ :: rest ∧ c₀.identityID ≠ c₁.identityID ∧
  ∀ c ∈ rest, c.identityID = c₀.identityID ∨ c.identityID = c₁.identityID

theorem TwoHit.led {c₀ c₁ : MergeCandidate} {rest : List MergeCandidate} (h : TwoHit (c₀ :: c₁ :: rest))
    (haction : (decideMerge (c₀ :: c₁ :: rest)).action = .propose) : c₀.identityID ≠ c₁.identityID ∧
      ∀ id, id = c₀.identityID ∨ id = c₁.identityID → ∃ c ∈ c₀ :: c₁ :: rest, c.identityID = id ∧ c.hasLeader = true := by
  obtain ⟨_, _, _, heq, hne, hrest⟩ := h
  cases heq
  have htwo : ∀ c ∈ c₀ :: c₁ :: rest, c.identityID = c₀.identityID ∨ c.identityID = c₁.identityID := by
    intro c hc
    rcases mem_cons.mp hc with rfl | hc
    · exact .inl rfl
    · rcases mem_cons.mp hc with rfl | hc
      · exact .inr rfl
      · exact hrest c hc
  obtain ⟨d, hd, e, he, hde, hdl, hel⟩ := decideMerge_propose haction
  refine ⟨hne, fun id hid => ?_⟩
  -- two different ones among two are all of them
  by_cases hdid : d.identityID = id
  · exact ⟨d, hd, hdid, hdl⟩
  refine ⟨e, he, ?_, hel⟩
  rcases hid with rfl | rfl
  · have hd' := (htwo d hd).resolve_left hdid
    refine (htwo e he).resolve_right fun he' => hde ?_
    rw [hd', he']
  · have hd' := (htwo d hd).resolve_right hdid
    refine (htwo e he).resolve_left fun he' => hde ?_
    rw [hd', he']

/-- Contacts 5 and 6 of identity 1 and contact 7 of identity 2 have leaders; contact 8 of identity 1 has none. -/
def ledPair : IdentityDB where
  contacts := [5, 6, 7, 8]
  channels := fun channel externalID => if channel = "messenger" ∧ externalID = "ana" then some 5
    else if channel = "messenger" ∧ externalID = "bob" then some 8
    else if channel = "whatsapp" ∧ externalID = "+5511" then some 6 else if channel = "email" ∧ externalID = "a@b" then some 7 else none
  assigned := fun c => c ≠ 8
  identities := fun id => if id = 1 ∨ id = 2 then some ⟨0, none⟩ else none
  links := fun c => if c = 5 ∨ c = 6 ∨ c = 8 then some ⟨c, 1, .externalID, 0⟩ else if c = 7 then some ⟨7, 2, .externalID, 0⟩ else none
  next := 0
  sessions := fun _ => none

def ledDesk : Desk := ⟨ledPair, fun _ => rfl, none⟩

def proposed (sourceID : UUID) : Identity × Option MergeProposal :=
  (⟨1, 1, 0, none, [⟨5, 1, 5, .externalID, 0⟩, ⟨6, 1, 6, .externalID, 0⟩, ⟨8, 1, 8, .externalID, 0⟩]⟩,
    some ⟨9, 1, sourceID, 1, "leader conflict during resolve", 0⟩)

theorem runs_proposed (phone : String) {sourceID : UUID} (hok : (resolve mergingStore 1 "messenger" "ana" phone "a@b").okay (Desk.serve 0 9) (Desk.ok 0 9) ledDesk)
    (h : ((resolve mergingStore 1 "messenger" "ana" phone "a@b").eval (Desk.serve 0 9) ledDesk).1 = .ok (proposed sourceID)) :
    ∃ l db', Runs exec (resolve mergingStore 1 "messenger" "ana" phone "a@b") ledPair l (.ok (proposed sourceID)) db' :=
  ⟨_, _, h ▸ Desk.runs 0 9 _ ledDesk hok⟩

/-- The request is part of a merge of the source into the target. -/
def Merges (sourceID targetID : UUID) (q : Req) : Prop := ∃ tx, q = .stmt tx (.repointLinks targetID sourceID) ∨ q = .stmt tx (.setMergedInto targetID sourceID)

section

variable {db : IdentityDB} {tx : ℕ} {tenantID : UUID} {channel externalID : String} {candidates : List MergeCandidate}

def Decided (candidates : List MergeCandidate) (q : Req) : Prop := ∀ sourceID targetID, Merges sourceID targetID q →
  (decideMerge candidates).action = .merge ∧ targetID = (decideMerge candidates).targetID ∧ sourceID ∈ (decideMerge candidates).sourceIDs

theorem Decided.of_reading {q : Req} (h : Reading tx q) : Decided candidates q := by
  rintro sourceID targetID ⟨u, rfl | rfl⟩
  · exact h.2.elim
  · exact h.2.elim

theorem sends_mergeAll (haction : (decideMerge candidates).action = .merge) : ∀ sourceIDs : List UUID, sourceIDs ⊆ (decideMerge candidates).sourceIDs →
    (mergeAll tx (decideMerge candidates).targetID sourceIDs).Sends (Decided candidates)
  | [], _ => .ret _
  | sourceID :: rest, hsub => by
    have hsource := hsub mem_cons_self
    have hmerge : (mergeInTx tx sourceID (decideMerge candidates).targetID).Sends (Decided candidates) := by
      simp only [mergeInTx, Prog.send_bind, Prog.pure_eq]
      refine .ask ?_ fun r => ?_
      · rintro s t ⟨u, h | h⟩ <;> cases h
      cases r with
      | error e => exact .ret _
      | ok =>
      refine .ask ?_ fun r => ?_
      · rintro s t ⟨u, h | h⟩ <;> cases h
        exact ⟨haction, rfl, hsource⟩
      cases r with
      | error e => exact .ret _
      | ok =>
      refine .ask ?_ fun _ => .ret _
      rintro s t ⟨u, h | h⟩ <;> cases h
      exact ⟨haction, rfl, hsource⟩
    refine hmerge.bind fun r => ?_
    cases r with
    | error e => exact .ret _
    | ok => exact sends_mergeAll haction rest fun _ hm => hsub (mem_cons_of_mem _ hm)

theorem sends_settle (tenantID : UUID) (channel externalID : String) : (settle tenantID tx channel externalID candidates).Sends (Decided candidates) := by
  have hload : ∀ id, (loadIdentity tenantID tx id).Sends (Decided candidates) := fun id => Sends.mono (fun _ => .of_reading) (sends_loadIdentity tenantID id)
  have hread : ∀ {q : Req}, Reading tx q → Decided candidates q := .of_reading
  -- what is neither a read nor part of a merge
  have hother : ∀ {st : Stmt}, (∀ s t, st ≠ .repointLinks t s ∧ st ≠ .setMergedInto t s) → Decided candidates (.stmt tx st) := by
    rintro st hst s t ⟨u, h | h⟩
    · cases h
      exact absurd rfl (hst s t).1
    · cases h
      exact absurd rfl (hst s t).2
  unfold settle
  dsimp only
  cases haction : (decideMerge candidates).action with
  | new =>
    have hcreate : (createIdentity tx).Sends (Decided candidates) := by
      refine .ask (hread trivial) fun id => .ask (hread trivial) fun now => .ask (hother fun _ _ => ⟨by rintro ⟨⟩, by rintro ⟨⟩⟩) fun r => ?_
      cases r <;> exact .ret _
    refine hcreate.bind fun r => ?_
    cases r with
    | error e => exact .ret _
    | ok id =>
    have hlink : (linkContact tx id externalID channel .externalID).Sends (Decided candidates) := by
      refine .ask (hread ⟨rfl, trivial⟩) fun r => ?_
      cases r with
      | error e => exact .ret _
      | ok c =>
      cases c with
      | none => exact .ret _
      | some c => exact .ask (hother fun _ _ => ⟨by rintro ⟨⟩, by rintro ⟨⟩⟩) fun _ => .ret _
    refine hlink.bind fun r => ?_
    cases r with
    | error e => exact .ret _
    | ok => exact (hload id).bind fun r => by cases r <;> exact .ret _
  | link => exact (hload _).bind fun r => by cases r <;> exact .ret _
  | merge =>
    refine (sends_mergeAll haction _ fun _ hm => hm).bind fun r => ?_
    cases r with
    | error e => exact .ret _
    | ok => exact (hload _).bind fun r => by cases r <;> exact .ret _
  | propose =>
  rcases candidates with _ | ⟨c₀, _ | ⟨c₁, rest⟩⟩
  · exact .ret _
  · exact .ret _
  refine (hload _).bind fun r => ?_
  cases r with
  | error e => exact .ret _
  | ok identity => exact .ask (hread trivial) fun id => .ask (hread trivial) fun now => .ret _

/-- The statements of a call that merge are those of the decision over its hits. -/
theorem ensures_resolve_decided (s : IdentityStore) (tenantID : UUID) (channel externalID phone email : String) :
    Ensures exec (resolve s tenantID channel externalID phone email) db fun l _ _ => ∀ x ∈ l,
      Decided (db.hits s.mergeEnabled channel externalID (Text.trimSpace phone) (s.tables.lower (Text.trimSpace email))) x.q := by
  unfold resolve
  split_ifs
  · exact .ret (by simp)
  dsimp only
  have hother : ∀ {q : Req}, (∀ tx st, q ≠ .stmt tx st) → Decided (db.hits s.mergeEnabled channel externalID (Text.trimSpace phone)
      (s.tables.lower (Text.trimSpace email))) q := by
    rintro q hq s t ⟨u, h | h⟩
    · exact absurd h (hq _ _)
    · exact absurd h (hq _ _)
  refine Ensures.bind (ensures_withTenant_requests tenantID (hother (by rintro _ _ ⟨⟩))
    (fun tx => ⟨hother (by rintro _ _ ⟨⟩), hother (by rintro _ _ ⟨⟩), hother (by rintro _ _ ⟨⟩)⟩) ?_) fun l a t hl => ?_
  · intro l a t hrun
    obtain ⟨l₁, cs, t₁, l₂, rfl, hlookup, hrest⟩ := Runs.bind_inv hrun
    have hreads : ∀ x ∈ l₁, Reading db.next x.q := (sends_lookupCandidates s.mergeEnabled channel externalID _ _).ensures _ _ _ hlookup
    refine forall_mem_append.mpr ⟨fun x hx => .of_reading (hreads x hx), ?_⟩
    cases cs with
    | error e => 
      cases hrest
      simp
    | ok candidates =>
    obtain ⟨S, ⟨rfl, rfl⟩, rfl⟩ := brings_lookupCandidates s.mergeEnabled channel externalID _ _ _ _ _ hlookup _ rfl
    exact (sends_settle tenantID channel externalID).ensures _ _ _ hrest
  · cases a with
    | error e => exact .ret (by simpa using hl)
    | ok x => exact .ret (by simpa using hl)

end

theorem led_ledPair : Led ledPair 1 ∧ Led ledPair 2 := ⟨⟨5, _, rfl, rfl, rfl⟩, 7, _, rfl, rfl, rfl⟩

end Crm.Contacts
