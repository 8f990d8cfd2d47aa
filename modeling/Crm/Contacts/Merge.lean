import Mathlib.Data.Finset.Card
import Mathlib.Data.String.Basic
import Crm.Lib.Uuid
import Crm.Basic

/-!
# Crm.Contacts.Merge — the merge decision

`DecideMerge` of `internal/contacts/identity.go`: the hits of a lookup are gathered by identity, in the order in which the identities were first seen
(`metas`), and the number of identities and of those with a leader decides what becomes of the contact.
-/

namespace Crm.Contacts

open List

inductive LinkReason : Type
  | phone
  | email
  | externalID
  | manual
  deriving DecidableEq, Repr

inductive MergeAction : Type
  | new
  | link
  | merge
  | propose
  deriving DecidableEq, Repr

structure MergeCandidate where
  identityID : UUID
  reason : LinkReason
  hasLeader : Bool
  deriving DecidableEq, Repr

/-- The outcome; a decision without a reason has the empty one. -/
structure MergeDecision where
  action : MergeAction
  targetID : UUID
  sourceIDs : List UUID
  reason : Option LinkReason
  deriving DecidableEq, Repr

structure Meta where
  hasLeader : Bool
  reason : LinkReason
  deriving DecidableEq, Repr

def reasonPriority : LinkReason → ℕ
  | .externalID => 3
  | .phone => 2
  | .email => 2
  | .manual => 1

def Meta.add (m : Meta) (c : MergeCandidate) : Meta :=
  ⟨m.hasLeader || c.hasLeader, if reasonPriority c.reason > reasonPriority m.reason then c.reason else m.reason⟩

/-- The loop over the hits, with the map and the list of its keys in one. -/
def addCandidate (metas : List (UUID × Meta)) (c : MergeCandidate) : List (UUID × Meta) :=
  if c.identityID ∈ metas.map Prod.fst then metas.map fun x => if x.1 = c.identityID then (x.1, x.2.add c) else x
  else metas ++ [(c.identityID, ⟨c.hasLeader, c.reason⟩)]

def metasOf (candidates : List MergeCandidate) : List (UUID × Meta) := candidates.foldl addCandidate []

def smallestUUID (first : UUID) (rest : List UUID) : UUID := rest.foldl (fun best id => if id.string < best.string then id else best) first

/-- The first reason of the highest priority; `none` is the empty one. -/
def bestReason (reasons : List LinkReason) : Option LinkReason :=
  reasons.foldl (fun best r => if reasonPriority r > best.elim 0 reasonPriority then some r else best) none

/-- The decision for several identities: no merge of two that have a leader. -/
def decideMany (x : UUID × Meta) (rest : List (UUID × Meta)) : MergeDecision :=
  let ids := (x :: rest).map Prod.fst
  match (x :: rest).filter fun z => z.2.hasLeader with
  | _ :: _ :: _ => ⟨.propose, UUID.Nil, [], none⟩
  | [(id, m)] => ⟨.merge, id, ids.filter (· ≠ id), some m.reason⟩
  | [] => ⟨.merge, smallestUUID x.1 (rest.map Prod.fst), ids.filter (· ≠ smallestUUID x.1 (rest.map Prod.fst)),
      bestReason ((x :: rest).map fun z => z.2.reason)⟩

def decideMerge (candidates : List MergeCandidate) : MergeDecision :=
  match metasOf candidates with
  | [] => ⟨.new, UUID.Nil, [], none⟩
  | [(id, m)] => ⟨.link, id, [], some m.reason⟩
  | x :: y :: rest => decideMany x (y :: rest)

section

variable {candidates : List MergeCandidate} {id : UUID}

@[simp] theorem metasOf_nil : metasOf [] = [] := rfl

theorem metasOf_concat (candidates : List MergeCandidate) (c : MergeCandidate) : metasOf (candidates ++ [c]) = addCandidate (metasOf candidates) c := by
  simp [metasOf]

theorem keys_addCandidate (metas : List (UUID × Meta)) (c : MergeCandidate) : (addCandidate metas c).map Prod.fst =
    if c.identityID ∈ metas.map Prod.fst then metas.map Prod.fst else metas.map Prod.fst ++ [c.identityID] := by
  unfold addCandidate
  split_ifs
  · rw [map_map]
    refine map_congr_left fun x _ => ?_
    simp only [Function.comp_apply]
    split_ifs <;> rfl
  · simp

variable {c : MergeCandidate}

theorem mem_keys_addCandidate {metas : List (UUID × Meta)} :
    id ∈ (addCandidate metas c).map Prod.fst ↔ id ∈ metas.map Prod.fst ∨ id = c.identityID := by
  rw [keys_addCandidate]
  split_ifs with h
  · refine ⟨.inl, ?_⟩
    rintro (hid | rfl)
    · exact hid
    · exact h
  · simp

theorem mem_keys_metasOf : id ∈ (metasOf candidates).map Prod.fst ↔ ∃ c ∈ candidates, c.identityID = id := by
  induction candidates using List.reverseRecOn with
  | nil => simp
  | append_singleton candidates c ih =>
    rw [metasOf_concat, mem_keys_addCandidate, ih]
    constructor
    · rintro (⟨c', hc', hid⟩ | rfl)
      · exact ⟨c', mem_append_left _ hc', hid⟩
      · exact ⟨c, by simp, rfl⟩
    rintro ⟨c', hc', rfl⟩
    rcases mem_append.mp hc' with hc' | hc'
    · exact .inl ⟨c', hc', rfl⟩
    · rw [mem_singleton.mp hc']
      exact .inr rfl

theorem nodup_keys_metasOf : ((metasOf candidates).map Prod.fst).Nodup := by
  induction candidates using List.reverseRecOn with
  | nil => simp
  | append_singleton candidates c ih =>
    rw [metasOf_concat, keys_addCandidate]
    split_ifs with h
    · exact ih
    refine nodup_append.mpr ⟨ih, nodup_singleton _, fun a ha b hb => ?_⟩
    rw [mem_singleton.mp hb]
    rintro rfl
    exact h ha

theorem hasLeader_metasOf {m : Meta} (h : (id, m) ∈ metasOf candidates) (hm : m.hasLeader = true) :
    ∃ c ∈ candidates, c.identityID = id ∧ c.hasLeader = true := by
  induction candidates using List.reverseRecOn generalizing m with
  | nil => cases h
  | append_singleton candidates c ih =>
    have hold : ∀ {m : Meta}, (id, m) ∈ metasOf candidates → m.hasLeader = true → ∃ c' ∈ candidates ++ [c], c'.identityID = id ∧ c'.hasLeader = true := by
      intro m hmem hm
      obtain ⟨c', hc', hid⟩ := ih hmem hm
      exact ⟨c', mem_append_left _ hc', hid⟩
    rw [metasOf_concat, addCandidate] at h
    split_ifs at h with hseen
    · obtain ⟨x, hx, heq⟩ := mem_map.mp h
      split_ifs at heq with hid
      · obtain ⟨rfl, rfl⟩ := Prod.mk.inj heq
        rcases Bool.or_eq_true_iff.mp hm with hm | hm
        · exact hold hx hm
        · exact ⟨c, by simp, hid.symm, hm⟩
      · exact hold (heq ▸ hx) hm
    rcases mem_append.mp h with h | h
    · exact hold h hm
    · obtain ⟨rfl, rfl⟩ := Prod.mk.inj (mem_singleton.mp h)
      exact ⟨c, by simp, rfl, hm⟩

theorem metasOf_hasLeader (hc : c ∈ candidates) (hleader : c.hasLeader = true) : ∃ m, (c.identityID, m) ∈ metasOf candidates ∧ m.hasLeader = true := by
  induction candidates using List.reverseRecOn with
  | nil => cases hc
  | append_singleton candidates d ih =>
    rw [metasOf_concat, addCandidate]
    rcases mem_append.mp hc with hc | hc
    · -- an earlier hit keeps its leader
      obtain ⟨m, hm, hml⟩ := ih hc
      split_ifs with hseen
      · by_cases hid : c.identityID = d.identityID
        · exact ⟨m.add d, mem_map.mpr ⟨_, hm, if_pos hid⟩, by simp [Meta.add, hml]⟩
        · exact ⟨m, mem_map.mpr ⟨_, hm, if_neg hid⟩, hml⟩
      · exact ⟨m, mem_append_left _ hm, hml⟩
    obtain rfl := mem_singleton.mp hc
    split_ifs with hseen
    · obtain ⟨x, hx, hid⟩ := mem_map.mp hseen
      refine ⟨x.2.add c, mem_map.mpr ⟨x, hx, ?_⟩, by simp [Meta.add, hleader]⟩
      rw [if_pos hid, hid]
    · exact ⟨_, mem_append_right _ (mem_singleton.mpr rfl), hleader⟩

theorem decideMerge_singleton (c : MergeCandidate) : decideMerge [c] = ⟨.link, c.identityID, [], some c.reason⟩ := by
  simp [decideMerge, metasOf, addCandidate]

theorem smallestUUID_mem (first : UUID) (rest : List UUID) : smallestUUID first rest ∈ first :: rest := by
  induction rest generalizing first with
  | nil => exact mem_cons_self
  | cons id rest ih =>
    rw [smallestUUID, foldl_cons]
    rcases mem_cons.mp (ih (if id.string < first.string then id else first)) with heq | hmem
    · rw [smallestUUID] at heq
      rw [heq]
      split_ifs <;> simp
    · exact mem_cons_of_mem _ (mem_cons_of_mem _ hmem)

theorem smallestUUID_le (first : UUID) (rest : List UUID) : ∀ id ∈ first :: rest, (smallestUUID first rest).string ≤ id.string := by
  induction rest generalizing first with
  | nil => simp [smallestUUID]
  | cons next rest ih =>
    rw [smallestUUID, foldl_cons, ← smallestUUID]
    intro id hid
    have hbest := ih (if next.string < first.string then next else first) _ mem_cons_self
    rcases mem_cons.mp hid with rfl | hid
    · refine hbest.trans ?_
      split_ifs with hlt
      · exact hlt.le
      · exact le_rfl
    rcases mem_cons.mp hid with rfl | hid
    · refine hbest.trans ?_
      split_ifs with hlt
      · exact le_rfl
      · exact not_lt.mp hlt
    · exact ih _ id (mem_cons_of_mem _ hid)

inductive Verdict (candidates : List MergeCandidate) : MergeDecision → Prop
  | new (hmetas : metasOf candidates = []) : Verdict candidates ⟨.new, UUID.Nil, [], none⟩
  | link {id : UUID} {m : Meta} (hmetas : metasOf candidates = [(id, m)]) : Verdict candidates ⟨.link, id, [], some m.reason⟩
  | propose {z z' : UUID × Meta} {rest : List (UUID × Meta)} (hleaders : ((metasOf candidates).filter fun z => z.2.hasLeader) = z :: z' :: rest) :
    Verdict candidates ⟨.propose, UUID.Nil, [], none⟩
  | merge {target : UUID} {reason : Option LinkReason} (hmany : 2 ≤ (metasOf candidates).length) (htarget : target ∈ (metasOf candidates).map Prod.fst)
    (hleader : ∀ z ∈ metasOf candidates, z.2.hasLeader = true → z.1 = target)
    (hleast : (∀ z ∈ metasOf candidates, z.2.hasLeader = false) → ∀ z ∈ metasOf candidates, target.string ≤ z.1.string) :
    Verdict candidates ⟨.merge, target, ((metasOf candidates).map Prod.fst).filter (· ≠ target), reason⟩

theorem verdict (candidates : List MergeCandidate) : Verdict candidates (decideMerge candidates) := by
  unfold decideMerge
  split
  · exact .new ‹_›
  · exact .link ‹_›
  rename_i x y rest hmetas
  have hmany : 2 ≤ (metasOf candidates).length := by simp [hmetas]
  dsimp only [decideMany]
  rw [← hmetas]
  split
  · exact .propose ‹_›
  · rename_i id m hleaders
    have hone : ∀ z ∈ metasOf candidates, z.2.hasLeader = true → z = (id, m) := by
      intro z hz hzl
      have hmem : z ∈ (metasOf candidates).filter fun z => z.2.hasLeader := mem_filter.mpr ⟨hz, hzl⟩
      rw [hleaders] at hmem
      exact mem_singleton.mp hmem
    have hid : (id, m) ∈ metasOf candidates ∧ m.hasLeader = true := mem_filter.mp (hleaders ▸ mem_singleton_self _)
    refine .merge hmany (mem_map_of_mem hid.1) (fun z hz hzl => congrArg Prod.fst (hone z hz hzl)) fun hnone => ?_
    exact absurd (hnone _ hid.1) (by simp [hid.2])
  rename_i hleaders
  have hnone : ∀ z ∈ metasOf candidates, ¬ z.2.hasLeader = true := filter_eq_nil_iff.mp hleaders
  refine .merge hmany ?_ (fun z hz hzl => absurd hzl (hnone z hz)) fun _ z hz => ?_
  · rw [hmetas]
    exact smallestUUID_mem x.1 ((y :: rest).map Prod.fst)
  · exact smallestUUID_le _ _ _ (mem_map_of_mem (hmetas ▸ hz))

/-! ## What follows for one action -/

theorem decideMerge_new (h : (decideMerge candidates).action = .new) : candidates = [] := by
  have hd := verdict candidates
  generalize decideMerge candidates = d at h hd
  cases hd with
  | new hmetas =>
    refine eq_nil_iff_forall_not_mem.mpr fun c hc => ?_
    have hmem : c.identityID ∈ (metasOf candidates).map Prod.fst := mem_keys_metasOf.mpr ⟨c, hc, rfl⟩
    rw [hmetas] at hmem
    cases hmem
  | _ => cases h

theorem decideMerge_link (h : (decideMerge candidates).action = .link) : ∀ c ∈ candidates, c.identityID = (decideMerge candidates).targetID := by
  intro c hc
  have hmem : c.identityID ∈ (metasOf candidates).map Prod.fst := mem_keys_metasOf.mpr ⟨c, hc, rfl⟩
  have hd := verdict candidates
  generalize decideMerge candidates = d at h hd ⊢
  cases hd with
  | link hmetas =>
    rw [hmetas] at hmem
    exact mem_singleton.mp hmem
  | _ => cases h

/-- A merge is of the identities of the hits: one is the target, and the others are the sources. -/
theorem decideMerge_merge (h : (decideMerge candidates).action = .merge) :
    (∀ c ∈ candidates, c.identityID = (decideMerge candidates).targetID ∨ c.identityID ∈ (decideMerge candidates).sourceIDs) ∧
      (decideMerge candidates).targetID ∉ (decideMerge candidates).sourceIDs := by
  have hd := verdict candidates
  generalize decideMerge candidates = d at h hd ⊢
  cases hd with
  | merge =>
    refine ⟨fun c hc => ?_, by simp⟩
    simp only [mem_filter, mem_keys_metasOf, decide_eq_true_eq]
    exact or_iff_not_imp_left.mpr fun hne => ⟨⟨c, hc, rfl⟩, hne⟩
  | _ => cases h

/-- The target and the sources of a merge are hit, and not two of the identities have a leader. -/
theorem decideMerge_merge_leaders (h : (decideMerge candidates).action = .merge) : (∃ c ∈ candidates, c.identityID = (decideMerge candidates).targetID) ∧
    (∀ id ∈ (decideMerge candidates).sourceIDs, ∃ c ∈ candidates, c.identityID = id) ∧
    ∀ c ∈ candidates, ∀ d ∈ candidates, c.hasLeader = true → d.hasLeader = true → c.identityID = d.identityID := by
  have hd := verdict candidates
  generalize decideMerge candidates = d at h hd ⊢
  cases hd with
  | merge _ htarget hleader _ =>
    refine ⟨mem_keys_metasOf.mp htarget, fun id hid => mem_keys_metasOf.mp (mem_of_mem_filter hid), fun c hc d hd hcl hdl => ?_⟩
    obtain ⟨m, hm, hml⟩ := metasOf_hasLeader hc hcl
    obtain ⟨n, hn, hnl⟩ := metasOf_hasLeader hd hdl
    exact (hleader _ hm hml).trans (hleader _ hn hnl).symm
  | _ => cases h

/-- A proposal is for two identities with a leader at least. -/
theorem decideMerge_propose (h : (decideMerge candidates).action = .propose) : ∃ c ∈ candidates, ∃ d ∈ candidates,
    c.identityID ≠ d.identityID ∧ c.hasLeader = true ∧ d.hasLeader = true := by
  have hd := verdict candidates
  generalize decideMerge candidates = d at h hd
  cases hd with
  | @propose z z' rest hleaders =>
    have hleader : ∀ u ∈ z :: z' :: rest, u ∈ metasOf candidates ∧ u.2.hasLeader = true := by
      intro u hu
      rw [← hleaders] at hu
      exact mem_filter.mp hu
    obtain ⟨hz, hzl⟩ := hleader z (by simp)
    obtain ⟨hz', hzl'⟩ := hleader z' (by simp)
    obtain ⟨c, hc, hcid, hcl⟩ := hasLeader_metasOf hz hzl
    obtain ⟨d, hd, hdid, hdl⟩ := hasLeader_metasOf hz' hzl'
    have hne : z.1 ≠ z'.1 := by
      have hsub : (z :: z' :: rest).Sublist (metasOf candidates) := hleaders ▸ filter_sublist
      have hnodup := nodup_keys_metasOf.sublist (hsub.map Prod.fst)
      simp only [map_cons, nodup_cons, mem_cons, not_or] at hnodup
      exact hnodup.1.1
    exact ⟨c, hc, d, hd, by rw [hcid, hdid]; exact hne, hcl, hdl⟩
  | _ => cases h

/-! ## The decision and the sets of identities -/

def identities (candidates : List MergeCandidate) : Finset UUID := (candidates.map MergeCandidate.identityID).toFinset

def leaders (candidates : List MergeCandidate) : Finset UUID := ((candidates.filter fun c => c.hasLeader).map MergeCandidate.identityID).toFinset

theorem toFinset_keys : ((metasOf candidates).map Prod.fst).toFinset = identities candidates := by
  ext id
  rw [mem_toFinset, mem_keys_metasOf]
  simp [identities]

theorem toFinset_leaderKeys : (((metasOf candidates).filter fun z => z.2.hasLeader).map Prod.fst).toFinset = leaders candidates := by
  ext id
  simp only [leaders, mem_toFinset, mem_map, mem_filter]
  constructor
  · rintro ⟨z, ⟨hz, hzl⟩, rfl⟩
    obtain ⟨c, hc, hid, hcl⟩ := hasLeader_metasOf hz hzl
    exact ⟨c, ⟨hc, hcl⟩, hid⟩
  · rintro ⟨c, ⟨hc, hcl⟩, rfl⟩
    obtain ⟨m, hm, hml⟩ := metasOf_hasLeader hc hcl
    exact ⟨_, ⟨hm, hml⟩, rfl⟩

theorem card_identities : (identities candidates).card = (metasOf candidates).length := by
  rw [← toFinset_keys, toFinset_card_of_nodup nodup_keys_metasOf, length_map]

theorem card_leaders : (leaders candidates).card = ((metasOf candidates).filter fun z => z.2.hasLeader).length := by
  rw [← toFinset_leaderKeys, toFinset_card_of_nodup (nodup_keys_metasOf.sublist (filter_sublist.map _)), length_map]

theorem card_leaders_le : (leaders candidates).card ≤ (identities candidates).card := by
  rw [card_leaders, card_identities]
  exact length_filter_le _ _

/-- What `DecideMerge` is for: the decision in terms of the identities that are hit and of those with a leader. -/
structure Specified (ids leaders : Finset UUID) (d : MergeDecision) : Prop where
  new : d.action = .new ↔ ids.card = 0
  link : d.action = .link ↔ ids.card = 1
  propose : d.action = .propose ↔ 2 ≤ ids.card ∧ 2 ≤ leaders.card
  merge : d.action = .merge ↔ 2 ≤ ids.card ∧ leaders.card ≤ 1
  none : d.action = .new ∨ d.action = .propose → d.targetID = UUID.Nil
  target : d.action = .link ∨ d.action = .merge → d.targetID ∈ ids
  nodup : d.sourceIDs.Nodup
  sources : d.sourceIDs.toFinset = if d.action = .merge then ids.erase d.targetID else ∅
  led : d.action = .merge → ∀ id ∈ leaders, id = d.targetID
  least : d.action = .merge → leaders = ∅ → ∀ id ∈ ids, d.targetID.string ≤ id.string

theorem specified (candidates : List MergeCandidate) : Specified (identities candidates) (leaders candidates) (decideMerge candidates) := by
  have hle : (leaders candidates).card ≤ _ := card_leaders_le
  have hi : (identities candidates).card = _ := card_identities
  have hl : (leaders candidates).card = _ := card_leaders
  have hd := verdict candidates
  generalize decideMerge candidates = d at hd
  cases hd with
  | new hmetas =>
    rw [hmetas, length_nil] at hi
    constructor <;> simp [hi]
  | link hmetas =>
    rw [hmetas, length_singleton] at hi
    have hmem := mem_toFinset.mpr (mem_map_of_mem (f := Prod.fst) (hmetas ▸ mem_singleton_self _))
    rw [toFinset_keys] at hmem
    constructor <;> simp [hi, hmem]
  | propose hleaders =>
    rw [hleaders, length_cons, length_cons] at hl
    obtain ⟨k, hk⟩ := Nat.exists_eq_add_of_le' (show 2 ≤ (identities candidates).card by omega)
    constructor <;> simp [hk, hl]
  | @merge target reason hmany htarget hleader hleast =>
  obtain ⟨k, hk⟩ := Nat.exists_eq_add_of_le' (hi ▸ hmany)
  have hled : ∀ id ∈ leaders candidates, id = target := by
    intro id hid
    rw [← toFinset_leaderKeys, mem_toFinset, mem_map] at hid
    obtain ⟨z, hz, rfl⟩ := hid
    exact hleader z (mem_of_mem_filter hz) (mem_filter.mp hz).2
  have hone : (leaders candidates).card ≤ 1 := Finset.card_le_one.mpr fun a ha b hb => (hled a ha).trans (hled b hb).symm
  refine ⟨by simp [hk], by simp [hk], by simp; omega, by simp [hk, hone], by simp, fun _ => ?_, nodup_keys_metasOf.filter _, ?_, fun _ => hled,
    fun _ hnone id hid => ?_⟩
  · exact toFinset_keys ▸ mem_toFinset.mpr htarget
  · rw [if_pos rfl, toFinset_filter, toFinset_keys]
    ext id
    simp [and_comm]
  rw [← toFinset_keys, mem_toFinset, mem_map] at hid
  obtain ⟨z, hz, rfl⟩ := hid
  refine hleast (fun z hz => ?_) z hz
  by_contra hzl
  obtain ⟨c, hc, hid, hcl⟩ := hasLeader_metasOf (show (z.1, z.2) ∈ _ from hz) (Bool.of_not_eq_false hzl)
  have hmem : c.identityID ∈ leaders candidates := by simpa [leaders] using ⟨c, ⟨hc, hcl⟩, rfl⟩
  rw [hnone] at hmem
  cases hmem

theorem Specified.unique {ids led : Finset UUID} {d d' : MergeDecision} (h : Specified ids led d) (h' : Specified ids led d') :
    d.action = d'.action ∧ d.targetID = d'.targetID ∧ d.sourceIDs.toFinset = d'.sourceIDs.toFinset := by
  have haction : d.action = d'.action := by
    cases ha : d.action with
    | new => exact (h'.new.mpr (h.new.mp ha)).symm
    | link => exact (h'.link.mpr (h.link.mp ha)).symm
    | propose => exact (h'.propose.mpr (h.propose.mp ha)).symm
    | merge => exact (h'.merge.mpr (h.merge.mp ha)).symm
  have htarget : d.targetID = d'.targetID := by
    cases ha : d.action with
    | new => rw [h.none (.inl ha), h'.none (.inl (haction ▸ ha))]
    | propose => rw [h.none (.inr ha), h'.none (.inr (haction ▸ ha))]
    | link =>
      exact Finset.card_le_one.mp (h.link.mp ha).le _ (h.target (.inl ha)) _ (h'.target (.inl (haction ▸ ha)))
    | merge =>
    have ha' := haction ▸ ha
    rcases led.eq_empty_or_nonempty with hnone | ⟨id, hid⟩
    · refine UUID.string_injective (le_antisymm ?_ ?_)
      · exact h.least ha hnone _ (h'.target (.inr ha'))
      · exact h'.least ha' hnone _ (h.target (.inr ha))
    · exact (h.led ha id hid).symm.trans (h'.led ha' id hid)
  exact ⟨haction, htarget, by rw [h.sources, h'.sources, haction, htarget]⟩

/-- **DecideMerge.**  The decision is the specified one for the identities that are hit and for those with a leader candidate, and so it does not
depend on the order of the candidates or on repetitions. -/
theorem decideMerge_spec (candidates : List MergeCandidate) :
    ((decideMerge candidates).action = .new ↔ candidates = []) ∧ Specified (identities candidates) (leaders candidates) (decideMerge candidates) ∧
      ∀ candidates', candidates'.Perm candidates → (decideMerge candidates').action = (decideMerge candidates).action ∧
        (decideMerge candidates').targetID = (decideMerge candidates).targetID ∧
        (decideMerge candidates').sourceIDs.toFinset = (decideMerge candidates).sourceIDs.toFinset := by
  refine ⟨⟨decideMerge_new, by rintro rfl; rfl⟩, specified candidates, fun candidates' hperm => ?_⟩
  have hids : identities candidates' = identities candidates := toFinset_eq_of_perm _ _ (hperm.map _)
  have hleaders : leaders candidates' = leaders candidates := toFinset_eq_of_perm _ _ ((hperm.filter _).map _)
  have hspec := specified candidates'
  rw [hids, hleaders] at hspec
  exact hspec.unique (specified candidates)

end

end Crm.Contacts
