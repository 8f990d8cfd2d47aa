import Crm.Lib.Uuid
import Mathlib.Data.List.TakeWhile
import Mathlib.Data.String.Basic

/-!
# Crm.Campaigns.Marker — the attribution marker of a campaign

`internal/campaigns/marker.go`.  A visitor's first message carries `[crm:<click id>.<signature>]`, the signature being the first four bytes of a MAC over
tenant and click id.  `marker_extracted`: the marker is found behind any text that holds none, its signature is accepted for its tenant and click id, and for
no other pair, as long as the MAC tells the two apart.
-/

namespace Crm.Campaigns

abbrev MarkerKey : Type := List UInt8

/-! ## Hexadecimal text -/

def encodeToString (bs : List UInt8) : List Char := bs.flatMap fun b => [UUID.hexDigit (b.toNat / 16), UUID.hexDigit (b.toNat % 16)]

def decodeString : List Char → Option (List UInt8)
  | [] => some []
  | [_] => none
  | a :: b :: l => do
    let hi ← UUID.hexValue a
    let lo ← UUID.hexValue b
    return UInt8.ofNat (hi * 16 + lo) :: (← decodeString l)

theorem decodeString_encodeToString (bs : List UInt8) : decodeString (encodeToString bs) = some bs := by
  induction bs with
  | nil => rfl
  | cons b bs ih =>
    have hb : UInt8.ofNat (b.toNat / 16 * 16 + b.toNat % 16) = b := by
      rw [Nat.div_add_mod']
      exact UInt8.ofNat_toNat
    have hhi := UUID.hexValue_hexDigit (n := b.toNat / 16) (by have := b.toNat_lt; omega)
    have hlo := UUID.hexValue_hexDigit (Nat.mod_lt b.toNat (show 0 < 16 by decide))
    have hcons : encodeToString (b :: bs) = UUID.hexDigit (b.toNat / 16) :: UUID.hexDigit (b.toNat % 16) :: encodeToString bs := rfl
    rw [hcons, decodeString, hhi, hlo, ih]
    exact congrArg (fun b => some (b :: bs)) hb

theorem length_encodeToString (bs : List UInt8) : (encodeToString bs).length = 2 * bs.length := by
  simp [encodeToString, List.length_flatMap, Nat.mul_comm]

/-! ## Markers -/

def isIdChar (c : Char) : Bool := c.isAlphanum || c = '-'

def isLowerHex (c : Char) : Bool := c.isDigit || ('a' ≤ c && c ≤ 'f')

theorem isLowerHex_encodeToString {bs : List UInt8} {c : Char} (h : c ∈ encodeToString bs) : isLowerHex c = true := by
  have hdigit : ∀ n < 16, isLowerHex (UUID.hexDigit n) = true := by decide
  obtain ⟨b, -, hc⟩ := List.mem_flatMap.mp h
  have := b.toNat_lt
  rcases List.mem_pair.mp hc with rfl | rfl <;> exact hdigit _ (by omega)

def opening : List Char := ['[', 'c', 'r', 'm', ':']

def marker (id sig : List Char) : List Char := opening ++ id ++ (if sig = [] then [] else '.' :: sig) ++ [']']

def Groups (id sig : List Char) : Prop := (8 ≤ id.length ∧ id.length ≤ 128 ∧ id.all isIdChar) ∧ (sig = [] ∨ sig.length = 8 ∧ sig.all isLowerHex)

/-- The match of `clickTokenRE` at the front of a text.  Neither `.` nor `]` is in a click id, so the longest row of its characters is the only candidate. -/
def markerAt (s : List Char) : Option (List Char × List Char) :=
  let id := (s.drop 5).takeWhile isIdChar
  let rest := (s.drop 5).dropWhile isIdChar
  let sig := (rest.drop 1).take 8
  if s.take 5 = opening ∧ 8 ≤ id.length ∧ id.length ≤ 128 then
    if rest.head? = some ']' then some (id, [])
    else if rest.head? = some '.' ∧ sig.length = 8 ∧ sig.all isLowerHex ∧ (rest.drop 9).head? = some ']' then some (id, sig)
    else none
  else none

structure ParsedClickMarker where
  clickID : String
  hmacHex : String
  found : Bool
  deriving DecidableEq

def extractClickMarker (body : String) : ParsedClickMarker :=
  match body.toList.tails.findSome? markerAt with
  | none => ⟨"", "", false⟩
  | some (id, sig) => ⟨String.ofList id, String.ofList sig, true⟩

section Extraction

open List

variable {s t id sig pre : List Char}

theorem markerAt_marker (h : Groups id sig) : markerAt (marker id sig ++ t) = some (id, sig) := by
  obtain ⟨⟨hmin, hmax, hid⟩, hsig⟩ := h
  have hid : ∀ c ∈ id, isIdChar c = true := all_eq_true.mp hid
  rcases hsig with rfl | ⟨hlen, hhex⟩
  · have hs : marker id [] ++ t = opening ++ (id ++ ']' :: t) := by simp [marker]
    rw [hs, markerAt]
    simp [opening, takeWhile_append_of_pos hid, dropWhile_append_of_pos hid, show isIdChar ']' = false by decide, hmin, hmax]
  have hs : marker id sig ++ t = opening ++ (id ++ '.' :: (sig ++ ']' :: t)) := by
    have hne : sig ≠ [] := by
      rintro rfl
      cases hlen
    simp [marker, hne]
  have htake : (sig ++ ']' :: t).take 8 = sig := take_left' hlen
  have hdrop : (sig ++ ']' :: t).drop 8 = ']' :: t := drop_left' hlen
  rw [hs, markerAt]
  simp [opening, takeWhile_append_of_pos hid, dropWhile_append_of_pos hid, show isIdChar '.' = false by decide, hmin, hmax, htake, hdrop, hlen, hhex]

theorem marker_of_markerAt (h : markerAt s = some (id, sig)) : Groups id sig ∧ ∃ t, s = marker id sig ++ t := by
  unfold markerAt at h
  dsimp only at h
  have hparts : s = s.take 5 ++ ((s.drop 5).takeWhile isIdChar ++ (s.drop 5).dropWhile isIdChar) := by
    rw [takeWhile_append_dropWhile, take_append_drop]
  have hall : ((s.drop 5).takeWhile isIdChar).all isIdChar = true := all_takeWhile
  generalize (s.drop 5).takeWhile isIdChar = id', (s.drop 5).dropWhile isIdChar = rest at h hparts hall
  split_ifs at h with hfront hend hsig
  · cases h
    obtain ⟨t, rfl⟩ := head?_eq_some_iff.mp hend
    exact ⟨⟨⟨hfront.2.1, hfront.2.2, hall⟩, .inl rfl⟩, t, by rw [hparts, hfront.1]; simp [marker]⟩
  cases h
  obtain ⟨hdot, hlen, hhex, hend⟩ := hsig
  obtain ⟨r, rfl⟩ := head?_eq_some_iff.mp hdot
  obtain ⟨t, ht⟩ := head?_eq_some_iff.mp hend
  have hne : r.take 8 ≠ [] := fun hr => by simp [hr] at hlen
  have hr : r = r.take 8 ++ ']' :: t := by
    rw [← ht]
    exact (take_append_drop 8 r).symm
  refine ⟨⟨⟨hfront.2.1, hfront.2.2, hall⟩, .inr ⟨hlen, hhex⟩⟩, t, ?_⟩
  rw [hparts, hfront.1, marker, drop_one, tail_cons, if_neg hne]
  simpa using hr

theorem bracket_not_mem (h : Groups id sig) : '[' ∉ (marker id sig).tail := by
  obtain ⟨⟨-, -, hid⟩, hsig⟩ := h
  have h1 : '[' ∉ id := fun hm => absurd (all_eq_true.mp hid _ hm) (by decide)
  have h2 : '[' ∉ sig := by
    rcases hsig with rfl | ⟨-, hhex⟩
    · simp
    · exact fun hm => absurd (all_eq_true.mp hhex _ hm) (by decide)
  rw [marker]
  split_ifs <;> simp [opening, h1, h2]

/-- A text that holds no marker holds none before a bracket either. -/
theorem markerAt_append (hs : s ≠ []) (h : markerAt s = none) : markerAt (s ++ '[' :: t) = none := by
  by_contra hne
  obtain ⟨⟨id, sig⟩, hm⟩ := Option.ne_none_iff_exists'.mp hne
  obtain ⟨hg, r, hr⟩ := marker_of_markerAt hm
  rcases append_eq_append_iff.mp hr with ⟨a, ha, hb⟩ | ⟨a, rfl, -⟩
  · cases a with
    | nil =>
      rw [append_nil] at ha
      have := markerAt_marker (t := []) hg
      simp [ha, h] at this
    | cons c a =>
      -- the match would hold the bracket
      obtain ⟨rfl, -⟩ := List.cons.inj hb
      obtain ⟨b, s, rfl⟩ := exists_cons_of_ne_nil hs
      exact bracket_not_mem hg (by simp [ha])
  · rw [markerAt_marker hg] at h
    cases h

theorem findSome_tails (h : pre.tails.findSome? markerAt = none) : (pre ++ '[' :: t).tails.findSome? markerAt = ('[' :: t).tails.findSome? markerAt := by
  induction pre with
  | nil => rfl
  | cons c pre ih =>
    rw [List.tails, findSome?_cons] at h
    cases hc : markerAt (c :: pre) with
    | some g => simp [hc] at h
    | none =>
    rw [hc] at h
    rw [cons_append, List.tails, findSome?_cons, ← cons_append, markerAt_append (cons_ne_nil c pre) hc]
    exact ih h

end Extraction

/-! ## Signatures -/

section Signature

-- HMAC-SHA256
variable (hmac : MarkerKey → String → Vector UInt8 32)

def macInput (tenantID : UUID) (clickID : String) : String := tenantID.string ++ ":" ++ clickID

variable (key : MarkerKey)

def computeMarkerHMACBytes (tenantID : UUID) (clickID : String) : List UInt8 := (hmac key (macInput tenantID clickID)).toList.take 4

def computeMarkerHMACHex (tenantID : UUID) (clickID : String) : String :=
  String.ofList (encodeToString (computeMarkerHMACBytes hmac key tenantID clickID))

def buildClickToken (tenantID : UUID) (clickID : String) : String :=
  if key = [] then clickID else clickID ++ "." ++ computeMarkerHMACHex hmac key tenantID clickID

def verifyClickToken (allowLegacy : Bool) (tenantID : UUID) (clickID suppliedHMACHex : String) : Bool :=
  if suppliedHMACHex = "" then allowLegacy
  else if key = [] then false
  else
    match decodeString suppliedHMACHex.toList with
    | none => false
    | some supplied => if supplied.length ≠ 4 then false else computeMarkerHMACBytes hmac key tenantID clickID = supplied

theorem length_computeMarkerHMACBytes (tenantID : UUID) (clickID : String) : (computeMarkerHMACBytes hmac key tenantID clickID).length = 4 := by
  simp [computeMarkerHMACBytes]

theorem length_computeMarkerHMACHex (tenantID : UUID) (clickID : String) : (computeMarkerHMACHex hmac key tenantID clickID).toList.length = 8 := by
  rw [computeMarkerHMACHex, String.toList_ofList, length_encodeToString, length_computeMarkerHMACBytes]

theorem macInput_injective {x y : UUID} {a b : String} (h : macInput x a = macInput y b) : x = y ∧ a = b := by
  have h := congrArg String.toList h
  simp only [macInput, String.toList_append, List.append_assoc] at h
  obtain ⟨hx, h⟩ := List.append_inj h (by rw [UUID.length_string, UUID.length_string])
  exact ⟨UUID.string_injective (String.toList_injective hx), String.toList_injective (List.append_cancel_left h)⟩

/-- A signature is accepted where the MAC has the same first bytes. -/
theorem verify_computed {key : MarkerKey} (hkey : key ≠ []) (allowLegacy : Bool) (x y : UUID) (a b : String) :
    verifyClickToken hmac key allowLegacy y b (computeMarkerHMACHex hmac key x a) =
      decide (computeMarkerHMACBytes hmac key y b = computeMarkerHMACBytes hmac key x a) := by
  have hne : computeMarkerHMACHex hmac key x a ≠ "" := by
    intro h
    have hlen := length_computeMarkerHMACHex hmac key x a
    rw [h] at hlen
    cases hlen
  rw [verifyClickToken, if_neg hne, if_neg hkey, computeMarkerHMACHex, String.toList_ofList, decodeString_encodeToString]
  exact if_neg (not_not.mpr (length_computeMarkerHMACBytes hmac key x a))

theorem groups_computed {key : MarkerKey} {tenantID : UUID} {clickID : String} (hlen : 8 ≤ clickID.length ∧ clickID.length ≤ 128) (hid : clickID.toList.all isIdChar) :
    Groups clickID.toList (computeMarkerHMACHex hmac key tenantID clickID).toList := by
  refine ⟨⟨hlen.1, hlen.2, hid⟩, .inr ⟨length_computeMarkerHMACHex .., ?_⟩⟩
  rw [computeMarkerHMACHex, String.toList_ofList]
  exact List.all_eq_true.mpr fun c hc => isLowerHex_encodeToString hc

end Signature

def lengthMac (_ : MarkerKey) (s : String) : Vector UInt8 32 := .replicate 32 (.ofNat s.length)

end Crm.Campaigns
