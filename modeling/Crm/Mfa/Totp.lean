import Crm.Basic
import Crm.Lib.Base32
import Crm.Lib.Calendar
import Crm.Lib.Uuid

/-!
# Crm.Mfa.Totp — one-time codes and recovery codes

`internal/iam/mfa/totp.go` and `code.go`.  A code is accepted when it is that of the current time step or of one beside it: `totpVerify_ok` names the
counter.
-/

namespace Crm.Mfa

open List

abbrev Bytes : Type := List UInt8

/-- What the service takes as given: HMAC-SHA1, the seed cipher and the check of a code against its hash. -/
structure Crypto where
  hmacSha1 : Bytes → Bytes → Bytes
  length_sum : ∀ key msg, (hmacSha1 key msg).length = 20
  decrypt : Bytes → Except Err Bytes
  verify : String → String → Except Err Bool

/-! ## Time-based codes -/

def totpDigits : ℕ := 6

def totpStep : ℕ := 30

def totpSeedSize : ℕ := 32

def totpSeedMin : ℕ := 20

def encodeSecret (seed : Bytes) : Except Err String :=
  if seed.length < totpSeedMin then .error .mfaSeedTooShort else .ok (String.ofList (Base32.encode seed))

/-- The time step of an instant; before the epoch it is the first one. -/
def counter (t : Time) : ℕ := (t / 1000000000).toNat / totpStep

/-- The eight bytes of a counter, most significant first. -/
def bigEndian (c : ℕ) : Bytes := [7, 6, 5, 4, 3, 2, 1, 0].map fun i => UInt8.ofNat (c / 256 ^ i)

variable (K : Crypto)

/-- Dynamic truncation to six digits. -/
def hotp (seed : Bytes) (c : ℕ) : String :=
  let sum := K.hmacSha1 seed (bigEndian c)
  let offset := (sum.getD (sum.length - 1) 0).toNat % 16
  let bin := (sum.getD offset 0).toNat % 128 * 2 ^ 24 + (sum.getD (offset + 1) 0).toNat * 2 ^ 16 + (sum.getD (offset + 2) 0).toNat * 2 ^ 8 +
    (sum.getD (offset + 3) 0).toNat
  String.ofList (Calendar.pad totpDigits (bin % 10 ^ totpDigits))

/-- The counters from `window` steps before the current one to as many after it, oldest first. -/
def skewed (current window : ℕ) : List ℕ := (List.range (2 * window + 1)).filterMap fun i =>
  if current + i < window then none else some (current + i - window)

def totpVerify (seed : Bytes) (submitted : String) (t : Time) (window : ℕ) : Except Err Unit :=
  if seed.length < totpSeedMin then .error .mfaSeedTooShort
  else if submitted.utf8ByteSize ≠ totpDigits then .error .mfaInvalidCode
  else if submitted.toList.any fun c => c < '0' || '9' < c then .error .mfaInvalidCode
  else if (skewed (counter t) window).any fun c => hotp K seed c = submitted then .ok ()
  else .error .mfaInvalidCode

def totpVerifyWindow : ℕ := 1

def matched (seed : Bytes) (submitted : String) (t : Time) : Option ℕ :=
  (skewed (counter t) totpVerifyWindow).find? fun c => hotp K seed c = submitted

section

variable {K} {seed : Bytes} {submitted : String} {t : Time}

theorem mem_skewed {current window c : ℕ} (h : c ∈ skewed current window) : current ≤ c + window ∧ c ≤ current + window := by
  obtain ⟨i, hi, hc⟩ := mem_filterMap.mp h
  have hlt := mem_range.mp hi
  split_ifs at hc with hneg
  cases hc
  omega

theorem totpVerify_ok (h : totpVerify K seed submitted t totpVerifyWindow = .ok ()) :
    ∃ c, matched K seed submitted t = some c ∧ hotp K seed c = submitted ∧ counter t ≤ c + 1 ∧ c ≤ counter t + 1 := by
  unfold totpVerify at h
  split_ifs at h with _ _ _ hany
  obtain ⟨x, hx, hcode⟩ := any_eq_true.mp hany
  have hsome : (matched K seed submitted t).isSome := find?_isSome.mpr ⟨x, hx, hcode⟩
  obtain ⟨c, hc⟩ := Option.isSome_iff_exists.mp hsome
  obtain ⟨hge, hle⟩ := mem_skewed (mem_of_find?_eq_some hc)
  have hfound := find?_some hc
  exact ⟨c, hc, by simpa using hfound, hge, hle⟩

end

/-! ## The URI of an enrolment -/

inductive Encoding : Type
  | pathSegment
  | queryComponent
  deriving DecidableEq

def shouldEscape (mode : Encoding) (c : UInt8) : Bool :=
  let ch := Char.ofNat c.toNat
  if ch.isAlphanum || ch ∈ ['-', '_', '.', '~'] then false
  else if ch ∈ ['$', '&', '+', ':', '=', '@'] then mode = .queryComponent
  else true

def upperHex (n : ℕ) : Char := if n < 10 then Char.ofNat (48 + n) else Char.ofNat (55 + n)

/-- `PathEscape` and `QueryEscape`. -/
def escape (mode : Encoding) (s : String) : String :=
  String.ofList <| s.toUTF8.toList.flatMap fun c =>
    if c = 0x20 ∧ mode = .queryComponent then ['+']
    else if shouldEscape mode c then ['%', upperHex (c.toNat / 16), upperHex (c.toNat % 16)]
    else [Char.ofNat c.toNat]

/-- `OTPAuthURI`; the parameters are encoded in the order of their names. -/
def otpAuthURI (issuer label : String) (seed : Bytes) : Except Err String := do
  let encoded ← encodeSecret seed
  return "otpauth://totp/" ++ escape .pathSegment (issuer ++ ":" ++ label) ++ "?algorithm=SHA1&digits=" ++ toString totpDigits ++
    "&issuer=" ++ escape .queryComponent issuer ++ "&period=" ++ toString totpStep ++ "&secret=" ++ escape .queryComponent encoded

/-! ## Recovery codes -/

def recoveryCodeCount : ℕ := 10

def recoveryCodeLen : ℕ := 10

def recoveryCodeRawBytes : ℕ := 10

def recoveryCode (raw : Bytes) : String := String.ofList ((Base32.encode raw).take recoveryCodeLen)

def formatRecoveryCode (code : String) : String :=
  if code.utf8ByteSize ≠ recoveryCodeLen then code
  else String.ofList (code.toList.take (recoveryCodeLen / 2) ++ '-' :: code.toList.drop (recoveryCodeLen / 2))

/-- A letter of the submitted text; dashes and blanks are dropped. -/
def canonicalChar (c : Char) : Option Char :=
  if c = '-' ∨ c = ' ' then none
  else if 'a' ≤ c ∧ c ≤ 'z' then some (Char.ofNat (c.toNat - 32))
  else some c

def normalizeRecoveryCode (submitted : String) : Except Err String :=
  let stripped := String.ofList (submitted.toList.filterMap canonicalChar)
  if stripped.utf8ByteSize ≠ recoveryCodeLen then .error .mfaCodeFormat
  else if stripped.toList.all Base32.isSymbol then .ok stripped
  else .error .mfaCodeFormat

end Crm.Mfa
