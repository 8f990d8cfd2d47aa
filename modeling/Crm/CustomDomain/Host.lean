import Crm.Basic
import Crm.Lib.Text

/-!
# Crm.CustomDomain.Host — the host of an enrolment

`NormalizeHost` of `internal/customdomain/management`: what a tenant types is lower-cased, trimmed, loses one trailing dot, and must then
be a host name.  What it accepts it leaves in a form that later normalisations do not change (`normalizeHost_plain`).
-/

namespace Crm.CustomDomain

open Text List

def isLabelChar (c : Char) : Bool := ('a' ≤ c && c ≤ 'z') || ('0' ≤ c && c ≤ '9') || c == '-'

def checkLabel (label : String) : Except Err Unit :=
  if label = "" then .error (.other "empty label")
  else if 63 < label.utf8ByteSize then .error (.other "label too long")
  else if label.toList.head? = some '-' ∨ label.toList.getLast? = some '-' then .error (.other "label starts or ends with hyphen")
  else if label.toList.all isLabelChar then .ok ()
  else .error (.other "label has invalid character")

def checkLabels : List String → Except Err Unit
  | [] => .ok ()
  | label :: labels =>
    match checkLabel label with
    | .error e => .error e
    | .ok () => checkLabels labels

def isAllDigitsAndDots (host : String) : Bool := host.toList.all fun c => c == '.' || ('0' ≤ c && c ≤ '9')

def trimDot (host : String) : String :=
  if host.toList.getLast? = some '.' then String.ofList host.toList.dropLast else host

def normalizeHost (T : CaseTables) (raw : String) : Except Err String :=
  let host := trimDot (trimSpace (T.lower raw))
  if host = "" then .error (.detail .domainInvalidHost (.other "empty host"))
  else if 253 < host.utf8ByteSize then .error (.detail .domainInvalidHost (.other "host too long (>253 chars)"))
  else if '.' ∉ host.toList then .error (.detail .domainInvalidHost (.other "missing dot"))
  else if isAllDigitsAndDots host then .error (.detail .domainInvalidHost (.other "IP literal not allowed"))
  else
    match checkLabels (split '.' host) with
    | .error e => .error (.detail .domainInvalidHost e)
    | .ok () => .ok host

/-! ## What is accepted -/

theorem checkLabel_chars {label : String} (h : checkLabel label = .ok ()) : ∀ c ∈ label.toList, isLabelChar c = true := by
  unfold checkLabel at h
  split_ifs at h with _ _ _ hall
  exact all_eq_true.mp hall

theorem checkLabels_ok {labels : List String} (h : checkLabels labels = .ok ()) : ∀ label ∈ labels, checkLabel label = .ok () := by
  induction labels with
  | nil => simp
  | cons l ls ih =>
    rw [checkLabels] at h
    cases hl : checkLabel l with
    | error e =>
      rw [hl] at h
      cases h
    | ok u =>
    rw [hl] at h
    exact forall_mem_cons.mpr ⟨hl, ih h⟩

/-- A text of lower-case letters, digits, hyphens and dots that is not empty. -/
structure PlainHost (host : String) : Prop where
  ne_empty : host ≠ ""
  chars : ∀ c ∈ host.toList, c = '.' ∨ isLabelChar c = true

variable {host : String}

theorem normalizeHost_ok {T : CaseTables} {raw : String} : normalizeHost T raw = .ok host ↔ trimDot (trimSpace (T.lower raw)) = host ∧
    host ≠ "" ∧ host.utf8ByteSize ≤ 253 ∧ '.' ∈ host.toList ∧ isAllDigitsAndDots host = false ∧ checkLabels (split '.' host) = .ok () := by
  unfold normalizeHost
  generalize trimDot (trimSpace (T.lower raw)) = host'
  constructor
  · intro h
    dsimp only at h
    split_ifs at h with hne hsize hdot hdigits
    cases hl : checkLabels (split '.' host') with
    | error e =>
      rw [hl] at h
      cases h
    | ok u =>
    rw [hl] at h
    cases h
    exact ⟨rfl, hne, not_lt.mp hsize, hdot, Bool.eq_false_iff.mpr hdigits, hl⟩
  · rintro ⟨rfl, hne, hsize, hdot, hdigits, hl⟩
    simp [hne, not_lt.mpr hsize, hdot, hdigits, hl]

theorem normalizeHost_plain {T : CaseTables} {raw : String} (h : normalizeHost T raw = .ok host) : PlainHost host := by
  obtain ⟨-, hne, -, -, -, hl⟩ := normalizeHost_ok.mp h
  refine ⟨hne, fun c hc => (mem_split hc).imp_right ?_⟩
  rintro ⟨label, hlabel, hc⟩
  exact checkLabel_chars (checkLabels_ok hl label hlabel) c hc

theorem PlainHost.code (h : PlainHost host) {c : Char} (hc : c ∈ host.toList) :
    c.toNat = 45 ∨ c.toNat = 46 ∨ (48 ≤ c.toNat ∧ c.toNat ≤ 57) ∨ (97 ≤ c.toNat ∧ c.toNat ≤ 122) := by
  rcases h.chars c hc with rfl | hl
  · exact .inr (.inl rfl)
  simp only [isLabelChar, Bool.or_eq_true, Bool.and_eq_true, decide_eq_true_eq, beq_iff_eq] at hl
  rcases hl with (⟨h1, h2⟩ | ⟨h1, h2⟩) | rfl
  · exact .inr (.inr (.inr ⟨h1, h2⟩))
  · exact .inr (.inr (.inl ⟨h1, h2⟩))
  · exact .inl rfl

theorem PlainHost.lower (h : PlainHost host) (T : CaseTables) : T.lower host = host := by
  refine CaseTables.lower_of_forall fun c hc => ?_
  have hcode := h.code hc
  refine ⟨by omega, ?_⟩
  -- no code is that of a capital letter
  refine dif_neg ?_
  rintro ⟨h1, h2⟩
  have h1 : 65 ≤ c.toNat := h1
  have h2 : c.toNat ≤ 90 := h2
  omega

theorem PlainHost.trimSpace (h : PlainHost host) : trimSpace host = host := by
  refine trimSpace_of_forall fun c hc => ?_
  have hcode := h.code hc
  simp only [isSpace, contains_eq_mem, mem_cons, not_mem_nil, or_false, Bool.or_eq_false_iff, Bool.and_eq_false_iff,
    decide_eq_false_iff_not]
  omega

/-! ## The host of a TLS question -/

/-- Case tables that leave blanks and dots as they are, as those of Unicode do. -/
structure HostTables extends CaseTables where
  space : ∀ c, isSpace (toLower c) = isSpace c
  dot : ∀ c, toLower c = '.' → c = '.'

namespace TlsAsk

def isLabelChar (c : Char) : Bool := CustomDomain.isLabelChar c || c == '_'

def validLabel (label : String) : Bool :=
  label ≠ "" ∧ label.toList.head? ≠ some '-' ∧ label.toList.getLast? ≠ some '-' ∧ label.toList.all isLabelChar

/-- `normalizeHost` of `tls_ask`; the empty text stands for a host that is not valid. -/
def normalizeHost (T : CaseTables) (raw : String) : String :=
  let host := T.lower (trimDot (trimSpace raw))
  if host = "" then ""
  else if (split '.' host).length < 2 then ""
  else if (split '.' host).all validLabel then host
  else ""

def maxLen : ℕ := 253

/-- The host that `Ask` looks up among the active ones, if it gets there. -/
def lookup (T : CaseTables) (hosts : List String) (raw : String) : Option String :=
  let host := normalizeHost T raw
  if host = "" ∨ maxLen < host.utf8ByteSize then none else hosts.find? fun h => T.lower h = T.lower host

end TlsAsk

theorem validLabel_of_checkLabel {label : String} (h : checkLabel label = .ok ()) : TlsAsk.validLabel label = true := by
  unfold checkLabel at h
  split_ifs at h with hne _ hhyphen hall
  rw [not_or] at hhyphen
  have hchars : label.toList.all TlsAsk.isLabelChar = true :=
    all_eq_true.mpr fun c hc => by simp [TlsAsk.isLabelChar, all_eq_true.mp hall c hc]
  simp [TlsAsk.validLabel, hne, hhyphen, hchars]

theorem trimDot_of_labels (hl : checkLabels (split '.' host) = .ok ()) : trimDot host = host := by
  refine if_neg fun hdot => ?_
  obtain ⟨l, hsplit⟩ := getLast?_eq_some_iff.mp hdot
  have hempty : "" ∈ split '.' host := by
    rw [split, hsplit, splitOn_append_cons_self]
    simp
  have := checkLabels_ok hl _ hempty
  simp [checkLabel] at this

theorem two_le_labels (hdot : '.' ∈ host.toList) : 2 ≤ (split '.' host).length := by
  obtain ⟨l, l', hsplit⟩ := append_of_mem hdot
  have h1 := length_pos_iff.mpr (splitOn_ne_nil '.' l)
  have h2 := length_pos_iff.mpr (splitOn_ne_nil '.' l')
  rw [split, hsplit, splitOn_append_cons_self, length_map, length_append]
  omega

theorem HostTables.lower_trimDot (T : HostTables) (s : String) : T.lower (trimDot s) = trimDot (T.lower s) := by
  have hdot : (s.toList.map T.toLower).getLast? = some '.' ↔ s.toList.getLast? = some '.' := by
    rw [getLast?_map, Option.map_eq_some_iff]
    constructor
    · rintro ⟨c, hc, hlow⟩
      rw [hc, T.dot c hlow]
    · exact fun hc => ⟨'.', hc, T.toLower_ascii '.' (by decide)⟩
  simp only [trimDot, CaseTables.lower, String.toList_ofList, hdot]
  split_ifs <;> simp [map_dropLast]

def asciiTables : HostTables where
  toCaseTables := .ascii
  space := CaseTables.ascii_space
  dot := by
    intro c h
    by_cases hc : c.val ≥ 'A'.val ∧ c.val ≤ 'Z'.val
    · have h₁ : 65 ≤ c.val.toNat := hc.1
      have h₂ : c.val.toNat ≤ 90 := hc.2
      have hlow : ('.' : Char).toNat = (c.val.toNat + 32) % 2 ^ 32 := h ▸ congrArg Char.toNat (dif_pos hc)
      rw [show ('.' : Char).toNat = 46 from rfl] at hlow
      omega
    · exact (dif_neg hc : CaseTables.ascii.toLower c = c).symm.trans h

end Crm.CustomDomain
