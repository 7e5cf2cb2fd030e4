import ContractAudit.Text.Basic
import ContractAudit.Text.Blank
import ContractAudit.Text.Digit
import Mathlib

namespace ContractAudit.Text

variable {c : Char} {digits rest : List Char}

theorem isDigit_iff (c : Char) : c.isDigit ↔ '0' ≤ c ∧ c ≤ '9' := by
  simp only [Char.isDigit, Bool.and_eq_true, decide_eq_true_eq]
  rfl

theorem digitValue?_of_isDigit (h : c.isDigit) : digitValue? c = some (c.toNat - '0'.toNat) :=
  if_pos ((isDigit_iff c).mp h)

theorem isAsciiDigit_eq_isDigit (c : Char) : isAsciiDigit c = c.isDigit := by
  by_cases h : c.isDigit
  · rw [isAsciiDigit, digitValue?_of_isDigit h, h]
    rfl
  · have hnone : digitValue? c = none := if_neg fun hc ↦ h ((isDigit_iff c).mpr hc)
    rw [isAsciiDigit, hnone, Bool.eq_false_iff.mpr h]
    rfl

theorem isBlank_of_isDigit (h : c.isDigit) : isBlank c = false := by
  have hc : 48 ≤ c.toNat ∧ c.toNat ≤ 57 := (isDigit_iff c).mp h
  simp only [isBlank, Bool.or_eq_false_iff, Bool.and_eq_false_iff, decide_eq_false_iff_not,
    beq_eq_false_iff_ne]
  omega

theorem isDecimalDigit_of_isDigit (h : c.isDigit) : isDecimalDigit c := by
  have hc : 48 ≤ c.toNat ∧ c.toNat ≤ 57 := (isDigit_iff c).mp h
  simp only [isDecimalDigit, decimalZeros, List.any_cons, Bool.or_eq_true, Bool.and_eq_true,
    decide_eq_true_eq]
  exact .inl (by omega)

def blankCodes : List Nat :=
  [0x09, 0x0A, 0x0B, 0x0C, 0x0D, 0x20, 0x85, 0xA0, 0x1680, 0x2000, 0x2001, 0x2002, 0x2003, 0x2004,
    0x2005, 0x2006, 0x2007, 0x2008, 0x2009, 0x200A, 0x2028, 0x2029, 0x202F, 0x205F, 0x3000]

theorem toNat_mem_blankCodes (h : isBlank c) : c.toNat ∈ blankCodes := by
  simp only [isBlank, Bool.or_eq_true, Bool.and_eq_true, decide_eq_true_eq, beq_iff_eq] at h
  simp only [blankCodes, List.mem_cons, List.not_mem_nil, or_false]
  omega

theorem isDecimalDigit_of_isBlank (h : isBlank c) : isDecimalDigit c = false := by
  have hcodes : ∀ n ∈ blankCodes,
      decimalZeros.any (fun first ↦ first ≤ n && n < first + 10) = false := by
    decide
  exact hcodes c.toNat (toNat_mem_blankCodes h)

theorem continueNat?_eq (h : ∀ c ∈ digits, c.isDigit) (value : Nat) :
    continueNat? value digits = some (Nat.ofDigitChars 10 digits value) := by
  induction digits generalizing value with
  | nil => rfl
  | cons c digits ih =>
    have hc := digitValue?_of_isDigit (h c List.mem_cons_self)
    have hdigits := ih fun d hd ↦ h d (List.mem_cons_of_mem _ hd)
    rw [continueNat?, hc, Nat.ofDigitChars_cons]
    exact hdigits _

theorem readNat?_eq (hne : digits ≠ []) (h : ∀ c ∈ digits, c.isDigit) :
    readNat? digits = some (Nat.ofDigitChars 10 digits 0) := by
  cases digits with
  | nil => exact absurd rfl hne
  | cons c digits => exact continueNat?_eq h 0

/-- A run of digits ends where the limit is reached or where no digit follows. -/
theorem takeDigits_append {limit : Nat} (h : ∀ c ∈ digits, c.isDigit)
    (hend : digits.length = limit ∨
      digits.length ≤ limit ∧ ∀ c, rest.head? = some c → c.isDigit = false) :
    takeDigits limit (digits ++ rest) = (digits, rest) := by
  induction digits generalizing limit with
  | nil =>
    cases limit with
    | zero => simp [takeDigits]
    | succ limit =>
      have hrest := (hend.resolve_left (by simp)).2
      cases rest with
      | nil => simp [takeDigits]
      | cons c rest => simp [takeDigits, isAsciiDigit_eq_isDigit, hrest c rfl]
  | cons c digits ih =>
    cases limit with
    | zero => simp at hend
    | succ limit =>
      have hc : isAsciiDigit c := (isAsciiDigit_eq_isDigit c).trans (h c List.mem_cons_self)
      have htake := ih (fun d hd ↦ h d (List.mem_cons_of_mem _ hd)) (by simpa using hend)
      rw [List.cons_append, takeDigits, if_pos hc, htake]

theorem trimStart_of_isDigit (hne : digits ≠ []) (h : ∀ c ∈ digits, c.isDigit) :
    trimStart (digits ++ rest) = digits ++ rest := by
  cases digits with
  | nil => exact absurd rfl hne
  | cons c digits =>
    have hc := isBlank_of_isDigit (h c List.mem_cons_self)
    simp [trimStart, hc]

theorem toList_padZeros (width n : Nat) : (padZeros width n).toList =
    List.replicate (width - (Nat.toDigits 10 n).length) '0' ++ Nat.toDigits 10 n := by
  rw [padZeros, String.toList_ofList]

theorem isDigit_of_mem_padZeros {width n : Nat} (h : c ∈ (padZeros width n).toList) :
    c.isDigit := by
  rw [toList_padZeros] at h
  rcases List.mem_append.mp h with h | h
  · rw [List.eq_of_mem_replicate h]
    rfl
  · exact Nat.isDigit_of_mem_toDigits (by decide) (by decide) h

theorem padZeros_ne_nil (width n : Nat) : (padZeros width n).toList ≠ [] := by
  rw [toList_padZeros]
  exact List.append_ne_nil_of_right_ne_nil _ Nat.toDigits_ne_nil

theorem length_padZeros {width n : Nat} (hw : 0 < width) (hn : n < 10 ^ width) :
    (padZeros width n).toList.length = width := by
  have hlength := (Nat.length_toDigits_le_iff (by decide) hw).mpr hn
  rw [toList_padZeros, List.length_append, List.length_replicate]
  omega

theorem readNat?_padZeros (width n : Nat) : readNat? (padZeros width n).toList = some n := by
  rw [readNat?_eq (padZeros_ne_nil width n) fun c hc ↦ isDigit_of_mem_padZeros hc,
    toList_padZeros, Nat.ofDigitChars_append, Nat.ofDigitChars_replicate_zero, Nat.mul_zero,
    Nat.ofDigitChars_ten_toDigits]

end ContractAudit.Text
