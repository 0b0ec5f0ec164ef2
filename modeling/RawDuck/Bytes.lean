import Mathlib.Data.List.Basic

/-!
# RawDuck.Bytes

Byte strings, as the source's `std::string` holds them, and the two string
comparisons the extension mixes: exact equality (JSON keys, `unordered_map`)
and ASCII case-insensitive equality (column names, `case_insensitive_map_t`).

A C++ `char` is a signed byte, so a byte from 128 upwards is a negative
`char`; `isNegativeChar` is where that matters.
-/

namespace RawDuck

/-- A C++ `string`: its bytes. -/
abbrev Bytes := List UInt8

/-- The bytes of a string literal of the source. -/
def bytes (s : String) : Bytes := s.toUTF8.data.toList

/-- `StringUtil::CharacterToLower`: ASCII upper-case letters only. -/
def characterToLower (c : UInt8) : UInt8 :=
  if 65 ≤ c ∧ c ≤ 90 then c + 32 else c

/-- `StringUtil::Lower`. -/
def lower (s : Bytes) : Bytes := s.map characterToLower

/-- The `char` with this byte is negative (signed 8-bit `char`). -/
def isNegativeChar (c : UInt8) : Bool := 128 ≤ c

/-- Membership in a `case_insensitive_set_t`. -/
def ciContains (names : List Bytes) (name : Bytes) : Bool :=
  names.any fun n => lower n == lower name

theorem ciContains_iff {names : List Bytes} {name : Bytes} :
    ciContains names name = true ↔ ∃ n ∈ names, lower n = lower name := by
  simp [ciContains]

/-- Lower-casing never makes a byte a negative `char` or stops it being one. -/
theorem isNegativeChar_characterToLower (c : UInt8) :
    isNegativeChar (characterToLower c) = isNegativeChar c := by
  unfold isNegativeChar characterToLower
  split
  · next h =>
    have h1 := UInt8.le_iff_toNat_le.mp h.1
    have h2 := UInt8.le_iff_toNat_le.mp h.2
    simp only [UInt8.le_iff_toNat_le, UInt8.toNat_add, UInt8.reduceToNat] at h1 h2 ⊢
    simp only [decide_eq_decide]
    omega
  · rfl

theorem characterToLower_idem (c : UInt8) :
    characterToLower (characterToLower c) = characterToLower c := by
  unfold characterToLower
  split
  · next h =>
    have h1 := UInt8.le_iff_toNat_le.mp h.1
    have h2 := UInt8.le_iff_toNat_le.mp h.2
    rw [if_neg]
    simp only [UInt8.le_iff_toNat_le, UInt8.toNat_add, UInt8.reduceToNat] at h1 h2 ⊢
    omega
  · rfl

@[simp] theorem lower_lower (s : Bytes) : lower (lower s) = lower s := by
  simp [lower, characterToLower_idem]

end RawDuck
