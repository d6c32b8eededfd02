import LogMgmt.Timeutil
import LogMgmt.Lib.Decimal

/-!
# Digits

The characters of a number, and what the Unicode database says of them.
-/

namespace LogMgmt

/-- The value of an ASCII digit. -/
def asciiValue (c : CodePoint) : Option Nat := if between '0' '9' c then some (c.val - 48) else none

/-- ASCII is as it should be; what other characters are does not matter here. -/
structure Unicode.Ascii (u : Unicode) : Prop where
  decimal : ∀ c : CodePoint, c.val < 0x80 → u.decimal c = asciiValue c

def digit (n : Nat) : CodePoint := chr (Nat.digitChar n)

section
variable {u : Unicode}

theorem digits_of_lt {n : Nat} (hn : n < 10) : digits n = [digit n] := by
  rw [digits, Nat.toDigits_of_lt_base hn]
  rfl

theorem twoDigits_eq {n : Nat} (hn : n < 100) : twoDigits n = [digit (n / 10), digit (n % 10)] := by
  rw [twoDigits, digits_of_lt (by omega), digits_of_lt (by omega)]
  rfl

/-- A digit is in the range of two digits. -/
theorem between_iff (lo hi : Nat) {n : Nat} (hn : n < 10) (hlo : lo < 10 := by decide) (hhi : hi < 10 := by decide) :
    between (Nat.digitChar lo) (Nat.digitChar hi) (digit n) ↔ lo ≤ n ∧ n ≤ hi := by
  have hall : ∀ lo < 10, ∀ hi < 10, ∀ n < 10,
      between (Nat.digitChar lo) (Nat.digitChar hi) (digit n) = decide (lo ≤ n ∧ n ≤ hi) := by decide
  rw [hall lo hlo hi hhi n hn, decide_eq_true_eq]

theorem Unicode.Ascii.decimal_digit (hu : u.Ascii) {n : Nat} (hn : n < 10) : u.decimal (digit n) = some n := by
  have hall : ∀ n < 10, (digit n).val < 0x80 ∧ between '0' '9' (digit n) ∧ (digit n).val - 48 = n := by decide
  obtain ⟨hascii, hrange, hval⟩ := hall n hn
  rw [hu.decimal _ hascii, asciiValue, if_pos hrange, hval]

theorem Unicode.Ascii.isDigit_digit (hu : u.Ascii) {n : Nat} (hn : n < 10) : u.isDigit (digit n) := by
  rw [Unicode.isDigit, hu.decimal_digit hn]
  rfl

theorem Unicode.Ascii.int_twoDigits (hu : u.Ascii) {n : Nat} (hn : n < 100) : u.int (twoDigits n) = n := by
  rw [twoDigits_eq hn, Unicode.int]
  simp only [List.filterMap_cons, hu.decimal_digit (show n / 10 < 10 by omega),
    hu.decimal_digit (show n % 10 < 10 by omega),
    List.filterMap_nil, List.foldl_cons, List.foldl_nil]
  omega

theorem digits_of_le {n : Nat} (hn : 10 ≤ n) : digits n = digits (n / 10) ++ [digit (n % 10)] := by
  rw [digits, Nat.toDigits_of_base_le (by decide) hn, List.map_append]
  rfl

theorem mem_digits {n : Nat} {c : CodePoint} (hc : c ∈ digits n) : ∃ k < 10, c = digit k := by
  induction n using Nat.strong_induction_on with
  | h n ih =>
    by_cases hn : n < 10
    · rw [digits_of_lt hn, List.mem_singleton] at hc
      exact ⟨n, hn, hc⟩
    · rw [digits_of_le (by omega), List.mem_append, List.mem_singleton] at hc
      rcases hc with hc | hc
      · exact ih (n / 10) (by omega) hc
      · exact ⟨n % 10, by omega, hc⟩

theorem Unicode.Ascii.int_digits (hu : u.Ascii) (n : Nat) : u.int (digits n) = n := by
  induction n using Nat.strong_induction_on with
  | h n ih =>
    by_cases hn : n < 10
    · rw [digits_of_lt hn, Unicode.int]
      simp [hu.decimal_digit hn]
    · have hprev := ih (n / 10) (by omega)
      rw [Unicode.int] at hprev
      rw [digits_of_le (by omega), Unicode.int, List.filterMap_append, List.foldl_append, hprev]
      simp only [List.filterMap_cons, hu.decimal_digit (show n % 10 < 10 by omega), List.filterMap_nil, List.foldl_cons,
        List.foldl_nil]
      omega

theorem length_digits_le_iff {n k : Nat} (hk : 0 < k) : (digits n).length ≤ k ↔ n < 10 ^ k := by
  rw [digits, List.length_map, Nat.length_toDigits_le_iff (by decide) hk]

theorem Unicode.Ascii.not_isDigit_space (hu : u.Ascii) : ¬u.isDigit (chr ' ') := by
  have hspace : (chr ' ').val < 0x80 ∧ ¬between '0' '9' (chr ' ') := by decide
  rw [Unicode.isDigit, hu.decimal _ hspace.1, asciiValue, if_neg hspace.2]
  decide

end

/-- The digits of ASCII. -/
def ascii : Decimal.Numerals CodePoint where
  digit := digit
  value := asciiValue
  value_digit := by decide
  digit_value c d h := by
    have hval : ∀ d < 10, (digit d).val = d + 48 := by decide
    unfold asciiValue at h
    split at h
    · rename_i hrange
      unfold between at hrange
      rw [Bool.and_eq_true, decide_eq_true_eq, decide_eq_true_eq] at hrange
      obtain ⟨hge, hle⟩ : 48 ≤ c.val ∧ c.val ≤ 57 := hrange
      obtain rfl := Option.some.inj h
      have hlt : c.val - 48 < 10 := by omega
      exact ⟨hlt, Fin.ext (by rw [hval _ hlt]; omega)⟩
    · cases h

end LogMgmt
