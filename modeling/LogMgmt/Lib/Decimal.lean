import Mathlib.Data.List.Basic
import Mathlib.Tactic.Ring

/-!
# Decimal numbers of a fixed width

Texts of exactly `k` digits and the reader that takes them from the front of a text, over any alphabet that has digits.
-/

namespace Decimal

/-- The characters that stand for the digits. -/
structure Numerals (γ : Type) where
  digit : Nat → γ
  value : γ → Option Nat
  value_digit : ∀ d < 10, value (digit d) = some d
  digit_value : ∀ c d, value c = some d → d < 10 ∧ digit d = c

section
variable {γ : Type} (ν : Numerals γ)

/-- The last `k` digits of a number. -/
def fixed : Nat → Nat → List γ
  | 0, _ => []
  | k + 1, n => ν.digit (n / 10 ^ k % 10) :: fixed k n

/-- Reads exactly `k` more digits of a number that begins with `acc`. -/
def take : Nat → Nat → List γ → Option (Nat × List γ)
  | 0, acc, s => some (acc, s)
  | _ + 1, _, [] => none
  | k + 1, acc, c :: s => (ν.value c).bind fun d => take k (10 * acc + d) s

variable {ν} {k n m acc : Nat} {s s' : List γ}

@[simp] theorem length_fixed : (fixed ν k n).length = k := by
  induction k with
  | zero => rfl
  | succ k ih => rw [fixed, List.length_cons, ih]

theorem mem_fixed {c : γ} (hc : c ∈ fixed ν k n) : ∃ d < 10, c = ν.digit d := by
  induction k with
  | zero => cases hc
  | succ k ih =>
    rcases List.mem_cons.1 hc with rfl | hc
    · exact ⟨_, Nat.mod_lt _ (by decide), rfl⟩
    · exact ih hc

/-- Higher digits do not show. -/
theorem fixed_add (k n d : Nat) : fixed ν k (d * 10 ^ k + n) = fixed ν k n := by
  induction k generalizing d with
  | zero => rfl
  | succ k ih =>
    have hpow : d * 10 ^ (k + 1) = d * 10 * 10 ^ k := by ring
    have hdigit : (d * 10 * 10 ^ k + n) / 10 ^ k % 10 = n / 10 ^ k % 10 := by
      rw [Nat.add_comm, Nat.add_mul_div_right _ _ (Nat.pow_pos (by decide))]
      omega
    rw [fixed, fixed, hpow, hdigit, ih]

theorem fixed_cons {d : Nat} (hd : d < 10) (hn : n < 10 ^ k) :
    fixed ν (k + 1) (d * 10 ^ k + n) = ν.digit d :: fixed ν k n := by
  have hdigit : (d * 10 ^ k + n) / 10 ^ k = d := by
    rw [Nat.add_comm, Nat.add_mul_div_right _ _ (Nat.pow_pos (by decide)), Nat.div_eq_of_lt hn, Nat.zero_add]
  rw [fixed, hdigit, Nat.mod_eq_of_lt hd, fixed_add]

theorem take_eq_some : take ν k acc s = some (m, s') ↔ ∃ n < 10 ^ k, m = acc * 10 ^ k + n ∧ s = fixed ν k n ++ s' := by
  induction k generalizing acc s with
  | zero => simp [take, fixed, eq_comm]
  | succ k ih =>
    cases s with
    | nil => simp [take, fixed]
    | cons c s =>
      rw [take, Option.bind_eq_some_iff]
      constructor
      · rintro ⟨d, hd, htake⟩
        obtain ⟨n, hn, rfl, rfl⟩ := ih.1 htake
        obtain ⟨hlt, rfl⟩ := ν.digit_value c d hd
        refine ⟨d * 10 ^ k + n, ?_, by ring, ?_⟩
        · calc d * 10 ^ k + n < d * 10 ^ k + 10 ^ k := Nat.add_lt_add_left hn _
            _ = (d + 1) * 10 ^ k := by ring
            _ ≤ 10 * 10 ^ k := Nat.mul_le_mul_right _ hlt
            _ = 10 ^ (k + 1) := by ring
        · rw [fixed_cons hlt hn]
          rfl
      · rintro ⟨n, hn, rfl, htext⟩
        obtain ⟨d, r, hd, hr, rfl⟩ : ∃ d r, d < 10 ∧ r < 10 ^ k ∧ n = d * 10 ^ k + r :=
          ⟨n / 10 ^ k, n % 10 ^ k, Nat.div_lt_of_lt_mul (by rwa [Nat.mul_comm, ← Nat.pow_succ']),
            Nat.mod_lt _ (Nat.pow_pos (by decide)), by rw [Nat.mul_comm, Nat.div_add_mod]⟩
        rw [fixed_cons hd hr, List.cons_append, List.cons.injEq] at htext
        obtain ⟨rfl, rfl⟩ := htext
        exact ⟨d, ν.value_digit d hd, ih.2 ⟨r, hr, by ring, rfl⟩⟩

/-- A text is read back. -/
theorem take_fixed (hn : n < 10 ^ k) (s : List γ) : take ν k 0 (fixed ν k n ++ s) = some (n, s) :=
  take_eq_some.2 ⟨n, hn, by rw [Nat.zero_mul, Nat.zero_add], rfl⟩

theorem take_fixed_nil (hn : n < 10 ^ k) : take ν k 0 (fixed ν k n) = some (n, []) := by
  rw [← List.append_nil (fixed ν k n), take_fixed hn]

theorem take_zero_eq_some : take ν k 0 s = some (n, s') ↔ n < 10 ^ k ∧ s = fixed ν k n ++ s' := by
  rw [take_eq_some]
  constructor
  · rintro ⟨n', hn', rfl, rfl⟩
    rw [Nat.zero_mul, Nat.zero_add]
    exact ⟨hn', rfl⟩
  · rintro ⟨hn, rfl⟩
    exact ⟨n, hn, by rw [Nat.zero_mul, Nat.zero_add], rfl⟩

/-- A reader that begins with a number. -/
theorem bind_take_eq_some {β : Type} {f : Nat × List γ → Option β} {b : β} :
    (take ν k 0 s).bind f = some b ↔ ∃ n < 10 ^ k, ∃ s', s = fixed ν k n ++ s' ∧ f (n, s') = some b := by
  rw [Option.bind_eq_some_iff]
  constructor
  · rintro ⟨⟨n, s'⟩, htake, hf⟩
    obtain ⟨hn, rfl⟩ := take_zero_eq_some.1 htake
    exact ⟨n, hn, s', rfl, hf⟩
  · rintro ⟨n, hn, s', rfl, hf⟩
    exact ⟨_, take_fixed hn s', hf⟩

end

end Decimal
