import Mathlib.Data.List.Basic
import Mathlib.Tactic.NormNum.Basic

/-!
# UTF-8 with replacement

A decoder that never fails: where the bytes so far cannot go on as the encoding of a character, they are read as
U+FFFD, and the byte that did not fit is looked at anew. It is a machine that reads one byte at a time.
-/

namespace Utf8

abbrev Byte := UInt8

abbrev CodePoint := Fin 0x110000

/-- The beginning of an encoded character: its bits, the range of the next byte and how many follow that one. -/
structure Partial where
  code : Nat
  low : Nat
  high : Nat
  owed : Nat
deriving DecidableEq

/-- The beginning that is a first byte. -/
def lead (b : Nat) : Option Partial :=
  if b < 0xC2 then none
  else if b < 0xE0 then some ⟨b - 0xC0, 0x80, 0xBF, 0⟩
  else if b = 0xE0 then some ⟨0, 0xA0, 0xBF, 1⟩
  else if b = 0xED then some ⟨0xD, 0x80, 0x9F, 1⟩
  else if b < 0xF0 then some ⟨b - 0xE0, 0x80, 0xBF, 1⟩
  else if b = 0xF0 then some ⟨0, 0x90, 0xBF, 2⟩
  else if b < 0xF4 then some ⟨b - 0xF0, 0x80, 0xBF, 2⟩
  else if b = 0xF4 then some ⟨4, 0x80, 0x8F, 2⟩
  else none

/-- U+FFFD -/
def replacement : CodePoint := 0xFFFD

def character (code : Nat) : CodePoint := Fin.ofNat 0x110000 code

/-- The first byte of a character: what is read, and what is left of it. -/
def first (b : Byte) : List CodePoint × Option Partial :=
  if b.toNat < 0x80 then ([character b.toNat], none)
  else match lead b.toNat with
    | some c => ([], some c)
    | none => ([replacement], none)

/-- A byte after the beginning. -/
def Partial.step (c : Partial) (b : Byte) : List CodePoint × Option Partial :=
  if c.low ≤ b.toNat ∧ b.toNat ≤ c.high then
    match c.owed with
    | 0 => ([character (c.code * 64 + (b.toNat - 0x80))], none)
    | n + 1 => ([], some ⟨c.code * 64 + (b.toNat - 0x80), 0x80, 0xBF, n⟩)
  else (replacement :: (first b).1, (first b).2)

def step : Option Partial → Byte → List CodePoint × Option Partial
  | none, b => first b
  | some c, b => c.step b

/-- What is read at the end. -/
def flush : Option Partial → List CodePoint
  | none => []
  | some _ => [replacement]

def decodeFrom (c : Option Partial) : List Byte → List CodePoint
  | [] => flush c
  | b :: bs => (step c b).1 ++ decodeFrom (step c b).2 bs

/-- `bytes.decode("utf-8", errors="replace")` -/
def decode (bs : List Byte) : List CodePoint := decodeFrom none bs

/-- Whatever bytes follow, the character is beyond ASCII and a code point. -/
structure Partial.Valid (c : Partial) : Prop where
  low : 0x80 ≤ c.low
  high : c.high ≤ 0xBF
  least : 0x80 ≤ (c.code * 64 + (c.low - 0x80)) * 64 ^ c.owed
  most : (c.code * 64 + (c.high - 0x80) + 1) * 64 ^ c.owed ≤ 0x110000

section
variable {c : Partial} {o : Option Partial} {b : Byte} {bs bs' : List Byte} {a : CodePoint}

theorem lead_valid {n : Nat} (h : lead n = some c) : c.Valid := by
  unfold lead at h
  split_ifs at h
  all_goals
    rw [Option.some.injEq] at h
    rw [← h]
    exact ⟨by simp, by simp, by dsimp only; omega, by dsimp only; omega⟩

theorem first_ascii (hb : b.toNat < 0x80) : first b = ([character b.toNat], none) := if_pos hb

theorem first_valid (h : (first b).2 = some c) : c.Valid := by
  unfold first at h
  split at h
  · cases h
  split at h
  · rename_i c' hlead
    exact lead_valid (hlead.trans h)
  · cases h

theorem step_valid (ho : ∀ c ∈ o, c.Valid) (h : (step o b).2 = some c) : c.Valid := by
  cases o with
  | none => exact first_valid h
  | some c₀ =>
    have hv := ho c₀ rfl
    simp only [step, Partial.step] at h
    split at h
    · rename_i hrange
      split at h
      · cases h
      · rename_i n howed
        rw [Option.some.injEq] at h
        have hge := hv.least
        have hle := hv.most
        rw [howed, Nat.pow_succ'] at hge hle
        have hlow := hv.low
        have hhigh := hv.high
        have hfrom : c₀.code * 64 + (c₀.low - 0x80) ≤ c₀.code * 64 + (b.toNat - 0x80) := by omega
        have hto : c₀.code * 64 + (b.toNat - 0x80) + 1 ≤ c₀.code * 64 + (c₀.high - 0x80) + 1 := by omega
        rw [← h]
        revert hfrom hto
        generalize c₀.code * 64 + (b.toNat - 0x80) = code
        intro hfrom hto
        refine ⟨Nat.le_refl _, Nat.le_refl _, ?_, ?_⟩
        · calc 0x80 ≤ (c₀.code * 64 + (c₀.low - 0x80)) * (64 * 64 ^ n) := hge
            _ ≤ code * (64 * 64 ^ n) := Nat.mul_le_mul_right _ hfrom
            _ = (code * 64 + (0x80 - 0x80)) * 64 ^ n := (Nat.mul_assoc _ _ _).symm
        · have hstep : (code * 64 + 63 + 1) * 64 ^ n ≤ (c₀.code * 64 + (c₀.high - 0x80) + 1) * (64 * 64 ^ n) := by
            calc (code * 64 + 63 + 1) * 64 ^ n = (code + 1) * (64 * 64 ^ n) := by
                  rw [← Nat.mul_assoc, Nat.add_mul code 1 64]
              _ ≤ (c₀.code * 64 + (c₀.high - 0x80) + 1) * (64 * 64 ^ n) := Nat.mul_le_mul_right _ hto
          dsimp only
          exact Nat.le_trans hstep hle
    · exact first_valid h

theorem step_ascii (ho : ∀ c ∈ o, c.Valid) (hb : b.toNat < 0x80) :
    step o b = (flush o ++ [character b.toNat], none) := by
  cases o with
  | none => exact first_ascii hb
  | some c =>
    have hlow := (ho c rfl).low
    show c.step b = _
    rw [Partial.step, if_neg (by omega), first_ascii hb]
    rfl

theorem decodeFrom_ascii (ho : ∀ c ∈ o, c.Valid) (hb : b.toNat < 0x80) (bs : List Byte) :
    decodeFrom o (bs ++ b :: bs') = decodeFrom o bs ++ character b.toNat :: decode bs' := by
  induction bs generalizing o with
  | nil =>
    show (step o b).1 ++ decodeFrom (step o b).2 bs' = _
    rw [step_ascii ho hb, List.append_assoc]
    rfl
  | cons b' bs ih =>
    rw [List.cons_append, decodeFrom, decodeFrom, ih fun c hc => step_valid ho hc, List.append_assoc]

/-- An ASCII byte is read as it stands, and what precedes it as if nothing followed. -/
theorem decode_ascii (hb : b.toNat < 0x80) (bs bs' : List Byte) :
    decode (bs ++ b :: bs') = decode bs ++ character b.toNat :: decode bs' :=
  decodeFrom_ascii (by simp) hb bs

theorem decodeFrom_some_ne_nil (c : Partial) (bs : List Byte) : decodeFrom (some c) bs ≠ [] := by
  induction bs generalizing c with
  | nil => exact List.cons_ne_nil _ _
  | cons b bs ih =>
    show (c.step b).1 ++ decodeFrom (c.step b).2 bs ≠ []
    unfold Partial.step
    split
    · split
      · simp
      · exact ih _
    · simp

theorem decode_eq_nil : decode bs = [] ↔ bs = [] := by
  cases bs with
  | nil => simp [decode, decodeFrom, flush]
  | cons b bs =>
    refine iff_of_false ?_ (List.cons_ne_nil _ _)
    show (first b).1 ++ decodeFrom (first b).2 bs ≠ []
    unfold first
    split
    · simp
    split
    · exact decodeFrom_some_ne_nil _ _
    · simp

theorem first_chars (ha : a ∈ (first b).1) : a.val = b.toNat ∨ 0x80 ≤ a.val := by
  unfold first at ha
  split at ha
  · rename_i hb
    rw [List.mem_singleton.1 ha]
    exact .inl (Nat.mod_eq_of_lt (by omega))
  split at ha
  · cases ha
  · rw [List.mem_singleton.1 ha]
    exact .inr (by decide)

theorem step_chars (ho : ∀ c ∈ o, c.Valid) (ha : a ∈ (step o b).1) : a.val = b.toNat ∨ 0x80 ≤ a.val := by
  cases o with
  | none => exact first_chars ha
  | some c =>
    have hv := ho c rfl
    simp only [step, Partial.step] at ha
    split at ha
    · rename_i hrange
      split at ha
      · rename_i howed
        have hge := hv.least
        have hle := hv.most
        have hlow := hv.low
        rw [howed, Nat.pow_zero, Nat.mul_one] at hge hle
        rw [List.mem_singleton.1 ha]
        refine .inr ?_
        show 0x80 ≤ (c.code * 64 + (b.toNat - 0x80)) % 0x110000
        rw [Nat.mod_eq_of_lt] <;> omega
      · cases ha
    · rcases List.mem_cons.1 ha with rfl | ha
      · exact .inr (by decide)
      · exact first_chars ha

theorem decodeFrom_chars (ho : ∀ c ∈ o, c.Valid) (ha : a ∈ decodeFrom o bs) :
    0x80 ≤ a.val ∨ ∃ b ∈ bs, a.val = b.toNat := by
  induction bs generalizing o with
  | nil =>
    cases o with
    | none => cases ha
    | some c =>
      rw [List.mem_singleton.1 ha]
      exact .inl (by decide)
  | cons b bs ih =>
    rw [decodeFrom, List.mem_append] at ha
    rcases ha with ha | ha
    · rcases step_chars ho ha with h | h
      · exact .inr ⟨b, List.mem_cons_self, h⟩
      · exact .inl h
    · exact (ih (fun c hc => step_valid ho hc) ha).imp_right fun ⟨b', hb', h⟩ => ⟨b', List.mem_cons_of_mem _ hb', h⟩

/-- An ASCII character is read only where its byte is. -/
theorem decode_chars (ha : a ∈ decode bs) : 0x80 ≤ a.val ∨ ∃ b ∈ bs, a.val = b.toNat :=
  decodeFrom_chars (by simp) ha

/-! ### Encoding -/

/-- No surrogate. -/
def Scalar (a : CodePoint) : Prop := a.val < 0xD800 ∨ 0xE000 ≤ a.val

/-- `a.encode("utf-8")` of a character that is no surrogate -/
def encode (a : CodePoint) : List Byte :=
  let n := a.val
  (if n < 0x80 then [n]
  else if n < 0x800 then [0xC0 + n / 64, 0x80 + n % 64]
  else if n < 0x10000 then [0xE0 + n / 4096, 0x80 + n / 64 % 64, 0x80 + n % 64]
  else [0xF0 + n / 262144, 0x80 + n / 4096 % 64, 0x80 + n / 64 % 64, 0x80 + n % 64]).map UInt8.ofNat

theorem decode_lead {n : Nat} (hlead : lead n = some c) (hn : n < 256) :
    decode (UInt8.ofNat n :: bs) = decodeFrom (some c) bs := by
  have hbyte : (UInt8.ofNat n).toNat = n := UInt8.toNat_ofNat_of_lt hn
  have hfirst : first (UInt8.ofNat n) = ([], some c) := by
    unfold first
    rw [hbyte, hlead, if_neg]
    intro hascii
    rw [lead, if_pos (by omega)] at hlead
    cases hlead
  rw [decode, decodeFrom, show step none (UInt8.ofNat n) = _ from hfirst]
  rfl

theorem decodeFrom_last {n : Nat} (hn : n < 256) (hrange : c.low ≤ n ∧ n ≤ c.high) (howed : c.owed = 0) :
    decodeFrom (some c) (UInt8.ofNat n :: bs) = character (c.code * 64 + (n - 0x80)) :: decode bs := by
  have hbyte : (UInt8.ofNat n).toNat = n := UInt8.toNat_ofNat_of_lt hn
  have hstep : c.step (UInt8.ofNat n) = ([character (c.code * 64 + (n - 0x80))], none) := by
    rw [Partial.step, hbyte, if_pos hrange, howed]
  rw [decodeFrom, show step (some c) (UInt8.ofNat n) = _ from hstep]
  rfl

theorem decodeFrom_more {n k : Nat} (hn : n < 256) (hrange : c.low ≤ n ∧ n ≤ c.high) (howed : c.owed = k + 1) :
    decodeFrom (some c) (UInt8.ofNat n :: bs) = decodeFrom (some ⟨c.code * 64 + (n - 0x80), 0x80, 0xBF, k⟩) bs := by
  have hbyte : (UInt8.ofNat n).toNat = n := UInt8.toNat_ofNat_of_lt hn
  have hstep : c.step (UInt8.ofNat n) = ([], some ⟨c.code * 64 + (n - 0x80), 0x80, 0xBF, k⟩) := by
    rw [Partial.step, hbyte, if_pos hrange, howed]
  rw [decodeFrom, show step (some c) (UInt8.ofNat n) = _ from hstep]
  rfl

theorem lead_two {n : Nat} (h : 0x80 ≤ n) (h' : n < 0x800) : lead (0xC0 + n / 64) = some ⟨n / 64, 0x80, 0xBF, 0⟩ := by
  rw [lead, if_neg (by omega), if_pos (by omega), Nat.add_sub_cancel_left]

/-- The second byte of three is in its range, for no surrogate is encoded. -/
theorem lead_three {n : Nat} (h : 0x800 ≤ n) (h' : n < 0x10000) (hscalar : n < 0xD800 ∨ 0xE000 ≤ n) :
    ∃ low high, lead (0xE0 + n / 4096) = some ⟨n / 4096, low, high, 1⟩ ∧ low ≤ 0x80 + n / 64 % 64 ∧
      0x80 + n / 64 % 64 ≤ high := by
  rw [lead, if_neg (by omega), if_neg (by omega)]
  split_ifs
  · exact ⟨0xA0, 0xBF, by rw [show n / 4096 = 0 by omega], by omega, by omega⟩
  · exact ⟨0x80, 0x9F, by rw [show n / 4096 = 0xD by omega], by omega, by omega⟩
  · exact ⟨0x80, 0xBF, by rw [Nat.add_sub_cancel_left], by omega, by omega⟩
  all_goals omega

theorem lead_four {n : Nat} (h : 0x10000 ≤ n) (h' : n < 0x110000) :
    ∃ low high, lead (0xF0 + n / 262144) = some ⟨n / 262144, low, high, 2⟩ ∧ low ≤ 0x80 + n / 4096 % 64 ∧
      0x80 + n / 4096 % 64 ≤ high := by
  rw [lead, if_neg (by omega), if_neg (by omega), if_neg (by omega), if_neg (by omega), if_neg (by omega)]
  split_ifs
  · exact ⟨0x90, 0xBF, by rw [show n / 262144 = 0 by omega], by omega, by omega⟩
  · exact ⟨0x80, 0xBF, by rw [Nat.add_sub_cancel_left], by omega, by omega⟩
  · exact ⟨0x80, 0x8F, by rw [show n / 262144 = 4 by omega], by omega, by omega⟩
  all_goals omega

theorem character_eq {n : Nat} (h : n = a.val) : character n = a := by
  refine Fin.ext ?_
  show n % 0x110000 = a.val
  rw [h, Nat.mod_eq_of_lt a.isLt]

/-- A character is decoded from its own bytes, whatever follows. -/
theorem decode_encode (h : Scalar a) (bs : List Byte) : decode (encode a ++ bs) = a :: decode bs := by
  have hlt := a.isLt
  unfold encode
  dsimp only
  split_ifs with h₁ h₂ h₃
  · have hbyte : (UInt8.ofNat a.val).toNat = a.val := UInt8.toNat_ofNat_of_lt (show a.val < 256 by omega)
    have hascii := decode_ascii (b := UInt8.ofNat a.val) (by rw [hbyte]; exact h₁) [] bs
    rw [hbyte, character_eq rfl] at hascii
    exact hascii
  · rw [List.map_cons, List.map_cons, List.map_nil, List.cons_append, decode_lead (lead_two (by omega) h₂) (by omega),
      List.cons_append, decodeFrom_last (by omega) ⟨by dsimp only; omega, by dsimp only; omega⟩ rfl, List.nil_append]
    exact congrArg (· :: _) (character_eq (by dsimp only; omega))
  · obtain ⟨low, high, hlead, hlow, hhigh⟩ := lead_three (n := a.val) (by omega) h₃ h
    rw [List.map_cons, List.map_cons, List.map_cons, List.map_nil, List.cons_append, decode_lead hlead (by omega),
      List.cons_append, decodeFrom_more (by omega) ⟨hlow, hhigh⟩ rfl, List.cons_append,
      decodeFrom_last (by omega) ⟨by dsimp only; omega, by dsimp only; omega⟩ rfl, List.nil_append]
    exact congrArg (· :: _) (character_eq (by dsimp only; omega))
  · obtain ⟨low, high, hlead, hlow, hhigh⟩ := lead_four (n := a.val) (by omega) (by omega)
    rw [List.map_cons, List.map_cons, List.map_cons, List.map_cons, List.map_nil, List.cons_append,
      decode_lead hlead (by omega), List.cons_append, decodeFrom_more (by omega) ⟨hlow, hhigh⟩ rfl, List.cons_append,
      decodeFrom_more (by omega) ⟨by dsimp only; omega, by dsimp only; omega⟩ rfl, List.cons_append,
      decodeFrom_last (by omega) ⟨by dsimp only; omega, by dsimp only; omega⟩ rfl, List.nil_append]
    exact congrArg (· :: _) (character_eq (by dsimp only; omega))

theorem decode_flatMap_encode {l : List CodePoint} (h : ∀ a ∈ l, Scalar a) : decode (l.flatMap encode) = l := by
  induction l with
  | nil => rfl
  | cons a l ih =>
    rw [List.flatMap_cons, decode_encode (h a List.mem_cons_self), ih fun b hb => h b (List.mem_cons_of_mem a hb)]

end

example : decode [0x61, 0xC3, 0xA9, 0xE2, 0x82, 0x0A, 0xF0, 0x9F, 0x98, 0x80, 0xC0] =
    [0x61, 0xE9, 0xFFFD, 0x0A, 0x1F600, 0xFFFD] := by decide

end Utf8
