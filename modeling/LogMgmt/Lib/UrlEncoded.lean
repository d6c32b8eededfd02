import LogMgmt.Lib.Lines
import Mathlib.Data.List.Nodup
import Mathlib.Data.Fin.Basic

/-!
# Names and values in a query string

`application/x-www-form-urlencoded` at the level of bytes: a serializer that leaves only letters, digits and four marks
as they are, and a parser that takes any text. What is serialized is parsed back, whatever the bytes
(`parse_serialize`): no value can end its pair or begin another.
-/

namespace UrlEncoded

abbrev Byte := UInt8

def space : Byte := 0x20
def percent : Byte := 0x25
def ampersand : Byte := 0x26
def plus : Byte := 0x2B
def equals : Byte := 0x3D

/-- The bytes that stand for themselves: letters, digits and `*-._` -/
def plain (b : Byte) : Bool :=
  (0x30 ≤ b && b ≤ 0x39) || (0x41 ≤ b && b ≤ 0x5A) || (0x61 ≤ b && b ≤ 0x7A) || [0x2A, 0x2D, 0x2E, 0x5F].contains b

def hexDigit (n : Nat) : Byte := UInt8.ofNat (if n < 10 then 0x30 + n else 0x37 + n)

def hexValue (b : Byte) : Option Nat :=
  if 0x30 ≤ b && b ≤ 0x39 then some (b.toNat - 0x30)
  else if 0x41 ≤ b && b ≤ 0x46 then some (b.toNat - 0x37)
  else if 0x61 ≤ b && b ≤ 0x66 then some (b.toNat - 0x57)
  else none

/-! ### Names and values -/

def encodeByte (b : Byte) : List Byte :=
  if plain b then [b] else if b = space then [plus] else [percent, hexDigit (b.toNat / 16), hexDigit (b.toNat % 16)]

def encode (bs : List Byte) : List Byte := bs.flatMap encodeByte

/-- A percent sign that is not followed by two digits stands for itself. -/
def unquote : List Byte → List Byte
  | b :: h :: l :: bs =>
    if b = percent then
      match hexValue h, hexValue l with
      | some x, some y => UInt8.ofNat (16 * x + y) :: unquote bs
      | _, _ => b :: unquote (h :: l :: bs)
    else b :: unquote (h :: l :: bs)
  | bs => bs

def decode (bs : List Byte) : List Byte := unquote (bs.map fun b => if b = plus then space else b)

/-! ### Pairs -/

def pair (p : List Byte × List Byte) : List Byte := encode p.1 ++ equals :: encode p.2

def serialize : List (List Byte × List Byte) → List Byte
  | [] => []
  | [p] => pair p
  | p :: ps => pair p ++ ampersand :: serialize ps

/-- The pieces between the separators. -/
def split (sep : Byte) : List Byte → List (List Byte)
  | [] => [[]]
  | b :: bs => if b = sep then [] :: split sep bs else (split sep bs).modifyHead (b :: ·)

/-- The name and the value of a piece; without an equals sign it is a name. -/
def parsePair (bs : List Byte) : List Byte × List Byte :=
  match Lines.cut equals bs with
  | some (name, value) => (decode name, decode value)
  | none => (decode bs, [])

/-- The pairs of a query string, empty pieces left out. -/
def parse (bs : List Byte) : List (List Byte × List Byte) := ((split ampersand bs).filter (· ≠ [])).map parsePair

/-! ### Bytes -/

theorem plain_ne {b : Byte} (h : plain b) : b ≠ percent ∧ b ≠ plus ∧ b ≠ ampersand ∧ b ≠ equals := by
  refine ⟨?_, ?_, ?_, ?_⟩ <;>
  · rintro rfl
    revert h
    decide

theorem hexDigit_ne : ∀ n : Fin 16, hexDigit n ≠ plus ∧ hexDigit n ≠ ampersand ∧ hexDigit n ≠ equals := by decide

theorem hexValue_hexDigit : ∀ n : Fin 16, hexValue (hexDigit n) = some n.val := by decide

theorem mem_encodeByte {b x : Byte} (h : x ∈ encodeByte b) : x ≠ ampersand ∧ x ≠ equals := by
  have hhigh := hexDigit_ne ⟨b.toNat / 16, by have := b.toNat_lt; omega⟩
  have hlow := hexDigit_ne ⟨b.toNat % 16, by omega⟩
  unfold encodeByte at h
  split_ifs at h with hplain hspace
  · rw [List.mem_singleton.1 h]
    exact (plain_ne hplain).2.2
  · rw [List.mem_singleton.1 h]
    decide
  · simp only [List.mem_cons, List.not_mem_nil, or_false] at h
    rcases h with rfl | rfl | rfl
    · decide
    · exact hhigh.2
    · exact hlow.2

theorem mem_encode {bs : List Byte} {x : Byte} (h : x ∈ encode bs) : x ≠ ampersand ∧ x ≠ equals := by
  obtain ⟨b, -, hx⟩ := List.mem_flatMap.1 h
  exact mem_encodeByte hx

/-! ### Decoding -/

theorem unquote_cons {b : Byte} (h : b ≠ percent) (bs : List Byte) : unquote (b :: bs) = b :: unquote bs := by
  rcases bs with _ | ⟨c, _ | ⟨d, bs⟩⟩
  · rfl
  · rfl
  · rw [unquote, if_neg h]

theorem unquote_hex (b : Byte) (bs : List Byte) :
    unquote (percent :: hexDigit (b.toNat / 16) :: hexDigit (b.toNat % 16) :: bs) = b :: unquote bs := by
  have hhigh : hexValue (hexDigit (b.toNat / 16)) = some (b.toNat / 16) :=
    hexValue_hexDigit ⟨b.toNat / 16, by have := b.toNat_lt; omega⟩
  have hlow : hexValue (hexDigit (b.toNat % 16)) = some (b.toNat % 16) := hexValue_hexDigit ⟨b.toNat % 16, by omega⟩
  rw [unquote, if_pos rfl, hhigh, hlow]
  dsimp only
  rw [Nat.div_add_mod, UInt8.ofNat_toNat]

theorem decode_encodeByte (b : Byte) (bs : List Byte) : decode (encodeByte b ++ bs) = b :: decode bs := by
  have hhigh := hexDigit_ne ⟨b.toNat / 16, by have := b.toNat_lt; omega⟩
  have hlow := hexDigit_ne ⟨b.toNat % 16, by omega⟩
  unfold encodeByte decode
  split_ifs with hplain hspace
  · obtain ⟨hpercent, hplus, -⟩ := plain_ne hplain
    rw [List.cons_append, List.map_cons, if_neg hplus, unquote_cons hpercent]
    rfl
  · rw [List.cons_append, List.map_cons, if_pos rfl, hspace, unquote_cons (by decide)]
    rfl
  · rw [List.cons_append, List.cons_append, List.cons_append, List.map_cons, List.map_cons, List.map_cons,
      if_neg (by decide), if_neg hhigh.1, if_neg hlow.1, unquote_hex]
    rfl

theorem decode_encode (bs : List Byte) : decode (encode bs) = bs := by
  induction bs with
  | nil => rfl
  | cons b bs ih =>
    show decode (encodeByte b ++ encode bs) = _
    rw [decode_encodeByte, ih]

/-! ### Splitting -/

theorem split_of_notMem {sep : Byte} {l : List Byte} (h : sep ∉ l) : split sep l = [l] := by
  induction l with
  | nil => rfl
  | cons b l ih =>
    rw [List.mem_cons, not_or] at h
    rw [split, if_neg (Ne.symm h.1), ih h.2]
    rfl

theorem split_append {sep : Byte} {l : List Byte} (h : sep ∉ l) (rest : List Byte) :
    split sep (l ++ sep :: rest) = l :: split sep rest := by
  induction l with
  | nil => rw [List.nil_append, split, if_pos rfl]
  | cons b l ih =>
    rw [List.mem_cons, not_or] at h
    rw [List.cons_append, split, if_neg (Ne.symm h.1), ih h.2]
    rfl

theorem cut_append_self {sep : Byte} {l : List Byte} (h : sep ∉ l) (rest : List Byte) :
    Lines.cut sep (l ++ sep :: rest) = some (l, rest) := by
  induction l with
  | nil => rw [List.nil_append, Lines.cut, if_pos rfl]
  | cons b l ih =>
    rw [List.mem_cons, not_or] at h
    rw [List.cons_append, Lines.cut, if_neg (Ne.symm h.1), ih h.2]
    rfl

theorem ampersand_notMem_pair (p : List Byte × List Byte) : ampersand ∉ pair p := by
  intro h
  rcases List.mem_append.1 h with h | h
  · exact (mem_encode h).1 rfl
  · rcases List.mem_cons.1 h with h | h
    · exact absurd h (by decide)
    · exact (mem_encode h).1 rfl

theorem parsePair_pair (p : List Byte × List Byte) : parsePair (pair p) = p := by
  unfold parsePair pair
  rw [cut_append_self fun h => (mem_encode h).2 rfl]
  dsimp only
  rw [decode_encode, decode_encode]

theorem pair_ne_nil (p : List Byte × List Byte) : pair p ≠ [] := by
  simp [pair]

theorem filter_cons_pair (p : List Byte × List Byte) (pieces : List (List Byte)) :
    (pair p :: pieces).filter (· ≠ []) = pair p :: pieces.filter (· ≠ []) :=
  List.filter_cons_of_pos (by simpa using pair_ne_nil p)

/-- What is serialized is parsed back. -/
theorem parse_serialize (ps : List (List Byte × List Byte)) : parse (serialize ps) = ps := by
  unfold parse
  induction ps with
  | nil => rfl
  | cons p ps ih =>
    cases ps with
    | nil =>
      rw [serialize, split_of_notMem (ampersand_notMem_pair p), filter_cons_pair, List.map_cons, parsePair_pair]
      rfl
    | cons q qs =>
      rw [serialize, split_append (ampersand_notMem_pair p), filter_cons_pair, List.map_cons, parsePair_pair, ih]
      intro h
      cases h

end UrlEncoded
