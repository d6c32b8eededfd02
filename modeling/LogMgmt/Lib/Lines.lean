import Mathlib.Data.List.Basic
import Mathlib.Tactic.SplitIfs

/-!
# Lines of a stream

A reader gets a stream in chunks and gives it out line by line; a line that is longer than its limit it refuses. What
it answers depends on the stream alone and not on how it was cut (`Reader.readline_of_cut`,
`Reader.readline_of_cut_none`, `Reader.readline_long`).
-/

namespace Lines
variable {β : Type} [DecidableEq β]

/-- What stands before the first separator and what after it. -/
def cut (sep : β) : List β → Option (List β × List β)
  | [] => none
  | b :: bs => if b = sep then some ([], bs) else (cut sep bs).map fun r => (b :: r.1, r.2)

/-- What has arrived and is not given out, and what arrives at each look at it. -/
structure Reader (β : Type) where
  buffer : List β := []
  chunks : List (List β)

/-- What is still to be given out. -/
def Reader.rest (r : Reader β) : List β := r.buffer ++ r.chunks.flatten

/-- The line with its separator, or what is left at the end of the stream; no value for a line over the limit. The
reader looks at the buffer whenever something has arrived, and knows the end only when nothing more comes. -/
def readFrom (sep : β) (limit : Nat) (buffer : List β) : List (List β) → Option (List β) × Reader β
  | [] =>
    match cut sep buffer with
    | some (line, rest) => if limit < line.length then (none, ⟨rest, []⟩) else (some (line ++ [sep]), ⟨rest, []⟩)
    | none => if limit < buffer.length then (none, ⟨[], []⟩) else (some buffer, ⟨[], []⟩)
  | chunk :: chunks =>
    match cut sep (buffer ++ chunk) with
    | some (line, rest) =>
      if limit < line.length then (none, ⟨rest, chunks⟩) else (some (line ++ [sep]), ⟨rest, chunks⟩)
    | none => if limit < (buffer ++ chunk).length then (none, ⟨[], chunks⟩) else readFrom sep limit (buffer ++ chunk) chunks

def Reader.readline (sep : β) (limit : Nat) (r : Reader β) : Option (List β) × Reader β :=
  readFrom sep limit r.buffer r.chunks

variable {sep : β} {limit : Nat} {r r' : Reader β} {s s' line rest raw : List β}

theorem cut_append (sep : β) (s s' : List β) : cut sep (s ++ s') =
    match cut sep s with
    | some (line, rest) => some (line, rest ++ s')
    | none => (cut sep s').map fun r => (s ++ r.1, r.2) := by
  induction s with
  | nil => simp [cut]
  | cons b s ih =>
    rw [List.cons_append, cut, cut, ih]
    split_ifs
    · rfl
    · cases cut sep s with
      | some r => rfl
      | none => cases cut sep s' <;> rfl

theorem eq_of_cut (h : cut sep s = some (line, rest)) : s = line ++ sep :: rest := by
  induction s generalizing line with
  | nil => cases h
  | cons b s ih =>
    rw [cut] at h
    split_ifs at h with hb
    · cases h
      rw [hb]
      rfl
    · obtain ⟨r, hr, heq⟩ := Option.map_eq_some_iff.1 h
      cases heq
      rw [ih hr]
      rfl

theorem not_mem_of_cut (h : cut sep s = some (line, rest)) : sep ∉ line := by
  induction s generalizing line with
  | nil => cases h
  | cons b s ih =>
    rw [cut] at h
    split_ifs at h with hb
    · cases h
      exact List.not_mem_nil
    · obtain ⟨r, hr, heq⟩ := Option.map_eq_some_iff.1 h
      cases heq
      exact List.not_mem_cons_of_ne_of_not_mem (Ne.symm hb) (ih hr)

theorem not_mem_of_cut_none (h : cut sep s = none) : sep ∉ s := by
  induction s with
  | nil => exact List.not_mem_nil
  | cons b s ih =>
    rw [cut] at h
    split_ifs at h with hb
    exact List.not_mem_cons_of_ne_of_not_mem (Ne.symm hb) (ih (Option.map_eq_none_iff.1 h))

theorem splitOn_of_cut (h : cut sep s = some (line, rest)) : s.splitOn sep = line :: rest.splitOn sep := by
  rw [eq_of_cut h, List.splitOn_append_cons_self_of_not_mem (not_mem_of_cut h)]

theorem splitOn_of_cut_none (h : cut sep s = none) : s.splitOn sep = [s] :=
  List.splitOn_eq_singleton (not_mem_of_cut_none h)

theorem readFrom_of_cut {buffer : List β} {chunks : List (List β)}
    (h : cut sep (buffer ++ chunks.flatten) = some (line, rest)) :
    (limit < line.length → (readFrom sep limit buffer chunks).1 = none) ∧
    (line.length ≤ limit → ∃ r, readFrom sep limit buffer chunks = (some (line ++ [sep]), r) ∧ r.rest = rest) := by
  induction chunks generalizing buffer with
  | nil =>
    rw [List.flatten_nil, List.append_nil] at h
    simp only [readFrom, h]
    refine ⟨fun hlt => by rw [if_pos hlt], fun hle => ⟨⟨rest, []⟩, by rw [if_neg (by omega)], ?_⟩⟩
    simp [Reader.rest]
  | cons chunk chunks ih =>
    rw [List.flatten_cons, ← List.append_assoc] at h
    have happend := cut_append sep (buffer ++ chunk) chunks.flatten
    rw [h] at happend
    rw [readFrom]
    cases hcut : cut sep (buffer ++ chunk) with
    | some r =>
      rw [hcut] at happend
      cases happend
      exact ⟨fun hlt => by simp only [if_pos hlt],
        fun hle => ⟨⟨r.2, chunks⟩, by simp only [if_neg (Nat.not_lt.2 hle)], rfl⟩⟩
    | none =>
      rw [hcut] at happend
      obtain ⟨r, -, hr⟩ := Option.map_eq_some_iff.1 happend.symm
      have hlength : (buffer ++ chunk).length ≤ line.length := by
        rw [← (Prod.mk.inj hr).1]
        simp
      obtain ⟨hlong, hshort⟩ := ih h
      by_cases hlt : limit < (buffer ++ chunk).length
      · exact ⟨fun _ => by simp only [if_pos hlt], fun hle => by omega⟩
      · simp only [if_neg hlt]
        exact ⟨hlong, hshort⟩

theorem readFrom_of_cut_none {buffer : List β} {chunks : List (List β)} (h : cut sep (buffer ++ chunks.flatten) = none) :
    (limit < (buffer ++ chunks.flatten).length → (readFrom sep limit buffer chunks).1 = none) ∧
    ((buffer ++ chunks.flatten).length ≤ limit →
      ∃ r, readFrom sep limit buffer chunks = (some (buffer ++ chunks.flatten), r) ∧ r.rest = []) := by
  induction chunks generalizing buffer with
  | nil =>
    rw [List.flatten_nil, List.append_nil] at h ⊢
    simp only [readFrom, h]
    exact ⟨fun hlt => by rw [if_pos hlt], fun hle => ⟨⟨[], []⟩, by rw [if_neg (by omega)], rfl⟩⟩
  | cons chunk chunks ih =>
    rw [List.flatten_cons, ← List.append_assoc] at h ⊢
    have happend := cut_append sep (buffer ++ chunk) chunks.flatten
    rw [h] at happend
    rw [readFrom]
    cases hcut : cut sep (buffer ++ chunk) with
    | some r =>
      rw [hcut] at happend
      cases happend
    | none =>
      obtain ⟨hlong, hshort⟩ := ih h
      by_cases hlt : limit < (buffer ++ chunk).length
      · refine ⟨fun _ => by simp only [if_pos hlt], fun hle => ?_⟩
        rw [List.length_append] at hle
        omega
      · simp only [if_neg hlt]
        exact ⟨hlong, hshort⟩

namespace Reader

theorem readline_of_cut (h : cut sep r.rest = some (line, rest)) (hle : line.length ≤ limit) :
    ∃ r', r.readline sep limit = (some (line ++ [sep]), r') ∧ r'.rest = rest :=
  (readFrom_of_cut h).2 hle

theorem readline_of_cut_none (h : cut sep r.rest = none) (hle : r.rest.length ≤ limit) :
    ∃ r', r.readline sep limit = (some r.rest, r') ∧ r'.rest = [] :=
  (readFrom_of_cut_none h).2 hle

/-- A line over the limit, also at the end of the stream. -/
theorem readline_long (h : (r.rest.splitOn sep).head? = some line) (hlt : limit < line.length) :
    (r.readline sep limit).1 = none := by
  cases hcut : cut sep r.rest with
  | some p =>
    rw [splitOn_of_cut hcut] at h
    cases h
    exact (readFrom_of_cut hcut).1 hlt
  | none =>
    rw [splitOn_of_cut_none hcut] at h
    cases h
    exact (readFrom_of_cut_none hcut).1 hlt

/-- What is given out is taken from the stream. -/
theorem rest_of_readline (h : r.readline sep limit = (some raw, r')) : r.rest = raw ++ r'.rest := by
  cases hcut : cut sep r.rest with
  | some p =>
    by_cases hlt : limit < p.1.length
    · have hnone : (r.readline sep limit).1 = none := (readFrom_of_cut hcut).1 hlt
      rw [h] at hnone
      cases hnone
    · obtain ⟨r₁, hr₁, hrest⟩ := readline_of_cut hcut (Nat.not_lt.1 hlt)
      rw [h] at hr₁
      cases hr₁
      rw [hrest, eq_of_cut hcut, List.append_assoc]
      rfl
  | none =>
    by_cases hlt : limit < r.rest.length
    · have hnone : (r.readline sep limit).1 = none := (readFrom_of_cut_none hcut).1 hlt
      rw [h] at hnone
      cases hnone
    · obtain ⟨r₁, hr₁, hrest⟩ := readline_of_cut_none hcut (Nat.not_lt.1 hlt)
      rw [h] at hr₁
      cases hr₁
      rw [hrest, List.append_nil]

end Reader

end Lines
