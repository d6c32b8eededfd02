import Mathlib.Data.List.Nodup
import Mathlib.Data.List.Pairwise

/-!
# Spaced items

A growing list of items, each with a key, a time and the gap it asks for: every item comes at least its gap
after all earlier items of its key. A list stays spaced when a batch of items with distinct keys is added,
each checked against the items already there.
-/

variable {ε κ : Type}

/-- Items of one key follow each other at the distance the later one asks for. -/
def Spaced (key : ε → κ) (time gap : ε → Int) (l : List ε) : Prop :=
  l.Pairwise fun a b => key a = key b → time a + gap b ≤ time b

namespace Spaced
variable {key : ε → κ} {time gap : ε → Int} {l news : List ε}

theorem nil : Spaced key time gap [] := List.Pairwise.nil

theorem append (h : Spaced key time gap l)
    (hold : ∀ a ∈ l, ∀ b ∈ news, key a = key b → time a + gap b ≤ time b) (hnews : (news.map key).Nodup) :
    Spaced key time gap (l ++ news) := by
  refine List.pairwise_append.2 ⟨h, ?_, hold⟩
  have hne : news.Pairwise fun a b => key a ≠ key b := List.pairwise_map.1 hnews
  exact hne.imp fun hab heq => absurd heq hab

/-- Of two items with one key, one comes its gap after the other. -/
theorem or_of_ne (h : Spaced key time gap l) {a b : ε} (ha : a ∈ l) (hb : b ∈ l) (hab : a ≠ b)
    (hkey : key a = key b) : time a + gap b ≤ time b ∨ time b + gap a ≤ time a := by
  obtain ⟨i, hi, rfl⟩ := List.getElem_of_mem ha
  obtain ⟨j, hj, rfl⟩ := List.getElem_of_mem hb
  rcases Nat.lt_trichotomy i j with hij | rfl | hij
  · exact .inl (List.pairwise_iff_getElem.1 h i j hi hj hij hkey)
  · exact absurd rfl hab
  · exact .inr (List.pairwise_iff_getElem.1 h j i hj hi hij hkey.symm)

/-- With positive gaps it is the later one. -/
theorem of_le (h : Spaced key time gap l) (hpos : ∀ a ∈ l, 0 < gap a) {a b : ε} (ha : a ∈ l) (hb : b ∈ l)
    (hab : a ≠ b) (hkey : key a = key b) (hle : time a ≤ time b) : time a + gap b ≤ time b := by
  rcases h.or_of_ne ha hb hab hkey with h | h
  · exact h
  · have := hpos a ha
    omega

end Spaced
