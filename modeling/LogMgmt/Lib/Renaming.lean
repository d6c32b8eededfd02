import Mathlib.Data.List.Forall2
import Mathlib.Order.Basic

/-!
# Renamings

Two runs of one system give their rows different identity values. A `Renaming` relates the values of rows
that correspond, in each identity column. It stays one to one as rows are added because it speaks only of
values already taken (`Fresh`).
-/

/-- For each identity column, which values correspond. -/
abbrev Renaming (ι : Type) := ι → Nat → Nat → Prop

namespace Renaming
variable {ι : Type} {κ ρ ρ' : Renaming ι} {q q' n n' : ι → Nat} {c : ι}

def empty : Renaming ι := fun _ _ _ => False

/-- The renaming with one more pair. -/
def add (ρ : Renaming ι) (c : ι) (i j : Nat) : Renaming ι := fun c' a b => ρ c' a b ∨ c' = c ∧ a = i ∧ b = j

theorem le_add (ρ : Renaming ι) (c : ι) (i j : Nat) : ρ ≤ ρ.add c i j := fun _ _ _ => .inl

theorem add_self (ρ : Renaming ι) (c : ι) (i j : Nat) : ρ.add c i j c i j := .inr ⟨rfl, rfl, rfl⟩

/-- One value of the column `c` is taken. -/
structure Taken (c : ι) (q n : ι → Nat) : Prop where
  here : n c = q c + 1
  elsewhere : ∀ c', c' ≠ c → n c' = q c'

theorem Taken.le (h : Taken c q n) (c' : ι) : q c' ≤ n c' := by
  by_cases hc : c' = c
  · subst hc
    rw [h.here]
    exact Nat.le_succ _
  · exact Nat.le_of_eq (h.elsewhere c' hc).symm

structure OneToOne (ρ : Renaming ι) : Prop where
  left : ∀ c i j j', ρ c i j → ρ c i j' → j = j'
  right : ∀ c i i' j, ρ c i j → ρ c i' j → i = i'

/-- The renaming is one to one and relates values below the next ones `q` and `q'` of the two runs. All its
pairs, and all that can come, are in `κ`. -/
structure Fresh (κ ρ : Renaming ι) (q q' : ι → Nat) : Prop extends OneToOne ρ where
  within : ρ ≤ κ
  next : ∀ c k, κ c (q c + k) (q' c + k)
  lt : ∀ c i j, ρ c i j → i < q c ∧ j < q' c

namespace Fresh

theorem empty (hκ : ∀ c k, κ c (q c + k) (q' c + k)) : Fresh κ empty q q' where
  within _ _ _ := False.elim
  next := hκ
  left _ _ _ _ h := h.elim
  right _ _ _ _ h := h.elim
  lt _ _ _ h := h.elim

theorem eq_iff (h : Fresh κ ρ q q') {i j i' j' : Nat} (hij : ρ c i j) (hij' : ρ c i' j') : i = i' ↔ j = j' := by
  constructor
  · rintro rfl
    exact h.left c i j j' hij hij'
  · rintro rfl
    exact h.right c i i' j hij hij'

/-- Both runs take a value of the same column. -/
theorem take (h : Fresh κ ρ q q') (hn : Taken c q n) (hn' : Taken c q' n') : Fresh κ ρ n n' where
  within := h.within
  next c' k := by
    by_cases hc : c' = c
    · subst hc
      rw [hn.here, hn'.here, Nat.add_assoc, Nat.add_assoc]
      exact h.next c' (1 + k)
    · rw [hn.elsewhere c' hc, hn'.elsewhere c' hc]
      exact h.next c' k
  left := h.left
  right := h.right
  lt c' i j hij := ⟨Nat.lt_of_lt_of_le (h.lt c' i j hij).1 (hn.le c'),
    Nat.lt_of_lt_of_le (h.lt c' i j hij).2 (hn'.le c')⟩

/-- The values taken correspond from then on. -/
theorem add (h : Fresh κ ρ q q') (hn : Taken c q n) (hn' : Taken c q' n') :
    Fresh κ (ρ.add c (q c) (q' c)) n n' where
  within := by
    rintro c' i j (hij | ⟨rfl, rfl, rfl⟩)
    · exact h.within c' i j hij
    · exact h.next c' 0
  next := (h.take hn hn').next
  left := by
    rintro c' i j j' (hij | ⟨rfl, rfl, rfl⟩) (hij' | ⟨hc, hi, rfl⟩)
    · exact h.left c' i j j' hij hij'
    · subst hc hi
      exact absurd (h.lt _ _ _ hij).1 (Nat.lt_irrefl _)
    · exact absurd (h.lt _ _ _ hij').1 (Nat.lt_irrefl _)
    · rfl
  right := by
    rintro c' i i' j (hij | ⟨rfl, rfl, rfl⟩) (hij' | ⟨hc, rfl, hj⟩)
    · exact h.right c' i i' j hij hij'
    · subst hc hj
      exact absurd (h.lt _ _ _ hij).2 (Nat.lt_irrefl _)
    · exact absurd (h.lt _ _ _ hij').2 (Nat.lt_irrefl _)
    · rfl
  lt := by
    rintro c' i j (hij | ⟨rfl, rfl, rfl⟩)
    · exact (h.take hn hn').lt c' i j hij
    · rw [hn.here, hn'.here]
      exact ⟨Nat.lt_succ_self _, Nat.lt_succ_self _⟩

/-- The runs take values each on its own. -/
theorem grow (h : Fresh κ ρ q q') (hκ : ∀ c i j, κ c i j) (hn : ∀ c, q c ≤ n c) (hn' : ∀ c, q' c ≤ n' c) :
    Fresh κ ρ n n' where
  within := h.within
  next c _ := hκ c _ _
  left := h.left
  right := h.right
  lt c i j hij := ⟨Nat.lt_of_lt_of_le (h.lt c i j hij).1 (hn c), Nat.lt_of_lt_of_le (h.lt c i j hij).2 (hn' c)⟩

end Fresh
end Renaming

/-! ### Related lists -/

theorem Option.Rel.map_rel {α β γ δ : Type} {R : α → β → Prop} {S : γ → δ → Prop} {o : Option α} {o' : Option β}
    {f : α → γ} {f' : β → δ} (h : Option.Rel R o o') (hf : ∀ a b, R a b → S (f a) (f' b)) :
    Option.Rel S (o.map f) (o'.map f') := by
  cases h with
  | some hab => exact .some (hf _ _ hab)
  | none => exact .none

namespace List
variable {α β γ : Type} {R : α → β → Prop} {l : List α} {l' : List β}

theorem Forall₂.map_eq {f : α → γ} {f' : β → γ} (h : Forall₂ R l l') (hf : ∀ a b, R a b → f a = f' b) :
    l.map f = l'.map f' := by
  have hmap : Forall₂ (· = ·) (l.map f) (l'.map f') := rel_map (fun {a b} hab => hf a b hab) h
  rwa [forall₂_eq_eq_eq] at hmap

theorem Forall₂.eq_of {l' : List α} {R : α → α → Prop} (h : Forall₂ R l l') (hR : ∀ a b, R a b → a = b) : l = l' := by
  have heq := h.imp hR
  rwa [forall₂_eq_eq_eq] at heq

theorem Forall₂.filterMap_eq {f : α → Option γ} {f' : β → Option γ} (h : Forall₂ R l l')
    (hf : ∀ a b, R a b → f a = f' b) : l.filterMap f = l'.filterMap f' := by
  induction h with
  | nil => rfl
  | @cons a b l l' hab _ ih => rw [filterMap_cons, filterMap_cons, hf a b hab, ih]

theorem Forall₂.find?_rel (h : Forall₂ R l l') (p : α → Bool) (p' : β → Bool) (hp : ∀ a b, R a b → p a = p' b) :
    Option.Rel R (l.find? p) (l'.find? p') := by
  induction h with
  | nil => exact .none
  | @cons a b l l' hab _ ih =>
    rw [find?_cons, find?_cons, hp a b hab]
    split
    · exact .some hab
    · exact ih

theorem Forall₂.any_eq (h : Forall₂ R l l') (p : α → Bool) (p' : β → Bool) (hp : ∀ a b, R a b → p a = p' b) :
    l.any p = l'.any p' := by
  induction h with
  | nil => rfl
  | @cons a b l l' hab _ ih => rw [any_cons, any_cons, hp a b hab, ih]

theorem Forall₂.all_eq (h : Forall₂ R l l') (p : α → Bool) (p' : β → Bool) (hp : ∀ a b, R a b → p a = p' b) :
    l.all p = l'.all p' := by
  induction h with
  | nil => rfl
  | @cons a b l l' hab _ ih => rw [all_cons, all_cons, hp a b hab, ih]

end List
