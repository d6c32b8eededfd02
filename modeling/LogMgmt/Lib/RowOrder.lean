import Mathlib.Data.List.Forall2
import Mathlib.Data.List.Sort

/-!
# The order in which a database returns rows

`ORDER BY` fixes the order of rows with different sort keys and leaves the order of the others to the
database. A `RowOrder` is one such choice: it looks at the list of sort keys only, so it orders two row
lists with the same keys in the same way (`arrange_forall₂`). Keys are ascending; `DESC` negates them,
and a query without `ORDER BY` has equal keys.
-/

/-- A way to list rows consistent with `ORDER BY`: positions in increasing order of their keys. -/
structure RowOrder where
  pick : List Int → List Nat
  perm : ∀ keys, (pick keys).Perm (List.range keys.length)
  sorted : ∀ keys, ((pick keys).map fun i => keys.getD i 0).Pairwise (· ≤ ·)

namespace RowOrder
variable {α β : Type} {key : α → Int} {l : List α}

/-- `l` is ascending in `key`. -/
def Ascending (key : α → Int) (l : List α) : Prop := l.Pairwise fun a b => key a ≤ key b

/-- The rows `l` with sort keys `key`, in the order chosen by `o`. -/
def arrange (o : RowOrder) (key : α → Int) (l : List α) : List α :=
  (o.pick (l.map key)).filterMap fun i => l[i]?

theorem range_filterMap_getElem? (l : List α) : ((List.range l.length).filterMap fun i => l[i]?) = l := by
  induction l with
  | nil => rfl
  | cons a l ih =>
    rw [List.length_cons, List.range_succ_eq_map, List.filterMap_cons_some (by rfl), List.filterMap_map]
    exact congrArg _ ih

theorem arrange_perm (o : RowOrder) (key : α → Int) (l : List α) : (o.arrange key l).Perm l := by
  have h := (o.perm (l.map key)).filterMap fun i => l[i]?
  rwa [List.length_map, range_filterMap_getElem?] at h

@[simp] theorem mem_arrange {o : RowOrder} {a : α} : a ∈ o.arrange key l ↔ a ∈ l :=
  (o.arrange_perm key l).mem_iff

@[simp] theorem length_arrange (o : RowOrder) : (o.arrange key l).length = l.length :=
  (o.arrange_perm key l).length_eq

theorem arrange_ascending (o : RowOrder) (key : α → Int) (l : List α) :
    Ascending key (o.arrange key l) := by
  have h := o.sorted (l.map key)
  rw [List.pairwise_map] at h
  unfold Ascending arrange
  rw [List.pairwise_filterMap]
  refine h.imp fun {i j} hij a ha b hb => ?_
  simpa [List.getD_eq_getElem?_getD, ha, hb] using hij

/-- `LIMIT n` leaves out only rows that sort behind those it keeps, or with them. -/
theorem le_of_mem_take (o : RowOrder) {n : Nat} {a b : α} (ha : a ∈ (o.arrange key l).take n) (hb : b ∈ l)
    (hout : b ∉ (o.arrange key l).take n) : key a ≤ key b := by
  have hsorted := o.arrange_ascending key l
  rw [Ascending, ← List.take_append_drop n (o.arrange key l), List.pairwise_append] at hsorted
  have hdrop : b ∈ (o.arrange key l).drop n := by
    have hall : b ∈ (o.arrange key l).take n ++ (o.arrange key l).drop n := by
      rw [List.take_append_drop]
      exact mem_arrange.2 hb
    exact (List.mem_append.1 hall).resolve_left hout
  exact hsorted.2.2 a ha b hdrop

theorem getElem?_forall₂ {R : α → β → Prop} {l : List α} {l' : List β} (h : List.Forall₂ R l l')
    (i : Nat) : Option.Rel R l[i]? l'[i]? := by
  induction h generalizing i with
  | nil => exact .none
  | cons hab _ ih =>
    cases i with
    | zero => exact .some hab
    | succ i => exact ih i

/-- Row lists related elementwise, with the same keys, are listed in the same order. -/
theorem arrange_forall₂ (o : RowOrder) {R : α → β → Prop} {key' : β → Int} {l : List α} {l' : List β}
    (h : List.Forall₂ R l l') (hkey : l.map key = l'.map key') :
    List.Forall₂ R (o.arrange key l) (o.arrange key' l') := by
  unfold arrange
  rw [hkey]
  induction o.pick (l'.map key') with
  | nil => exact .nil
  | cons i idx ih =>
    have hi := getElem?_forall₂ h i
    simp only [List.filterMap_cons]
    cases ha : l[i]? <;> cases hb : l'[i]? <;> rw [ha, hb] at hi
    · exact ih
    · cases hi
    · cases hi
    · cases hi with | some hab => exact .cons hab ih

theorem arrange_map (o : RowOrder) (f : α → β) (key : β → Int) (l : List α) :
    o.arrange key (l.map f) = (o.arrange (fun a => key (f a)) l).map f := by
  unfold arrange
  rw [List.map_map, List.map_filterMap]
  simp [Function.comp_def]

/-- Ties in the order of the row list. -/
def stable : RowOrder where
  pick keys := (List.range keys.length).insertionSort fun i j => keys.getD i 0 ≤ keys.getD j 0
  perm keys := List.perm_insertionSort _ _
  sorted keys := by
    rw [List.pairwise_map]
    have : Std.Total fun i j => keys.getD i 0 ≤ keys.getD j 0 := ⟨fun i j => Int.le_total _ _⟩
    have : IsTrans Nat fun i j => keys.getD i 0 ≤ keys.getD j 0 := ⟨fun _ _ _ => Int.le_trans⟩
    exact List.pairwise_insertionSort _ _

/-- `stable`, except that on `keys₀` two neighbours with equal keys change places. -/
def swap (keys₀ : List Int) (pre : List Nat) (a b : Nat) (post : List Nat)
    (hp : stable.pick keys₀ = pre ++ a :: b :: post) (htie : keys₀.getD a 0 = keys₀.getD b 0) :
    RowOrder where
  pick keys := if keys = keys₀ then pre ++ b :: a :: post else stable.pick keys
  perm keys := by
    split
    · subst ‹keys = keys₀›
      have h := stable.perm keys
      rw [hp] at h
      exact ((List.Perm.swap a b post).append_left pre).trans h
    · exact stable.perm keys
  sorted keys := by
    split
    · subst ‹keys = keys₀›
      have h := stable.sorted keys
      rw [hp] at h
      simp only [List.map_append, List.map_cons, htie] at h ⊢
      exact h
    · exact stable.sorted keys

end RowOrder
