import LogMgmt.Lib.Prog
import Mathlib.Logic.Function.Basic
import Mathlib.Logic.Relation

/-!
# Interleaved programs

Any number of programs of one command interface on a shared state `σ`, each with a private state `τ`
besides. In a step one of them has its next command carried out, unless another makes it wait, or a
new one starts. An invariant of such a system is one of the shared state, one of each task under the
shared state, and one of every two tasks (`Coherent`): it is kept if a command keeps the first two and
disturbs no other task that it need not wait for (`Coherent.step`).
-/

namespace Interleave
variable {C : Type} {R : C → Type} {E α σ τ : Type}

/-- A program in the middle of its run. -/
structure Task (R : C → Type) (E α τ : Type) where
  prog : Prog R E α
  state : τ

structure Ensemble (R : C → Type) (E α σ τ : Type) where
  shared : σ
  tasks : Nat → Option (Task R E α τ)

/-- Task `i` has moved on, and left the shared state as `s`. -/
def Ensemble.move (m : Ensemble R E α σ τ) (i : Nat) (s : σ) (t : Task R E α τ) : Ensemble R E α σ τ :=
  ⟨s, Function.update m.tasks i (some t)⟩

/-- What the programs are run with. -/
structure Rules (R : C → Type) (E α σ τ : Type) where
  /-- how a command is carried out on the shared state and the private state of its task -/
  handle : Prog.Handler R (σ × τ)
  /-- how a task starts -/
  Starts : Task R E α τ → Prop
  /-- a command of the first task waits for the second -/
  Waits : τ → C → τ → Prop

inductive Step (rules : Rules R E α σ τ) (m : Ensemble R E α σ τ) : Ensemble R E α σ τ → Prop where
  | start (i : Nat) (t : Task R E α τ) (hfree : m.tasks i = none) (ht : rules.Starts t) :
    Step rules m (m.move i m.shared t)
  | call (i : Nat) (c : C) (k : R c → Prog R E α) (s : τ) (hi : m.tasks i = some ⟨.call c k, s⟩)
    (hgo : ∀ j t, j ≠ i → m.tasks j = some t → ¬ rules.Waits s c t.state) :
    Step rules m (m.move i (rules.handle c (m.shared, s)).2.1
      ⟨k (rules.handle c (m.shared, s)).1, (rules.handle c (m.shared, s)).2.2⟩)

/-- Any number of steps. -/
abbrev Reaches (rules : Rules R E α σ τ) : Ensemble R E α σ τ → Ensemble R E α σ τ → Prop :=
  Relation.ReflTransGen (Step rules)

/-- `G` of the shared state, `L` of each task and `P` of every two. -/
structure Coherent (G : σ → Prop) (L : σ → Task R E α τ → Prop) (P : τ → τ → Prop) (m : Ensemble R E α σ τ) : Prop where
  shared : G m.shared
  task : ∀ i t, m.tasks i = some t → L m.shared t
  pair : ∀ i j t u, i ≠ j → m.tasks i = some t → m.tasks j = some u → P t.state u.state

/-- What every command keeps, whichever task it is of. -/
structure Keeps (rules : Rules R E α σ τ) (G : σ → Prop) (L : σ → Task R E α τ → Prop) (P : τ → τ → Prop) : Prop where
  symm : ∀ s s', P s s' → P s' s
  starts : ∀ s t, G s → rules.Starts t → L s t
  apart : ∀ s t u, rules.Starts t → L s u → P t.state u.state
  own : ∀ s c k t, G s → L s ⟨.call c k, t⟩ →
    G (rules.handle c (s, t)).2.1 ∧
      L (rules.handle c (s, t)).2.1 ⟨k (rules.handle c (s, t)).1, (rules.handle c (s, t)).2.2⟩
  other : ∀ s c k t u, G s → L s ⟨.call c k, t⟩ → L s u → P t u.state → ¬ rules.Waits t c u.state →
    L (rules.handle c (s, t)).2.1 u ∧ P (rules.handle c (s, t)).2.2 u.state

section
variable {rules : Rules R E α σ τ} {G : σ → Prop} {L : σ → Task R E α τ → Prop} {P : τ → τ → Prop}
  {m m' : Ensemble R E α σ τ}

theorem move_self (m : Ensemble R E α σ τ) (i : Nat) (s : σ) (t : Task R E α τ) : (m.move i s t).tasks i = some t :=
  Function.update_self ..

theorem move_other (m : Ensemble R E α σ τ) {i j : Nat} (s : σ) (t : Task R E α τ) (h : j ≠ i) :
    (m.move i s t).tasks j = m.tasks j :=
  Function.update_of_ne h ..

theorem move_cases {i j : Nat} {s : σ} {t u : Task R E α τ} (h : (m.move i s t).tasks j = some u) :
    j = i ∧ u = t ∨ j ≠ i ∧ m.tasks j = some u := by
  by_cases hij : j = i
  · subst hij
    rw [move_self] at h
    exact .inl ⟨rfl, (Option.some.inj h).symm⟩
  · rw [move_other _ _ _ hij] at h
    exact .inr ⟨hij, h⟩

theorem ne_of_move_none {i j : Nat} {s : σ} {t : Task R E α τ} (h : (m.move i s t).tasks j = none) :
    j ≠ i ∧ m.tasks j = none := by
  have hij : j ≠ i := fun hc => by
    subst hc
    rw [move_self] at h
    cases h
  rw [move_other _ _ _ hij] at h
  exact ⟨hij, h⟩

/-- A move keeps coherence if the moved task is fine and leaves the others so. -/
theorem Coherent.move (h : Coherent G L P m) (hsymm : ∀ s s', P s s' → P s' s) {i : Nat} {s : σ} {t : Task R E α τ}
    (hG : G s) (hL : L s t) (hother : ∀ j u, j ≠ i → m.tasks j = some u → L s u ∧ P t.state u.state) :
    Coherent G L P (m.move i s t) where
  shared := hG
  task j u hj := by
    by_cases hij : j = i
    · subst hij
      rw [move_self] at hj
      cases hj
      exact hL
    · rw [move_other m s t hij] at hj
      exact (hother j u hij hj).1
  pair j k u v hjk hj hk := by
    by_cases hij : j = i
    · subst hij
      rw [move_self] at hj
      rw [move_other m s t (Ne.symm hjk)] at hk
      cases hj
      exact (hother k v (Ne.symm hjk) hk).2
    · rw [move_other m s t hij] at hj
      by_cases hik : k = i
      · subst hik
        rw [move_self] at hk
        cases hk
        exact hsymm _ _ (hother j u hij hj).2
      · rw [move_other m s t hik] at hk
        exact h.pair j k u v hjk hj hk

theorem Coherent.step (hk : Keeps rules G L P) (h : Coherent G L P m) (hs : Step rules m m') : Coherent G L P m' := by
  cases hs with
  | start i t hfree ht =>
    refine h.move hk.symm h.shared (hk.starts _ _ h.shared ht) fun j u _ hu => ?_
    exact ⟨h.task j u hu, hk.apart _ _ _ ht (h.task j u hu)⟩
  | call i c k s hi hgo =>
    have hL := h.task i _ hi
    obtain ⟨hG', hL'⟩ := hk.own _ c k s h.shared hL
    refine h.move hk.symm hG' hL' fun j u hj hu => ?_
    exact hk.other _ c k s u h.shared hL (h.task j u hu) (h.pair i j _ u (Ne.symm hj) hi hu) (hgo j u hj hu)

theorem Coherent.reaches (hk : Keeps rules G L P) (h : Coherent G L P m) (hr : Reaches rules m m') :
    Coherent G L P m' := by
  induction hr with
  | refl => exact h
  | tail _ hs ih => exact ih.step hk hs

/-! ### Running tasks to their end -/

/-- The task has returned or raised. -/
def Task.Ended (t : Task R E α τ) : Prop := ∀ c k, t.prog ≠ .call c k

theorem move_move (m : Ensemble R E α σ τ) (i : Nat) (s s' : σ) (t t' : Task R E α τ) :
    (m.move i s t).move i s' t' = m.move i s' t' :=
  congrArg (Ensemble.mk s') (Function.update_idem ..)

theorem move_eq_self {i : Nat} {t : Task R E α τ} (h : m.tasks i = some t) : m.move i m.shared t = m := by
  rw [Ensemble.move, ← h, Function.update_eq_self]

/-- A task that waits for no other can be run to its end. -/
theorem reaches_ended {i : Nat} {t : Task R E α τ} {K : Task R E α τ → Prop} (hi : m.tasks i = some t) (ht : K t)
    (hgo : ∀ c k s, K ⟨.call c k, s⟩ → ∀ j u, j ≠ i → m.tasks j = some u → ¬ rules.Waits s c u.state)
    (hown : ∀ c k s shared, K ⟨.call c k, s⟩ →
      K ⟨k (rules.handle c (shared, s)).1, (rules.handle c (shared, s)).2.2⟩) :
    ∃ s u, K u ∧ u.Ended ∧ Reaches rules m (m.move i s u) := by
  suffices h : ∀ p s shared, K ⟨p, s⟩ →
      ∃ shared' u, K u ∧ u.Ended ∧ Reaches rules (m.move i shared ⟨p, s⟩) (m.move i shared' u) by
    obtain ⟨s, u, hu, hended, hreach⟩ := h t.prog t.state m.shared ht
    rw [move_eq_self hi] at hreach
    exact ⟨s, u, hu, hended, hreach⟩
  intro p
  induction p with
  | ret a => exact fun s shared hK => ⟨shared, _, hK, by simp [Task.Ended], .refl⟩
  | raise e => exact fun s shared hK => ⟨shared, _, hK, by simp [Task.Ended], .refl⟩
  | call c k ih =>
    intro s shared hK
    obtain ⟨shared', u, hu, hended, hreach⟩ := ih _ _ (rules.handle c (shared, s)).2.1 (hown c k s shared hK)
    have hstep : Step rules (m.move i shared ⟨.call c k, s⟩) _ := Step.call i c k s (move_self ..)
      fun j u hj hu => hgo c k s hK j u hj (by rwa [move_other _ _ _ hj] at hu)
    rw [move_move] at hstep
    exact ⟨shared', u, hu, hended, hreach.head hstep⟩

/-- Only finitely many tasks have started. -/
theorem finite_tasks (hr : Reaches rules m m') (h : ∃ n, ∀ i, n ≤ i → m.tasks i = none) :
    ∃ n, ∀ i, n ≤ i → m'.tasks i = none := by
  induction hr with
  | refl => exact h
  | tail _ hs ih =>
    obtain ⟨n, hn⟩ := ih
    cases hs with
    | start i t hfree ht =>
      refine ⟨max n (i + 1), fun j hj => ?_⟩
      rw [move_other _ _ _ (by omega)]
      exact hn j (by omega)
    | call i c k s hi hgo =>
      refine ⟨n, fun j hj => ?_⟩
      have hne : j ≠ i := fun hc => by
        rw [← hc, hn j hj] at hi
        cases hi
      rw [move_other _ _ _ hne]
      exact hn j hj

/-- What can be reached for each task can be reached for all of them, one after the other. -/
theorem reaches_each {A B : Task R E α τ → Prop}
    (h : ∀ m : Ensemble R E α σ τ, (∀ j u, m.tasks j = some u → A u) → ∀ i t, m.tasks i = some t →
      ∃ s u, A u ∧ B u ∧ Reaches rules m (m.move i s u))
    (hA : ∀ i t, m.tasks i = some t → A t) (hfinite : ∃ n, ∀ i, n ≤ i → m.tasks i = none) :
    ∃ m', Reaches rules m m' ∧ (∀ i, m'.tasks i = none ↔ m.tasks i = none) ∧ ∀ i t, m'.tasks i = some t → A t ∧ B t := by
  obtain ⟨n, hn⟩ := hfinite
  suffices hk : ∀ k, ∃ m', Reaches rules m m' ∧ (∀ i, m'.tasks i = none ↔ m.tasks i = none) ∧
      (∀ i t, m'.tasks i = some t → A t) ∧ ∀ i t, i < k → m'.tasks i = some t → B t by
    obtain ⟨m', hreach, hsame, hA', hB⟩ := hk n
    refine ⟨m', hreach, hsame, fun i t hi => ⟨hA' i t hi, ?_⟩⟩
    rcases Nat.lt_or_ge i n with hlt | hle
    · exact hB i t hlt hi
    · rw [(hsame i).2 (hn i hle)] at hi
      cases hi
  intro k
  induction k with
  | zero => exact ⟨m, .refl, fun _ => Iff.rfl, hA, fun i t hi => absurd hi (Nat.not_lt_zero i)⟩
  | succ k ih =>
    obtain ⟨m', hreach, hsame, hA', hB⟩ := ih
    rcases hk : m'.tasks k with _ | t
    · refine ⟨m', hreach, hsame, hA', fun i u hlt hi => ?_⟩
      rcases Nat.lt_succ_iff_lt_or_eq.1 hlt with hlt | rfl
      · exact hB i u hlt hi
      · rw [hk] at hi
        cases hi
    · obtain ⟨s, u, hAu, hBu, hreach'⟩ := h m' hA' k t hk
      refine ⟨m'.move k s u, hreach.trans hreach', fun i => ?_, fun i v hi => ?_, fun i v hlt hi => ?_⟩
      · rw [← hsame i]
        by_cases hik : i = k
        · subst hik
          rw [move_self, hk]
          exact iff_of_false (Option.some_ne_none _) (Option.some_ne_none _)
        · rw [move_other _ _ _ hik]
      · rcases move_cases hi with ⟨-, rfl⟩ | ⟨-, hi⟩
        · exact hAu
        · exact hA' i v hi
      · rcases move_cases hi with ⟨-, rfl⟩ | ⟨hne, hi⟩
        · exact hBu
        · exact hB i v (by omega) hi

/-! ### Schedules -/

/-- The next command of task `i` waits for task `j`. -/
def Waiting (rules : Rules R E α σ τ) (m : Ensemble R E α σ τ) (i j : Nat) : Prop :=
  ∃ c k s u, m.tasks i = some ⟨.call c k, s⟩ ∧ m.tasks j = some u ∧ rules.Waits s c u.state

section
variable (rules) [∀ s c u, Decidable (rules.Waits s c u)]

/-- Task `i` is given a turn among the first `n`: its next command is carried out, if it has one that need not wait. -/
def Ensemble.turn (n : Nat) (m : Ensemble R E α σ τ) (i : Nat) : Ensemble R E α σ τ :=
  match m.tasks i with
  | some ⟨.call c k, s⟩ =>
    if ∀ j < n, j ≠ i → ∀ t ∈ m.tasks j, ¬ rules.Waits s c t.state then
      m.move i (rules.handle c (m.shared, s)).2.1 ⟨k (rules.handle c (m.shared, s)).1, (rules.handle c (m.shared, s)).2.2⟩
    else m
  | _ => m

variable {n : Nat}

theorem turn_none (h : ∀ j, n ≤ j → m.tasks j = none) (i : Nat) : ∀ j, n ≤ j → (m.turn rules n i).tasks j = none := by
  intro j hj
  unfold Ensemble.turn
  split
  · rename_i c k s hi
    have hne : j ≠ i := fun hc => by
      rw [← hc, h j hj] at hi
      cases hi
    split
    · rw [move_other _ _ _ hne]
      exact h j hj
    · exact h j hj
  · exact h j hj

theorem reaches_turn (h : ∀ j, n ≤ j → m.tasks j = none) (i : Nat) : Reaches rules m (m.turn rules n i) := by
  unfold Ensemble.turn
  split
  · rename_i c k s hi
    split
    · rename_i hgo
      refine .single (.call i c k s hi fun j t hj ht => hgo j (Nat.not_le.1 fun hc => ?_) hj t ht)
      rw [h j hc] at ht
      cases ht
    · exact .refl
  · exact .refl

/-- The turns of a schedule are steps. -/
theorem reaches_turns (h : ∀ j, n ≤ j → m.tasks j = none) (schedule : List Nat) :
    Reaches rules m (schedule.foldl (Ensemble.turn rules n) m) := by
  induction schedule generalizing m with
  | nil => exact .refl
  | cons i schedule ih => exact (reaches_turn rules h i).trans (ih (turn_none rules h i))

/-- Two tasks that start one after the other, and then take turns. -/
theorem reaches_two {s : σ} {t u : Task R E α τ} (ht : rules.Starts t) (hu : rules.Starts u) (schedule : List Nat) :
    Reaches rules ⟨s, fun _ => none⟩
      (schedule.foldl (Ensemble.turn rules 2) ((Ensemble.move ⟨s, fun _ => none⟩ 0 s t).move 1 s u)) := by
  refine .head (.start 0 t rfl ht) (.head (.start 1 u rfl hu) (reaches_turns rules (fun j hj => ?_) schedule))
  rw [move_other _ _ _ (by omega), move_other _ _ _ (by omega)]

end

end

end Interleave
