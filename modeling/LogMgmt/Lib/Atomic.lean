import LogMgmt.Lib.Interleave

/-!
# Programs that look once

A command is blind if its answer does not depend on the shared state. A program that issues one other command at most
does in every interleaving what it would do alone at one moment of its run, that of this command (`Looks.exists_moment`).
`core` takes from the private state of a task what may be left of the shared state in it.
-/

namespace Interleave
variable {C : Type} {R : C → Type} {E α σ τ : Type}
open Prog

/-- Whatever the answers, the program issues one command at most that is not blind, and none if it has `looked`. -/
abbrev LooksOnce (blind : C → Bool) (p : Prog R E α) (looked : Bool) : Prop :=
  Safe (fun looked c => looked = true → blind c = true) (fun looked c _ => looked || !blind c) (fun _ => True)
    (fun _ => True) p looked

section
variable {blind : C → Bool} {looked : Bool} {β : Type} {p : Prog R E α}

theorem LooksOnce.bind {f : α → Prog R E β} (hp : LooksOnce blind p looked)
    (hf : ∀ a looked, LooksOnce blind (f a) looked) : LooksOnce blind (p >>= f) looked :=
  Safe.bind hp fun a looked _ => hf a looked

theorem LooksOnce.tryCatch {f : E → Prog R E α} (hp : LooksOnce blind p looked)
    (hf : ∀ e looked, LooksOnce blind (f e) looked) : LooksOnce blind (tryCatch p f) looked :=
  Safe.tryCatch hp fun e looked _ => hf e looked

end

structure Looks (rules : Rules R E α σ τ) (blind : C → Bool) (core : τ → τ) (fresh : τ → Prop) : Prop where
  starts : ∀ t, rules.Starts t → fresh t.state ∧ LooksOnce blind t.prog false
  congr : ∀ c s t t', core t = core t' →
    (rules.handle c (s, t)).1 = (rules.handle c (s, t')).1 ∧
      (rules.handle c (s, t)).2.1 = (rules.handle c (s, t')).2.1 ∧
      core (rules.handle c (s, t)).2.2 = core (rules.handle c (s, t')).2.2
  unseen : ∀ c s s' t, blind c = true →
    (rules.handle c (s, t)).1 = (rules.handle c (s', t)).1 ∧
      core (rules.handle c (s, t)).2.2 = core (rules.handle c (s', t)).2.2
  /-- Before the look a task changes nothing. -/
  unchanged : ∀ c s t, blind c = true → fresh t →
    (rules.handle c (s, t)).2.1 = s ∧ fresh (rules.handle c (s, t)).2.2

/-- Two runs end with the same result and leave the same to their task. -/
def Same (core : τ → τ) (x y : Except E α × σ × τ) : Prop := x.1 = y.1 ∧ core x.2.2 = core y.2.2

section
variable {rules : Rules R E α σ τ} {blind : C → Bool} {core : τ → τ} {fresh : τ → Prop} {p : Prog R E α} {t t' : τ}

theorem Same.trans {x y z : Except E α × σ × τ} (h : Same core x y) (h' : Same core y z) : Same core x z :=
  ⟨h.1.trans h'.1, h.2.trans h'.2⟩

theorem Looks.run_congr (hl : Looks rules blind core fresh) (h : core t = core t') (s : σ) :
    Same core (p.run rules.handle (s, t)) (p.run rules.handle (s, t')) := by
  induction p generalizing s t t' with
  | ret a => exact ⟨rfl, h⟩
  | raise e => exact ⟨rfl, h⟩
  | call c k ih =>
    obtain ⟨hr, hs, hcore⟩ := hl.congr c s t t' h
    show Same core ((k (rules.handle c (s, t)).1).run rules.handle ((rules.handle c (s, t)).2.1, _))
      ((k (rules.handle c (s, t')).1).run rules.handle ((rules.handle c (s, t')).2.1, _))
    rw [hr, hs]
    exact ih _ hcore _

/-- After the look the shared state does not matter. -/
theorem Looks.run_blind (hl : Looks rules blind core fresh) (hp : LooksOnce blind p true) (h : core t = core t') (s s' : σ) :
    Same core (p.run rules.handle (s, t)) (p.run rules.handle (s', t')) := by
  induction p generalizing s s' t t' with
  | ret a => exact ⟨rfl, h⟩
  | raise e => exact ⟨rfl, h⟩
  | call c k ih =>
    obtain ⟨hr, hcore⟩ := hl.unseen c s s' t (hp.1 rfl)
    obtain ⟨hr', -, hcore'⟩ := hl.congr c s' t t' h
    show Same core ((k (rules.handle c (s, t)).1).run rules.handle (_, _))
      ((k (rules.handle c (s', t')).1).run rules.handle (_, _))
    rw [hr.trans hr']
    exact ih _ (hp.2 _) (hcore.trans hcore') _ _

/-- Task `i` started as `t`, and at `m'` it has started and not ended. -/
structure Moment (rules : Rules R E α σ τ) (m₀ m : Ensemble R E α σ τ) (i : Nat) (t : Task R E α τ)
    (m' : Ensemble R E α σ τ) : Prop where
  starts : rules.Starts t
  started : ∃ m₁, Reaches rules m₀ m₁ ∧ m₁.tasks i = none ∧ Reaches rules (m₁.move i m₁.shared t) m'
  after : Reaches rules m' m
  runs : ∃ t', m'.tasks i = some t' ∧ (t' = t ∨ ¬ t'.Ended)

theorem Moment.later {m₀ m m₁ m' : Ensemble R E α σ τ} {i : Nat} {t : Task R E α τ} (h : Moment rules m₀ m i t m')
    (hs : Step rules m m₁) : Moment rules m₀ m₁ i t m' :=
  { h with after := h.after.tail hs }

/-- Before the look a task has done nothing that it would not do alone at any moment, and since the look what it would
have done alone then. -/
inductive Looking (rules : Rules R E α σ τ) (blind : C → Bool) (core : τ → τ) (fresh : τ → Prop)
    (m₀ m : Ensemble R E α σ τ) (i : Nat) (t : Task R E α τ) : Prop where
  | before (t₀ : Task R E α τ) (m' : Ensemble R E α σ τ) (hm : Moment rules m₀ m i t₀ m') (hfresh : fresh t.state)
    (hp : LooksOnce blind t.prog false)
    (hsame : ∀ s, Same core (t₀.prog.run rules.handle (s, t₀.state)) (t.prog.run rules.handle (s, t.state)))
  | since (t₀ : Task R E α τ) (m' : Ensemble R E α σ τ) (hm : Moment rules m₀ m i t₀ m')
    (hp : LooksOnce blind t.prog true)
    (hsame : ∀ s, Same core (t₀.prog.run rules.handle (m'.shared, t₀.state)) (t.prog.run rules.handle (s, t.state)))

theorem Looking.later {m₀ m m₁ : Ensemble R E α σ τ} {i : Nat} {t : Task R E α τ}
    (h : Looking rules blind core fresh m₀ m i t) (hs : Step rules m m₁) : Looking rules blind core fresh m₀ m₁ i t := by
  cases h with
  | before t₀ m' hm hfresh hp hsame => exact .before t₀ m' (hm.later hs) hfresh hp hsame
  | since t₀ m' hm hp hsame => exact .since t₀ m' (hm.later hs) hp hsame

/-- A command of the task. -/
theorem Looking.call (hl : Looks rules blind core fresh) {m₀ m m₁ : Ensemble R E α σ τ} {i : Nat} {c : C}
    {k : R c → Prog R E α} {t : τ} (h : Looking rules blind core fresh m₀ m i ⟨.call c k, t⟩)
    (hi : m.tasks i = some ⟨.call c k, t⟩) (hs : Step rules m m₁) :
    Looking rules blind core fresh m₀ m₁ i
      ⟨k (rules.handle c (m.shared, t)).1, (rules.handle c (m.shared, t)).2.2⟩ := by
  cases h with
  | before t₀ m' hm hfresh hp hsame =>
    have hnext : LooksOnce blind (k (rules.handle c (m.shared, t)).1) (!blind c) := hp.2 _
    cases hblind : blind c with
    | true =>
      rw [hblind] at hnext
      refine .before t₀ m' (hm.later hs) (hl.unchanged c m.shared t hblind hfresh).2 hnext fun s => (hsame s).trans ?_
      obtain ⟨hr, hcore⟩ := hl.unseen c s m.shared t hblind
      show Same core ((k (rules.handle c (s, t)).1).run rules.handle ((rules.handle c (s, t)).2.1, _)) _
      rw [hr, (hl.unchanged c s t hblind hfresh).1]
      exact hl.run_congr hcore s
    | false =>
      rw [hblind] at hnext
      obtain ⟨m₂, hr, hfree, hr'⟩ := hm.started
      have hlook : Moment rules m₀ m₁ i t₀ m :=
        ⟨hm.starts, ⟨m₂, hr, hfree, hr'.trans hm.after⟩, .single hs, _, hi, .inr fun hended => hended c k rfl⟩
      exact .since t₀ m hlook hnext fun s => (hsame m.shared).trans (hl.run_blind hnext rfl _ s)
  | since t₀ m' hm hp hsame =>
    have hnext : LooksOnce blind (k (rules.handle c (m.shared, t)).1) true := hp.2 _
    exact .since t₀ m' (hm.later hs) hnext fun s => (hsame m.shared).trans (hl.run_blind hnext rfl _ s)

theorem Looks.looking (hl : Looks rules blind core fresh) {m₀ m : Ensemble R E α σ τ} (hnone : ∀ i, m₀.tasks i = none)
    (hr : Reaches rules m₀ m) : ∀ i t, m.tasks i = some t → Looking rules blind core fresh m₀ m i t := by
  induction hr with
  | refl =>
    intro i t hi
    rw [hnone i] at hi
    cases hi
  | tail hr hs ih =>
    intro j u hj
    cases hs with
    | start i t hfree ht =>
      rcases move_cases hj with ⟨rfl, rfl⟩ | ⟨-, hj⟩
      · obtain ⟨hfresh, hp⟩ := hl.starts _ ht
        have hm : Moment rules m₀ _ j u _ := ⟨ht, ⟨_, hr, hfree, .refl⟩, .refl, u, move_self .., .inl rfl⟩
        exact .before u _ hm hfresh hp fun s => ⟨rfl, rfl⟩
      · exact (ih j u hj).later (.start i t hfree ht)
    | call i c k s hi hgo =>
      rcases move_cases hj with ⟨rfl, rfl⟩ | ⟨-, hj⟩
      · exact (ih j _ hi).call hl hi (.call j c k s hi hgo)
      · exact (ih j u hj).later (.call i c k s hi hgo)

/-- What a task has done is what it would have done alone at one moment of its run. -/
theorem Looks.exists_moment (hl : Looks rules blind core fresh) {m₀ m : Ensemble R E α σ τ}
    (hnone : ∀ i, m₀.tasks i = none) (hr : Reaches rules m₀ m) {i : Nat} {t : Task R E α τ} (hi : m.tasks i = some t) :
    ∃ t₀ m' s, Moment rules m₀ m i t₀ m' ∧
      Same core (t₀.prog.run rules.handle (m'.shared, t₀.state)) (t.prog.run rules.handle (s, t.state)) := by
  cases hl.looking hnone hr i t hi with
  | before t₀ m' hm _ _ hsame => exact ⟨t₀, m', m'.shared, hm, hsame _⟩
  | since t₀ m' hm _ hsame => exact ⟨t₀, m', m.shared, hm, hsame _⟩

end

end Interleave
