import Mathlib.Data.List.Forall2

/-!
# Programs over a command interface

`Prog R E α`: a program that issues commands `c : C`, each answered by a value of `R c`, and ends with
a result in `α` or raises an `E`. A program says only what it asks for and in which order; a
`Handler` says how a command is carried out on a state. The same program can so be run to its end
(`run`, with the predicate transformer `wp` and its relational form `wp₂`) or be taken one command at
a time by a scheduler that gives any answers it likes (`Safe`: what every such execution obeys).
-/

/-- A program issuing commands of the interface `R`. -/
inductive Prog {C : Type} (R : C → Type) (E α : Type) where
  | ret (a : α)
  | raise (e : E)
  | call (c : C) (k : R c → Prog R E α)

namespace Prog
variable {C : Type} {R : C → Type} {E σ τ α β γ : Type}

protected def bind : Prog R E α → (α → Prog R E β) → Prog R E β
  | ret a, f => f a
  | raise e, _ => raise e
  | call c k, f => call c fun r => (k r).bind f

/-- `try p except e: f e` -/
protected def tryCatch : Prog R E α → (E → Prog R E α) → Prog R E α
  | ret a, _ => ret a
  | raise e, f => f e
  | call c k, f => call c fun r => (k r).tryCatch f

instance : Monad (Prog R E) where
  pure := ret
  bind := Prog.bind

instance : MonadExceptOf E (Prog R E) where
  throw := raise
  tryCatch := Prog.tryCatch

/-- Issue one command. -/
def perform (c : C) : Prog R E (R c) := call c ret

theorem ret_bind (a : α) (f : α → Prog R E β) : (ret a >>= f) = f a := rfl

theorem call_bind (c : C) (k : R c → Prog R E α) (f : α → Prog R E β) :
    (call c k >>= f) = call c fun r => k r >>= f := rfl

theorem bind_ret (p : Prog R E α) : p >>= ret = p := by
  induction p with
  | ret a => rfl
  | raise e => rfl
  | call c k ih => rw [call_bind]; exact congrArg _ (funext ih)

theorem bind_assoc' (p : Prog R E α) (f : α → Prog R E β) (g : β → Prog R E γ) :
    p >>= f >>= g = p >>= fun a => f a >>= g := by
  induction p with
  | ret a => rfl
  | raise e => rfl
  | call c k ih => simp only [call_bind]; exact congrArg _ (funext ih)

instance : LawfulMonad (Prog R E) := LawfulMonad.mk' (Prog R E) bind_ret ret_bind bind_assoc'

/-- How commands are carried out: the answer and the next state. -/
abbrev Handler (R : C → Type) (σ : Type) := (c : C) → σ → R c × σ

/-- Run a program to its end. -/
def run (h : Handler R σ) : Prog R E α → σ → Except E α × σ
  | ret a, s => (.ok a, s)
  | raise e, s => (.error e, s)
  | call c k, s => run h (k (h c s).1) (h c s).2

/-- A program that has ended. -/
def ofExcept : Except E α → Prog R E α
  | .ok a => ret a
  | .error e => raise e

section run
variable {h : Handler R σ} {s : σ}

theorem run_ofExcept (x : Except E α) : run h (ofExcept x) s = (x, s) := by
  cases x <;> rfl

theorem run_perform (c : C) : run h (perform c : Prog R E (R c)) s = (.ok (h c s).1, (h c s).2) := rfl

theorem run_bind (p : Prog R E α) (f : α → Prog R E β) :
    run h (p >>= f) s = match run h p s with
      | (.ok a, s') => run h (f a) s'
      | (.error e, s') => (.error e, s') := by
  induction p generalizing s with
  | ret a => rfl
  | raise e => rfl
  | call c k ih => exact ih _

theorem run_tryCatch (p : Prog R E α) (f : E → Prog R E α) :
    run h (tryCatch p f) s = match run h p s with
      | (.ok a, s') => (.ok a, s')
      | (.error e, s') => run h (f e) s' := by
  induction p generalizing s with
  | ret a => rfl
  | raise e => rfl
  | call c k ih => exact ih _

/-- `try: p except: pass` returns. -/
theorem run_ignore (p : Prog R E Unit) : run h (tryCatch p fun _ => pure ()) s = (.ok (), (run h p s).2) := by
  rw [run_tryCatch]
  rcases run h p s with ⟨_ | ⟨⟨⟩⟩, _⟩ <;> rfl

end run

/-! ### Weakest preconditions -/

/-- A run ends in `Q`, or in `X` if it raises. -/
def Ends (Q : α → σ → Prop) (X : E → σ → Prop) : Except E α × σ → Prop
  | (.ok a, s) => Q a s
  | (.error e, s) => X e s

@[simp] theorem ends_ok {Q : α → σ → Prop} {X : E → σ → Prop} {a : α} {s : σ} :
    Ends Q X (.ok a, s) ↔ Q a s := Iff.rfl

@[simp] theorem ends_error {Q : α → σ → Prop} {X : E → σ → Prop} {e : E} {s : σ} :
    Ends Q X (.error e, s) ↔ X e s := Iff.rfl

/-- The run of `p` from `s` ends in `Q`, or in `X` if it raises. -/
def wp (h : Handler R σ) (p : Prog R E α) (Q : α → σ → Prop) (X : E → σ → Prop) (s : σ) : Prop :=
  Ends Q X (run h p s)

section wp
variable {h : Handler R σ} {Q Q' : α → σ → Prop} {X X' : E → σ → Prop} {s : σ}

@[simp] theorem wp_pure (a : α) : wp h (pure a) Q X s ↔ Q a s := Iff.rfl

@[simp] theorem wp_throw (e : E) : wp h (throw e : Prog R E α) Q X s ↔ X e s := Iff.rfl

theorem wp_perform (c : C) {Q : R c → σ → Prop} :
    wp h (perform c) Q X s ↔ Q (h c s).1 (h c s).2 := Iff.rfl

theorem wp_bind (p : Prog R E α) (f : α → Prog R E β) {Q : β → σ → Prop} :
    wp h (p >>= f) Q X s ↔ wp h p (fun a s' => wp h (f a) Q X s') X s := by
  unfold wp
  rw [run_bind]
  rcases run h p s with ⟨_ | _, _⟩ <;> rfl

theorem wp_tryCatch (p : Prog R E α) (f : E → Prog R E α) :
    wp h (tryCatch p f) Q X s ↔ wp h p Q (fun e s' => wp h (f e) Q X s') s := by
  unfold wp
  rw [run_tryCatch]
  rcases run h p s with ⟨_ | _, _⟩ <;> rfl

theorem wp_mono {p : Prog R E α} (hp : wp h p Q X s) (hQ : ∀ a s', Q a s' → Q' a s')
    (hX : ∀ e s', X e s' → X' e s') : wp h p Q' X' s := by
  unfold wp at hp ⊢
  revert hp
  rcases run h p s with ⟨_ | _, _⟩
  · exact hX _ _
  · exact hQ _ _

theorem wp_and {p : Prog R E α} (h₁ : wp h p Q X s) (h₂ : wp h p Q' X' s) :
    wp h p (fun a s' => Q a s' ∧ Q' a s') (fun e s' => X e s' ∧ X' e s') s := by
  unfold wp at *
  revert h₁ h₂
  rcases run h p s with ⟨_ | _, _⟩ <;> exact And.intro

/-- A run that has returned is where it returns. -/
theorem wp_of_ok {p : Prog R E α} {a : α} (hp : wp h p Q X s) (ha : (run h p s).1 = .ok a) : Q a (run h p s).2 := by
  unfold wp at hp
  revert hp ha
  rcases run h p s with ⟨_ | a', s'⟩
  · rintro - ⟨⟩
  · rintro hp ⟨⟩
    exact hp

/-- A condition on the final state alone. -/
theorem wp_state {p : Prog R E α} {I : σ → Prop} : wp h p (fun _ => I) (fun _ => I) s ↔ I (run h p s).2 := by
  unfold wp
  rcases run h p s with ⟨_ | _, _⟩ <;> rfl

/-- A loop over a list: `I` speaks of the elements done so far. -/
theorem wp_forM {I : List β → σ → Prop} (l : List β) (f : β → Prog R E PUnit)
    (hf : ∀ done b rest, l = done ++ b :: rest → ∀ s, I done s →
      wp h (f b) (fun _ => I (done ++ [b])) X s) (hs : I [] s) :
    wp h (l.forM f) (fun _ => I l) X s := by
  suffices ∀ rest done s, l = done ++ rest → I done s → wp h (rest.forM f) (fun _ => I l) X s from
    this l [] s rfl hs
  intro rest
  induction rest with
  | nil =>
    rintro done s hl hs
    rw [List.append_nil] at hl
    exact hl ▸ hs
  | cons b rest ih =>
    rintro done s hl hs
    show wp h (f b >>= fun _ => rest.forM f) _ X s
    rw [wp_bind]
    exact wp_mono (hf done b rest hl s hs) (fun _ s' hs' => ih (done ++ [b]) s' (by simp [hl]) hs')
      fun _ _ he => he

end wp

/-! ### Records -/

/-- The handler, with a record of what `label` says of each command and the state it finds. -/
def recorded {ω : Type} (label : C → σ → List ω) (h : Handler R σ) : Handler R (σ × List ω) :=
  fun c t => ((h c t.1).1, (h c t.1).2, t.2 ++ label c t.1)

/-- A record changes nothing. -/
theorem wp_recorded {ω : Type} {label : C → σ → List ω} {h : Handler R σ} {p : Prog R E α} {Q : α → σ → Prop}
    {X : E → σ → Prop} {t : σ × List ω} :
    wp (recorded label h) p (fun a t' => Q a t'.1) (fun e t' => X e t'.1) t ↔ wp h p Q X t.1 := by
  induction p generalizing t with
  | ret a => rfl
  | raise e => rfl
  | call c k ih => exact ih _

/-! ### Two runs -/

/-- Two runs end alike: both return or both raise. -/
def wp₂ (h : Handler R σ) (h' : Handler R τ) (p : Prog R E α) (p' : Prog R E β)
    (Φ : α → β → σ → τ → Prop) (Ψ : E → E → σ → τ → Prop) (s : σ) (t : τ) : Prop :=
  match run h p s, run h' p' t with
  | (.ok a, s'), (.ok b, t') => Φ a b s' t'
  | (.error e, s'), (.error e', t') => Ψ e e' s' t'
  | _, _ => False

section wp₂
variable {h : Handler R σ} {h' : Handler R τ} {Ψ Ψ' : E → E → σ → τ → Prop} {s : σ} {t : τ}

theorem wp₂_mono {p : Prog R E α} {p' : Prog R E β} {Φ Φ' : α → β → σ → τ → Prop}
    (hp : wp₂ h h' p p' Φ Ψ s t) (hΦ : ∀ a b s t, Φ a b s t → Φ' a b s t)
    (hΨ : ∀ e e' s t, Ψ e e' s t → Ψ' e e' s t) : wp₂ h h' p p' Φ' Ψ' s t := by
  unfold wp₂ at hp ⊢
  revert hp
  rcases run h p s with ⟨_ | _, _⟩ <;> rcases run h' p' t with ⟨_ | _, _⟩
  · exact hΨ _ _ _ _
  · exact id
  · exact id
  · exact hΦ _ _ _ _

theorem wp₂_bind {α' β' : Type} {p : Prog R E α} {p' : Prog R E β} {f : α → Prog R E α'}
    {f' : β → Prog R E β'} {Φ : α' → β' → σ → τ → Prop}
    (hp : wp₂ h h' p p' (fun a b s t => wp₂ h h' (f a) (f' b) Φ Ψ s t) Ψ s t) :
    wp₂ h h' (p >>= f) (p' >>= f') Φ Ψ s t := by
  unfold wp₂ at hp ⊢
  rw [run_bind, run_bind]
  revert hp
  rcases run h p s with ⟨_ | _, _⟩ <;> rcases run h' p' t with ⟨_ | _, _⟩
  · exact id
  · exact False.elim
  · exact False.elim
  · exact id

theorem wp₂_tryCatch {p : Prog R E α} {p' : Prog R E β} {f : E → Prog R E α}
    {f' : E → Prog R E β} {Φ : α → β → σ → τ → Prop}
    (hp : wp₂ h h' p p' Φ (fun e e' s t => wp₂ h h' (f e) (f' e') Φ Ψ s t) s t) :
    wp₂ h h' (tryCatch p f) (tryCatch p' f') Φ Ψ s t := by
  unfold wp₂ at hp ⊢
  rw [run_tryCatch, run_tryCatch]
  revert hp
  rcases run h p s with ⟨_ | _, _⟩ <;> rcases run h' p' t with ⟨_ | _, _⟩
  · exact id
  · exact False.elim
  · exact False.elim
  · exact id

end wp₂

/-! ### Any answers -/

/-- Whatever the answers, every command of the program is allowed in the abstract state it is issued
in, and the program returns in `J` or raises in `K`; `next` is how an answered command moves the
abstract state. -/
def Safe (ok : τ → C → Prop) (next : τ → (c : C) → R c → τ) (J K : τ → Prop) : Prog R E α → τ → Prop
  | ret _, t => J t
  | raise _, t => K t
  | call c k, t => ok t c ∧ ∀ r, Safe ok next J K (k r) (next t c r)

section Safe
variable {ok : τ → C → Prop} {next : τ → (c : C) → R c → τ} {J J' K L : τ → Prop} {t : τ}

theorem Safe.mono {p : Prog R E α} (hp : Safe ok next J K p t) (hJ : ∀ t, J t → J' t)
    (hK : ∀ t, K t → L t) : Safe ok next J' L p t := by
  induction p generalizing t with
  | ret a => exact hJ t hp
  | raise e => exact hK t hp
  | call c k ih => exact ⟨hp.1, fun r => ih r (hp.2 r)⟩

theorem Safe.imp {ok' : τ → C → Prop} {p : Prog R E α} (hp : Safe ok next J K p t)
    (hok : ∀ t c, ok t c → ok' t c) : Safe ok' next J K p t := by
  induction p generalizing t with
  | ret a => exact hp
  | raise e => exact hp
  | call c k ih => exact ⟨hok t c hp.1, fun r => ih r (hp.2 r)⟩

theorem Safe.bind {p : Prog R E α} {f : α → Prog R E β} (hp : Safe ok next J K p t)
    (hf : ∀ a t, J t → Safe ok next J' K (f a) t) : Safe ok next J' K (p >>= f) t := by
  induction p generalizing t with
  | ret a => exact hf a t hp
  | raise e => exact hp
  | call c k ih => exact ⟨hp.1, fun r => ih r (hp.2 r)⟩

theorem Safe.tryCatch {p : Prog R E α} {f : E → Prog R E α} (hp : Safe ok next J L p t)
    (hf : ∀ e t, L t → Safe ok next J K (f e) t) : Safe ok next J K (tryCatch p f) t := by
  induction p generalizing t with
  | ret a => exact hp
  | raise e => exact hf e t hp
  | call c k ih => exact ⟨hp.1, fun r => ih r (hp.2 r)⟩

theorem Safe.forM {l : List β} {f : β → Prog R E PUnit}
    (hf : ∀ b ∈ l, ∀ t, J t → Safe ok next J K (f b) t) (ht : J t) : Safe ok next J K (l.forM f) t := by
  induction l generalizing t with
  | nil => exact ht
  | cons b l ih =>
    exact (hf b (by simp) t ht).bind fun _ t ht => ih (fun b hb => hf b (by simp [hb])) ht

end Safe

/-- Whatever the answers, the program issues only commands in `ok`. -/
abbrev Issues (ok : C → Prop) (p : Prog R E α) : Prop :=
  Safe (fun _ : Unit => ok) (fun _ _ _ => ()) (fun _ => True) (fun _ => True) p ()

section Issues
variable {ok : C → Prop} {p : Prog R E α}

theorem Issues.perform {c : C} (h : ok c) : Issues (E := E) ok (perform (R := R) c) := ⟨h, fun _ => trivial⟩

theorem Issues.bind {f : α → Prog R E β} (hp : Issues ok p) (hf : ∀ a, Issues ok (f a)) : Issues ok (p >>= f) :=
  Safe.bind hp fun a _ _ => hf a

theorem Issues.tryCatch {f : E → Prog R E α} (hp : Issues ok p) (hf : ∀ e, Issues ok (f e)) :
    Issues ok (tryCatch p f) :=
  Safe.tryCatch hp fun e _ _ => hf e

theorem Issues.of_forall (h : ∀ c, ok c) (p : Prog R E α) : Issues ok p := by
  induction p with
  | ret a => trivial
  | raise e => trivial
  | call c k ih => exact ⟨h c, ih⟩

end Issues

/-- Whatever the answers, the program returns in `P` or raises. -/
def Returns (P : α → Prop) : Prog R E α → Prop
  | ret a => P a
  | raise _ => True
  | call _ k => ∀ r, Returns P (k r)

section Returns
variable {P : α → Prop} {p : Prog R E α}

theorem Returns.any (p : Prog R E α) : Returns (fun _ => True) p := by
  induction p with
  | ret a => trivial
  | raise e => trivial
  | call c k ih => exact ih

theorem Returns.bind {P' : β → Prop} {f : α → Prog R E β} (hp : Returns P p) (hf : ∀ a, P a → Returns P' (f a)) :
    Returns P' (p >>= f) := by
  induction p with
  | ret a => exact hf a hp
  | raise e => trivial
  | call c k ih => exact fun r => ih r (hp r)

theorem Returns.tryCatch {f : E → Prog R E α} (hp : Returns P p) (hf : ∀ e, Returns P (f e)) :
    Returns P (tryCatch p f) := by
  induction p with
  | ret a => exact hp
  | raise e => exact hf e
  | call c k ih => exact fun r => ih r (hp r)

theorem Returns.run {h : Handler R σ} {s s' : σ} {a : α} (hp : Returns P p) (hr : run h p s = (.ok a, s')) : P a := by
  induction p generalizing s with
  | ret b =>
    cases hr
    exact hp
  | raise e => cases hr
  | call c k ih => exact ih _ (hp _) hr

end Returns

/-- A run stays where the abstract states allow: a state property that the allowed commands keep is kept. -/
theorem Safe.wp {ok : τ → C → Prop} {next : τ → (c : C) → R c → τ} {J K : τ → Prop} {p : Prog R E α}
    {h : Handler R σ} {I : σ → Prop} {f : σ → τ} {s : σ} (hp : Safe ok next J K p (f s))
    (hf : ∀ c s, f (h c s).2 = next (f s) c (h c s).1) (hI : ∀ c s, ok (f s) c → I s → I (h c s).2)
    (hs : I s) : wp h p (fun _ s' => I s' ∧ J (f s')) (fun _ s' => I s' ∧ K (f s')) s := by
  induction p generalizing s with
  | ret a => exact ⟨hs, hp⟩
  | raise e => exact ⟨hs, hp⟩
  | call c k ih =>
    refine ih _ ?_ (hI c s hp.1 hs)
    rw [hf]
    exact hp.2 _

/-- A map of states that the allowed commands do not notice is not noticed by the run. -/
theorem Safe.run_map {υ : Type} {ok : τ → C → Prop} {next : τ → (c : C) → R c → τ} {J K : τ → Prop} {p : Prog R E α}
    {h : Handler R σ} {h' : Handler R υ} {I : σ → Prop} {f : σ → τ} {g : σ → υ} {s : σ} (hp : Safe ok next J K p (f s))
    (hf : ∀ c s, f (h c s).2 = next (f s) c (h c s).1) (hI : ∀ c s, ok (f s) c → I s → I (h c s).2)
    (hg : ∀ c s, ok (f s) c → I s → h' c (g s) = ((h c s).1, g (h c s).2)) (hs : I s) :
    p.run h' (g s) = ((p.run h s).1, g (p.run h s).2) := by
  induction p generalizing s with
  | ret a => rfl
  | raise e => rfl
  | call c k ih =>
    have hc := hg c s hp.1 hs
    show (k (h' c (g s)).1).run h' (h' c (g s)).2 = _
    rw [hc]
    exact ih _ (by rw [hf]; exact hp.2 _) (hI c s hp.1 hs)

/-- A state property that the allowed commands keep is kept by the run. -/
theorem Issues.wp {ok : C → Prop} {p : Prog R E α} (hp : Issues ok p) {h : Handler R σ} {I : σ → Prop}
    (hI : ∀ c s, ok c → I s → I (h c s).2) {s : σ} (hs : I s) :
    wp h p (fun _ => I) (fun _ => I) s :=
  wp_mono (Safe.wp (f := fun _ => ()) hp (fun _ _ => rfl) hI hs) (fun _ _ h => h.1) fun _ _ h => h.1

/-! ### Commands of one run -/

/-- Every command of the run is issued in a state where `ok` allows it. -/
def Along (h : Handler R σ) (ok : C → σ → Prop) : Prog R E α → σ → Prop
  | ret _, _ => True
  | raise _, _ => True
  | call c k, s => ok c s ∧ Along h ok (k (h c s).1) (h c s).2

/-- Whatever the answers, the program returns exactly if no command fails and none `failedBefore`, and
issues only `mild` commands once one has. -/
abbrev Strict (failed : (c : C) → R c → Bool) (mild : C → Prop) (p : Prog R E α) (failedBefore : Bool) : Prop :=
  Safe (fun b c => b = true → mild c) (fun b c r => b || failed c r) (fun b => b = false) (fun b => b = true)
    p failedBefore

section Strict
variable {h : Handler R σ} {failed : (c : C) → R c → Bool} {mild : C → Prop} {bad : σ → Prop} {p : Prog R E α}
  {s : σ} {b : Bool}

theorem Strict.call {c : C} {k : R c → Prog R E α} (hp : Strict failed mild (call c k) b) {r : R c} {b' : Bool}
    (hr : failed c r = b') : Strict failed mild (k r) (b || b') := hr ▸ hp.2 r

/-- After a failure nothing turns `bad`. -/
theorem Strict.along_of_failed (hmild : ∀ c s, mild c → ¬ bad s → ¬ bad (h c s).2)
    (hp : Strict failed mild p true) (hs : ¬ bad s) :
    Along h (fun c s => ¬ bad s ∨ failed c (h c s).1 = false) p s := by
  induction p generalizing s with
  | ret a => trivial
  | raise e => trivial
  | call c k ih => exact ⟨.inl hs, ih _ (hp.call rfl) (hmild c s (hp.1 rfl) hs)⟩

/-- A program in which a command has failed raises. -/
theorem Strict.wp_of_failed (hbad : ∀ c s, bad s → bad (h c s).2) (hp : Strict failed mild p true) (hs : bad s) :
    wp h p (fun _ _ => False) (fun _ => bad) s := by
  induction p generalizing s with
  | ret a => cases hp
  | raise e => exact hs
  | call c k ih => exact ih _ (hp.call rfl) (hbad c s hs)

theorem Strict.wp_of_along (hmild : ∀ c s, mild c → ¬ bad s → ¬ bad (h c s).2)
    (hfail : ∀ c s, failed c (h c s).1 = true → ¬ bad s → ¬ bad (h c s).2) (hp : Strict failed mild p b)
    (ha : Along h (fun c s => ¬ bad s ∨ failed c (h c s).1 = false) p s) (hs : b = true → ¬ bad s) :
    wp h p (fun _ _ => True) (fun _ s' => ¬ bad s') s := by
  induction p generalizing s b with
  | ret a => trivial
  | raise e => exact hs hp
  | call c k ih =>
    cases hf : failed c (h c s).1 with
    | true => exact ih _ (hp.call hf) ha.2 fun _ => hfail c s hf (ha.1.resolve_right (by simp [hf]))
    | false =>
      refine ih _ (hp.call hf) ha.2 fun hb => ?_
      rw [Bool.or_false] at hb
      exact hmild c s (hp.1 hb) (hs hb)

theorem Strict.wp_of_not_along (hmild : ∀ c s, mild c → ¬ bad s → ¬ bad (h c s).2)
    (hfail : ∀ c s, failed c (h c s).1 = true → ¬ bad s → ¬ bad (h c s).2)
    (hbad : ∀ c s, bad s → bad (h c s).2) (hp : Strict failed mild p false)
    (ha : ¬ Along h (fun c s => ¬ bad s ∨ failed c (h c s).1 = false) p s) :
    wp h p (fun _ _ => False) (fun _ => bad) s := by
  induction p generalizing s with
  | ret a => exact absurd trivial ha
  | raise e => exact absurd trivial ha
  | call c k ih =>
    cases hf : failed c (h c s).1 with
    | false => exact ih _ (hp.call hf) fun hrest => ha ⟨.inr hf, hrest⟩
    | true =>
      by_cases hs : bad s
      · have hk : Strict failed mild (k (h c s).1) true := hp.call hf
        exact hk.wp_of_failed hbad (s := (h c s).2) (hbad c s hs)
      · exact absurd ⟨.inl hs, (hp.call hf).along_of_failed hmild (hfail c s hf hs)⟩ ha

/-- A program that stops at its first failure raises in a `bad` state exactly when a command failed in one. -/
theorem Strict.along_iff (bad : σ → Prop) (hmild : ∀ c s, mild c → ¬ bad s → ¬ bad (h c s).2)
    (hfail : ∀ c s, failed c (h c s).1 = true → ¬ bad s → ¬ bad (h c s).2)
    (hbad : ∀ c s, bad s → bad (h c s).2) (hp : Strict failed mild p false) :
    Along h (fun c s => ¬ bad s ∨ failed c (h c s).1 = false) p s ↔
      wp h p (fun _ _ => True) (fun _ s' => ¬ bad s') s := by
  refine ⟨fun ha => hp.wp_of_along hmild hfail ha (by simp), fun hw => ?_⟩
  by_contra ha
  have hw' := hp.wp_of_not_along hmild hfail hbad ha
  unfold wp at hw hw'
  rcases hr : run h p s with ⟨_ | _, _⟩ <;> rw [hr] at hw hw'
  · exact hw hw'
  · exact hw'

end Strict

end Prog
