import LogMgmt.Lib.Prog
import Mathlib.Order.Basic

/-!
# Runs that agree

Two programs run on related states and end alike, in states that are related again. What the relation speaks
of can grow on the way: it is indexed by a world `w`, and the final states and results are related in a later
one. `I` relates the states in which programs return and `K` those in which they raise.
-/

namespace Prog
variable {C : Type} {R : C → Type} {E σ τ α β γ δ W : Type} [Preorder W]

/-- The runs end alike, with results in `V`, or with the same exception. -/
def Agree (h : Handler R σ) (h' : Handler R τ) (I K : W → σ → τ → Prop) (V : W → α → β → Prop) (w : W)
    (p : Prog R E α) (p' : Prog R E β) (s : σ) (t : τ) : Prop :=
  wp₂ h h' p p' (fun a b s t => ∃ w', w ≤ w' ∧ I w' s t ∧ V w' a b)
    (fun e e' s t => e = e' ∧ ∃ w', w ≤ w' ∧ K w' s t) s t

namespace Agree
variable {h : Handler R σ} {h' : Handler R τ} {I I' K K' : W → σ → τ → Prop} {V : W → α → β → Prop}
  {V' : W → γ → δ → Prop} {w w' : W} {p : Prog R E α} {p' : Prog R E β} {s : σ} {t : τ}

theorem pure {a : α} {b : β} (hI : I w s t) (hV : V w a b) : Agree (E := E) h h' I K V w (pure a) (pure b) s t :=
  ⟨w, le_rfl, hI, hV⟩

theorem throw {e : E} (hK : K w s t) : Agree h h' I K V w (throw e : Prog R E α) (throw e : Prog R E β) s t :=
  ⟨rfl, w, le_rfl, hK⟩

/-- What holds from a later world on holds from an earlier one. -/
theorem of_le (hw : w ≤ w') (hp : Agree h h' I K V w' p p' s t) : Agree h h' I K V w p p' s t := by
  refine wp₂_mono hp ?_ ?_
  · rintro a b s t ⟨w'', hw', hI⟩
    exact ⟨w'', hw.trans hw', hI⟩
  · rintro e e' s t ⟨rfl, w'', hw', hK⟩
    exact ⟨rfl, w'', hw.trans hw', hK⟩

theorem bind {f : α → Prog R E γ} {f' : β → Prog R E δ} (hp : Agree h h' I K V w p p' s t)
    (hf : ∀ w' a b s t, w ≤ w' → I w' s t → V w' a b → Agree h h' I' K V' w' (f a) (f' b) s t) :
    Agree h h' I' K V' w (p >>= f) (p' >>= f') s t := by
  refine wp₂_bind (wp₂_mono hp ?_ fun _ _ _ _ he => he)
  rintro a b s t ⟨w', hw, hI, hV⟩
  exact of_le hw (hf w' a b s t hw hI hV)

theorem tryCatch {f : E → Prog R E α} {f' : E → Prog R E β} (hp : Agree h h' I K V w p p' s t)
    (hf : ∀ w' e s t, w ≤ w' → K w' s t → Agree h h' I K' V w' (f e) (f' e) s t) :
    Agree h h' I K' V w (tryCatch p f) (tryCatch p' f') s t := by
  refine wp₂_tryCatch (wp₂_mono hp (fun _ _ _ _ hr => hr) ?_)
  rintro e _ s t ⟨rfl, w', hw, hK⟩
  exact of_le hw (hf w' e s t hw hK)

theorem forM {l : List γ} {f f' : γ → Prog R E PUnit}
    (hf : ∀ c ∈ l, ∀ w' s t, w ≤ w' → I w' s t → Agree h h' I K (fun _ _ _ => True) w' (f c) (f' c) s t)
    (hs : I w s t) : Agree h h' I K (fun _ _ _ => True) w (l.forM f) (l.forM f') s t := by
  induction l generalizing w s t with
  | nil => exact pure hs trivial
  | cons c l ih =>
    show Agree h h' I K _ w (f c >>= fun _ => l.forM f) (f' c >>= fun _ => l.forM f') s t
    refine bind (hf c List.mem_cons_self w s t le_rfl hs) fun w' _ _ s t hw hs _ => ?_
    exact ih (fun c hc w'' s t hw' => hf c (List.mem_cons_of_mem _ hc) w'' s t (hw.trans hw')) hs

end Agree
end Prog
