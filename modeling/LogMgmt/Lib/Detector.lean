import Mathlib.Data.List.Perm.Subperm

/-!
# A sampled detector

Arrivals are looked at from time to time. A look sees those so far and counts the ones in the window that
ends with it; it raises an alert if there are enough and no alert is younger than the cooldown. Which bursts
are noticed so depends on when the looks are made: `run_ne_nil_iff` for an address without alerts,
`run_after_cooldown` for one that has alerted.
-/

/-- A look: its time, and the arrivals it sees. -/
structure Look where
  time : Int
  seen : List Int
deriving DecidableEq

structure Detector where
  threshold : Int
  window : Int
  cooldown : Int

namespace Detector
variable {d : Detector} {alerts : List Int} {looks : List Look} {l : Look} {t : Int}

/-- The arrivals in the window of a look. -/
def inWindow (d : Detector) (l : Look) : List Int := l.seen.filter fun x => l.time - d.window ≤ x

def Sees (d : Detector) (l : Look) : Prop := d.threshold ≤ (d.inWindow l).length

instance (d : Detector) (l : Look) : Decidable (d.Sees l) := inferInstanceAs (Decidable (_ ≤ _))

/-- Every alert is past the cooldown. -/
def Ready (d : Detector) (alerts : List Int) (l : Look) : Prop := ∀ t ∈ alerts, t ≤ l.time - d.cooldown

instance (d : Detector) (alerts : List Int) (l : Look) : Decidable (d.Ready alerts l) :=
  inferInstanceAs (Decidable (∀ t ∈ alerts, _))

def step (d : Detector) (alerts : List Int) (l : Look) : List Int :=
  if d.Sees l ∧ d.Ready alerts l then alerts ++ [l.time] else alerts

def run (d : Detector) (alerts : List Int) (looks : List Look) : List Int := looks.foldl d.step alerts

theorem run_append (looks looks' : List Look) : d.run alerts (looks ++ looks') = d.run (d.run alerts looks) looks' :=
  List.foldl_append

theorem mem_step (h : t ∈ alerts) : t ∈ d.step alerts l := by
  unfold step
  split
  · exact List.mem_append_left _ h
  · exact h

theorem mem_run (h : t ∈ alerts) : t ∈ d.run alerts looks := by
  induction looks generalizing alerts with
  | nil => exact h
  | cons l looks ih => exact ih (mem_step h)

/-- Without an earlier alert, there is one exactly if some look sees enough. -/
theorem run_ne_nil_iff : d.run [] looks ≠ [] ↔ ∃ l ∈ looks, d.Sees l := by
  induction looks with
  | nil => simp [run]
  | cons l looks ih =>
    by_cases hl : d.Sees l
    · have hstep : d.step [] l = [l.time] := by simp [step, Ready, hl]
      have hmem : l.time ∈ d.run (d.step [] l) looks := mem_run (by simp [hstep])
      exact ⟨fun _ => ⟨l, by simp, hl⟩, fun _ => List.ne_nil_of_mem hmem⟩
    · have hstep : d.step [] l = [] := by simp [step, hl]
      show d.run (d.step [] l) looks ≠ [] ↔ _
      rw [hstep, ih]
      simp [hl]

theorem run_eq_of_lt (ht : t ∈ alerts) (hlt : ∀ l ∈ looks, l.time < t + d.cooldown) : d.run alerts looks = alerts := by
  induction looks with
  | nil => rfl
  | cons l looks ih =>
    have hready : ¬ d.Ready alerts l := fun h => by
      have := h t ht
      have := hlt l (by simp)
      omega
    show d.run (d.step alerts l) looks = alerts
    rw [step, if_neg fun h => hready h.2]
    exact ih fun l hl => hlt l (by simp [hl])

/-- The first look after a cooldown decides by its own window. -/
theorem run_after_cooldown (ht : t ∈ alerts) (hlast : ∀ t' ∈ alerts, t' ≤ t)
    (hlt : ∀ l ∈ looks, l.time < t + d.cooldown) (hl : t + d.cooldown ≤ l.time) :
    d.run alerts (looks ++ [l]) = if d.Sees l then alerts ++ [l.time] else alerts := by
  have hready : d.Ready alerts l := fun t' ht' => by
    have := hlast t' ht'
    omega
  rw [run_append, run_eq_of_lt ht hlt]
  show d.step alerts l = _
  simp [step, hready]

/-- Enough arrivals within a window of one another. -/
structure Burst (d : Detector) (arrivals : List Int) : Prop where
  enough : d.threshold ≤ arrivals.length
  close : ∀ x ∈ arrivals, ∀ y ∈ arrivals, y - x ≤ d.window

/-- A look that sees the arrivals while all of them are in its window. -/
theorem Burst.sees {arrivals : List Int} (h : d.Burst arrivals) (hseen : arrivals.Subperm l.seen)
    (hwindow : ∀ x ∈ arrivals, l.time - d.window ≤ x) : d.Sees l := by
  have hfilter : arrivals.filter (fun x => l.time - d.window ≤ x) = arrivals :=
    List.filter_eq_self.2 fun x hx => by simpa using hwindow x hx
  have hsub : arrivals.Subperm (d.inWindow l) := hfilter ▸ hseen.filter _
  have := hsub.length_le
  have := h.enough
  unfold Sees
  omega

/-- A burst no longer than the window less the time to the look. -/
theorem Burst.sees_of_spread {arrivals : List Int} (h : d.Burst arrivals) (hseen : arrivals.Subperm l.seen)
    {last spread poll : Int} (hspread : ∀ x ∈ arrivals, last - spread ≤ x) (hpoll : l.time ≤ last + poll)
    (hwindow : spread + poll ≤ d.window) : d.Sees l :=
  h.sees hseen fun x hx => by
    have := hspread x hx
    omega

end Detector
