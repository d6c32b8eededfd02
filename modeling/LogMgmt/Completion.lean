import LogMgmt.Requests

/-!
# Requests come to their end

A request writes one row and then only ends its transactions, so one that another waits for waits for nobody itself:
there is no deadlock, and whatever is going on can be finished (`requests_complete`).
-/

namespace LogMgmt
open Prog Interleave

/-! ### After the change -/

/-- The request has only to end its transactions. -/
def Tx.Past : Tx → Prop
  | start _ | reading => False
  | _ => True

/-- A request that has written its row. -/
def Leaving (w : World) (t : Task Cmd.Answer Exn Response Running) : Prop :=
  ∃ τ : Tx, τ.Past ∧ App.Makes w.pg (t.state.call.change w) t.prog τ ∧ τ.Holds w.pg t.state

section
variable {w : World} {t : Task Cmd.Answer Exn Response Running} {q q' : Running} {c : Cmd}
  {k : c.Answer → App Response}

theorem Tx.Past.next {τ : Tx} (h : τ.Past) (hok : τ.ok c) (r : c.Answer) : (τ.next c r).Past := by
  cases τ with
  | start autocommit => cases h
  | reading => cases h
  | wrote stmt r' =>
    cases c with
    | commit => cases r <;> trivial
    | rollback => trivial
    | _ => cases hok
  | kept stmt r' =>
    cases c with
    | commit => cases r <;> trivial
    | _ => cases hok
  | closed =>
    cases c with
    | commit | rollback => trivial
    | _ => cases hok
  | impossible => trivial

/-- Only a statement waits. -/
theorem not_waits_of_pending_nil (h : q'.session.pending = []) : ¬ (programs w).Waits q c q' := by
  rintro ⟨write, hwrite, -⟩
  rw [h] at hwrite
  cases hwrite

theorem not_waits_of_leaving (h : Leaving w ⟨.call c k, q⟩) : ¬ (programs w).Waits q c q' := by
  rintro ⟨write, -, hblocks⟩
  obtain ⟨τ, hpast, ⟨hok, -⟩, hholds⟩ := h
  cases τ with
  | start autocommit => cases hpast
  | reading => cases hpast
  | impossible => cases hholds
  | _ =>
    cases c with
    | sql stmt => cases hok
    | _ => cases write <;> cases hblocks

theorem Leaving.carry (h : Leaving w ⟨.call c k, q⟩) (db : Db) :
    Leaving w ⟨k (carry w.pg c (db, q)).1, (carry w.pg c (db, q)).2.2⟩ := by
  obtain ⟨τ, hpast, ⟨hok, hmakes⟩, hholds⟩ := h
  exact ⟨_, hpast.next hok _, hmakes _, hholds.carry hok db⟩

theorem Underway.carry (h : Underway w ⟨.call c k, q⟩) (db : Db) :
    Underway w ⟨k (carry w.pg c (db, q)).1, (carry w.pg c (db, q)).2.2⟩ :=
  ((keeps_underway w).own db c k q trivial h).2

theorem Leaving.underway (h : Leaving w t) : Underway w t := by
  obtain ⟨τ, -, hmakes, hholds⟩ := h
  exact ⟨τ, hmakes, hholds⟩

/-- A request that holds a row is past its change. -/
theorem Underway.leaving (h : Underway w t) (hpending : t.state.session.pending ≠ []) : Leaving w t := by
  obtain ⟨τ, hmakes, hholds⟩ := h
  refine ⟨τ, ?_, hmakes, hholds⟩
  cases τ with
  | start autocommit => exact hpending hholds.2.2.1
  | reading => exact hpending hholds.2.1
  | _ => trivial

/-- A request that has ended holds nothing. -/
theorem Underway.pending_of_ended (h : Underway w t) (hended : t.Ended) : t.state.session.pending = [] := by
  obtain ⟨τ, hmakes, hholds⟩ := h
  have hnot : ∀ stmt r, τ ≠ .wrote stmt r := by
    rintro stmt r rfl
    rcases t with ⟨_ | _ | ⟨c, k⟩, q⟩
    · cases hmakes
    · cases hmakes
    · exact hended c k rfl
  cases τ with
  | start autocommit => exact hholds.2.2.1
  | reading => exact hholds.2.1
  | wrote stmt r => exact absurd rfl (hnot stmt r)
  | kept stmt r => exact hholds.2.1
  | closed => exact hholds.1
  | impossible => cases hholds

end

/-! ### All of them -/

section
variable {w : World} {m : Traffic}

/-- The requests that hold a row let go of it. -/
theorem reaches_released (h : ∀ i t, m.tasks i = some t → Underway w t) (hfinite : ∃ n, ∀ i, n ≤ i → m.tasks i = none) :
    ∃ m', Reaches (programs w) m m' ∧ (∀ i, m'.tasks i = none ↔ m.tasks i = none) ∧
      ∀ i t, m'.tasks i = some t → Underway w t ∧ t.state.session.pending = [] := by
  refine reaches_each (fun m hm i t hi => ?_) h hfinite
  by_cases hpending : t.state.session.pending = []
  · exact ⟨m.shared, t, hm i t hi, hpending, by rw [move_eq_self hi]⟩
  · obtain ⟨s, u, hu, hended, hreach⟩ := reaches_ended hi ((hm i t hi).leaving hpending)
      (fun c k q hq j u _ _ => not_waits_of_leaving hq) fun c k q db hq => hq.carry db
    exact ⟨s, u, hu.underway, hu.underway.pending_of_ended hended, hreach⟩

/-- Nobody holds a row, so each request can go on to its end. -/
theorem reaches_finished (h : ∀ i t, m.tasks i = some t → Underway w t ∧ t.state.session.pending = [])
    (hfinite : ∃ n, ∀ i, n ≤ i → m.tasks i = none) :
    ∃ m', Reaches (programs w) m m' ∧ (∀ i, m'.tasks i = none ↔ m.tasks i = none) ∧
      ∀ i t, m'.tasks i = some t → (Underway w t ∧ t.state.session.pending = []) ∧ t.Ended := by
  refine reaches_each (fun m hm i t hi => ?_) h hfinite
  obtain ⟨s, u, hu, hended, hreach⟩ := reaches_ended hi (hm i t hi).1
    (fun c k q _ j u _ hj => not_waits_of_pending_nil (hm j u hj).2) fun c k q db hq => hq.carry db
  exact ⟨s, u, ⟨hu, hu.pending_of_ended hended⟩, hended, hreach⟩

end

/-- In every interleaving a request that others wait for waits for nobody, and all that have started can be brought to
their end without another one. -/
theorem requests_complete (w : World) {m₀ m : Traffic} (hnone : ∀ i, m₀.tasks i = none)
    (hr : Reaches (programs w) m₀ m) :
    (∀ i j c k q u, m.tasks i = some ⟨.call c k, q⟩ → m.tasks j = some u → (programs w).Waits q c u.state →
      ∃ c' k' q', u = ⟨.call c' k', q'⟩ ∧ ∀ l v, m.tasks l = some v → ¬ (programs w).Waits q' c' v.state) ∧
    ∃ m', Reaches (programs w) m m' ∧ (∀ i, m'.tasks i = none ↔ m.tasks i = none) ∧
      ∀ i t, m'.tasks i = some t → t.Ended := by
  have hunderway := underway_of_reaches hnone hr
  have hfinite := finite_tasks hr ⟨0, fun i _ => hnone i⟩
  constructor
  · intro i j c k q u _ hj hwaits
    have hpending : u.state.session.pending ≠ [] := fun hc => not_waits_of_pending_nil hc hwaits
    have hleaving := (hunderway j u hj).leaving hpending
    rcases u with ⟨_ | _ | ⟨c', k'⟩, q'⟩
    · exact absurd ((hunderway j _ hj).pending_of_ended (by simp [Task.Ended])) hpending
    · exact absurd ((hunderway j _ hj).pending_of_ended (by simp [Task.Ended])) hpending
    · exact ⟨c', k', q', rfl, fun l v _ => not_waits_of_leaving hleaving⟩
  · obtain ⟨m₁, hreach₁, hsame₁, hreleased⟩ := reaches_released hunderway hfinite
    obtain ⟨m₂, hreach₂, hsame₂, hfinished⟩ := reaches_finished hreleased (finite_tasks hreach₁ hfinite)
    exact ⟨m₂, hreach₁.trans hreach₂, fun i => (hsame₂ i).trans (hsame₁ i), fun i t hi => (hfinished i t hi).2⟩

/-- Of two POSTs the second waits for the first, which waits for nobody, and both are brought to their end. -/
theorem requests_complete_posts : Waiting (programs .sample) (Traffic.posts 5) 1 0 ∧
    (∀ j, ¬ Waiting (programs .sample) (Traffic.posts 5) 0 j) ∧
    ∃ m' t u, Reaches (programs .sample) (Traffic.posts 5) m' ∧ m'.tasks 0 = some t ∧ t.Ended ∧ m'.tasks 1 = some u ∧
      u.Ended := by
  obtain ⟨hholder, m', hreach, hsame, hended⟩ := requests_complete .sample (fun _ => rfl) (Traffic.reaches_posts 5)
  refine ⟨Traffic.waiting_posts, fun j => ?_, m', ?_⟩
  · obtain ⟨c, k, q, u, hi, hj, hwaits⟩ := Traffic.waiting_posts
    obtain ⟨c', k', q', rfl, hfree⟩ := hholder 1 0 c k q u hi hj hwaits
    rintro ⟨_, _, _, v, hi', hj', hwaits'⟩
    cases hj.symm.trans hi'
    exact hfree j v hj' hwaits'
  · have hfirst : m'.tasks 0 ≠ none := fun hc => Option.some_ne_none _ ((hsame 0).1 hc)
    have hsecond : m'.tasks 1 ≠ none := fun hc => Option.some_ne_none _ ((hsame 1).1 hc)
    obtain ⟨t, ht⟩ := Option.ne_none_iff_exists'.1 hfirst
    obtain ⟨u, hu⟩ := Option.ne_none_iff_exists'.1 hsecond
    exact ⟨t, u, hreach, ht, hended 0 t ht, hu, hended 1 u hu⟩

end LogMgmt
