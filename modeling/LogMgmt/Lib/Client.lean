import Mathlib.Data.List.Basic

/-!
# Clients

A client keeps a state, sends requests and takes the answers in any order. An event of its own, a click or an effect,
and an answer both change the state and may send further requests. `Meets` says that every step of a run satisfies a
condition in the state in which it is taken; `Meets.invariant` is the induction over such a run.
-/

/-- The callbacks of a client: for its events and for the answers to its requests. -/
structure Client (σ A Q R : Type) where
  act : σ → A → σ × List Q
  take : σ → Q → R → σ × List Q

namespace Client
variable {σ A Q R : Type}

structure Call (Q R : Type) where
  query : Q
  answer : Option R := none

/-- The client in the middle of its run, with the requests that it has sent so far. -/
structure Tab (σ Q R : Type) where
  state : σ
  calls : List (Call Q R) := []

inductive Event (A R : Type) where
  | act (a : A)
  /-- the answer to request `i` arrives -/
  | arrive (i : Nat) (answer : R)

namespace Tab

def send (t : Tab σ Q R) (result : σ × List Q) : Tab σ Q R := ⟨result.1, t.calls ++ result.2.map ({ query := · })⟩

def answered (t : Tab σ Q R) (i : Nat) (q : Q) (r : R) : Tab σ Q R := { t with calls := t.calls.set i ⟨q, some r⟩ }

def Outstanding (t : Tab σ Q R) (i : Nat) (q : Q) : Prop := t.calls[i]? = some ⟨q, none⟩

/-- The requests in the order in which they were sent. -/
def queries (t : Tab σ Q R) : List Q := t.calls.map (·.query)

/-- No request is outstanding. -/
def Quiet (t : Tab σ Q R) : Prop := ∀ call ∈ t.calls, call.answer.isSome

instance (t : Tab σ Q R) : Decidable t.Quiet := inferInstanceAs (Decidable (∀ call ∈ t.calls, call.answer.isSome))

end Tab

def step (c : Client σ A Q R) (t : Tab σ Q R) : Event A R → Tab σ Q R
  | .act a => t.send (c.act t.state a)
  | .arrive i r =>
    match t.calls[i]? with
    | some ⟨q, none⟩ => (t.answered i q r).send (c.take t.state q r)
    | _ => t

def run (c : Client σ A Q R) (t : Tab σ Q R) (events : List (Event A R)) : Tab σ Q R := events.foldl c.step t

def Meets (c : Client σ A Q R) (ok : Tab σ Q R → Event A R → Prop) : Tab σ Q R → List (Event A R) → Prop
  | _, [] => True
  | t, e :: events => ok t e ∧ c.Meets ok (c.step t e) events

section
variable {c : Client σ A Q R} {t : Tab σ Q R} {ok : Tab σ Q R → Event A R → Prop} {events : List (Event A R)}

@[simp] theorem run_nil : c.run t [] = t := rfl

@[simp] theorem run_cons (e : Event A R) : c.run t (e :: events) = c.run (c.step t e) events := rfl

theorem run_append (events' : List (Event A R)) : c.run t (events ++ events') = c.run (c.run t events) events' :=
  List.foldl_append

theorem step_arrive_of_outstanding {i : Nat} {q : Q} (h : t.Outstanding i q) (r : R) :
    c.step t (.arrive i r) = (t.answered i q r).send (c.take t.state q r) := by
  unfold Tab.Outstanding at h
  simp only [step, h]

/-- An answer that arrives is one to an outstanding request, or it changes nothing. -/
theorem step_arrive_cases (c : Client σ A Q R) (t : Tab σ Q R) (i : Nat) (r : R) :
    c.step t (.arrive i r) = t ∨
      ∃ q, t.Outstanding i q ∧ c.step t (.arrive i r) = (t.answered i q r).send (c.take t.state q r) := by
  rcases hi : t.calls[i]? with _ | ⟨q, _ | r'⟩
  · exact .inl (by simp only [step, hi])
  · exact .inr ⟨q, hi, step_arrive_of_outstanding hi r⟩
  · exact .inl (by simp only [step, hi])

theorem meets_append {events' : List (Event A R)} :
    c.Meets ok t (events ++ events') ↔ c.Meets ok t events ∧ c.Meets ok (c.run t events) events' := by
  induction events generalizing t with
  | nil => simp [Meets]
  | cons e events ih => simp [Meets, ih, and_assoc]

theorem meets_true (events : List (Event A R)) : c.Meets (fun _ _ => True) t events := by
  induction events generalizing t with
  | nil => trivial
  | cons e events ih => exact ⟨trivial, ih⟩

/-- A property of every event of the run joins the condition. -/
theorem Meets.and_forall {p : Event A R → Prop} (h : c.Meets ok t events) (hp : ∀ e ∈ events, p e) :
    c.Meets (fun t e => ok t e ∧ p e) t events := by
  induction events generalizing t with
  | nil => trivial
  | cons e events ih =>
    exact ⟨⟨h.1, hp e List.mem_cons_self⟩, ih h.2 fun e' he' => hp e' (List.mem_cons_of_mem e he')⟩

/-- What every event and every answer keeps holds after the run. -/
theorem Meets.invariant {I : Tab σ Q R → Prop}
    (hact : ∀ t a, I t → ok t (.act a) → I (t.send (c.act t.state a)))
    (htake : ∀ t i q r, I t → t.Outstanding i q → ok t (.arrive i r) → I ((t.answered i q r).send (c.take t.state q r)))
    (h : c.Meets ok t events) (ht : I t) : I (c.run t events) := by
  induction events generalizing t with
  | nil => exact ht
  | cons e events ih =>
    refine ih h.2 ?_
    cases e with
    | act a => exact hact t a ht h.1
    | arrive i r =>
      rcases step_arrive_cases c t i r with hsame | ⟨q, hq, hstep⟩
      · rwa [hsame]
      · rw [hstep]
        exact htake t i q r ht hq h.1

end

/-! ### The calls after a step -/

namespace Tab
variable {t : Tab σ Q R} {i : Nat} {q : Q} {r : R}

theorem Outstanding.lt (h : t.Outstanding i q) : i < t.calls.length := (List.getElem?_eq_some_iff.1 h).1

theorem Outstanding.mem (h : t.Outstanding i q) : (⟨q, none⟩ : Call Q R) ∈ t.calls := List.mem_of_getElem? h

/-- The call that has its answer now. -/
theorem Outstanding.mem_answered (h : t.Outstanding i q) : (⟨q, some r⟩ : Call Q R) ∈ (t.answered i q r).calls :=
  List.mem_set h.lt _

/-- Every other call is as it was. -/
theorem mem_answered_of_ne {call : Call Q R} (hcall : call ∈ t.calls) (hne : call ≠ ⟨q, none⟩) (h : t.Outstanding i q) :
    call ∈ (t.answered i q r).calls := by
  obtain ⟨j, hj⟩ := List.mem_iff_getElem?.1 hcall
  refine List.mem_iff_getElem?.2 ⟨j, ?_⟩
  have hij : i ≠ j := by
    rintro rfl
    exact hne (Option.some.inj (hj.symm.trans h))
  rw [answered, List.getElem?_set_ne hij, hj]

theorem Outstanding.queries_answered (h : t.Outstanding i q) : (t.answered i q r).queries = t.queries := by
  refine List.ext_getElem? fun j => ?_
  unfold queries answered
  rw [List.getElem?_map, List.getElem?_map]
  rcases eq_or_ne i j with rfl | hij
  · rw [List.getElem?_set_self h.lt, h]
    rfl
  · rw [List.getElem?_set_ne hij]

/-- What is outstanding after an answer was so before, and is not the request that is answered. -/
theorem Outstanding.of_answered {j : Nat} {q' : Q} (h : (t.answered i q r).Outstanding j q') : j ≠ i ∧ t.Outstanding j q' := by
  unfold Outstanding answered at h
  have hne : i ≠ j := by
    rintro rfl
    rw [List.getElem?_set] at h
    simp at h
  exact ⟨hne.symm, by rwa [List.getElem?_set_ne hne] at h⟩

/-- What is outstanding after more is sent was so before, or is sent now. -/
theorem Outstanding.of_send {result : σ × List Q} (h : (t.send result).Outstanding i q) :
    t.Outstanding i q ∨ ∃ k, i = t.calls.length + k ∧ result.2[k]? = some q := by
  unfold Outstanding send at h
  rcases Nat.lt_or_ge i t.calls.length with hlt | hge
  · exact .inl ((List.getElem?_append_left hlt).symm.trans h)
  · refine .inr ⟨i - t.calls.length, by omega, ?_⟩
    rw [List.getElem?_append_right hge, List.getElem?_map, Option.map_eq_some_iff] at h
    obtain ⟨q', hq', hcall⟩ := h
    cases hcall
    exact hq'

@[simp] theorem state_send (result : σ × List Q) : (t.send result).state = result.1 := rfl

@[simp] theorem calls_send_nil (s : σ) : (t.send (s, [])).calls = t.calls := List.append_nil _

@[simp] theorem send_nil : t.send (t.state, []) = t := by
  simp [send]

@[simp] theorem queries_send (result : σ × List Q) : (t.send result).queries = t.queries ++ result.2 := by
  simp [queries, send, Function.comp_def]

theorem quiet_send_iff {result : σ × List Q} : (t.send result).Quiet ↔ t.Quiet ∧ result.2 = [] := by
  unfold Quiet send
  constructor
  · intro h
    refine ⟨fun call hcall => h call (List.mem_append_left _ hcall), ?_⟩
    rcases hnew : result.2 with _ | ⟨q, rest⟩
    · rfl
    · have hq := h { query := q } (by simp [hnew])
      cases hq
  · rintro ⟨h, hnone⟩ call hcall
    rw [hnone] at hcall
    exact h call (by simpa using hcall)

/-- If nothing is outstanding after an answer, it was the answer to the only outstanding request. -/
theorem only_outstanding (hquiet : (t.answered i q r).Quiet) {j : Nat} {q' : Q} (hj : t.Outstanding j q') : j = i := by
  by_contra hne
  have hsame : (t.answered i q r).calls[j]? = some ⟨q', none⟩ :=
    (List.getElem?_set_ne (Ne.symm hne)).trans hj
  cases hquiet _ (List.mem_of_getElem? hsame)

end Tab

end Client
