import Mathlib.Data.List.Infix

/-!
# Patterns

Regular expressions as a backtracking matcher reads them: a pattern gives the ways to match a beginning of the input,
the preferred one first, each with what it captures and what is left of the input.
-/

def Pattern (γ α : Type) := List γ → List (α × List γ)

namespace Pattern
variable {γ α β : Type}

instance : Monad (Pattern γ) where
  pure a := fun s => [(a, s)]
  bind p f := fun s => (p s).flatMap fun r => f r.1 r.2

/-- `p|q` -/
def alt (p q : Pattern γ α) : Pattern γ α := fun s => p s ++ q s

/-- One character of a class. -/
def one (p : γ → Bool) : Pattern γ (List γ)
  | [] => []
  | c :: s => if p c then [([c], s)] else []

/-- `[p]{lo,hi}`, as many as possible. -/
def rep (p : γ → Bool) (lo hi : Nat) : Pattern γ (List γ)
  | [] => if lo = 0 then [([], [])] else []
  | c :: s =>
    (if 0 < hi ∧ p c then (rep p (lo - 1) (hi - 1) s).map fun r => (c :: r.1, r.2) else []) ++
      if lo = 0 then [([], c :: s)] else []

/-- `[p]*` -/
def many (p : γ → Bool) : Pattern γ (List γ)
  | [] => [([], [])]
  | c :: s => (if p c then (many p s).map fun r => (c :: r.1, r.2) else []) ++ [([], c :: s)]

/-- `[p]+` -/
def plus (p : γ → Bool) : Pattern γ (List γ)
  | [] => []
  | c :: s => if p c then (many p s).map fun r => (c :: r.1, r.2) else []

/-- `[p]*?`, as few as possible. -/
def lazy (p : γ → Bool) : Pattern γ (List γ)
  | [] => [([], [])]
  | c :: s => ([], c :: s) :: if p c then (lazy p s).map fun r => (c :: r.1, r.2) else []

/-- `(?=p)` -/
def ahead (p : Pattern γ α) : Pattern γ Unit := fun s => if (p s).isEmpty then [] else [((), s)]

/-- A condition on what is left. -/
def guard (p : List γ → Bool) : Pattern γ Unit := fun s => if p s then [((), s)] else []

/-- `re.match` -/
def first (p : Pattern γ α) (s : List γ) : Option (α × List γ) := (p s).head?

/-- `re.findall` after `skip` characters, for a pattern that does not match the empty string. -/
def findallFrom (p : Pattern γ α) : Nat → List γ → List α
  | _, [] => []
  | skip + 1, _ :: s => findallFrom p skip s
  | 0, c :: s =>
    match p.first (c :: s) with
    | some r => r.1 :: findallFrom p (s.length - r.2.length) s
    | none => findallFrom p 0 s

def findall (p : Pattern γ α) (s : List γ) : List α := findallFrom p 0 s

/-- Every way to match ends in `Q`. -/
def Sat (p : Pattern γ α) (s : List γ) (Q : α → List γ → Prop) : Prop := ∀ r ∈ p s, Q r.1 r.2

section
variable {p : Pattern γ α} {s : List γ} {Q Q' : α → List γ → Prop}

theorem Sat.mono (h : p.Sat s Q) (hQ : ∀ a s', Q a s' → Q' a s') : p.Sat s Q' := fun r hr => hQ _ _ (h r hr)

theorem Sat.first (h : p.Sat s Q) {r : α × List γ} (hr : p.first s = some r) : Q r.1 r.2 :=
  h r (List.mem_of_head? hr)

theorem sat_pure {a : α} (h : Q a s) : Sat (pure a) s Q := by
  rintro r hr
  rw [List.mem_singleton.1 hr]
  exact h

theorem sat_bind {f : α → Pattern γ β} {Q : β → List γ → Prop} (h : p.Sat s fun a s' => (f a).Sat s' Q) :
    Sat (p >>= f) s Q := by
  rintro r hr
  obtain ⟨r', hr', hmem⟩ := List.mem_flatMap.1 hr
  exact h r' hr' r hmem

/-- What is captured and what is left make up the input. -/
theorem sat_rep (c : γ → Bool) (lo hi : Nat) (s : List γ) : (rep c lo hi).Sat s fun w s' => w ++ s' = s := by
  induction s generalizing lo hi with
  | nil =>
    rintro r hr
    rw [rep] at hr
    split at hr
    · rw [List.mem_singleton.1 hr]
      rfl
    · cases hr
  | cons a s ih =>
    rintro r hr
    rw [rep, List.mem_append] at hr
    rcases hr with hr | hr
    · split at hr
      · obtain ⟨r', hr', rfl⟩ := List.mem_map.1 hr
        exact congrArg (a :: ·) (ih _ _ r' hr')
      · cases hr
    · split at hr
      · rw [List.mem_singleton.1 hr]
        rfl
      · cases hr

theorem sat_many_class (c : γ → Bool) (s : List γ) : (many c).Sat s fun w s' => w ++ s' = s ∧ ∀ a ∈ w, c a := by
  induction s with
  | nil =>
    rintro r hr
    rw [List.mem_singleton.1 hr]
    exact ⟨rfl, fun a ha => by cases ha⟩
  | cons a s ih =>
    rintro r hr
    rw [many, List.mem_append] at hr
    rcases hr with hr | hr
    · split at hr
      · rename_i ha
        obtain ⟨r', hr', rfl⟩ := List.mem_map.1 hr
        obtain ⟨heq, hclass⟩ := ih r' hr'
        exact ⟨congrArg (a :: ·) heq, List.forall_mem_cons.2 ⟨ha, hclass⟩⟩
      · cases hr
    · rw [List.mem_singleton.1 hr]
      exact ⟨rfl, fun a ha => by cases ha⟩

theorem sat_many (c : γ → Bool) (s : List γ) : (many c).Sat s fun w s' => w ++ s' = s :=
  (sat_many_class c s).mono fun _ _ h => h.1

theorem sat_plus_class (c : γ → Bool) (s : List γ) :
    (plus c).Sat s fun w s' => w ≠ [] ∧ (∀ a ∈ w, c a) ∧ w ++ s' = s := by
  cases s with
  | nil => exact fun r hr => by cases hr
  | cons a s =>
    rintro r hr
    rw [plus] at hr
    split at hr
    · rename_i ha
      obtain ⟨r', hr', rfl⟩ := List.mem_map.1 hr
      obtain ⟨heq, hclass⟩ := sat_many_class c s r' hr'
      exact ⟨List.cons_ne_nil _ _, List.forall_mem_cons.2 ⟨ha, hclass⟩, congrArg (a :: ·) heq⟩
    · cases hr

theorem sat_plus (c : γ → Bool) (s : List γ) : (plus c).Sat s fun w s' => w ++ s' = s :=
  (sat_plus_class c s).mono fun _ _ h => h.2.2

theorem sat_lazy (c : γ → Bool) (s : List γ) : (lazy c).Sat s fun w s' => w ++ s' = s := by
  induction s with
  | nil =>
    rintro r hr
    rw [List.mem_singleton.1 hr]
    rfl
  | cons a s ih =>
    rintro r hr
    rw [lazy, List.mem_cons] at hr
    rcases hr with rfl | hr
    · rfl
    · split at hr
      · obtain ⟨r', hr', rfl⟩ := List.mem_map.1 hr
        exact congrArg (a :: ·) (ih r' hr')
      · cases hr

theorem sat_one_class (c : γ → Bool) (s : List γ) : (one c).Sat s fun w s' => ∃ a, c a ∧ w = [a] ∧ s = a :: s' := by
  cases s with
  | nil => exact fun r hr => by cases hr
  | cons a s =>
    rintro r hr
    rw [one] at hr
    split at hr
    · rename_i ha
      rw [List.mem_singleton.1 hr]
      exact ⟨a, ha, rfl, rfl⟩
    · cases hr

theorem sat_one (c : γ → Bool) (s : List γ) : (one c).Sat s fun w s' => w ++ s' = s :=
  (sat_one_class c s).mono fun _ _ ⟨_, _, hw, hs⟩ => by rw [hw, hs, List.singleton_append]

/-- What `findall` gives has been matched somewhere in the input. -/
theorem exists_of_mem_findallFrom {a : α} {skip : Nat} (h : a ∈ findallFrom p skip s) :
    ∃ s' s'', s' <:+ s ∧ p.first s' = some (a, s'') := by
  induction s generalizing skip with
  | nil => simp [findallFrom] at h
  | cons c s ih =>
    have htail : (∃ s' s'', s' <:+ s ∧ p.first s' = some (a, s'')) → ∃ s' s'', s' <:+ c :: s ∧ p.first s' = some (a, s'') :=
      fun ⟨s', s'', hs', h'⟩ => ⟨s', s'', hs'.trans (List.suffix_cons c s), h'⟩
    cases skip with
    | succ skip => exact htail (ih h)
    | zero =>
      rw [findallFrom] at h
      split at h
      · rename_i r hr
        rcases List.mem_cons.1 h with rfl | h
        · exact ⟨c :: s, r.2, List.suffix_rfl, hr⟩
        · exact htail (ih h)
      · exact htail (ih h)

/-! ### The first way to match -/

theorem first_pure (a : α) (s : List γ) : first (pure a) s = some (a, s) := rfl

/-- The first way to go on from the first way to begin. -/
theorem first_bind {f : α → Pattern γ β} {a : α} {s' : List γ} {r : β × List γ} (h : p.first s = some (a, s'))
    (hr : (f a).first s' = some r) : first (p >>= f) s = some r := by
  obtain ⟨rest, hrest⟩ := List.head?_eq_some_iff.1 h
  obtain ⟨rest', hrest'⟩ := List.head?_eq_some_iff.1 hr
  show (List.flatMap (fun r => f r.1 r.2) (p s)).head? = some r
  rw [hrest, List.flatMap_cons, hrest']
  rfl

theorem bind_eq_nil {f : α → Pattern γ β} (h : p s = []) : (p >>= f) s = [] := by
  show List.flatMap (fun r => f r.1 r.2) (p s) = []
  rw [h]
  rfl

theorem first_bind_of_nil {f : α → Pattern γ β} (h : p s = []) : first (p >>= f) s = none := by
  rw [first, bind_eq_nil h]
  rfl

theorem ne_nil_of_first {r : α × List γ} (h : p.first s = some r) : p s ≠ [] := by
  rintro heq
  rw [first, heq] at h
  cases h

theorem alt_eq_nil {q : Pattern γ α} (hp : p s = []) (hq : q s = []) : alt p q s = [] := by
  rw [alt, hp, hq]
  rfl

theorem first_alt_left {q : Pattern γ α} {r : α × List γ} (h : p.first s = some r) : (alt p q).first s = some r := by
  obtain ⟨rest, hrest⟩ := List.head?_eq_some_iff.1 h
  show (p s ++ q s).head? = some r
  rw [hrest]
  rfl

theorem first_alt_right {q : Pattern γ α} {r : α × List γ} (h : p s = []) (hr : q.first s = some r) :
    (alt p q).first s = some r := by
  show (p s ++ q s).head? = some r
  rw [h]
  exact hr

theorem first_one {c : γ → Bool} {a : γ} (ha : c a) (s : List γ) : (one c).first (a :: s) = some ([a], s) := by
  rw [Pattern.first, one, if_pos ha]
  rfl

theorem one_eq_nil {c : γ → Bool} {a : γ} (ha : ¬c a) (s : List γ) : one c (a :: s) = [] := if_neg ha

theorem rep_zero (c : γ → Bool) (s : List γ) : rep c 0 0 s = [([], s)] := by
  cases s <;> simp [rep]

theorem rep_append {c : γ → Bool} {w : List γ} (hw : ∀ a ∈ w, c a) (s : List γ) :
    rep c w.length w.length (w ++ s) = [(w, s)] := by
  induction w with
  | nil => exact rep_zero c s
  | cons a w ih =>
    have ha : c a := hw a List.mem_cons_self
    simp [rep, ha, ih fun b hb => hw b (List.mem_cons_of_mem _ hb)]

theorem rep_short {c : γ → Bool} {w : List γ} {a : γ} {n hi : Nat} (hn : w.length < n) (ha : ¬c a) (s : List γ) :
    rep c n hi (w ++ a :: s) = [] := by
  induction w generalizing n hi with
  | nil =>
    have hpos : n ≠ 0 := Nat.ne_of_gt hn
    simp [rep, ha, hpos]
  | cons b w ih =>
    have hlen : w.length < n - 1 := by
      rw [List.length_cons] at hn
      omega
    have hpos : n ≠ 0 := by omega
    simp [rep, ih hlen, hpos]

theorem first_rep {c : γ → Bool} {w s : List γ} {lo hi : Nat} (hw : ∀ a ∈ w, c a) (hlo : lo ≤ w.length)
    (hhi : w.length ≤ hi) (hs : w.length = hi ∨ ∀ a ∈ s.head?, ¬c a) : (rep c lo hi).first (w ++ s) = some (w, s) := by
  induction w generalizing lo hi with
  | nil =>
    obtain rfl : lo = 0 := Nat.le_zero.1 hlo
    cases s with
    | nil => rfl
    | cons a s =>
      have hstop : ¬(0 < hi ∧ c a) := by
        rintro ⟨hpos, ha⟩
        rcases hs with rfl | hs
        · exact absurd hpos (Nat.lt_irrefl 0)
        · exact hs a rfl ha
      simp [first, rep, hstop]
  | cons a w ih =>
    rw [List.length_cons] at hlo hhi hs
    have ha : c a := hw a List.mem_cons_self
    have hpos : 0 < hi := by omega
    have hrest : (rep c (lo - 1) (hi - 1)).first (w ++ s) = some (w, s) :=
      ih (fun b hb => hw b (List.mem_cons_of_mem _ hb)) (by omega) (by omega) (hs.imp_left fun heq => by omega)
    rw [first] at hrest
    simp [first, rep, ha, hpos, hrest]

/-- A character outside the class ends a run of it. -/
theorem not_head_cons {c : γ → Bool} {b : γ} (h : ¬c b) (s : List γ) : ∀ a ∈ (b :: s).head?, ¬c a := by
  intro a ha
  rwa [← Option.some.inj ha]

/-- A run of the class, to its end. -/
theorem first_many {c : γ → Bool} {w s : List γ} (hw : ∀ a ∈ w, c a) (hs : ∀ a ∈ s.head?, ¬c a) :
    (many c).first (w ++ s) = some (w, s) := by
  induction w with
  | nil =>
    cases s with
    | nil => rfl
    | cons a s =>
      have ha : ¬c a := hs a rfl
      simp [first, many, ha]
  | cons a w ih =>
    have ha : c a := hw a List.mem_cons_self
    have hrest := ih fun b hb => hw b (List.mem_cons_of_mem _ hb)
    rw [first] at hrest
    simp [first, many, ha, hrest]

theorem first_plus {c : γ → Bool} {w s : List γ} (hne : w ≠ []) (hw : ∀ a ∈ w, c a) (hs : ∀ a ∈ s.head?, ¬c a) :
    (plus c).first (w ++ s) = some (w, s) := by
  cases w with
  | nil => exact absurd rfl hne
  | cons a w =>
    have ha : c a := hw a List.mem_cons_self
    have hrest := first_many (fun b hb => hw b (List.mem_cons_of_mem _ hb)) hs
    rw [first] at hrest
    simp [first, plus, ha, hrest]

/-- A lazy run ends where the pattern goes on for the first time. -/
theorem first_lazy_bind {c : γ → Bool} {f : List γ → Pattern γ β} {w s : List γ} {r : β × List γ} (hw : ∀ a ∈ w, c a)
    (hbefore : ∀ v t, w = v ++ t → t ≠ [] → f v (t ++ s) = []) (hr : (f w).first s = some r) :
    first (lazy c >>= f) (w ++ s) = some r := by
  induction w generalizing f with
  | nil =>
    have hempty : (lazy c).first ([] ++ s) = some ([], s) := by cases s <;> rfl
    exact first_bind hempty hr
  | cons a w ih =>
    have ha : c a := hw a List.mem_cons_self
    have hnil : f [] (a :: (w ++ s)) = [] := hbefore [] (a :: w) rfl (List.cons_ne_nil a w)
    have hrest := ih (f := fun v => f (a :: v)) (fun b hb => hw b (List.mem_cons_of_mem _ hb))
      (fun v t heq ht => hbefore (a :: v) t (congrArg (a :: ·) heq) ht) hr
    show (List.flatMap (fun r => f r.1 r.2) (lazy c (a :: (w ++ s)))).head? = some r
    rw [lazy, if_pos ha, List.flatMap_cons, hnil, List.nil_append, List.flatMap_map]
    exact hrest

theorem first_ahead {p : Pattern γ α} (h : p s ≠ []) : (ahead p).first s = some ((), s) := by
  simp [first, ahead, h]

theorem ahead_eq_nil {p : Pattern γ α} (h : p s = []) : ahead p s = [] := by
  simp [ahead, h]

/-! ### `findall` on what has been put together -/

theorem findallFrom_append (p : Pattern γ α) (w s : List γ) : findallFrom p w.length (w ++ s) = findall p s := by
  induction w with
  | nil => rfl
  | cons c w ih => exact ih

theorem findall_append {w : List γ} {a : α} (hw : w ≠ []) (h : p.first (w ++ s) = some (a, s)) :
    findall p (w ++ s) = a :: findall p s := by
  cases w with
  | nil => exact absurd rfl hw
  | cons c w =>
    have hskip : (w ++ s).length - s.length = w.length := by
      rw [List.length_append]
      omega
    rw [List.cons_append] at h ⊢
    rw [findall, findallFrom, h]
    dsimp only
    rw [hskip, findallFrom_append]

theorem findall_cons {c : γ} (h : p (c :: s) = []) : findall p (c :: s) = findall p s := by
  have hnone : p.first (c :: s) = none := by
    rw [first, h]
    rfl
  rw [findall, findallFrom, hnone]
  rfl

end

end Pattern
