import LogMgmt.AlertsList
import LogMgmt.DashboardPage
import LogMgmt.Gateway
import LogMgmt.Digits
import LogMgmt.Lib.UrlEncoded
import LogMgmt.Lib.Utf8

/-!
# From the page to the query parameters

`buildQuery` of `api/client.js` puts parameters into the URL and the server takes them out of it again. Whatever text the
user has typed arrives as the value of its own parameter, and an empty one not at all, so that the endpoint runs the
request that the page has meant (`query_received`).
-/

namespace LogMgmt

/-! ### Sending -/

/-- A JavaScript string as a `USVString`: a lone surrogate becomes U+FFFD. -/
def scalarValue (s : Str) : Str := s.map fun c => if c.val < 0xD800 ∨ 0xE000 ≤ c.val then c else Utf8.replacement

/-- `URLSearchParams.set` -/
def setParam (search : List (Str × Str)) (name value : Str) : List (Str × Str) :=
  match search.findIdx? (·.1 = name) with
  | none => search ++ [(name, value)]
  | some i => search.take i ++ (name, value) :: (search.drop (i + 1)).filter (·.1 ≠ name)

/-- `search.set(key, value)` for each entry that is neither `null`, `undefined` nor empty -/
def searchParams (params : List (Str × Option Str)) : List (Str × Str) :=
  params.foldl (fun search p =>
    match p.2 with
    | some value => if value ≠ [] then setParam search (scalarValue p.1) (scalarValue value) else search
    | none => search) []

/-- `URLSearchParams.toString` -/
def toQuery (search : List (Str × Str)) : List Utf8.Byte :=
  UrlEncoded.serialize (search.map fun p => (p.1.flatMap Utf8.encode, p.2.flatMap Utf8.encode))

def buildQuery (params : List (Str × Option Str)) : List Utf8.Byte :=
  let query := toQuery (searchParams params)
  if query ≠ [] then 0x3F :: query else []

/-! ### Receiving -/

/-- The names and values of a query string, the question mark included. -/
def queryParams (query : List Utf8.Byte) : List (Str × Str) :=
  (UrlEncoded.parse (query.drop 1)).map fun p => (Utf8.decode p.1, Utf8.decode p.2)

/-- Of equal names the last one counts. -/
def getParam (received : List (Str × Str)) (name : Str) : Option Str :=
  (received.reverse.find? (·.1 = name)).map (·.2)

/-- An `int` parameter, in digits alone. -/
def intParam (text : Str) : Option Nat :=
  if text ≠ [] ∧ text.all (between '0' '9') then some (text.foldl (fun n c => 10 * n + (c.val - 48)) 0) else none

/-- A parameter that need not be there; inside, `none` is a refusal. -/
def optional {α : Type} (read : Str → Option α) : Option Str → Option (Option α)
  | none => some none
  | some text => (read text).map some

def fieldParam (text : Str) : Option TopField :=
  if text = str "ip" then some .ip
  else if text = str "user" then some .user
  else if text = str "event_type" then some .eventType
  else none

def intervalParam (text : Str) : Option Interval :=
  if text = str "minute" then some .minute
  else if text = str "hour" then some .hour
  else if text = str "day" then some .day
  else none

inductive Route where
  | search
  | alerts
  | top
  | timeline

/-- The parameters of an endpoint as it declares them, where `none` is a refusal with 422. The text of a time is read by
`parseTime`. -/
def Route.receive (parseTime : Str → Option Time) (received : List (Str × Str)) : Route → Option Secured
  | search => do
    let startTime ← optional parseTime (getParam received (str "start_time"))
    let endTime ← optional parseTime (getParam received (str "end_time"))
    let source := getParam received (str "source")
    let eventType := getParam received (str "event_type")
    let user := getParam received (str "user")
    let srcIp := getParam received (str "src_ip")
    let limit ← optional intParam (getParam received (str "limit"))
    let offset ← optional intParam (getParam received (str "offset"))
    if h : 1 ≤ limit.getD 50 ∧ limit.getD 50 ≤ 500 then
      return .search {
        filter := { startTime, endTime, source, eventType, user, srcIp }
        limit := limit.getD 50
        offset := offset.getD 0
        le_limit := h.1
        limit_le := h.2 }
    else none
  | alerts => do
    let startTime ← optional parseTime (getParam received (str "start_time"))
    let endTime ← optional parseTime (getParam received (str "end_time"))
    let srcIp := getParam received (str "src_ip")
    let limit ← optional intParam (getParam received (str "limit"))
    let offset ← optional intParam (getParam received (str "offset"))
    if h : 1 ≤ limit.getD 50 ∧ limit.getD 50 ≤ 500 then
      return .listAlerts {
        filter := { startTime, endTime, srcIp }
        limit := limit.getD 50
        offset := offset.getD 0
        le_limit := h.1
        limit_le := h.2 }
    else none
  | top => do
    let field ← (getParam received (str "field")).bind fieldParam
    let startTime ← optional parseTime (getParam received (str "start_time"))
    let endTime ← optional parseTime (getParam received (str "end_time"))
    let limit ← optional intParam (getParam received (str "limit"))
    if h : 1 ≤ limit.getD 10 ∧ limit.getD 10 ≤ 100 then
      return .top { field, startTime, endTime, limit := limit.getD 10, le_limit := h.1, limit_le := h.2 }
    else none
  | timeline => do
    let interval ← optional intervalParam (getParam received (str "interval"))
    let startTime ← optional parseTime (getParam received (str "start_time"))
    let endTime ← optional parseTime (getParam received (str "end_time"))
    return .timeline { interval := interval.getD .hour, startTime, endTime }

/-! ### What the pages send -/

/-- The requests of the pages that have parameters. A `null` time is none. -/
inductive PageQuery where
  | search (q : SearchQuery)
  | alerts (offset : Nat)
  | top (field : TopField) (startTime endTime : Option Str)
  | timeline (startTime endTime : Option Str) (interval : Interval)

namespace PageQuery

def route : PageQuery → Route
  | search _ => .search
  | alerts _ => .alerts
  | top .. => .top
  | timeline .. => .timeline

def fieldText : TopField → Str
  | .ip => str "ip"
  | .user => str "user"
  | .eventType => str "event_type"

def intervalText : Interval → Str
  | .minute => str "minute"
  | .hour => str "hour"
  | .day => str "day"

/-- The entries of the object that `buildQuery` gets. -/
def params : PageQuery → List (Str × Option Str)
  | search q => [
      (str "start_time", some q.filters.startTime), (str "end_time", some q.filters.endTime),
      (str "source", some q.filters.source), (str "event_type", some q.filters.eventType),
      (str "user", some q.filters.user), (str "src_ip", some q.filters.srcIp),
      (str "limit", some (digits q.limit)), (str "offset", some (digits q.offset))]
  | alerts offset => [(str "limit", some (digits defaultLimit)), (str "offset", some (digits offset))]
  | top field startTime endTime =>
    [(str "field", some (fieldText field)), (str "start_time", startTime), (str "end_time", endTime)]
  | timeline startTime endTime interval =>
    [(str "start_time", startTime), (str "end_time", endTime), (str "interval", some (intervalText interval))]

end PageQuery

/-- A filter is no parameter if it is empty. -/
def filled (value : Str) : Option Str := if value ≠ [] then some (scalarValue value) else none

/-! ### The way there and back -/

section
variable {params : List (Str × Option Str)} {search : List (Str × Str)} {name value : Str}

theorem scalarValue_scalar {c : CodePoint} (h : c ∈ scalarValue value) : Utf8.Scalar c := by
  obtain ⟨c', -, rfl⟩ := List.mem_map.1 h
  split_ifs with hc
  · exact hc
  · exact .inr (by decide)

theorem scalarValue_eq (h : ∀ c ∈ name, Utf8.Scalar c) : scalarValue name = name :=
  (List.map_congr_left fun c hc => if_pos (h c hc)).trans (List.map_id _)

theorem setParam_of_notMem (value : Str) (h : name ∉ search.map (·.1)) :
    setParam search name value = search ++ [(name, value)] := by
  have hnone : search.findIdx? (·.1 = name) = none := by
    rw [List.findIdx?_eq_none_iff]
    intro p hp
    exact decide_eq_false fun hc => h (List.mem_map.2 ⟨p, hp, hc⟩)
  rw [setParam, hnone]

/-- What is to be sent of a parameter. -/
def sentParam (p : Str × Option Str) : Option (Str × Str) := (p.2.bind filled).map (p.1, ·)

def sent (params : List (Str × Option Str)) : List (Str × Str) := params.filterMap sentParam

theorem sentParam_name {p : Str × Option Str} {q : Str × Str} (h : sentParam p = some q) : q.1 = p.1 := by
  obtain ⟨value, -, rfl⟩ := Option.map_eq_some_iff.1 h
  rfl

theorem names_sent : ((sent params).map (·.1)).Sublist (params.map (·.1)) := by
  unfold sent
  induction params with
  | nil => exact List.Sublist.refl _
  | cons p params ih =>
    cases hp : sentParam p with
    | none =>
      rw [List.filterMap_cons_none hp]
      exact ih.cons _
    | some q =>
      rw [List.filterMap_cons_some hp, List.map_cons, List.map_cons, sentParam_name hp]
      exact ih.cons_cons _

/-- The entries are appended one by one, for their names are new. -/
theorem searchParams_eq (hnodup : (params.map (·.1)).Nodup) (hscalar : ∀ p ∈ params, ∀ c ∈ p.1, Utf8.Scalar c) :
    searchParams params = sent params := by
  suffices h : ∀ search : List (Str × Str), (∀ p ∈ params, p.1 ∉ search.map (·.1)) →
      params.foldl (fun search p =>
        match p.2 with
        | some value => if value ≠ [] then setParam search (scalarValue p.1) (scalarValue value) else search
        | none => search) search = search ++ sent params from h [] (by simp)
  induction params with
  | nil => exact fun search _ => (List.append_nil search).symm
  | cons p params ih =>
    intro search hnew
    rw [List.map_cons, List.nodup_cons] at hnodup
    have ih := ih hnodup.2 fun q hq => hscalar q (List.mem_cons_of_mem p hq)
    have hrest : ∀ q ∈ params, q.1 ∉ search.map (·.1) := fun q hq => hnew q (List.mem_cons_of_mem p hq)
    have hskip : sentParam p = none → search ++ sent params = search ++ sent (p :: params) := fun hp => by
      rw [sent, sent, List.filterMap_cons_none hp]
    rw [List.foldl_cons]
    obtain ⟨name, _ | value⟩ := p
    · exact (ih search hrest).trans (hskip rfl)
    · dsimp only
      split_ifs with hempty
      · have hname : scalarValue name = name := scalarValue_eq (hscalar _ List.mem_cons_self)
        have hset := setParam_of_notMem (scalarValue value) (hnew _ List.mem_cons_self)
        have hsome : sentParam (name, some value) = some (name, scalarValue value) := by
          simp [sentParam, filled, hempty]
        rw [hname, hset, ih, List.append_assoc, sent, sent, List.filterMap_cons_some hsome]
        · rfl
        · intro q hq hmem
          rw [List.map_append, List.mem_append] at hmem
          rcases hmem with hmem | hmem
          · exact hrest q hq hmem
          · rw [List.map_singleton, List.mem_singleton] at hmem
            exact hnodup.1 (hmem ▸ List.mem_map_of_mem hq)
      · refine (ih search hrest).trans (hskip ?_)
        simp [sentParam, filled, hempty]

theorem getParam_of_mem {l : List (Str × Str)} (hnodup : (l.map (·.1)).Nodup) (h : (name, value) ∈ l) :
    getParam l name = some value := by
  unfold getParam
  cases hfind : l.reverse.find? (·.1 = name) with
  | none =>
    have hnone := List.find?_eq_none.1 hfind (name, value) (List.mem_reverse.2 h)
    exact absurd (decide_eq_true rfl) hnone
  | some q =>
    have hmem : q ∈ l := List.mem_reverse.1 (List.mem_of_find?_eq_some hfind)
    have hname : q.1 = name := by simpa using List.find?_some hfind
    have hq : q = (name, value) := List.inj_on_of_nodup_map hnodup hmem h hname
    rw [hq]
    rfl

theorem getParam_of_notMem {l : List (Str × Str)} (h : name ∉ l.map (·.1)) : getParam l name = none := by
  unfold getParam
  rw [List.find?_eq_none.2, Option.map_none]
  intro q hq
  have hne : q.1 ≠ name := fun hc => h (hc ▸ List.mem_map_of_mem (List.mem_reverse.1 hq))
  simpa using hne

/-- The query string holds what is to be sent, and nothing else. -/
theorem queryParams_buildQuery (hnodup : (params.map (·.1)).Nodup) (hscalar : ∀ p ∈ params, ∀ c ∈ p.1, Utf8.Scalar c) :
    queryParams (buildQuery params) = sent params := by
  have hdrop : (buildQuery params).drop 1 = toQuery (searchParams params) := by
    unfold buildQuery
    dsimp only
    split_ifs with h
    · rfl
    · exact (not_not.1 h).symm
  rw [queryParams, hdrop, toQuery, UrlEncoded.parse_serialize, List.map_map, searchParams_eq hnodup hscalar]
  refine (List.map_congr_left fun q hq => ?_).trans (List.map_id _)
  obtain ⟨p, hp, hq⟩ := List.mem_filterMap.1 hq
  obtain ⟨value, hvalue, rfl⟩ := Option.map_eq_some_iff.1 hq
  obtain ⟨text, -, hfilled⟩ := Option.bind_eq_some_iff.1 hvalue
  have hvalue : ∀ c ∈ value, Utf8.Scalar c := by
    unfold filled at hfilled
    split_ifs at hfilled
    obtain rfl := Option.some.inj hfilled
    exact fun c => scalarValue_scalar
  show (Utf8.decode (p.1.flatMap Utf8.encode), Utf8.decode (value.flatMap Utf8.encode)) = (p.1, value)
  rw [Utf8.decode_flatMap_encode (hscalar p hp), Utf8.decode_flatMap_encode hvalue]

/-- Each parameter arrives under its own name. -/
theorem getParam_received (hnodup : (params.map (·.1)).Nodup) (hscalar : ∀ p ∈ params, ∀ c ∈ p.1, Utf8.Scalar c)
    {given : Option Str} (h : (name, given) ∈ params) :
    getParam (queryParams (buildQuery params)) name = given.bind filled := by
  rw [queryParams_buildQuery hnodup hscalar]
  cases hgiven : given.bind filled with
  | some value =>
    have hsent : sentParam (name, given) = some (name, value) := by simp [sentParam, hgiven]
    exact getParam_of_mem (names_sent.nodup hnodup) (List.mem_filterMap.2 ⟨_, h, hsent⟩)
  | none =>
    refine getParam_of_notMem fun hmem => ?_
    obtain ⟨q, hq, rfl⟩ := List.mem_map.1 hmem
    obtain ⟨p, hp, hsent⟩ := List.mem_filterMap.1 hq
    have hsame : p = (q.1, given) := List.inj_on_of_nodup_map hnodup hp h (sentParam_name hsent).symm
    rw [hsame, sentParam, hgiven] at hsent
    cases hsent

/-- No other parameter arrives. -/
theorem getParam_other (hnodup : (params.map (·.1)).Nodup) (hscalar : ∀ p ∈ params, ∀ c ∈ p.1, Utf8.Scalar c)
    (h : name ∉ params.map (·.1)) : getParam (queryParams (buildQuery params)) name = none := by
  rw [queryParams_buildQuery hnodup hscalar]
  exact getParam_of_notMem fun hmem => h (names_sent.subset hmem)

end

/-! ### The request that is run -/

theorem digit_between {k : Nat} (hk : k < 10) :
    between '0' '9' (digit k) ∧ (digit k).val = k + 48 ∧ Utf8.Scalar (digit k) := by
  have hall : ∀ k < 10, between '0' '9' (digit k) ∧ (digit k).val = k + 48 ∧ (digit k).val < 0xD800 := by decide
  obtain ⟨hrange, hval, hlt⟩ := hall k hk
  exact ⟨hrange, hval, .inl hlt⟩

/-- A string literal has no surrogates. -/
theorem scalar_str (s : String) {c : CodePoint} (hc : c ∈ str s) : Utf8.Scalar c := by
  obtain ⟨c, -, rfl⟩ := List.mem_map.1 hc
  have hvalid : c.toNat < 0xD800 ∨ 0xDFFF < c.toNat ∧ c.toNat < 0x110000 := c.valid
  have hval : (Fin.ofNat 0x110000 c.toNat).val = c.toNat := Nat.mod_eq_of_lt (by omega)
  show (Fin.ofNat 0x110000 c.toNat).val < 0xD800 ∨ 0xE000 ≤ (Fin.ofNat 0x110000 c.toNat).val
  omega

theorem digits_ne_nil (n : Nat) : digits n ≠ [] := by
  intro h
  exact Nat.toDigits_ne_nil (List.map_eq_nil_iff.1 h)

theorem filled_digits (n : Nat) : filled (digits n) = some (digits n) := by
  rw [filled, if_pos (digits_ne_nil n), scalarValue_eq]
  intro c hc
  obtain ⟨k, hk, rfl⟩ := mem_digits hc
  exact (digit_between hk).2.2

theorem foldl_digits (n : Nat) : (digits n).foldl (fun n c => 10 * n + (c.val - 48)) 0 = n := by
  induction n using Nat.strong_induction_on with
  | h n ih =>
    by_cases hn : n < 10
    · rw [digits_of_lt hn, List.foldl_cons, List.foldl_nil, (digit_between hn).2.1]
      omega
    · rw [digits_of_le (by omega), List.foldl_append, ih (n / 10) (by omega), List.foldl_cons, List.foldl_nil,
        (digit_between (show n % 10 < 10 by omega)).2.1]
      omega

theorem intParam_digits (n : Nat) : intParam (digits n) = some n := by
  rw [intParam, if_pos, foldl_digits]
  refine ⟨digits_ne_nil n, List.all_eq_true.2 fun c hc => ?_⟩
  obtain ⟨k, hk, rfl⟩ := mem_digits hc
  exact (digit_between hk).1

theorem filled_fieldText (field : TopField) : (filled (PageQuery.fieldText field)).bind fieldParam = some field := by
  cases field <;> decide

theorem filled_intervalText (interval : Interval) :
    optional intervalParam (filled (PageQuery.intervalText interval)) = some (some interval) := by
  cases interval <;> decide

theorem optional_digits (n : Nat) : optional intParam (filled (digits n)) = some (some n) := by
  rw [filled_digits, optional, intParam_digits]
  rfl

namespace PageQuery

/-- The request that a page means. A filter that is not filled in is none. -/
def meant (parseTime : Str → Option Time) : PageQuery → Option Secured
  | search q => do
    let startTime ← optional parseTime (filled q.filters.startTime)
    let endTime ← optional parseTime (filled q.filters.endTime)
    if h : 1 ≤ q.limit ∧ q.limit ≤ 500 then
      return .search {
        filter := {
          startTime
          endTime
          source := filled q.filters.source
          eventType := filled q.filters.eventType
          user := filled q.filters.user
          srcIp := filled q.filters.srcIp }
        limit := q.limit
        offset := q.offset
        le_limit := h.1
        limit_le := h.2 }
    else none
  | alerts offset => some (.listAlerts (alertsRequest offset))
  | top field startTime endTime => do
    let startTime ← optional parseTime (startTime.bind filled)
    let endTime ← optional parseTime (endTime.bind filled)
    return statsTop field { startTime, endTime }
  | timeline startTime endTime interval => do
    let startTime ← optional parseTime (startTime.bind filled)
    let endTime ← optional parseTime (endTime.bind filled)
    return .timeline { interval, startTime, endTime }

theorem nodup_params (q : PageQuery) : (q.params.map (·.1)).Nodup := by
  cases q <;> simp only [params, List.map_cons, List.map_nil] <;> decide

theorem scalar_params (q : PageQuery) : ∀ p ∈ q.params, ∀ c ∈ p.1, Utf8.Scalar c := by
  rintro ⟨name, given⟩ hp
  have hname : ∃ s, name = str s := by
    cases q <;> simp only [params, List.mem_cons, Prod.mk.injEq, List.not_mem_nil, or_false] at hp <;> grind
  obtain ⟨s, rfl⟩ := hname
  exact fun c => scalar_str s

/-- What a parameter that a page gives is received as. -/
theorem getParam_given (q : PageQuery) (name : Str) (given : Option Str) (h : (name, given) ∈ q.params) :
    getParam (queryParams (buildQuery q.params)) name = given.bind filled :=
  getParam_received q.nodup_params q.scalar_params h

/-- A parameter that no page gives is not received. -/
theorem getParam_absent (q : PageQuery) (name : Str) (h : name ∉ q.params.map (·.1)) :
    getParam (queryParams (buildQuery q.params)) name = none :=
  getParam_other q.nodup_params q.scalar_params h

end PageQuery

/-- The endpoint runs the request that the page means. -/
theorem query_received (parseTime : Str → Option Time) (q : PageQuery) :
    q.route.receive parseTime (queryParams (buildQuery q.params)) = q.meant parseTime := by
  have hgiven := q.getParam_given
  have habsent := q.getParam_absent
  cases q with
  | search q =>
    simp only [Route.receive, PageQuery.route, PageQuery.meant,
      hgiven (str "start_time") (some q.filters.startTime) (by simp [PageQuery.params]),
      hgiven (str "end_time") (some q.filters.endTime) (by simp [PageQuery.params]),
      hgiven (str "source") (some q.filters.source) (by simp [PageQuery.params]),
      hgiven (str "event_type") (some q.filters.eventType) (by simp [PageQuery.params]),
      hgiven (str "user") (some q.filters.user) (by simp [PageQuery.params]),
      hgiven (str "src_ip") (some q.filters.srcIp) (by simp [PageQuery.params]),
      hgiven (str "limit") (some (digits q.limit)) (by simp [PageQuery.params]),
      hgiven (str "offset") (some (digits q.offset)) (by simp [PageQuery.params]),
      Option.bind_some, optional_digits]
    rfl
  | alerts offset =>
    have hnone : ∀ name ∈ [str "start_time", str "end_time", str "src_ip"],
        getParam (queryParams (buildQuery (PageQuery.alerts offset).params)) name = none := by
      intro name hname
      refine habsent name ?_
      simp only [PageQuery.params, List.map_cons, List.map_nil]
      revert name
      decide
    simp only [Route.receive, PageQuery.route, PageQuery.meant,
      hnone (str "start_time") (by simp), hnone (str "end_time") (by simp), hnone (str "src_ip") (by simp),
      hgiven (str "limit") (some (digits defaultLimit)) (by simp [PageQuery.params]),
      hgiven (str "offset") (some (digits offset)) (by simp [PageQuery.params]),
      Option.bind_some, optional_digits]
    rfl
  | top field startTime endTime =>
    have hnone : getParam (queryParams (buildQuery (PageQuery.top field startTime endTime).params)) (str "limit") = none := by
      refine habsent _ ?_
      simp only [PageQuery.params, List.map_cons, List.map_nil]
      decide
    simp only [Route.receive, PageQuery.route, PageQuery.meant, hnone,
      hgiven (str "field") (some (PageQuery.fieldText field)) (by simp [PageQuery.params]),
      hgiven (str "start_time") startTime (by simp [PageQuery.params]),
      hgiven (str "end_time") endTime (by simp [PageQuery.params]),
      Option.bind_some, filled_fieldText]
    rfl
  | timeline startTime endTime interval =>
    simp only [Route.receive, PageQuery.route, PageQuery.meant,
      hgiven (str "start_time") startTime (by simp [PageQuery.params]),
      hgiven (str "end_time") endTime (by simp [PageQuery.params]),
      hgiven (str "interval") (some (PageQuery.intervalText interval)) (by simp [PageQuery.params]),
      Option.bind_some, filled_intervalText]
    rfl

end LogMgmt
