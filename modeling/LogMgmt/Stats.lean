import LogMgmt.TimeRanges
import LogMgmt.DashboardPage
import Mathlib.Data.Int.Interval

/-!
# The numbers on the dashboard

What `GET /stats/top` and `GET /stats/timeline` count is what a search finds: the values that occur most, each with the
number of events that a search for it matches (`top_most`, `top_searched`), and one bucket for each time unit in which
there are events, with the number that a search over that unit matches (`timeline_counts`). The interval that the
dashboard chooses keeps the buckets few (`timeline_short`).
-/

namespace LogMgmt

/-! ### The most frequent values -/

/-- The events that a search over the range matches. -/
def eventsBetween (w : World) (claims : TokenClaims) (db : Db) (startTime endTime : Option Time) : List EventRow :=
  matchingEvents w claims db { startTime, endTime }

/-- `keys` are the values of the column that occur most in `rows`, `limit` of them if there are as many. -/
structure TopField.Most (field : TopField) (limit : Nat) (rows : List EventRow) (keys : List (Inet ⊕ Str)) : Prop where
  nodup : keys.Nodup
  occurs : ∀ k ∈ keys, field.carrying k rows ≠ []
  descending : keys.Pairwise fun k k' => (field.carrying k' rows).length ≤ (field.carrying k rows).length
  most : ∀ k ∈ keys, ∀ k', k' ∉ keys → (field.carrying k' rows).length ≤ (field.carrying k rows).length
  length_le : keys.length ≤ limit
  all : keys.length < limit → ∀ e ∈ rows, ∀ k ∈ field.column e, k ∈ keys

section
variable {w : World} {claims : TokenClaims} {db : Db}

theorem exists_of_mem_countBy {κ : Type} [DecidableEq κ] {l : List κ} {k : κ} (h : k ∈ l) :
    ∃ g ∈ countBy id l, g.1 = k := by
  have hkey : k ∈ (countBy id l).map (·.1) := by
    rw [keys_countBy]
    exact List.mem_dedup.2 h
  exact List.mem_map.1 hkey

theorem mem_of_mem_countBy {κ : Type} [DecidableEq κ] {l : List κ} {g : κ × Nat} (h : g ∈ countBy id l) : g.1 ∈ l := by
  have hkey : g.1 ∈ (countBy id l).map (·.1) := List.mem_map_of_mem h
  rw [keys_countBy] at hkey
  exact List.mem_dedup.1 hkey

theorem carrying_ne_nil {field : TopField} {rows : List EventRow} {k : Inet ⊕ Str} :
    field.carrying k rows ≠ [] ↔ k ∈ rows.filterMap field.column := by
  rw [List.mem_filterMap, TopField.carrying, Ne, List.filter_eq_nil_iff]
  simp only [decide_eq_true_eq, not_forall, not_not, exists_prop]

/-- The groups that `LIMIT` keeps. -/
theorem most_take (field : TopField) (limit : Nat) (rows : List EventRow) (order : RowOrder) :
    field.Most limit rows (((order.arrange (fun g => -(g.2 : Int)) (countBy id (rows.filterMap field.column))).take
      limit).map (·.1)) := by
  set groups := countBy id (rows.filterMap field.column) with hgroups
  set listed := order.arrange (fun g => -(g.2 : Int)) groups with hlisted
  have hsub : ∀ g ∈ listed.take limit, g ∈ groups := fun g hg =>
    RowOrder.mem_arrange.1 ((List.take_sublist _ _).subset hg)
  have hcount : ∀ g ∈ groups, g.2 = (field.carrying g.1 rows).length := fun g hg => by
    rw [mem_countBy hg, countP_column]
  refine ⟨?_, ?_, ?_, ?_, ?_, ?_⟩
  · have hnd : (listed.map (·.1)).Nodup := by
      rw [((order.arrange_perm _ _).map _).nodup_iff, keys_countBy]
      exact List.nodup_dedup _
    exact hnd.sublist ((List.take_sublist _ _).map _)
  · intro k hk
    obtain ⟨g, hg, rfl⟩ := List.mem_map.1 hk
    exact carrying_ne_nil.2 (mem_of_mem_countBy (hsub g hg))
  · rw [List.pairwise_map]
    have hsorted : (listed.take limit).Pairwise fun g g' => -(g.2 : Int) ≤ -(g'.2 : Int) :=
      (order.arrange_ascending _ _).sublist (List.take_sublist _ _)
    refine hsorted.imp_of_mem fun {g g'} hg hg' hle => ?_
    rw [← hcount g (hsub g hg), ← hcount g' (hsub g' hg')]
    exact Int.ofNat_le.1 (Int.neg_le_neg_iff.1 hle)
  · intro k hk k' hk'
    obtain ⟨g, hg, rfl⟩ := List.mem_map.1 hk
    by_cases hoccurs : field.carrying k' rows = []
    · rw [hoccurs]
      exact Nat.zero_le _
    · obtain ⟨g', hg', rfl⟩ := exists_of_mem_countBy (carrying_ne_nil.1 hoccurs)
      have hout : g' ∉ listed.take limit := fun hc => hk' (List.mem_map_of_mem hc)
      have hle := order.le_of_mem_take hg hg' hout
      rw [← hcount g (hsub g hg), ← hcount g' hg']
      exact Int.ofNat_le.1 (Int.neg_le_neg_iff.1 hle)
  · rw [List.length_map]
    exact List.length_take_le _ _
  · intro hlt e he k hk
    rw [List.length_map, List.length_take] at hlt
    have hshort : listed.length ≤ limit := by omega
    rw [List.take_of_length_le hshort]
    obtain ⟨g, hg, rfl⟩ := exists_of_mem_countBy (List.mem_filterMap.2 ⟨e, he, hk⟩)
    exact List.mem_map_of_mem (RowOrder.mem_arrange.2 hg)

/-- `GET /stats/top` lists the values that occur most, each with the number of its events. -/
theorem top_most {req : TopRequest} {items : List (Str × Nat)} (h : Answers w db (.top req claims) (.top items)) :
    ∃ keys, req.field.Most req.limit (eventsBetween w claims db req.startTime req.endTime) keys ∧
      items = keys.map fun k => (TopField.text w.pg k,
        (req.field.carrying k (eventsBetween w claims db req.startTime req.endTime)).length) := by
  obtain ⟨order, rfl⟩ := top_answer h
  refine ⟨_, most_take req.field req.limit _ order, ?_⟩
  rw [List.map_map]
  refine List.map_congr_left fun g hg => ?_
  have hmem := RowOrder.mem_arrange.1 ((List.take_sublist _ _).subset hg)
  show _ = (_, _)
  rw [eventsBetween, ← countP_column, ← mem_countBy hmem]

/-! ### Searching for a value -/

/-- The parameter of `GET /search` for a value of the column. -/
def TopField.filter (field : TopField) (value : Str) (startTime endTime : Option Time) : EventFilter :=
  match field with
  | .ip => { startTime, endTime, srcIp := some value }
  | .user => { startTime, endTime, user := some value }
  | .eventType => { startTime, endTime, eventType := some value }

/-- The server reads its own text of an address back. -/
def Pg.ReadsBack (pg : Pg) (a : Inet) : Prop := textOk (pg.inetText a) ∧ pg.inetIn (pg.inetText a) = some a

/-- A search for a listed value finds the events that are counted for it. -/
theorem carrying_eq_matching {field : TopField} {k : Inet ⊕ Str} {startTime endTime : Option Time}
    (hinet : ∀ e ∈ db.events, ∀ a ∈ e.srcIp, w.pg.ReadsBack a)
    (hk : field.carrying k (eventsBetween w claims db startTime endTime) ≠ []) :
    field.carrying k (eventsBetween w claims db startTime endTime) =
      matchingEvents w claims db (field.filter (TopField.text w.pg k) startTime endTime) := by
  rw [carrying_ne_nil, eventsBetween, matchingEvents_range] at hk
  obtain ⟨e, he, hcolumn⟩ := List.mem_filterMap.1 hk
  rw [List.mem_filter, Db.visibleEvents, List.mem_filter] at he
  rw [TopField.carrying, eventsBetween, matchingEvents_range, List.filter_filter]
  cases field with
  | ip =>
    obtain ⟨a, ha, rfl⟩ := Option.map_eq_some_iff.1 hcolumn
    obtain ⟨htext, hback⟩ := hinet e he.1.1 a ha
    have hparam : inetParam w.pg (some (w.pg.inetText a)) = .ok (some a) := inetParam_some.2 ⟨htext, a, hback, rfl⟩
    unfold matchingEvents TopField.filter TopField.text
    dsimp only
    rw [hparam]
    refine List.filter_congr fun e' _ => ?_
    rw [Bool.eq_iff_iff]
    simp [EventFilter.matches, eqFilter, TopField.column, and_comm]
  | user =>
    obtain ⟨user, -, rfl⟩ := Option.map_eq_some_iff.1 hcolumn
    refine List.filter_congr fun e' _ => ?_
    rw [Bool.eq_iff_iff]
    simp [EventFilter.matches, eqFilter, TopField.column, TopField.filter, TopField.text, and_comm]
  | eventType =>
    obtain rfl : Sum.inr e.eventType = k := Option.some.inj hcolumn
    refine List.filter_congr fun e' _ => ?_
    rw [Bool.eq_iff_iff]
    simp [EventFilter.matches, eqFilter, TopField.column, TopField.filter, TopField.text, and_comm]

/-- Whenever a search for a listed value answers, it has as many events as are counted for the value, or a full page. -/
theorem top_searched (hinet : ∀ e ∈ db.events, ∀ a ∈ e.srcIp, w.pg.ReadsBack a) {req : TopRequest}
    {items : List (Str × Nat)} (h : Answers w db (.top req claims) (.top items)) {item : Str × Nat} (hitem : item ∈ items) :
    0 < item.2 ∧ ∀ search r, search.filter = req.field.filter item.1 req.startTime req.endTime → search.offset = 0 →
      Answers w db (.search search claims) (.search r) → r.items.length = min search.limit item.2 := by
  obtain ⟨keys, hmost, rfl⟩ := top_most h
  obtain ⟨k, hk, rfl⟩ := List.mem_map.1 hitem
  have hoccurs := hmost.occurs k hk
  refine ⟨List.length_pos_of_ne_nil hoccurs, fun search r hfilter hoffset hr => ?_⟩
  obtain ⟨order, hitems⟩ := search_answer hr
  rw [hitems, carrying_eq_matching hinet hoccurs, List.length_map, pageRows, hoffset, hfilter, List.drop_zero,
    List.length_take, RowOrder.length_arrange]

end

/-- A query without faults is answered. -/
theorem answers_of_answer (w : World) {claims : TokenClaims} {db : Db} (stmt : Stmt) {r : stmt.Resp} {call : Call}
    (f : stmt.Resp → Response) (hcall : call.app w = tenantConn claims do let r ← sql stmt; return f r)
    (hr : stmt.answer w.pg claims (fun _ => {}) db = .ok r) : Answers w db call (f r) := by
  refine ⟨{ db, conn := { autocommit := false }, nature := fun _ => {} }, _, rfl, Prod.ext ?_ rfl⟩
  rw [hcall, run_tenantQuery (fun _ => rfl) f db { autocommit := false }, hr]
  rfl

/-- A server that knows one address. -/
def World.oneAddress : World := { World.sample with
  pg := {
    lower := id
    inetIn := fun s => if s = str "10.0.0.1" then some (.v4 0x0A000001 32) else none
    inetText := fun _ => str "10.0.0.1" } }

/-- An event from this address. -/
def Db.fromOneAddress : Db where
  events := [{ EventRow.sample 1 0 with srcIp := some (.v4 0x0A000001 32) }]

/-- The one address is counted once and found once. -/
theorem top_searched_oneAddress : ∃ r, Answers .oneAddress .fromOneAddress
    (.search { filter := TopField.ip.filter (str "10.0.0.1") none none } .sample) (.search r) ∧ r.items.length = min 50 1 := by
  have htop : Answers .oneAddress .fromOneAddress (.top { field := .ip } .sample) (.top [(str "10.0.0.1", 1)]) :=
    answers_of_answer .oneAddress (.topEvents .ip none none 10) Response.top rfl (by decide +kernel)
  have hsearch : Answers .oneAddress .fromOneAddress
      (.search { filter := TopField.ip.filter (str "10.0.0.1") none none } .sample)
      (.search ⟨(Db.fromOneAddress.events.take 50).map .ofRow, 50, 0, false⟩) :=
    answers_of_answer .oneAddress (.searchEvents (TopField.ip.filter (str "10.0.0.1") none none) 51 0)
      (fun rows => .search ⟨(rows.take 50).map .ofRow, 50, 0, decide (50 < rows.length)⟩) rfl rfl
  have hinet : ∀ e ∈ Db.fromOneAddress.events, ∀ a ∈ e.srcIp, World.oneAddress.pg.ReadsBack a := by
    simp only [Db.fromOneAddress, List.mem_singleton, forall_eq]
    rintro _ ⟨⟩
    exact ⟨by decide, rfl⟩
  exact ⟨_, hsearch, (top_searched hinet htop (List.mem_singleton.2 rfl)).2 _ _ rfl rfl hsearch⟩

/-! ### Buckets -/

/-- The length of a bucket. -/
def Interval.size : Interval → Int
  | minute => seconds 60
  | hour => seconds 3600
  | day => seconds 86400

theorem Interval.trunc_eq (i : Interval) (t : Time) : i.trunc t = t - t % i.size := by
  cases i <;> rfl

theorem Interval.size_pos (i : Interval) : 0 < i.size := by
  cases i <;> decide

/-- The part of a search's range that is in the bucket. -/
def Interval.within (i : Interval) (bucket : Time) (f : EventFilter) : EventFilter :=
  f.between (some (f.startTime.elim bucket (max bucket)))
    (some (f.endTime.elim (bucket + i.size) (min (bucket + i.size))))

theorem sub_emod_eq_iff {m b : Int} (hm : 0 < m) (hb : b - b % m = b) (t : Int) : t - t % m = b ↔ b ≤ t ∧ t < b + m := by
  have hmod := Int.emod_nonneg t hm.ne'
  have hlt := Int.emod_lt_of_pos t hm
  constructor
  · intro h
    omega
  · rintro ⟨hle, hbefore⟩
    obtain ⟨n, rfl⟩ : m ∣ b := Int.dvd_of_emod_eq_zero (by omega)
    have hrest : (t - m * n) % m = t - m * n := Int.emod_eq_of_lt (by omega) (by omega)
    rw [Int.sub_mul_emod_self_left] at hrest
    omega

theorem Interval.trunc_eq_iff {i : Interval} {bucket : Time} (hb : i.trunc bucket = bucket) (t : Time) :
    i.trunc t = bucket ↔ bucket ≤ t ∧ t < bucket + i.size := by
  rw [trunc_eq] at hb ⊢
  exact sub_emod_eq_iff i.size_pos hb t

theorem Interval.trunc_self (i : Interval) (t : Time) : i.trunc (i.trunc t) = i.trunc t :=
  trunc_trunc (by cases i <;> rfl) t

section
variable {w : World} {claims : TokenClaims} {db : Db}

theorem within_events {i : Interval} {bucket : Time} (hb : i.trunc bucket = bucket) (startTime endTime : Option Time) :
    matchingEvents w claims db (i.within bucket { startTime, endTime }) =
      (eventsBetween w claims db startTime endTime).filter fun e => i.trunc e.eventTime = bucket := by
  rw [Interval.within, matchingEvents_between, eventsBetween, matchingEvents_range, List.filter_filter]
  show (matchingEvents w claims db { startTime := none, endTime := none }).filter _ = _
  rw [matchingEvents_range, List.filter_filter]
  refine List.filter_congr fun e _ => ?_
  rw [Bool.eq_iff_iff, Bool.and_eq_true, Bool.and_eq_true, inRange_iff, inRange_iff, inRange_iff, decide_eq_true_iff,
    Interval.trunc_eq_iff hb]
  cases startTime <;> cases endTime <;> simp <;> tauto

theorem exists_of_bucket {req : TimelineRequest} {buckets : List (Time × Nat)}
    (h : Answers w db (.timeline req claims) (.timeline buckets)) {g : Time × Nat} (hg : g ∈ buckets) :
    ∃ e ∈ eventsBetween w claims db req.startTime req.endTime, req.interval.trunc e.eventTime = g.1 := by
  obtain ⟨order, rfl⟩ := timeline_answer h
  exact List.mem_map.1 (mem_of_mem_countBy (RowOrder.mem_arrange.1 hg))

/-- The buckets of a timeline, one for each interval in which there are events, with their number. -/
theorem timeline_counts {req : TimelineRequest} {buckets : List (Time × Nat)}
    (h : Answers w db (.timeline req claims) (.timeline buckets)) :
    (∀ g ∈ buckets, req.interval.trunc g.1 = g.1 ∧ 0 < g.2 ∧ g.2 = (matchingEvents w claims db
      (req.interval.within g.1 { startTime := req.startTime, endTime := req.endTime })).length) ∧
    ∀ e ∈ eventsBetween w claims db req.startTime req.endTime, ∃ g ∈ buckets, g.1 = req.interval.trunc e.eventTime := by
  have hexists := fun g => exists_of_bucket h (g := g)
  obtain ⟨order, rfl⟩ := timeline_answer h
  constructor
  · intro g hg
    obtain ⟨e, he, hkey⟩ := hexists g hg
    have hmem := RowOrder.mem_arrange.1 hg
    have haligned : req.interval.trunc g.1 = g.1 := by rw [← hkey, Interval.trunc_self]
    have hcount := mem_countBy hmem
    rw [List.countP_map, List.countP_eq_length_filter] at hcount
    refine ⟨haligned, ?_, ?_⟩
    · rw [hcount]
      exact List.length_pos_of_mem (List.mem_filter.2 ⟨he, decide_eq_true hkey⟩)
    · rw [within_events haligned]
      exact hcount
  · intro e he
    obtain ⟨g, hg, hkey⟩ := exists_of_mem_countBy (List.mem_map_of_mem (f := fun e => req.interval.trunc e.eventTime) he)
    exact ⟨g, RowOrder.mem_arrange.2 hg, hkey⟩

/-! ### How many buckets there are -/

/-- A list of different multiples of `m` is no longer than the interval of their quotients. -/
theorem length_le_of_multiples {m lo hi : Int} {l : List Int} (hinc : l.Pairwise (· < ·))
    (hmul : ∀ b ∈ l, b - b % m = b) (hbetween : ∀ b ∈ l, lo ≤ b / m ∧ b / m ≤ hi) : l.length ≤ (hi + 1 - lo).toNat := by
  have hnd : (l.map (· / m)).Nodup := by
    refine List.Nodup.map_on (fun b hb b' hb' heq => ?_) (hinc.imp fun h => h.ne)
    have hdvd : m ∣ b := Int.dvd_of_emod_eq_zero (by have := hmul b hb; omega)
    have hdvd' : m ∣ b' := Int.dvd_of_emod_eq_zero (by have := hmul b' hb'; omega)
    rw [← Int.ediv_mul_cancel hdvd, heq, Int.ediv_mul_cancel hdvd']
  have hsub : (l.map (· / m)).toFinset ⊆ Finset.Icc lo hi := by
    intro q hq
    obtain ⟨b, hb, rfl⟩ := List.mem_map.1 (List.mem_toFinset.1 hq)
    exact Finset.mem_Icc.2 (hbetween b hb)
  have hcard := Finset.card_le_card hsub
  rwa [List.toFinset_card_of_nodup hnd, List.length_map, Int.card_Icc] at hcard

theorem ediv_of_sub_emod {m t b : Int} (hm : 0 < m) (h : t - t % m = b) : b / m = t / m := by
  have hmul : m * (t / m) = b := by
    have := Int.mul_ediv_add_emod t m
    omega
  rw [← hmul, Int.mul_ediv_cancel_left _ hm.ne']

/-- A range of `n` buckets' length meets at most `n + 1` buckets. -/
theorem timeline_length {i : Interval} {a c : Time} {buckets : List (Time × Nat)}
    (h : Answers w db (.timeline ⟨i, some a, some c⟩ claims) (.timeline buckets)) {n : Nat} (hspan : c - a ≤ n * i.size) :
    buckets.length ≤ n + 1 := by
  have hpos := i.size_pos
  have haligned : ∀ b ∈ buckets.map (·.1), b - b % i.size = b := by
    intro b hb
    obtain ⟨g, hg, rfl⟩ := List.mem_map.1 hb
    rw [← Interval.trunc_eq]
    exact ((timeline_counts h).1 g hg).1
  have hbetween : ∀ b ∈ buckets.map (·.1), a / i.size ≤ b / i.size ∧ b / i.size ≤ a / i.size + n := by
    intro b hb
    obtain ⟨g, hg, rfl⟩ := List.mem_map.1 hb
    obtain ⟨e, he, hkey⟩ := exists_of_bucket h hg
    rw [eventsBetween, matchingEvents_range, List.mem_filter, inRange_iff] at he
    have hstart : a ≤ e.eventTime := he.2.1 a rfl
    have hend : e.eventTime < c := he.2.2 c rfl
    have hbefore : e.eventTime ≤ a + n * i.size := hend.le.trans (sub_le_iff_le_add'.1 hspan)
    rw [Interval.trunc_eq] at hkey
    rw [ediv_of_sub_emod hpos hkey, ← Int.add_mul_ediv_right a n hpos.ne']
    exact ⟨Int.ediv_le_ediv hpos hstart, Int.ediv_le_ediv hpos hbefore⟩
  have hlength := length_le_of_multiples (List.pairwise_map.2 (timeline_increasing h)) haligned hbetween
  rw [List.length_map] at hlength
  omega

end

/-- `GET /stats/top` lists the values that occur most, with what is counted for them, and `GET /stats/timeline` every
interval of the range in which there are events, with what a search over the interval matches. -/
theorem stats_exact (w : World) (claims : TokenClaims) (db : Db) :
    (∀ req items, Answers w db (.top req claims) (.top items) →
      ∃ keys, req.field.Most req.limit (eventsBetween w claims db req.startTime req.endTime) keys ∧
        items = keys.map fun k => (TopField.text w.pg k,
          (req.field.carrying k (eventsBetween w claims db req.startTime req.endTime)).length)) ∧
    ∀ req buckets, Answers w db (.timeline req claims) (.timeline buckets) →
      (buckets.Pairwise fun g g' => g.1 < g'.1) ∧
      (∀ g ∈ buckets, req.interval.trunc g.1 = g.1 ∧ 0 < g.2 ∧ g.2 = (matchingEvents w claims db
        (req.interval.within g.1 { startTime := req.startTime, endTime := req.endTime })).length) ∧
      ∀ e ∈ eventsBetween w claims db req.startTime req.endTime, ∃ g ∈ buckets, g.1 = req.interval.trunc e.eventTime :=
  ⟨fun _ _ => top_most, fun _ _ h => ⟨timeline_increasing h, timeline_counts h⟩⟩

/-- With the interval that the dashboard chooses, a timeline has no more than 121 points, or one more than there are days
in the range. -/
theorem timeline_short {w : World} {claims : TokenClaims} {db : Db} {a c : Time} {buckets : List (Time × Nat)}
    (h : Answers w db (.timeline ⟨chooseInterval (some a) (some c), some a, some c⟩ claims) (.timeline buckets)) {days : Nat}
    (hdays : c - a ≤ days * Interval.day.size) : buckets.length ≤ max 121 (days + 1) := by
  have hcases : (chooseInterval (some a) (some c) = .minute ∧ c - a ≤ (120 : Nat) * Interval.minute.size) ∨
      (chooseInterval (some a) (some c) = .hour ∧ c - a ≤ (72 : Nat) * Interval.hour.size) ∨
      chooseInterval (some a) (some c) = .day := by
    unfold chooseInterval
    dsimp only
    split_ifs with hminute hhour
    · exact .inl ⟨rfl, hminute⟩
    · exact .inr (.inl ⟨rfl, hhour⟩)
    · exact .inr (.inr rfl)
  rcases hcases with ⟨hi, hspan⟩ | ⟨hi, hspan⟩ | hi
  · rw [hi] at h
    exact (timeline_length h hspan).trans (le_max_left _ _)
  · rw [hi] at h
    exact (timeline_length h hspan).trans ((by decide : 73 ≤ 121).trans (le_max_left _ _))
  · rw [hi] at h
    exact (timeline_length h hdays).trans (le_max_right _ _)

/-- Two minutes with events in each. -/
theorem timeline_short_edge :
    let buckets := [((0 : Time), 1), (60000000, 2)]
    Answers .sample .onTheEdge (.timeline ⟨chooseInterval (some 0) (some 120000000), some 0, some 120000000⟩ .sample)
      (.timeline buckets) ∧ buckets.length ≤ max 121 (1 + 1) := by
  intro buckets
  have h : Answers .sample .onTheEdge (.timeline ⟨chooseInterval (some 0) (some 120000000), some 0, some 120000000⟩ .sample)
      (.timeline buckets) := answers_onTheEdge (by decide +kernel)
  exact ⟨h, timeline_short h (by decide)⟩

end LogMgmt
