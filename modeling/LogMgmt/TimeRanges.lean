import LogMgmt.Columns
import Mathlib.Algebra.BigOperators.Group.List.Lemmas

/-!
# Time ranges

`/search`, `/alerts`, `/stats/timeline` and `/stats/top` each build a WHERE clause of their own. All of them
take a range as half-open, so what they answer for two adjacent ranges adds up to what they answer for
both together (`ranges_agree`).
-/

namespace LogMgmt
open Prog

/-! ### Counts by group -/

/-- The rows counted in the groups whose key satisfies `p`. -/
def counted {κ : Type} (p : κ → Bool) (groups : List (κ × Nat)) : Nat := ((groups.filter fun g => p g.1).map (·.2)).sum

theorem counted_countBy {κ : Type} [DecidableEq κ] (p : κ → Bool) (l : List κ) :
    counted p (countBy id l) = l.countP p := by
  rw [← List.sum_map_count_dedup_filter_eq_countP]
  unfold counted countBy
  rw [List.filter_map, List.map_map, List.map_id]
  simp only [Function.comp_def, id, List.count_eq_length_filter, beq_eq_decide]

theorem counted_perm {κ : Type} {p : κ → Bool} {groups groups' : List (κ × Nat)} (h : groups.Perm groups') :
    counted p groups = counted p groups' := ((h.filter _).map _).sum_eq

theorem keys_countBy {κ : Type} [DecidableEq κ] (l : List κ) : (countBy id l).map (·.1) = l.dedup := by
  unfold countBy
  rw [List.map_map, List.map_id]
  exact List.map_id _

/-! ### Ranges -/

/-- `l` consists of the rows of `l₁` and those of `l₂`. -/
def Splits {α : Type} (l l₁ l₂ : List α) : Prop := (l₁ ++ l₂).Perm l ∧ l₁.Disjoint l₂

def EventFilter.between (f : EventFilter) (startTime endTime : Option Time) : EventFilter := { f with startTime, endTime }

def AlertFilter.between (f : AlertFilter) (startTime endTime : Option Time) : AlertFilter := { f with startTime, endTime }

section
variable {a c : Option Time} {b : Time}

theorem inRange_left (hc : ∀ t ∈ c, b ≤ t) (t : Time) : inRange a (some b) t = (inRange a c t && decide (t < b)) := by
  rw [Bool.eq_iff_iff, Bool.and_eq_true, inRange_iff, inRange_iff, decide_eq_true_iff]
  constructor
  · rintro ⟨ha, hb⟩
    have hlt : t < b := hb b rfl
    exact ⟨⟨ha, fun t' ht' => lt_of_lt_of_le hlt (hc t' ht')⟩, hlt⟩
  · rintro ⟨⟨ha, -⟩, hlt⟩
    refine ⟨ha, ?_⟩
    rintro _ ⟨⟩
    exact hlt

theorem inRange_right (ha : ∀ t ∈ a, t ≤ b) (t : Time) : inRange (some b) c t = (inRange a c t && !decide (t < b)) := by
  rw [Bool.eq_iff_iff, Bool.and_eq_true, inRange_iff, inRange_iff, Bool.not_eq_true', decide_eq_false_iff_not, not_lt]
  constructor
  · rintro ⟨hb, hc⟩
    have hle : b ≤ t := hb b rfl
    exact ⟨⟨fun t' ht' => le_trans (ha t' ht') hle, hc⟩, hle⟩
  · rintro ⟨⟨-, hc⟩, hle⟩
    refine ⟨?_, hc⟩
    rintro _ ⟨⟩
    exact hle

/-- A row at `b` itself is in the later range only. -/
theorem splits_filter {α : Type} (time : α → Time) (ha : ∀ t ∈ a, t ≤ b) (hc : ∀ t ∈ c, b ≤ t) (rows : List α) :
    Splits (rows.filter fun r => inRange a c (time r)) (rows.filter fun r => inRange a (some b) (time r))
      (rows.filter fun r => inRange (some b) c (time r)) := by
  have hleft : (rows.filter fun r => inRange a (some b) (time r)) =
      (rows.filter fun r => inRange a c (time r)).filter fun r => decide (time r < b) := by
    rw [List.filter_filter]
    simp only [inRange_left hc, Bool.and_comm]
  have hright : (rows.filter fun r => inRange (some b) c (time r)) =
      (rows.filter fun r => inRange a c (time r)).filter fun r => !decide (time r < b) := by
    rw [List.filter_filter]
    simp only [inRange_right ha, Bool.and_comm]
  rw [hleft, hright]
  refine ⟨List.filter_append_perm _ _, fun r hr hr' => ?_⟩
  have hlt := (List.mem_filter.1 hr).2
  have hge := (List.mem_filter.1 hr').2
  rw [hlt] at hge
  cases hge

end

section
variable (w : World) (claims : TokenClaims) (db : Db)

/-- The range selects from the rows of the other filters. -/
theorem matchingEvents_between (f : EventFilter) (a c : Option Time) :
    matchingEvents w claims db (f.between a c) =
      (matchingEvents w claims db (f.between none none)).filter fun e => inRange a c e.eventTime := by
  unfold matchingEvents EventFilter.between
  cases inetParam w.pg f.srcIp with
  | error err => rfl
  | ok ip =>
    rw [List.filter_filter]
    refine List.filter_congr fun e _ => ?_
    simp only [EventFilter.matches, Bool.and_assoc]
    rfl

theorem matchingAlerts_between (f : AlertFilter) (a c : Option Time) :
    matchingAlerts w claims db (f.between a c) =
      (matchingAlerts w claims db (f.between none none)).filter fun al => inRange a c al.triggeredAt := by
  unfold matchingAlerts AlertFilter.between
  cases inetParam w.pg f.srcIp with
  | error err => rfl
  | ok ip =>
    rw [List.filter_filter]
    rfl

theorem matchingEvents_range (a c : Option Time) :
    matchingEvents w claims db { startTime := a, endTime := c } =
      (db.visibleEvents (some claims.tenant)).filter fun e => inRange a c e.eventTime := by
  unfold matchingEvents inetParam
  refine List.filter_congr fun e _ => ?_
  simp [EventFilter.matches, eqFilter]

end

/-! ### Answers -/

/-- The call can be answered so on the committed rows `db`. -/
def Answers (w : World) (db : Db) (call : Call) (r : Response) : Prop :=
  ∃ t t' : Session, t.snapshot = db ∧ (call.app w).run (handle w.pg) t = (.ok r, t')

theorem answers_of_run {w : World} {call : Call} {r : Response} {t : Session}
    (h : ((call.app w).run (handle w.pg) t).1 = .ok r) : Answers w t.snapshot call r := by
  rcases hrun : (call.app w).run (handle w.pg) t with ⟨x, t'⟩
  rw [hrun] at h
  exact ⟨t, t', rfl, h ▸ hrun⟩

/-- The alerts of a page: from `offset` on, those that the request matches, latest first. -/
def pageAlerts (w : World) (claims : TokenClaims) (db : Db) (req : AlertsRequest) (order : RowOrder) : List Alert :=
  ((order.arrange (fun a => -a.triggeredAt) (matchingAlerts w claims db req.filter)).drop req.offset).take req.limit

/-- Each interval and the coarser ones. -/
def Interval.finer : Interval → Interval → Bool
  | minute, _ => true
  | hour, minute => false
  | hour, _ => true
  | day, day => true
  | day, _ => false

/-- A bucket of the finer interval lies within one of the coarser. -/
theorem Interval.trunc_trunc {i j : Interval} (h : i.finer j) (t : Time) : j.trunc (i.trunc t) = j.trunc t := by
  have hsecond : ∀ x : Int, ∀ mn ∈ [(60000000, 60000000), (60000000, 3600000000), (60000000, 86400000000),
      (3600000000, 3600000000), (3600000000, 86400000000), (86400000000, 86400000000)],
      x - x % mn.1 - (x - x % mn.1) % mn.2 = x - x % mn.2 := by
    intro x
    simp only [List.forall_mem_cons]
    refine ⟨?_, ?_, ?_, ?_, ?_, ?_, by simp⟩ <;> omega
  cases i with
  | minute =>
    cases j with
    | minute => exact hsecond t (60000000, 60000000) (by simp)
    | hour => exact hsecond t (60000000, 3600000000) (by simp)
    | day => exact hsecond t (60000000, 86400000000) (by simp)
  | hour =>
    cases j with
    | minute => cases h
    | hour => exact hsecond t (3600000000, 3600000000) (by simp)
    | day => exact hsecond t (3600000000, 86400000000) (by simp)
  | day =>
    cases j with
    | day => exact hsecond t (86400000000, 86400000000) (by simp)
    | _ => cases h

section
variable {w : World} {claims : TokenClaims} {db : Db}

theorem search_answer {req : SearchRequest} {r : SearchResponse} (h : Answers w db (.search req claims) (.search r)) :
    ∃ order, r.items = (pageRows w claims db req order).map .ofRow := by
  obtain ⟨t, t', rfl, hrun⟩ := h
  exact ⟨_, search_page hrun⟩

theorem alerts_answer {req : AlertsRequest} {r : AlertListResponse}
    (h : Answers w db (.listAlerts req claims) (.alerts r)) : ∃ order, r.items = pageAlerts w claims db req order := by
  obtain ⟨t, t', rfl, hrun⟩ := h
  obtain ⟨rows, ws, hx, hr⟩ := exec_of_tenantQuery (.listAlerts req.filter (req.limit + 1) req.offset) hrun
  cases hr
  refine ⟨(t.nature 2).order, ?_⟩
  show rows.take req.limit = _
  simp only [Stmt.exec] at hx
  split_ifs at hx
  unfold pageAlerts matchingAlerts
  cases hip : inetParam w.pg req.filter.srcIp with
  | error err =>
    rw [hip] at hx
    cases hx
  | ok ip =>
    rw [hip] at hx
    obtain ⟨-, rfl, -⟩ := loaded_eq_ok.1 hx
    rw [List.take_take, Nat.min_eq_left (Nat.le_succ _)]

theorem timeline_answer {req : TimelineRequest} {buckets : List (Time × Nat)}
    (h : Answers w db (.timeline req claims) (.timeline buckets)) :
    ∃ order : RowOrder, buckets = order.arrange (·.1) (countBy id ((matchingEvents w claims db
      { startTime := req.startTime, endTime := req.endTime }).map fun e => req.interval.trunc e.eventTime)) := by
  obtain ⟨t, t', rfl, hrun⟩ := h
  obtain ⟨rows, ws, hx, hr⟩ := exec_of_tenantQuery (.timeline req.interval req.startTime req.endTime) hrun
  cases hr
  obtain ⟨-, rfl, -⟩ := loaded_eq_ok.1 hx
  rw [matchingEvents_range]
  exact ⟨_, rfl⟩

theorem top_answer {req : TopRequest} {items : List (Str × Nat)} (h : Answers w db (.top req claims) (.top items)) :
    ∃ order : RowOrder, items = ((order.arrange (fun g => -(g.2 : Int)) (countBy id ((matchingEvents w claims db
      { startTime := req.startTime, endTime := req.endTime }).filterMap req.field.column))).take req.limit).map
        fun g => (TopField.text w.pg g.1, g.2) := by
  obtain ⟨t, t', rfl, hrun⟩ := h
  obtain ⟨rows, ws, hx, hr⟩ := exec_of_tenantQuery (.topEvents req.field req.startTime req.endTime req.limit) hrun
  cases hr
  cases hx
  rw [matchingEvents_range]
  exact ⟨_, rfl⟩

/-! ### The answers agree -/

theorem splits_events (f : EventFilter) {a c : Option Time} {b : Time} (ha : ∀ t ∈ a, t ≤ b) (hc : ∀ t ∈ c, b ≤ t) :
    Splits (matchingEvents w claims db (f.between a c)) (matchingEvents w claims db (f.between a (some b)))
      (matchingEvents w claims db (f.between (some b) c)) := by
  rw [matchingEvents_between, matchingEvents_between w claims db f a, matchingEvents_between w claims db f _ c]
  exact splits_filter (fun e : EventRow => e.eventTime) ha hc _

theorem splits_alerts (f : AlertFilter) {a c : Option Time} {b : Time} (ha : ∀ t ∈ a, t ≤ b) (hc : ∀ t ∈ c, b ≤ t) :
    Splits (matchingAlerts w claims db (f.between a c)) (matchingAlerts w claims db (f.between a (some b)))
      (matchingAlerts w claims db (f.between (some b) c)) := by
  rw [matchingAlerts_between, matchingAlerts_between w claims db f a, matchingAlerts_between w claims db f _ c]
  exact splits_filter (fun al : Alert => al.triggeredAt) ha hc _

/-- What is counted in the buckets of a timeline, by a property of the bucket. -/
theorem counted_timeline {req : TimelineRequest} {buckets : List (Time × Nat)}
    (h : Answers w db (.timeline req claims) (.timeline buckets)) (p : Time → Bool) :
    counted p buckets = (matchingEvents w claims db { startTime := req.startTime, endTime := req.endTime }).countP
      fun e => p (req.interval.trunc e.eventTime) := by
  obtain ⟨order, rfl⟩ := timeline_answer h
  rw [counted_perm (order.arrange_perm _ _), counted_countBy, List.countP_map]
  rfl

theorem counted_splits {a c : Option Time} {b : Time} (ha : ∀ t ∈ a, t ≤ b) (hc : ∀ t ∈ c, b ≤ t) {i : Interval}
    {buckets buckets₁ buckets₂ : List (Time × Nat)}
    (h : Answers w db (.timeline ⟨i, a, c⟩ claims) (.timeline buckets))
    (h₁ : Answers w db (.timeline ⟨i, a, some b⟩ claims) (.timeline buckets₁))
    (h₂ : Answers w db (.timeline ⟨i, some b, c⟩ claims) (.timeline buckets₂)) (p : Time → Bool) :
    counted p buckets = counted p buckets₁ + counted p buckets₂ := by
  rw [counted_timeline h, counted_timeline h₁, counted_timeline h₂, ← List.countP_append]
  exact ((splits_events {} ha hc).1.countP_eq _).symm

theorem timeline_increasing {req : TimelineRequest} {buckets : List (Time × Nat)}
    (h : Answers w db (.timeline req claims) (.timeline buckets)) : buckets.Pairwise fun g g' => g.1 < g'.1 := by
  obtain ⟨order, rfl⟩ := timeline_answer h
  set groups := countBy id ((matchingEvents w claims db
    { startTime := req.startTime, endTime := req.endTime }).map fun e => req.interval.trunc e.eventTime) with hgroups
  have hnd : ((order.arrange (·.1) groups).map (·.1)).Nodup := by
    rw [((order.arrange_perm (·.1) groups).map _).nodup_iff, hgroups, keys_countBy]
    exact List.nodup_dedup _
  have hle : RowOrder.Ascending (·.1) (order.arrange (·.1) groups) := order.arrange_ascending _ _
  rw [List.Nodup, List.pairwise_map] at hnd
  exact hle.imp₂ (fun g g' hle hne => lt_of_le_of_ne hle hne) hnd

theorem counted_coarser {i j : Interval} (hij : i.finer j) {a c : Option Time} {fine coarse : List (Time × Nat)}
    (h : Answers w db (.timeline ⟨i, a, c⟩ claims) (.timeline fine))
    (h' : Answers w db (.timeline ⟨j, a, c⟩ claims) (.timeline coarse)) (p : Time → Bool) :
    counted p coarse = counted (fun t => p (j.trunc t)) fine := by
  rw [counted_timeline h, counted_timeline h']
  simp only [Interval.trunc_trunc hij]

def TopField.carrying (field : TopField) (k : Inet ⊕ Str) (rows : List EventRow) : List EventRow :=
  rows.filter fun e => field.column e = some k

theorem mem_countBy {κ : Type} [DecidableEq κ] {l : List κ} {g : κ × Nat} (h : g ∈ countBy id l) :
    g.2 = l.countP fun k => k = g.1 := by
  obtain ⟨k, -, rfl⟩ := List.mem_map.1 h
  rw [List.countP_eq_length_filter]
  rfl

theorem countP_column (field : TopField) (rows : List EventRow) (k : Inet ⊕ Str) :
    ((rows.filterMap field.column).countP fun k' => k' = k) = (field.carrying k rows).length := by
  rw [List.countP_filterMap, TopField.carrying, ← List.countP_eq_length_filter]
  refine List.countP_congr fun e _ => ?_
  cases field.column e <;> simp

/-- Each value on the answer of `GET /stats/top` is counted once and by the rows that carry it. -/
theorem top_counts {req : TopRequest} {items : List (Str × Nat)} (h : Answers w db (.top req claims) (.top items)) :
    ∃ keys : List (Inet ⊕ Str), keys.Nodup ∧ items = keys.map fun k => (TopField.text w.pg k,
      (req.field.carrying k
        (matchingEvents w claims db { startTime := req.startTime, endTime := req.endTime })).length) := by
  obtain ⟨order, rfl⟩ := top_answer h
  set rows := matchingEvents w claims db { startTime := req.startTime, endTime := req.endTime }
  set groups := order.arrange (fun g => -(g.2 : Int)) (countBy id (rows.filterMap req.field.column)) with hgroups
  refine ⟨(groups.take req.limit).map (·.1), ?_, ?_⟩
  · have hnd : (groups.map (·.1)).Nodup := by
      rw [hgroups, ((order.arrange_perm _ _).map _).nodup_iff, keys_countBy]
      exact List.nodup_dedup _
    exact hnd.sublist ((List.take_sublist _ _).map _)
  · rw [List.map_map]
    refine List.map_congr_left fun g hg => ?_
    have hmem : g ∈ countBy id (rows.filterMap req.field.column) :=
      RowOrder.mem_arrange.1 ((List.take_sublist _ _).subset hg)
    rw [Function.comp_apply, ← countP_column, ← mem_countBy hmem]

end

/-- All read endpoints take a range as half-open: what they answer for two adjacent ranges adds up to what they
answer for both, and what they count are the rows that a search over the range matches. -/
theorem ranges_agree (w : World) (claims : TokenClaims) (db : Db) {a c : Option Time} {b : Time}
    (ha : ∀ t ∈ a, t ≤ b) (hc : ∀ t ∈ c, b ≤ t) :
    (∀ req r, Answers w db (.search req claims) (.search r) →
      ∃ order, r.items = (pageRows w claims db req order).map .ofRow) ∧
    (∀ f : EventFilter, Splits (matchingEvents w claims db (f.between a c))
      (matchingEvents w claims db (f.between a (some b))) (matchingEvents w claims db (f.between (some b) c))) ∧
    (∀ req r, Answers w db (.listAlerts req claims) (.alerts r) → ∃ order, r.items = pageAlerts w claims db req order) ∧
    (∀ f : AlertFilter, Splits (matchingAlerts w claims db (f.between a c))
      (matchingAlerts w claims db (f.between a (some b))) (matchingAlerts w claims db (f.between (some b) c))) ∧
    (∀ i buckets, Answers w db (.timeline ⟨i, a, c⟩ claims) (.timeline buckets) →
      (buckets.Pairwise fun g g' => g.1 < g'.1) ∧
      counted (fun _ => true) buckets = (matchingEvents w claims db { startTime := a, endTime := c }).length ∧
      (∀ buckets₁ buckets₂, Answers w db (.timeline ⟨i, a, some b⟩ claims) (.timeline buckets₁) →
        Answers w db (.timeline ⟨i, some b, c⟩ claims) (.timeline buckets₂) →
        ∀ t, counted (· = t) buckets = counted (· = t) buckets₁ + counted (· = t) buckets₂) ∧
      ∀ j coarse, i.finer j → Answers w db (.timeline ⟨j, a, c⟩ claims) (.timeline coarse) →
        ∀ t, counted (· = t) coarse = counted (fun t' => j.trunc t' = t) buckets) ∧
    ∀ req items, Answers w db (.top req claims) (.top items) → ∃ keys : List (Inet ⊕ Str), keys.Nodup ∧
      items = keys.map fun k => (TopField.text w.pg k, (req.field.carrying k
        (matchingEvents w claims db { startTime := req.startTime, endTime := req.endTime })).length) := by
  refine ⟨fun _ _ => search_answer, fun f => splits_events f ha hc, fun _ _ => alerts_answer,
    fun f => splits_alerts f ha hc, fun i buckets h => ⟨timeline_increasing h, ?_, ?_, ?_⟩, fun _ _ => top_counts⟩
  · rw [counted_timeline h, List.countP_true]
  · exact fun buckets₁ buckets₂ h₁ h₂ t => counted_splits ha hc h h₁ h₂ _
  · exact fun j coarse hij h' t => counted_coarser hij h h' _

/-- Three events, one of them on the edge between two ranges. -/
def Db.onTheEdge : Db where
  events := [.sample 1 0, .sample 2 60000000, .sample 3 90000000]

theorem answers_onTheEdge {a c : Option Time} {buckets : List (Time × Nat)}
    (h : Stmt.answer World.sample.pg .sample (fun _ => {}) .onTheEdge (.timeline .minute a c) = .ok buckets) :
    Answers .sample .onTheEdge (.timeline ⟨.minute, a, c⟩ .sample) (.timeline buckets) := by
  refine answers_of_run (t := { db := .onTheEdge, conn := { autocommit := false }, nature := fun _ => {} }) ?_
  refine (run_tenantQuery (fun _ => rfl) (fun r : (Stmt.timeline .minute a c).Resp => Response.timeline r)
    .onTheEdge { autocommit := false }).trans ?_
  rw [h]
  rfl

/-- The event on the edge is counted with the later range. -/
theorem ranges_agree_edge :
    let both := [((0 : Time), 1), (60000000, 2)]
    let before := [((0 : Time), 1)]
    let after := [((60000000 : Time), 2)]
    Answers .sample .onTheEdge (.timeline ⟨.minute, some 0, some 120000000⟩ .sample) (.timeline both) ∧
      Answers .sample .onTheEdge (.timeline ⟨.minute, some 0, some 60000000⟩ .sample) (.timeline before) ∧
      Answers .sample .onTheEdge (.timeline ⟨.minute, some 60000000, some 120000000⟩ .sample) (.timeline after) ∧
      counted (· = 60000000) both = counted (· = 60000000) before + counted (· = 60000000) after := by
  intro both before after
  obtain ⟨-, -, -, -, htimeline, -⟩ := ranges_agree World.sample .sample .onTheEdge (a := some 0) (b := 60000000)
    (c := some 120000000) (by decide) (by decide)
  have hboth : Answers .sample .onTheEdge (.timeline ⟨.minute, some 0, some 120000000⟩ .sample) (.timeline both) :=
    answers_onTheEdge (by decide +kernel)
  have hbefore : Answers .sample .onTheEdge (.timeline ⟨.minute, some 0, some 60000000⟩ .sample) (.timeline before) :=
    answers_onTheEdge (by decide +kernel)
  have hafter : Answers .sample .onTheEdge (.timeline ⟨.minute, some 60000000, some 120000000⟩ .sample)
      (.timeline after) := answers_onTheEdge (by decide +kernel)
  exact ⟨hboth, hbefore, hafter, (htimeline .minute _ hboth).2.2.1 _ _ hbefore hafter _⟩

end LogMgmt
