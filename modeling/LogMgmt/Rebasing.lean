import LogMgmt.BatchLoader
import LogMgmt.Rfc3339

/-!
# Rebasing

`--rebase-timestamps` moves all events of a file by one offset, which a minimum and a difference give. Both raise for
times of which only some, or none, have a UTC offset, so that the load goes through exactly if every timestamp that a
normalizer takes over has one (`rebase_shifts_iff`).
-/

namespace LogMgmt

/-- Moved so that the earliest of the times is `now`, every time is still one of `datetime`. -/
def DateTime.ShiftInRange (now : Time) (times : List DateTime) : Prop :=
  ∀ t ∈ times, ∃ t₀ ∈ times, (∀ t' ∈ times, t₀.instant ≤ t'.instant) ∧
    minWall ≤ t.wall + (now - t₀.instant) ∧ t.wall + (now - t₀.instant) ≤ maxWall

namespace BatchLoader

/-- The events afterwards: the earliest is at `now`, the differences are as before, and so is everything else. -/
structure Rebased (now : Time) (es es' : List NormalizedEvent) : Prop where
  earliest : (∃ e ∈ es', e.eventTime.instant = now) ∧ ∀ e ∈ es', now ≤ e.eventTime.instant
  spacing : ∀ p ∈ es.zip es', ∀ q ∈ es.zip es', p.2.eventTime.sub q.2.eventTime = p.1.eventTime.sub q.1.eventTime
  fields : List.Forall₂ (fun e e' => e' = { e with eventTime := e'.eventTime }) es es'

section
variable {py : Py} {args : Args} {clock : Nat → Time} {now : Time} {records : List PyVal} {es : List NormalizedEvent}

theorem rebasable_iff (times : List DateTime) :
    DateTime.Rebasable now times ↔ (∀ t ∈ times, t.utcoffset.isSome) ∧ DateTime.ShiftInRange now times :=
  forall₂_and

theorem instant_shift (offset : Int) (e : NormalizedEvent) :
    (shift offset e).eventTime.instant = e.eventTime.instant + offset :=
  (sub_add_eq_add_sub _ _ _).symm

theorem sub_shift (offset : Int) (e e' : NormalizedEvent) :
    (shift offset e).eventTime.sub (shift offset e').eventTime = e.eventTime.sub e'.eventTime := by
  unfold DateTime.sub
  rw [instant_shift, instant_shift, add_sub_add_right_eq_sub]
  rfl

theorem rebased_shift {t₀ : DateTime} (hmem : t₀ ∈ es.map (·.eventTime))
    (hle : ∀ t ∈ es.map (·.eventTime), t₀.instant ≤ t.instant) :
    Rebased now es (es.map (shift (now - t₀.instant))) where
  earliest := by
    obtain ⟨e, he, rfl⟩ := List.mem_map.1 hmem
    refine ⟨⟨shift _ e, List.mem_map_of_mem he, ?_⟩, fun e' he' => ?_⟩
    · rw [instant_shift, add_sub_cancel]
    · obtain ⟨e'', he'', rfl⟩ := List.mem_map.1 he'
      rw [instant_shift]
      calc now = e.eventTime.instant + (now - e.eventTime.instant) := (add_sub_cancel _ _).symm
        _ ≤ e''.eventTime.instant + (now - e.eventTime.instant) :=
          Int.add_le_add_right (hle _ (List.mem_map_of_mem he'')) _
  spacing := by
    intro p hp q hq
    rw [← List.map_prod_left_eq_zip, List.mem_map] at hp hq
    obtain ⟨e, -, rfl⟩ := hp
    obtain ⟨e', -, rfl⟩ := hq
    exact sub_shift _ e e'
  fields := by
    rw [List.forall₂_map_right_iff]
    exact List.forall₂_same.2 fun e _ => rfl

theorem rebase_ends (hne : es ≠ []) {es' : List NormalizedEvent} (h : rebaseTimestamps ⟨now, some 0⟩ es = .ok es') :
    Rebased now es es' := by
  obtain ⟨e, es, rfl⟩ := List.exists_cons_of_ne_nil hne
  obtain ⟨earliest, offset, hmin, hsub, rfl⟩ := rebase_cons_ok h
  obtain ⟨hmem, hall⟩ := min_ok hmin
  rw [(sub_eq_ok.1 hsub).2]
  exact rebased_shift hmem fun t ht => (hall t ht).1

/-- Rebasing is right whenever it ends, and it ends exactly if every event time has an offset. -/
theorem rebase_iff (hne : es ≠ []) (hrange : DateTime.ShiftInRange now (es.map (·.eventTime))) :
    (∃ es', rebaseTimestamps ⟨now, some 0⟩ es = .ok es' ∧ Rebased now es es') ↔
      ∀ e ∈ es, e.eventTime.utcoffset.isSome := by
  have haware : (∀ e ∈ es, e.eventTime.utcoffset.isSome) ↔ (rebaseTimestamps ⟨now, some 0⟩ es).isOk := by
    rw [rebase_isOk_iff, rebasable_iff, and_iff_left hrange, List.forall_mem_map]
  rw [haware]
  constructor
  · rintro ⟨es', h, -⟩
    rw [h]
    rfl
  · intro hok
    obtain ⟨es', h⟩ := exists_of_isOk hok
    exact ⟨es', h, rebase_ends hne h⟩

end

/-- The events of a file are shifted and nothing else happens to them exactly if every time that a normalizer has
taken from a record was written with a UTC offset; a fallback event has one from the clock. -/
theorem rebase_shifts_iff (py : Py) (args : Args) (clock : Nat → Time) (now : Time) {records : List PyVal}
    {es : List NormalizedEvent} (hcollect : collect py args clock records = .ok es) (hne : es ≠ [])
    (hrange : DateTime.ShiftInRange now (es.map (·.eventTime))) :
    (∃ es', rebaseTimestamps ⟨now, some 0⟩ es = .ok es' ∧ Rebased now es es') ↔
      ∀ t ∈ times py args clock records, t.utcoffset.isSome := by
  have htimes : times py args clock records = es.map (·.eventTime) := by
    rw [times_eq (collect_isOk_iff.1 (by rw [hcollect]; rfl)), collect_ok hcollect]
  rw [rebase_iff hne hrange, htimes, List.forall_mem_map]

/-- Two records, one of which no normalizer takes: its event is moved with the other. -/
theorem rebase_two :
    ∃ es es', collect Py.sample {} (fun _ => 0) [sampleRecord [], sampleRecord [(some (str "reason"), .int 5)]] = .ok es ∧
      rebaseTimestamps ⟨0, some 0⟩ es = .ok es' ∧ Rebased 0 es es' := by
  obtain ⟨es, hes⟩ := exists_of_isOk (x := collect Py.sample {} (fun _ => 0)
    [sampleRecord [], sampleRecord [(some (str "reason"), .int 5)]]) rfl
  have htimes : es.map (·.eventTime) = [⟨1755674400000000, some 0⟩, ⟨0, some 0⟩] := by
    rw [collect_ok hes]
    rfl
  have hne : es ≠ [] := by
    rintro rfl
    cases htimes
  have hrange : DateTime.ShiftInRange 0 (es.map (·.eventTime)) := by
    rw [htimes]
    unfold DateTime.ShiftInRange
    decide
  obtain ⟨es', h⟩ := (rebase_shifts_iff Py.sample {} (fun _ => 0) 0 hes hne hrange).2 (by decide)
  exact ⟨es, es', hes, h⟩

/-- A record whose timestamp has no offset, beside one that no normalizer takes: the load ends with a `TypeError`. -/
theorem naive_timestamp_aborts :
    let records : List PyVal := [.dict [(some (str "tenant"), .str (str "demoA")), (some (str "source"), .str (str "api")),
      (some (str "@timestamp"), .str (str "2025-08-20T07:20:00")), (some (str "event_type"), .str (str "login"))],
      .dict [(some (str "tenant"), .str (str "demoA"))]]
    ∃ es, collect Py.sample.python310 {} (fun _ => 0) records = .ok es ∧ es ≠ [] ∧
      DateTime.ShiftInRange 0 (es.map (·.eventTime)) ∧
      ¬∃ es', rebaseTimestamps ⟨0, some 0⟩ es = .ok es' ∧ Rebased 0 es es' := by
  intro records
  obtain ⟨es, hes⟩ := exists_of_isOk (x := collect Py.sample.python310 {} (fun _ => 0) records) (by decide +kernel)
  have htimes : es.map (·.eventTime) = [⟨1755674400000000, none⟩, ⟨0, some 0⟩] := by
    rw [collect_ok hes]
    decide +kernel
  have hne : es ≠ [] := by
    rintro rfl
    cases htimes
  have hrange : DateTime.ShiftInRange 0 (es.map (·.eventTime)) := by
    rw [htimes]
    unfold DateTime.ShiftInRange
    decide
  refine ⟨es, hes, hne, hrange, fun h => ?_⟩
  have hnaive : ⟨1755674400000000, none⟩ ∈ es.map (·.eventTime) := by
    rw [htimes]
    exact List.mem_cons_self
  obtain ⟨e, he, htime⟩ := List.mem_map.1 hnaive
  have haware := (rebase_iff hne hrange).1 h e he
  rw [htime] at haware
  cases haware

end BatchLoader

end LogMgmt
