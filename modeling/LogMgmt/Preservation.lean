import LogMgmt.Dispatcher

/-!
# What `raw` keeps

A normalizer takes over the payload as it is. The fallback writes two markers among its keys, so that a payload with
markers of its own, such as a fallback event that is sent again, keeps them only where they are the same
(`payload_preserved_iff`).
-/

namespace LogMgmt

namespace PyDict

/-- The value of a key, which may be `None`. -/
def lookup (d : PyDict) (key : Option Str) : Option PyVal := (d.find? fun kv => kv.1 == key).map (·.2)

/-- Every key of the payload is in `raw` with its value, and what is added are markers. -/
structure Preserves (markers : List Str) (raw payload : PyDict) : Prop where
  kept : ∀ key v, payload.lookup key = some v → raw.lookup key = some v
  added : ∀ key, raw.lookup key ≠ none → payload.lookup key = none → ∃ marker ∈ markers, key = some marker

section
variable {d raw : PyDict} {key : Str} {v : PyVal} {markers : List Str}

theorem lookup_map (d : PyDict) (f : Option Str → PyVal → PyVal) (key : Option Str) :
    lookup (d.map fun kv => (kv.1, f kv.1 kv.2)) key = (d.lookup key).map (f key) := by
  unfold lookup
  induction d with
  | nil => rfl
  | cons kv d ih =>
    by_cases hkey : kv.1 = key
    · simp [hkey]
    · simpa [hkey] using ih

theorem lookup_set (d : PyDict) (key : Str) (v : PyVal) (key' : Option Str) :
    (d.set key v).lookup key' = if key' = some key then some v else d.lookup key' := by
  unfold set
  split
  · rename_i hany
    have hmap : (d.map fun kv => if kv.1 == some key then (kv.1, v) else kv) =
        d.map fun kv => (kv.1, if kv.1 == some key then v else kv.2) :=
      List.map_congr_left fun kv _ => by split <;> rfl
    rw [hmap, lookup_map d fun k w => if k == some key then v else w]
    by_cases hkey : key' = some key
    · obtain ⟨w, hw⟩ := Option.isSome_iff_exists.1 (List.find?_isSome.2 (List.any_eq_true.1 hany))
      simp [lookup, hkey, hw]
    · simp [hkey]
  · rename_i hany
    unfold lookup
    rw [List.find?_append]
    by_cases hkey : key' = some key
    · have hnone : d.find? (fun kv => kv.1 == some key) = none :=
        List.find?_eq_none.2 fun kv hkv heq => hany (List.any_eq_true.2 ⟨kv, hkv, heq⟩)
      simp [hkey, hnone]
    · simp [hkey, Ne.symm hkey]

theorem Preserves.refl (markers : List Str) (d : PyDict) : d.Preserves markers d where
  kept _ _ h := h
  added _ hsome hnone := absurd hnone hsome

/-- A marker is written over a key of the payload without a trace only where it says the same. -/
theorem preserves_set_iff (hkey : key ∈ markers) (hraw : raw.lookup (some key) = d.lookup (some key)) :
    (raw.set key v).Preserves markers d ↔ raw.Preserves markers d ∧ ∀ v', d.get? key = some v' → v' = v := by
  constructor
  · intro h
    refine ⟨⟨fun key' v' hv' => ?_, fun key' hsome hnone => ?_⟩, fun v' hv' => ?_⟩
    · have hkept := h.kept key' v' hv'
      rw [lookup_set] at hkept
      split at hkept
      · rename_i heq
        rw [heq, hraw, ← heq]
        exact hv'
      · exact hkept
    · by_cases heq : key' = some key
      · exact ⟨key, hkey, heq⟩
      · exact h.added key' (by rwa [lookup_set, if_neg heq]) hnone
    · have hkept := h.kept (some key) v' hv'
      rw [lookup_set, if_pos rfl] at hkept
      exact (Option.some.inj hkept).symm
  · rintro ⟨h, hsame⟩
    refine ⟨fun key' v' hv' => ?_, fun key' hsome hnone => ?_⟩
    · rw [lookup_set]
      split
      · rename_i heq
        rw [hsame v' (by rwa [heq] at hv')]
      · exact h.kept key' v' hv'
    · by_cases heq : key' = some key
      · exact ⟨key, hkey, heq⟩
      · rw [lookup_set, if_neg heq] at hsome
        exact h.added key' hsome hnone

end

end PyDict

/-- The keys that the fallback writes. -/
def fallbackMarkers : List Str := [str "_fallback_reason", str "_fallback_source_hint"]

theorem fallbackRaw_preserves_iff (hint : PyVal) (d : PyDict) (reason : Str) :
    (fallbackRaw hint (.dict d) reason).Preserves fallbackMarkers d ↔
      (∀ v, d.get? (str "_fallback_reason") = some v → v = .str reason) ∧
        ∀ v, d.get? (str "_fallback_source_hint") = some v → v = hint := by
  have hother : PyDict.lookup (d.set (str "_fallback_reason") (.str reason)) (some (str "_fallback_source_hint")) =
      d.lookup (some (str "_fallback_source_hint")) := by
    rw [PyDict.lookup_set, if_neg (by decide)]
  rw [fallbackRaw, coerceRaw, PyDict.preserves_set_iff (by decide) hother, PyDict.preserves_set_iff (by decide) rfl]
  exact and_congr_left fun _ => and_iff_right (PyDict.Preserves.refl _ d)

/-! ### The dispatcher -/

section
variable {py : Py} {hint tenant : PyVal} {payload : Payload} {now : DateTime} {e : NormalizedEvent}

/-- The markers that a payload has, if no normalizer takes it, are those that the fallback writes. -/
def MarkersAgree (py : Py) (hint : PyVal) (d : PyDict) (tenant : PyVal) : Prop :=
  (∀ v, d.get? (str "_fallback_reason") = some v → v = .str (fallbackReason py hint (.dict d) tenant)) ∧
    ∀ v, d.get? (str "_fallback_source_hint") = some v → v = hint

/-- The payload survives in `raw` exactly if a normalizer takes it or it has no marker that the fallback changes. -/
theorem payload_preserved_iff {d : PyDict} (h : normalize py hint (.dict d) tenant now = .ok e) :
    e.raw.Preserves fallbackMarkers d ↔
      (accepting py hint (.dict d) tenant).isSome ∨ MarkersAgree py hint d tenant := by
  rcases normalize_cases py hint (.dict d) tenant now with ⟨source, ha, hn, -⟩ | ⟨ha, hhint, -⟩ | ⟨-, -, hn⟩
  · obtain ⟨a, hb, hreads⟩ := Source.exists_reads (hn ▸ h)
    have hraw : e.raw = d := (EventArgs.built hb).raw.trans hreads.raw
    rw [ha, hraw]
    exact iff_of_true (PyDict.Preserves.refl _ d) (.inl rfl)
  · rw [normalize_fallback ha hhint] at h
    obtain ⟨a, hf, -, hraw, -⟩ := exists_fallback_args py hint (.dict d) tenant now (fallbackReason py hint (.dict d) tenant)
    rw [(EventArgs.built (hf.symm.trans h)).raw, hraw, fallbackRaw_preserves_iff, ha]
    exact (or_iff_right Bool.false_ne_true).symm
  · rw [hn] at h
    cases h

end

/-! ### A fallback event that is sent again -/

/-- A stored fallback event, sent again under another source. -/
def PyDict.markedSample : PyDict :=
  [(some (str "source"), .str (str "syslog")), (some (str "_fallback_reason"), .str (str "KeyError: event_type")),
    (some (str "_fallback_source_hint"), .str (str "api"))]

theorem markers_overwritten :
    ∃ e, normalize .sample (PyDict.markedSample.get (str "source")) (.dict PyDict.markedSample) (.str (str "demoA"))
        ⟨0, some 0⟩ = .ok e ∧ ¬e.raw.Preserves fallbackMarkers PyDict.markedSample := by
  refine ⟨_, rfl, fun h => ?_⟩
  have hkept := h.kept (some (str "_fallback_source_hint")) (.str (str "api")) rfl
  exact absurd (PyVal.str.inj (Option.some.inj hkept)) (by decide)

/-- The same event under the source it came from keeps its marker. -/
theorem payload_preserved_sample :
    let d : PyDict := [(some (str "source"), .str (str "syslog")),
      (some (str "_fallback_source_hint"), .str (str "syslog")), (none, .int 1)]
    ∃ e, normalize .sample (.str (str "syslog")) (.dict d) (.str (str "demoA")) ⟨0, some 0⟩ = .ok e ∧
      e.raw.Preserves fallbackMarkers d := by
  intro d
  obtain ⟨e, he⟩ := exists_of_isOk (x := normalize .sample (.str (str "syslog")) (.dict d) (.str (str "demoA"))
    ⟨0, some 0⟩) rfl
  refine ⟨e, he, (payload_preserved_iff he).2 (.inr ⟨fun v hv => ?_, fun v hv => ?_⟩)⟩
  · cases hv
  · exact (Option.some.inj hv).symm

end LogMgmt
