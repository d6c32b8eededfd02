import LogMgmt.Normalizers
import LogMgmt.Schema
import Mathlib.Data.List.ReduceOption

/-!
# What the dispatcher returns

`normalize` returns an event exactly when it can look its hint up and the tenant is a string
(`normalize_returns_iff`), and that event can be stored exactly when what it copies out of the payload
can (`insertEvent_normalized`).
-/

namespace LogMgmt

theorem bind_eq_ok {ε α β : Type} {x : Except ε α} {f : α → Except ε β} {b : β} :
    (x >>= f) = .ok b ↔ ∃ a, x = .ok a ∧ f a = .ok b := by
  rcases x with e | a
  · exact ⟨fun h => (by cases h), fun ⟨_, h, _⟩ => (by cases h)⟩
  · exact ⟨fun h => ⟨a, rfl, h⟩, fun ⟨_, h, hf⟩ => (by cases h; exact hf)⟩

theorem isOk_bind_iff {ε α β : Type} {x : Except ε α} {f : α → Except ε β} :
    (x >>= f).isOk ↔ ∃ a, x = .ok a ∧ (f a).isOk := by
  rcases x with e | a
  · exact ⟨fun h => (by cases h), fun ⟨_, h, _⟩ => (by cases h)⟩
  · exact ⟨fun h => ⟨a, rfl, h⟩, fun ⟨_, h, hf⟩ => (by cases h; exact hf)⟩

/-- A loop that collects results returns them all, or raises. -/
theorem forall₂_of_mapM {ε α β : Type} {f : α → Except ε β} {as : List α} {bs : List β} (h : as.mapM f = .ok bs) :
    List.Forall₂ (fun a b => f a = .ok b) as bs := by
  induction as generalizing bs with
  | nil =>
    cases h
    exact .nil
  | cons a as ih =>
    obtain ⟨b, hb, bs', hbs, h⟩ := by simpa only [List.mapM_cons, bind_eq_ok] using h
    cases h
    exact .cons hb (ih hbs)

theorem mapM_isOk_iff {ε α β : Type} {f : α → Except ε β} {as : List α} :
    (as.mapM f).isOk ↔ ∀ a ∈ as, (f a).isOk := by
  induction as with
  | nil => simp [pure, Except.pure, Except.isOk, Except.toBool]
  | cons a as ih =>
    rw [List.forall_mem_cons, ← ih, List.mapM_cons]
    cases f a with
    | error e => simp [bind, Except.bind, Except.isOk, Except.toBool]
    | ok b => cases as.mapM f <;> simp [bind, Except.bind, pure, Except.pure, Except.isOk, Except.toBool]

namespace EventArgs
variable {py : Py} {a : EventArgs} {e : NormalizedEvent}

theorem strField_eq_some {v : PyVal} {s : Str} : strField v = some s ↔ v = .str s := by
  cases v <;> simp [strField]

/-- What a built event has from its arguments. -/
structure Built (py : Py) (a : EventArgs) (e : NormalizedEvent) : Prop where
  tenant : strField a.tenant = some e.tenant
  source : e.source = a.source
  vendor : optional strField a.vendor = some e.vendor
  product : optional strField a.product = some e.product
  eventType : strField a.eventType = some e.eventType
  eventSubtype : optional strField a.eventSubtype = some e.eventSubtype
  severity : intField 10 a.severity = some e.severity
  action : optional strField a.action = some e.action
  srcIp : optional py.ipAddress a.srcIp = some e.srcIp
  srcPort : intField 65535 a.srcPort = some e.srcPort
  dstIp : optional py.ipAddress a.dstIp = some e.dstIp
  dstPort : intField 65535 a.dstPort = some e.dstPort
  protocol : optional strField a.protocol = some e.protocol
  user : optional strField a.user = some e.user
  host : optional strField a.host = some e.host
  process : optional strField a.process = some e.process
  ruleName : optional strField a.ruleName = some e.ruleName
  ruleId : optional strField a.ruleId = some e.ruleId
  cloudAccountId : optional strField a.cloudAccountId = some e.cloudAccountId
  cloudRegion : optional strField a.cloudRegion = some e.cloudRegion
  cloudService : optional strField a.cloudService = some e.cloudService
  url : e.url = none
  httpMethod : e.httpMethod = none
  statusCode : e.statusCode = none
  raw : e.raw = a.raw
  tags : e.tags = a.tags

theorem validate_of_build (h : a.build py = .ok e) : a.validate py = some e := by
  unfold build at h
  split at h
  · rename_i e' hv
    cases h
    exact hv
  · cases h

theorem built (h : a.build py = .ok e) : Built py a e := by
  have hv := validate_of_build h
  unfold validate at hv
  -- one bind for each validated field
  iterate 20 obtain ⟨_, _, hv⟩ := Option.bind_eq_some_iff.1 hv
  cases hv
  constructor <;> first | assumption | rfl

theorem build_eventTime (h : a.build py = .ok e) : e.eventTime = a.eventTime := by
  have hv := validate_of_build h
  unfold validate at hv
  iterate 20 obtain ⟨_, _, hv⟩ := Option.bind_eq_some_iff.1 hv
  cases hv
  rfl

/-- The arguments of text columns, but for the tenant and the source. -/
def textArgs (a : EventArgs) : List PyVal :=
  [a.vendor, a.product, a.eventType, a.eventSubtype, a.action, a.protocol, a.user, a.host, a.process,
    a.ruleName, a.ruleId, a.cloudAccountId, a.cloudRegion, a.cloudService]

/-- A text column takes the argument, if the field does. -/
def textArgOk : PyVal → Bool
  | .str s => textOk s
  | _ => true

theorem textOk_of_strField {v : PyVal} {s : Str} (h : strField v = some s) : textOk s = textArgOk v := by
  obtain rfl := strField_eq_some.1 h
  rfl

theorem textOk_of_optional {v : PyVal} {o : Option Str} (h : optional strField v = some o) : o.all textOk = textArgOk v := by
  unfold optional at h
  split at h
  · cases h
    rfl
  · obtain ⟨s, hs, rfl⟩ := Option.map_eq_some_iff.1 h
    exact textOk_of_strField hs

theorem all_reduceOption (p : Str → Bool) (l : List (Option Str)) : l.reduceOption.all p = l.all (·.all p) := by
  induction l with
  | nil => rfl
  | cons o l ih => cases o <;> simp [List.reduceOption_cons_of_some, List.reduceOption_cons_of_none, ih]

theorem Built.texts (h : Built py a e) (hsrc : textOk a.source) (htags : a.tags.all textOk) :
    e.texts.all textOk = (textOk e.tenant && a.textArgs.all textArgOk) := by
  simp only [EventFields.texts, textArgs, List.all_append, List.all_cons, List.all_nil, all_reduceOption, h.source, hsrc,
    h.tags, htags, h.url, h.httpMethod, Option.all_none, textOk_of_strField h.eventType, textOk_of_optional h.vendor,
    textOk_of_optional h.product, textOk_of_optional h.eventSubtype, textOk_of_optional h.action,
    textOk_of_optional h.protocol, textOk_of_optional h.user, textOk_of_optional h.host, textOk_of_optional h.process,
    textOk_of_optional h.ruleName, textOk_of_optional h.ruleId, textOk_of_optional h.cloudAccountId,
    textOk_of_optional h.cloudRegion, textOk_of_optional h.cloudService, Bool.and_true, Bool.true_and]
  ac_rfl

end EventArgs

/-! ### Values in `raw` -/

theorem jsonbOk_dict (d : PyDict) :
    jsonbOk (.dict d) = d.all fun kv => kv.1.all jsonTextOk && jsonbOk kv.2 := by
  rw [jsonbOk]
  induction d with
  | nil => rfl
  | cons kv d ih => rw [jsonbDictOk, ih, List.all_cons]

theorem jsonbOk_set (d : PyDict) {key : Str} (hkey : jsonTextOk key) (v : PyVal) :
    jsonbOk (.dict (d.set key v)) = (jsonbOk (.dict (d.without key)) && jsonbOk v) := by
  simp only [jsonbOk_dict, PyDict.set, PyDict.without, List.all_filter]
  split
  · rename_i h
    rw [List.all_map, Bool.eq_iff_iff, Bool.and_eq_true_iff, List.all_eq_true, List.all_eq_true]
    obtain ⟨kv₀, hkv₀, hk₀⟩ := List.any_eq_true.1 h
    constructor
    · intro hall
      refine ⟨fun kv hkv => ?_, ?_⟩
      · have := hall kv hkv
        by_cases hk : kv.1 = some key <;> simp_all
      · have := hall kv₀ hkv₀
        simp_all
    · rintro ⟨hall, hv⟩ kv hkv
      have := hall kv hkv
      by_cases hk : kv.1 = some key <;> simp_all
  · rename_i h
    rw [List.all_append, List.all_cons, List.all_nil]
    congr 1
    · rw [Bool.eq_iff_iff, List.all_eq_true, List.all_eq_true]
      refine forall₂_congr fun kv hkv => ?_
      have : kv.1 ≠ some key := fun hk => h (List.any_eq_true.2 ⟨kv, hkv, by simp [hk]⟩)
      simp [this]
    · simp [hkey]

theorem without_set (d : PyDict) {key key' : Str} (h : key ≠ key') (v : PyVal) :
    (d.set key v).without key' = (d.without key').set key v := by
  unfold PyDict.set PyDict.without
  have hany : (d.filter fun kv => kv.1 != some key').any (fun kv => kv.1 == some key) =
      d.any fun kv => kv.1 == some key := by
    rw [List.any_filter]
    refine List.any_congr rfl fun kv => ?_
    by_cases hk : kv.1 = some key <;> simp [hk, h]
  rw [hany]
  split
  · rw [List.filter_map]
    congr 1
    refine List.filter_congr fun kv _ => ?_
    by_cases hk : kv.1 = some key <;> simp [hk]
  · simp [List.filter_append, h]

/-! ### What a normalizer reads -/

/-- `repr` and the texts of exceptions escape what is not printable; `str` of a string is the string, and
of anything else a `repr`. -/
structure Py.Lawful (py : Py) : Prop where
  str_str : ∀ s, py.str (.str s) = s
  str_ok : ∀ v, (∀ s, v ≠ .str s) → textOk (py.str v)
  repr_ok : ∀ v, textOk (py.repr v)
  describe_ok : ∀ exc, textOk (py.describe exc)

theorem Py.Lawful.textArgOk_str {py : Py} (hpy : py.Lawful) (v : PyVal) :
    EventArgs.textArgOk (.str (py.str v)) = EventArgs.textArgOk v := by
  cases v with
  | str s => exact congrArg textOk (hpy.str_str s)
  | _ => exact hpy.str_ok _ (by simp)

theorem Py.sample_lawful : Py.sample.Lawful where
  str_str _ := rfl
  str_ok v hv := by
    cases v with
    | str s => exact absurd rfl (hv s)
    | _ => rfl
  repr_ok _ := rfl
  describe_ok _ := rfl

namespace SyslogEnvelope
variable {e : SyslogEnvelope} {key s : Str}

theorem get_eq_of_getItem (h : e.getItem key = .ok s) : e.get key = .str s := by
  unfold getItem at h
  unfold get
  split at h <;> cases h
  rfl

theorem jsonbOk_raw (e : SyslogEnvelope) : jsonbOk (.dict e.raw) = jsonTextOk e.rawLine := by
  rw [jsonbOk_dict]
  simp [raw, jsonbOk, show jsonTextOk (str "raw_line") by decide]

theorem textOk_of_mem (hline : textOk e.rawLine) (hs : ∀ c ∈ s, c ∈ e.rawLine) : textOk s :=
  List.all_eq_true.2 fun c hc => List.all_eq_true.1 hline c (hs c hc)

theorem textArgOk_hostname (hline : textOk e.rawLine) : EventArgs.textArgOk (.str e.hostname) :=
  textOk_of_mem hline e.mem_hostname

theorem textArgOk_get (hline : textOk e.rawLine) (key : Str) : EventArgs.textArgOk (e.get key) := by
  unfold get
  split
  · rename_i kv hkv
    exact textOk_of_mem hline (e.mem_fields kv (List.mem_of_find?_eq_some hkv))
  · rfl

end SyslogEnvelope

theorem PyDict.get?_of_getItem {d : PyDict} {key : Str} {v : PyVal} (h : d.getItem key = .ok v) :
    d.get? key = some v := by
  unfold getItem at h
  split at h <;> cases h
  assumption

theorem Payload.asDict_eq_ok {payload : Payload} {exc : PyExc} {d : PyDict} :
    payload.asDict exc = .ok d ↔ payload = .dict d := by
  cases payload <;> simp [asDict]

theorem Payload.asEnvelope_eq_ok {payload : Payload} {e : SyslogEnvelope} :
    payload.asEnvelope = .ok e ↔ payload = .envelope e := by
  cases payload <;> simp [asEnvelope]

namespace Source
variable {py : Py} {source : Source} {payload : Payload} {tenant : PyVal} {e : NormalizedEvent}

/-- What a normalizer copies from its payload into text columns. -/
def copied : Source → Payload → List PyVal
  | api, .dict d => [d.get (str "event_type"), d.get (str "reason"), d.get (str "user")]
  | crowdstrike, .dict d =>
    [d.get (str "event_type"), d.get (str "action"), d.get (str "host"), d.get (str "process")]
  | aws, .dict d =>
    [d.get (str "event_type"), d.get (str "user")] ++
      match d.get (str "cloud") with
      | .dict cloud =>
        [PyDict.get cloud (str "account_id"), PyDict.get cloud (str "region"), PyDict.get cloud (str "service")]
      | _ => []
  | m365, .dict d => [d.get (str "event_type"), d.get (str "status"), d.get (str "user")]
  | ad, .dict d => [d.get (str "event_type"), d.get (str "user"), d.get (str "host"), d.get (str "event_id")]
  | firewall, .envelope e =>
    [e.get (str "vendor"), e.get (str "product"), e.get (str "action"), e.get (str "proto"), .str e.hostname,
      e.get (str "policy")]
  | network, .envelope e => [e.get (str "event"), e.get (str "reason"), .str e.hostname]
  | _, _ => []

/-- What the arguments of a normalizer have from its input. -/
structure Reads (py : Py) (source : Source) (payload : Payload) (tenant : PyVal) (a : EventArgs) : Prop where
  tenant : a.tenant = tenant
  key : a.source = source.key
  raw : a.raw = coerceRaw payload
  tags : a.tags = []
  texts : py.Lawful → a.textArgs.all EventArgs.textArgOk = (source.copied payload).all EventArgs.textArgOk

/-- A normalizer that returns has built its event from what it reads. -/
theorem exists_reads (h : source.normalize py payload tenant = .ok e) :
    ∃ a, a.build py = .ok e ∧ Reads py source payload tenant a := by
  have hget : ∀ {d : PyDict} {key : Str} {v : PyVal}, d.getItem key = .ok v → d.get key = v := fun h => by
    rw [PyDict.get, PyDict.get?_of_getItem h]
    rfl
  have hnone : EventArgs.textArgOk .none := rfl
  cases source with
  | api =>
    obtain ⟨d, hd, ts, -, t, -, et, het, hb⟩ := by simpa only [normalize, normalizeApi, bind_eq_ok] using h
    obtain rfl := Payload.asDict_eq_ok.1 hd
    refine ⟨_, hb, rfl, rfl, rfl, rfl, fun _ => ?_⟩
    simp [EventArgs.textArgs, copied, hget het, hnone]
  | crowdstrike =>
    obtain ⟨d, hd, ts, -, t, -, et, het, sv, -, i, -, hb⟩ := by
      simpa only [normalize, normalizeCrowdstrike, bind_eq_ok] using h
    obtain rfl := Payload.asDict_eq_ok.1 hd
    refine ⟨_, hb, rfl, rfl, rfl, rfl, fun _ => ?_⟩
    simp [EventArgs.textArgs, copied, hget het, hnone]
  | aws =>
    obtain ⟨d, hd, ts, -, t, -, et, het, hb⟩ := by simpa only [normalize, normalizeAws, bind_eq_ok] using h
    obtain rfl := Payload.asDict_eq_ok.1 hd
    split at hb
    · rename_i cloud hcloud
      refine ⟨_, hb, rfl, rfl, rfl, rfl, fun _ => ?_⟩
      cases hg : d.get? (str "cloud") with
      | none =>
        rw [hg] at hcloud
        cases hcloud
        have hread : d.get (str "cloud") = .none := by rw [PyDict.get, hg]; rfl
        have hmissing : ∀ key, PyDict.get [] key = .none := fun _ => rfl
        simp [EventArgs.textArgs, copied, hget het, hnone, hread, hmissing]
      | some v =>
        rw [hg] at hcloud
        cases hcloud
        have hread : d.get (str "cloud") = .dict cloud := by rw [PyDict.get, hg]; rfl
        simp [EventArgs.textArgs, copied, hget het, hnone, hread]
    · cases hb
  | m365 =>
    obtain ⟨d, hd, ts, -, t, -, et, het, hb⟩ := by simpa only [normalize, normalizeM365, bind_eq_ok] using h
    obtain rfl := Payload.asDict_eq_ok.1 hd
    refine ⟨_, hb, rfl, rfl, rfl, rfl, fun _ => ?_⟩
    simp [EventArgs.textArgs, copied, hget het, hnone]
  | ad =>
    obtain ⟨d, hd, ts, -, t, -, et, het, hb⟩ := by simpa only [normalize, normalizeAd, bind_eq_ok] using h
    obtain rfl := Payload.asDict_eq_ok.1 hd
    refine ⟨_, hb, rfl, rfl, rfl, rfl, fun hpy => ?_⟩
    cases hid : d.get? (str "event_id") with
    | none =>
      have hread : d.get (str "event_id") = .none := by rw [PyDict.get, hid]; rfl
      simp [EventArgs.textArgs, copied, hget het, hnone, hread]
    | some v =>
      have hread : d.get (str "event_id") = v := by rw [PyDict.get, hid]; rfl
      simp [EventArgs.textArgs, copied, hget het, hnone, hpy.textArgOk_str, hread]
  | firewall =>
    obtain ⟨e, he, act, hact, src, -, spt, -, sp, -, dst, -, dpt, -, dp, -, hb⟩ := by
      simpa only [normalize, normalizeFirewall, bind_eq_ok] using h
    obtain rfl := Payload.asEnvelope_eq_ok.1 he
    refine ⟨_, hb, rfl, rfl, rfl, rfl, fun _ => ?_⟩
    simp [EventArgs.textArgs, copied, SyslogEnvelope.get_eq_of_getItem hact, hnone,
      show EventArgs.textArgOk (.str (str "traffic")) by decide]
  | network =>
    obtain ⟨e, he, et, het, hb⟩ := by simpa only [normalize, normalizeNetwork, bind_eq_ok] using h
    obtain rfl := Payload.asEnvelope_eq_ok.1 he
    refine ⟨_, hb, rfl, rfl, rfl, rfl, fun _ => ?_⟩
    simp [EventArgs.textArgs, copied, SyslogEnvelope.get_eq_of_getItem het, hnone]

/-- A normalizer of JSON takes the time from the payload. -/
theorem eventTime_of_normalize {d : PyDict} (h : source.normalize py (.dict d) tenant = .ok e) :
    parseRfc3339 py (d.get (str "@timestamp")) = .ok e.eventTime := by
  have hread : ∀ {d' : PyDict} {exc : PyExc} {ts : PyVal} {t : DateTime} {a : EventArgs},
      (Payload.dict d).asDict exc = .ok d' → d'.getItem (str "@timestamp") = .ok ts → parseRfc3339 py ts = .ok t →
      a.build py = .ok e → a.eventTime = t → parseRfc3339 py (d.get (str "@timestamp")) = .ok e.eventTime := by
    intro d' exc ts t a hd hts ht hb ha
    obtain rfl := Payload.dict.inj (Payload.asDict_eq_ok.1 hd)
    rw [PyDict.get, PyDict.get?_of_getItem hts, EventArgs.build_eventTime hb, ha]
    exact ht
  cases source with
  | api =>
    obtain ⟨d', hd, ts, hts, t, ht, et, -, hb⟩ := by simpa only [normalize, normalizeApi, bind_eq_ok] using h
    exact hread hd hts ht hb rfl
  | crowdstrike =>
    obtain ⟨d', hd, ts, hts, t, ht, et, -, sv, -, i, -, hb⟩ := by
      simpa only [normalize, normalizeCrowdstrike, bind_eq_ok] using h
    exact hread hd hts ht hb rfl
  | aws =>
    obtain ⟨d', hd, ts, hts, t, ht, et, -, hb⟩ := by simpa only [normalize, normalizeAws, bind_eq_ok] using h
    split at hb
    · exact hread hd hts ht hb rfl
    · cases hb
  | m365 =>
    obtain ⟨d', hd, ts, hts, t, ht, et, -, hb⟩ := by simpa only [normalize, normalizeM365, bind_eq_ok] using h
    exact hread hd hts ht hb rfl
  | ad =>
    obtain ⟨d', hd, ts, hts, t, ht, et, -, hb⟩ := by simpa only [normalize, normalizeAd, bind_eq_ok] using h
    exact hread hd hts ht hb rfl
  | firewall => cases h
  | network => cases h

end Source

/-! ### When it returns -/

section
variable {py : Py} {hint : PyVal} {payload : Payload} {tenant : PyVal} {now : DateTime} {e : NormalizedEvent}

/-- The source whose normalizer takes the payload. -/
def accepting (py : Py) (hint : PyVal) (payload : Payload) (tenant : PyVal) : Option Source :=
  match Source.ofHint hint with
  | .ok (some source) => if (source.normalize py payload tenant).isOk then some source else none
  | _ => none

/-- What the fallback says of a payload that no normalizer takes. -/
def fallbackReason (py : Py) (hint : PyVal) (payload : Payload) (tenant : PyVal) : Str :=
  match Source.ofHint hint with
  | .ok (some source) =>
    match source.normalize py payload tenant with
    | .error exc => py.describe exc
    | .ok _ => []
  | _ => str "unrecognized or missing source_hint=" ++ py.repr hint

theorem exists_fallback_args (py : Py) (hint : PyVal) (payload : Payload) (tenant : PyVal) (now : DateTime)
    (reason : Str) : ∃ a : EventArgs,
    fallback py hint payload tenant now reason = a.build py ∧ a.tenant = tenant ∧
      a.raw = fallbackRaw hint payload reason ∧ a.source = str "unknown" ∧ a.eventType = .str (str "unparsed") ∧
      a.tags = [str "fallback"] ∧ a.textArgs.all EventArgs.textArgOk :=
  ⟨_, rfl, rfl, rfl, rfl, rfl, rfl, rfl⟩

theorem fallback_isOk_iff (py : Py) (hint : PyVal) (payload : Payload) (tenant : PyVal) (now : DateTime)
    (reason : Str) :
    (fallback py hint payload tenant now reason).isOk ↔ (EventArgs.strField tenant).isSome := by
  unfold fallback EventArgs.build EventArgs.validate
  cases EventArgs.strField tenant <;> rfl

/-- A fallback event has its time from the clock, and nothing else. -/
theorem fallback_clock {reason : Str} (h : fallback py hint payload tenant now reason = .ok e) (now' : DateTime) :
    e.eventTime = now ∧ fallback py hint payload tenant now' reason = .ok { e with eventTime := now' } := by
  unfold fallback EventArgs.build EventArgs.validate at h ⊢
  cases ht : EventArgs.strField tenant with
  | none =>
    rw [ht] at h
    cases h
  | some t =>
    rw [ht] at h
    cases h
    exact ⟨rfl, rfl⟩

/-- What `normalize` does, by the normalizer that takes the payload, if one does. -/
theorem normalize_cases (py : Py) (hint : PyVal) (payload : Payload) (tenant : PyVal) (now : DateTime) :
    (∃ source, accepting py hint payload tenant = some source ∧
      normalize py hint payload tenant now = source.normalize py payload tenant ∧
      (source.normalize py payload tenant).isOk ∧ (Source.ofHint hint).isOk) ∨
    (accepting py hint payload tenant = none ∧ (Source.ofHint hint).isOk ∧ ∃ reason,
      (py.Lawful → textOk reason) ∧
      normalize py hint payload tenant now = fallback py hint payload tenant now reason) ∨
    (accepting py hint payload tenant = none ∧ Source.ofHint hint = .error .typeError ∧
      normalize py hint payload tenant now = .error .typeError) := by
  unfold normalize accepting
  cases hh : Source.ofHint hint with
  | error exc =>
    have : exc = .typeError := by
      unfold Source.ofHint at hh
      split at hh
      · cases hh
      · split at hh <;> cases hh
        rfl
    subst this
    exact .inr (.inr ⟨rfl, rfl, rfl⟩)
  | ok o =>
    cases o with
    | none =>
      refine .inr (.inl ⟨rfl, rfl, _, fun hpy => ?_, rfl⟩)
      rw [textOk, List.all_append, ← textOk, ← textOk, hpy.repr_ok, Bool.and_true]
      decide
    | some source =>
      cases hn : source.normalize py payload tenant with
      | ok e =>
        exact .inl ⟨source, by simp [hn, Except.isOk, Except.toBool], by simp [hn, bind, Except.bind],
          by rw [hn]; rfl, rfl⟩
      | error exc =>
        exact .inr (.inl ⟨by simp [hn, Except.isOk, Except.toBool], rfl, _, fun hpy => hpy.describe_ok exc,
          by simp [hn, bind, Except.bind]⟩)

theorem normalize_tenant (h : normalize py hint payload tenant now = .ok e) :
    EventArgs.strField tenant = some e.tenant := by
  rcases normalize_cases py hint payload tenant now with ⟨source, _, hn, _, _⟩ | ⟨_, _, reason, _, hn⟩ | ⟨_, _, hn⟩
  · obtain ⟨a, hb, hr⟩ := Source.exists_reads (hn ▸ h)
    exact hr.tenant ▸ (EventArgs.built hb).tenant
  · obtain ⟨a, ha, ht, -⟩ := exists_fallback_args py hint payload tenant now reason
    rw [hn, ha] at h
    exact ht ▸ (EventArgs.built h).tenant
  · rw [hn] at h; cases h

/-- The time of an event: that of the payload if a normalizer took it, else the current one. -/
theorem normalize_eventTime {d : PyDict} (h : normalize py hint (.dict d) tenant now = .ok e) :
    .ok e.eventTime =
      if (accepting py hint (.dict d) tenant).isSome then parseRfc3339 py (d.get (str "@timestamp")) else .ok now := by
  rcases normalize_cases py hint (.dict d) tenant now with ⟨source, ha, hn, _, _⟩ | ⟨ha, _, reason, _, hn⟩ | ⟨_, _, hn⟩
  · rw [ha]
    exact (Source.eventTime_of_normalize (hn ▸ h)).symm
  · rw [ha]
    exact congrArg _ (fallback_clock (hn ▸ h) now).1
  · rw [hn] at h
    cases h

theorem normalize_fallback (hnone : accepting py hint payload tenant = none) (hhint : (Source.ofHint hint).isOk) :
    normalize py hint payload tenant now =
      fallback py hint payload tenant now (fallbackReason py hint payload tenant) := by
  unfold accepting at hnone
  unfold normalize fallbackReason
  cases hsource : Source.ofHint hint with
  | error exc =>
    rw [hsource] at hhint
    cases hhint
  | ok o =>
    cases o with
    | none => rfl
    | some source =>
      rw [hsource] at hnone
      dsimp only at hnone ⊢
      cases hread : source.normalize py payload tenant with
      | error exc => simp [bind, Except.bind, hread]
      | ok e =>
        simp [hread, Except.isOk, Except.toBool] at hnone

/-- At another time the event is the same, or a fallback event with the other time. -/
theorem normalize_clock (h : normalize py hint payload tenant now = .ok e) (now' : DateTime) :
    ∃ e', normalize py hint payload tenant now' = .ok e' ∧
      (e' = e ∨ (e.tags = [str "fallback"] ∧ e.eventTime = now ∧ e' = { e with eventTime := now' })) := by
  rcases normalize_cases py hint payload tenant now with ⟨source, ha, hn, -⟩ | ⟨ha, hhint, -⟩ | ⟨-, -, hn⟩
  · rcases normalize_cases py hint payload tenant now' with ⟨source', ha', hn', -⟩ | ⟨ha', -⟩ | ⟨ha', -⟩
    · obtain rfl : source = source' := Option.some.inj (ha.symm.trans ha')
      exact ⟨e, hn'.trans (hn.symm.trans h), .inl rfl⟩
    · rw [ha] at ha'
      cases ha'
    · rw [ha] at ha'
      cases ha'
  · rw [normalize_fallback ha hhint] at h
    obtain ⟨a, hf, -, -, -, -, htags, -⟩ := exists_fallback_args py hint payload tenant now
      (fallbackReason py hint payload tenant)
    obtain ⟨htime, hfallback⟩ := fallback_clock h now'
    exact ⟨_, (normalize_fallback ha hhint).trans hfallback,
      .inr ⟨(EventArgs.built (hf.symm.trans h)).tags.trans htags, htime, rfl⟩⟩
  · rw [hn] at h
    cases h

theorem ofHint_isOk_iff : (Source.ofHint hint).isOk ↔ (hint.truthy → hint.hashable) := by
  unfold Source.ofHint
  cases hint.truthy <;> cases hint.hashable <;> simp [Except.isOk, Except.toBool]

theorem isOk_of_error {ε α : Type} {x : Except ε α} {e : ε} (h : x = .error e) : ¬x.isOk := by
  rw [h]
  exact Bool.false_ne_true

theorem exists_of_isOk {ε α : Type} {x : Except ε α} (h : x.isOk) : ∃ a, x = .ok a := by
  cases x with
  | ok a => exact ⟨a, rfl⟩
  | error e => cases h

/-- A hint that is falsy or can be hashed, and a tenant that is a string. -/
theorem normalize_isOk_iff (py : Py) (hint : PyVal) (payload : Payload) (tenant : PyVal) (now : DateTime) :
    (normalize py hint payload tenant now).isOk ↔
      (hint.truthy → hint.hashable) ∧ (EventArgs.strField tenant).isSome := by
  rw [← ofHint_isOk_iff]
  rcases normalize_cases py hint payload tenant now with
    ⟨source, -, hn, hok, hhint⟩ | ⟨-, hhint, reason, -, hn⟩ | ⟨-, hh, hn⟩
  · refine iff_of_true (hn ▸ hok) ⟨hhint, ?_⟩
    obtain ⟨e, he⟩ := exists_of_isOk hok
    rw [normalize_tenant (hn.trans he)]
    rfl
  · rw [hn, fallback_isOk_iff]
    exact (and_iff_right hhint).symm
  · exact iff_of_false (isOk_of_error hn) fun h => isOk_of_error hh h.1

/-- `normalize` returns exactly when its hint is falsy or hashable and the tenant is a string; a payload that no
normalizer takes then ends in the fallback event. -/
theorem normalize_returns_iff (py : Py) (hint : PyVal) (payload : Payload) (tenant : PyVal) (now : DateTime) :
    (∃ e, normalize py hint payload tenant now = .ok e ∧
      (accepting py hint payload tenant = none →
        e.source = str "unknown" ∧ e.eventType = str "unparsed" ∧ e.tags = [str "fallback"])) ↔
    (hint.truthy → hint.hashable) ∧ ∃ t, tenant = .str t := by
  have htenant : (∃ t, tenant = .str t) ↔ (EventArgs.strField tenant).isSome := by
    rw [Option.isSome_iff_exists]
    exact exists_congr fun t => EventArgs.strField_eq_some.symm
  rw [htenant, ← normalize_isOk_iff py hint payload tenant now]
  constructor
  · rintro ⟨e, h, -⟩
    rw [h]
    rfl
  · intro hok
    obtain ⟨e, h⟩ := exists_of_isOk hok
    refine ⟨e, h, fun hnone => ?_⟩
    rcases normalize_cases py hint payload tenant now with ⟨source, ha, -⟩ | ⟨-, -, reason, -, hn⟩ | ⟨-, -, hn⟩
    · rw [ha] at hnone
      cases hnone
    · obtain ⟨a, hf, -, -, hsrc, het, htags, -⟩ := exists_fallback_args py hint payload tenant now reason
      have hbt := EventArgs.built (hf.symm.trans (hn.symm.trans h))
      have htype := hbt.eventType
      rw [het] at htype
      exact ⟨hbt.source.trans hsrc, (PyVal.str.inj (EventArgs.strField_eq_some.1 htype)).symm, hbt.tags.trans htags⟩
    · rw [hn] at h
      cases h

/-- `POST /ingest` with a `source` that is an object: the lookup raises. -/
theorem normalize_object_source :
    let body : PyDict := [(some (str "source"), .dict [(some (str "a"), .int 1)])]
    let hint := body.get (str "source")
    let payload := Payload.dict (body.without (str "tenant"))
    ¬ ∃ e, normalize Py.sample hint payload (.str (str "demoA")) ⟨0, some 0⟩ = .ok e ∧
      (accepting Py.sample hint payload (.str (str "demoA")) = none →
        e.source = str "unknown" ∧ e.eventType = str "unparsed" ∧ e.tags = [str "fallback"]) := by
  rintro body hint payload ⟨e, h, -⟩
  cases h

/-! ### When the event can be stored -/

/-- Without surrogates there is nothing to join. -/
theorem jsonTextOk_of_textOk {s : Str} (h : textOk s) : jsonTextOk s := by
  unfold jsonTextOk
  fun_induction joinSurrogates s with
  | case1 high low s hpair ih =>
    have hhigh := List.all_eq_true.1 h high (by simp)
    simp only [Bool.and_eq_true, Bool.not_eq_true', Bool.and_eq_false_iff, decide_eq_false_iff_not] at hhigh
    omega
  | case2 high low s hpair ih =>
    rw [textOk, List.all_cons, Bool.and_eq_true] at h ⊢
    exact ⟨h.1, ih h.2⟩
  | case3 s _ => exact h

/-- What `normalize` copies out of its input has a place in the `events` table: the tenant, the payload with what the
normalizer takes from it as text, and, where no normalizer takes it, the hint, which with the reason takes the place of two
keys. -/
def storable (py : Py) (hint : PyVal) (payload : Payload) (tenant : PyVal) : Bool :=
  EventArgs.textArgOk tenant &&
    match accepting py hint payload tenant with
    | some source => jsonbOk (.dict (coerceRaw payload)) && (source.copied payload).all EventArgs.textArgOk
    | none =>
      jsonbOk (.dict (((coerceRaw payload).without (str "_fallback_source_hint")).without
        (str "_fallback_reason"))) && jsonbOk hint

/-- A line of plain text needs no more: what the normalizer takes from the envelope was cut out of it. -/
theorem storable_envelope {e : SyslogEnvelope} {source : Source} (hline : textOk e.rawLine)
    (ha : accepting py hint (.envelope e) tenant = some source) :
    storable py hint (.envelope e) tenant = EventArgs.textArgOk tenant := by
  have hraw : jsonbOk (.dict e.raw) := by
    rw [e.jsonbOk_raw]
    exact jsonTextOk_of_textOk hline
  have hcopied : (source.copied (.envelope e)).all EventArgs.textArgOk := by
    cases source <;> simp [Source.copied, e.textArgOk_hostname hline, e.textArgOk_get hline]
  rw [storable, ha]
  show (_ && (jsonbOk (.dict e.raw) && _)) = _
  rw [hraw, hcopied, Bool.and_self, Bool.and_true]

theorem jsonbOk_fallbackRaw {reason : Str} (hr : jsonTextOk reason) :
    jsonbOk (.dict (fallbackRaw hint payload reason)) =
      (jsonbOk (.dict (((coerceRaw payload).without (str "_fallback_source_hint")).without
        (str "_fallback_reason"))) && jsonbOk hint) := by
  rw [fallbackRaw, jsonbOk_set _ (by decide), without_set _ (by decide), jsonbOk_set _ (by decide)]
  simp [jsonbOk, hr]

theorem intField_range {hi : Int} {i o : Option Int} (h : EventArgs.intField hi i = some o) :
    o.all fun i => 0 ≤ i && i ≤ hi := by
  unfold EventArgs.intField at h
  split at h
  · cases h; rfl
  · split at h <;> cases h
    simpa using ‹_›

/-- What the column types and the constraints of `events` leave open for a validated event. -/
theorem insertEvent_isOk_iff {a : EventArgs} (hb : EventArgs.Built py a e) (hne : e.tenant ≠ []) {pg : Pg}
    {ctx : Ctx} {db : Db} (hctx : ctx.tenant = some e.tenant) :
    ((Stmt.insertEvent e).exec pg ctx db).isOk = (e.texts.all textOk && jsonbOk (.dict e.raw)) := by
  have hsev := intField_range hb.severity
  have hsrc := intField_range hb.srcPort
  have hdst := intField_range hb.dstPort
  simp only [Stmt.exec, EventColumns.ofParams, hb.statusCode]
  cases htexts : e.texts.all textOk
  · rfl
  cases hraw : jsonbOk (.dict e.raw)
  · rfl
  simp [pure, Except.pure, EventFields.checked, hctx, rls, hne, Except.isOk, Except.toBool,
    hsev, hsrc, hdst]

theorem textOk_tenant (h : normalize py hint payload tenant now = .ok e) :
    textOk e.tenant = EventArgs.textArgOk tenant :=
  EventArgs.textOk_of_strField (normalize_tenant h)

/-- INSERT takes the event exactly when what it was made of can be stored. -/
theorem insertEvent_normalized (hpy : py.Lawful) (h : normalize py hint payload tenant now = .ok e)
    (hne : e.tenant ≠ []) {pg : Pg} {ctx : Ctx} {db : Db} (hctx : ctx.tenant = some e.tenant) :
    ((Stmt.insertEvent e).exec pg ctx db).isOk = storable py hint payload tenant := by
  have hten := textOk_tenant h
  rcases normalize_cases py hint payload tenant now with ⟨source, ha, hn, _, _⟩ | ⟨ha, _, reason, hr, hn⟩ | ⟨_, _, hn⟩
  · obtain ⟨a, hb, hreads⟩ := Source.exists_reads (hn ▸ h)
    have hbt := EventArgs.built hb
    have hsrc : textOk a.source := by rw [hreads.key]; cases source <;> decide
    rw [insertEvent_isOk_iff hbt hne hctx, hbt.raw, hreads.raw, storable, ha,
      hbt.texts hsrc (by rw [hreads.tags]; rfl), hreads.texts hpy, hten, Bool.and_assoc, Bool.and_comm (List.all _ _)]
  · obtain ⟨a, hf, _, hraw, hsrc, _, htags, htexts⟩ := exists_fallback_args py hint payload tenant
      now reason
    rw [hn, hf] at h
    have hbt := EventArgs.built h
    rw [insertEvent_isOk_iff hbt hne hctx, hbt.raw, hraw, storable, ha,
      hbt.texts (by rw [hsrc]; decide) (by rw [htags]; decide), htexts, Bool.and_true, hten,
      jsonbOk_fallbackRaw (jsonTextOk_of_textOk (hr hpy))]
  · rw [hn] at h; cases h

end

end LogMgmt
