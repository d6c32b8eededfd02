import LogMgmt.Lib.Detector
import LogMgmt.Cooldown

/-!
# Detection

For one tenant, rule and address the engine is a sampled detector (`Detector`): the arrivals are the
`ingested_at` of the failed logins, the looks are the ticks that commit. `run_alertTimes` says so for every
run; what the detector misses, the engine misses.
-/

namespace LogMgmt
open Prog

/-! ### The engine as a detector -/

namespace Db

/-- When the failed logins of an address arrived. -/
def arrivals (pg : Pg) (db : Db) (tenant : Str) (ip : Inet) : List Time :=
  ((db.visibleEvents (some tenant)).filter fun e => failedLogin pg e && e.srcIp = some ip).map (·.ingestedAt)

def alertTimes (db : Db) (key : AlertKey) : List Time := (db.alerts.filter fun a => a.key = key).map (·.triggeredAt)

end Db

def RuleConfig.detector (rule : RuleConfig) : Detector where
  threshold := rule.threshold
  window := seconds rule.windowSeconds
  cooldown := seconds rule.cooldownSeconds

namespace System

/-- The look that a step takes, if it is a tick of the tenant and commits. -/
def look (w : World) (url : Option Str) (tenant : Str) (ip : Inet) (s : System) : Action → List Look
  | .evaluate ν between =>
    if s.queue.head? = some tenant ∧ Commits w.pg url tenant (s.session w ν between) then
      [⟨(ν 0).now, ((s.session w ν between).seenAt 3).arrivals w.pg tenant ip⟩]
    else []
  | _ => []

def looks (w : World) (url : Option Str) (tenant : Str) (ip : Inet) : System → List Action → List Look
  | _, [] => []
  | s, a :: rest => s.look w url tenant ip a ++ looks w url tenant ip (s.step w url a) rest

/-- If the step is a tick of the tenant, it reads the rule so. -/
def Reads (w : World) (tenant : Str) (rule : RuleConfig) (s : System) : Action → Prop
  | .evaluate ν between =>
    s.queue.head? = some tenant → ((s.session w ν between).seenAt 2).ruleOf tenant = some rule
  | _ => True

/-- The rule is the same in all ticks of the tenant. -/
def AllRead (w : World) (url : Option Str) (tenant : Str) (rule : RuleConfig) : System → List Action → Prop
  | _, [] => True
  | s, a :: rest => s.Reads w tenant rule a ∧ AllRead w url tenant rule (s.step w url a) rest

end System

instance (w : World) (tenant : Str) (rule : RuleConfig) (s : System) : DecidablePred (System.Reads w tenant rule s)
  | .evaluate _ _ => inferInstanceAs (Decidable (_ → _))
  | .request _ => .isTrue trivial
  | .discover _ _ => .isTrue trivial

instance System.decidableAllRead (w : World) (url : Option Str) (tenant : Str) (rule : RuleConfig) :
    (s : System) → DecidablePred (System.AllRead w url tenant rule s)
  | _, [] => .isTrue trivial
  | s, a :: rest =>
    have := decidableAllRead w url tenant rule (s.step w url a) rest
    inferInstanceAs (Decidable (_ ∧ _))

section
variable {pg : Pg} {db : Db} {tenant : Str} {rule : RuleConfig} {now : Time} {ip : Inet}

/-- `DETECT_SQL` counts the arrivals in the window. -/
theorem length_fromIp (since : Time) :
    (fromIp ip (db.failedLogins (some tenant) pg since)).length =
      ((db.arrivals pg tenant ip).filter fun x => since ≤ x).length := by
  rw [Db.arrivals, List.filter_map, List.length_map, fromIp, Db.failedLogins, List.filter_filter, List.filter_filter]
  congr 1
  refine List.filter_congr fun e _ => ?_
  by_cases hip : e.srcIp = some ip
  · simp [hip, Bool.and_comm]
  · simp [hip]

theorem mem_candidates_srcIp {threshold : Int} (hpos : 0 < threshold) (rows : List EventRow) :
    ip ∈ (candidates threshold rows).map (·.srcIp) ↔ threshold ≤ (fromIp ip rows).length := by
  simp only [candidates, List.mem_map, List.mem_filter, List.mem_dedup, decide_eq_true_eq]
  constructor
  · rintro ⟨c, ⟨⟨ip', -, rfl⟩, hle⟩, rfl⟩
    exact hle
  · intro hle
    have hne : fromIp ip rows ≠ [] := fun hnil => by simp [hnil] at hle; omega
    obtain ⟨e, he⟩ := List.exists_mem_of_ne_nil _ hne
    obtain ⟨he, hip⟩ := List.mem_filter.1 he
    exact ⟨_, ⟨⟨ip, List.mem_filterMap.2 ⟨e, he, by simpa using hip⟩, rfl⟩, hle⟩, rfl⟩

theorem mem_detected_srcIp (ip : Inet) (hpos : 0 < rule.threshold) :
    ip ∈ (db.detected tenant pg rule now).map (·.srcIp) ↔
      rule.detector.Sees ⟨now, db.arrivals pg tenant ip⟩ := by
  rw [Db.detected, mem_candidates_srcIp hpos, length_fromIp]
  rfl

theorem pastCooldown_iff (alerts : List Alert) (tenant : Str) (rule : RuleConfig) (now : Time) (ip : Inet) :
    pastCooldown alerts tenant rule now ip = true ↔
      ∀ t ∈ (alerts.filter fun a => a.key = (tenant, rule.id, ip)).map (·.triggeredAt),
        t ≤ now - seconds rule.cooldownSeconds := by
  have hfilter : (alerts.filter fun a => a.tenant = tenant ∧ a.ruleId = rule.id ∧ a.srcIp = ip) =
      alerts.filter fun a => a.key = (tenant, rule.id, ip) :=
    List.filter_congr fun a _ => by simp [Alert.key]
  rw [pastCooldown, hfilter, List.all_eq_true, List.forall_mem_map]
  simp only [decide_eq_true_eq]

end

theorem inserted_alertTimes {tenant : Str} {rule : RuleConfig} {s s' : Session} {now : Time} {found : List Candidate}
    {outs : List Outcome} (h : Inserted tenant rule s now found outs s') (hfound : (found.map (·.srcIp)).Nodup)
    (ip : Inet) :
    s'.db.alertTimes (tenant, rule.id, ip) = s.db.alertTimes (tenant, rule.id, ip) ++
      if ip ∈ found.map (·.srcIp) ∧ pastCooldown s.db.alerts tenant rule now ip then [now] else [] := by
  have hmem : ip ∈ outs.map (·.candidate.srcIp) ↔
      ip ∈ found.map (·.srcIp) ∧ pastCooldown s.db.alerts tenant rule now ip := by
    have hmap : outs.map (·.candidate.srcIp) = (outs.map (·.candidate)).map (·.srcIp) := by
      rw [List.map_map]
      rfl
    rw [hmap, h.past]
    simp only [List.mem_map, List.mem_filter]
    constructor
    · rintro ⟨c, ⟨hc, hpast⟩, rfl⟩
      exact ⟨⟨c, hc, rfl⟩, hpast⟩
    · rintro ⟨⟨c, hc, rfl⟩, hpast⟩
      exact ⟨c, ⟨hc, hpast⟩, rfl⟩
  have hnew : ((outs.map (·.alert tenant rule now)).filter fun a => a.key = (tenant, rule.id, ip)).map (·.triggeredAt) =
      List.replicate ((outs.map (·.candidate.srcIp)).count ip) now := by
    have hfilter : (outs.filter ((fun a : Alert => decide (a.key = (tenant, rule.id, ip))) ∘
        (·.alert tenant rule now))) = outs.filter fun o => o.candidate.srcIp == ip :=
      List.filter_congr fun o _ => by simp [Alert.key, Outcome.alert, beq_eq_decide]
    rw [List.filter_map, hfilter, List.map_map, List.count, List.countP_map, List.countP_eq_length_filter]
    exact List.map_const'
  rw [Db.alertTimes, h.alerts, List.filter_append, List.map_append, hnew]
  congr 1
  by_cases hip : ip ∈ outs.map (·.candidate.srcIp)
  · rw [List.count_eq_one_of_mem (h.srcIps_nodup hfound) hip, if_pos (hmem.1 hip)]
    rfl
  · rw [List.count_eq_zero_of_not_mem hip, if_neg fun hc => hip (hmem.2 hc)]
    rfl

/-- A transaction that committed is a step of the detector. -/
theorem inserted_detector {pg : Pg} {db : Db} {tenant : Str} {rule : RuleConfig} {s s' : Session} {now : Time}
    {found : List Candidate} {outs : List Outcome} (h : Inserted tenant rule s now found outs s')
    (hfound : found.Perm (db.detected tenant pg rule now)) (hpos : 0 < rule.threshold) (ip : Inet) :
    s'.db.alertTimes (tenant, rule.id, ip) =
      rule.detector.step (s.db.alertTimes (tenant, rule.id, ip)) ⟨now, db.arrivals pg tenant ip⟩ := by
  have hmem := (hfound.map (·.srcIp)).mem_iff.trans (mem_detected_srcIp ip hpos)
  have hcond := and_congr hmem (pastCooldown_iff s.db.alerts tenant rule now ip)
  rw [inserted_alertTimes h (nodup_of_detected hfound) ip, Detector.step]
  by_cases hsees : rule.detector.Sees ⟨now, db.arrivals pg tenant ip⟩ ∧
      rule.detector.Ready (s.db.alertTimes (tenant, rule.id, ip)) ⟨now, db.arrivals pg tenant ip⟩
  · rw [if_pos hsees, if_pos (hcond.2 hsees)]
  · rw [if_neg hsees, if_neg (mt hcond.1 hsees), List.append_nil]

/-- A transaction for another tenant inserts no alert of this one. -/
theorem inserted_alertTimes_other {tenant tenant' : Str} {rule : RuleConfig} {s s' : Session} {now : Time}
    {found : List Candidate} {outs : List Outcome} (h : Inserted tenant' rule s now found outs s')
    (hne : tenant' ≠ tenant) (id : Nat) (ip : Inet) :
    s'.db.alertTimes (tenant, id, ip) = s.db.alertTimes (tenant, id, ip) := by
  have hother : ((outs.map (·.alert tenant' rule now)).filter fun a => a.key = (tenant, id, ip)) = [] := by
    refine List.filter_eq_nil_iff.2 fun a ha => ?_
    obtain ⟨o, -, rfl⟩ := List.mem_map.1 ha
    simp [Alert.key, Outcome.alert, hne]
  rw [Db.alertTimes, h.alerts, List.filter_append, hother, List.append_nil, Db.alertTimes]

namespace System
variable {w : World} {url : Option Str} {tenant : Str} {rule : RuleConfig} {ip : Inet} {s : System} {a : Action}

theorem step_alertTimes (hid : ∀ a ∈ s.db.alerts, a.id < s.db.sequences.alert) (hpos : 0 < rule.threshold)
    (hread : s.Reads w tenant rule a) :
    (s.step w url a).db.alertTimes (tenant, rule.id, ip) =
      rule.detector.run (s.db.alertTimes (tenant, rule.id, ip)) (s.look w url tenant ip a) := by
  cases step_cases w url hid a with
  | quiet hnone hq =>
    have hlook : s.look w url tenant ip a = [] := by
      cases a with
      | evaluate ν between =>
        refine if_neg fun h => ?_
        obtain ⟨queue, hqueue⟩ := List.head?_eq_some_iff.1 h.1
        exact hnone ν between tenant queue rfl hqueue
      | _ => rfl
    rw [hlook, Db.alertTimes, hq.alerts]
    rfl
  | evaluate tenant' queue ν between s' ha hqueue hs' hdb hlog hcase =>
    subst ha
    have hhead : s.queue.head? = some tenant' := by rw [hqueue]; rfl
    rw [hdb]
    cases hcase with
    | undone hc hundone =>
      have hlook : s.look w url tenant ip (.evaluate ν between) = [] := by
        refine if_neg fun h => ?_
        obtain rfl : tenant' = tenant := Option.some.inj (hhead.symm.trans h.1)
        simp [hc] at h
      rw [hlook, Db.alertTimes, hundone.alerts]
      rfl
    | committed hc hev =>
      by_cases htenant : tenant' = tenant
      · subst htenant
        have hlook : s.look w url tenant' ip (.evaluate ν between) =
            [⟨(ν 0).now, ((s.session w ν between).seenAt 3).arrivals w.pg tenant' ip⟩] := if_pos ⟨hhead, hc⟩
        have hrule := hread hhead
        cases hev with
        | noRule hnorule _ _ _ _ =>
          rw [hrule] at hnorule
          cases hnorule
        | rule rule' found outs hrule' hfound _ hi =>
          obtain rfl : rule = rule' := Option.some.inj (hrule.symm.trans hrule')
          rw [hlook]
          exact inserted_detector hi hfound hpos ip
      · have hlook : s.look w url tenant ip (.evaluate ν between) = [] :=
          if_neg fun h => htenant (Option.some.inj (hhead.symm.trans h.1))
        rw [hlook]
        show _ = s.db.alertTimes (tenant, rule.id, ip)
        cases hev with
        | noRule _ halerts _ _ _ =>
          rw [Db.alertTimes, halerts]
          rfl
        | rule rule' found outs _ _ _ hi => exact inserted_alertTimes_other hi htenant rule.id ip

/-- The engine is a detector. -/
theorem run_alertTimes (hid : ∀ a ∈ s.db.alerts, a.id < s.db.sequences.alert) (hpos : 0 < rule.threshold)
    {actions : List Action} (hread : s.AllRead w url tenant rule actions) :
    (s.run w url actions).db.alertTimes (tenant, rule.id, ip) =
      rule.detector.run (s.db.alertTimes (tenant, rule.id, ip)) (s.looks w url tenant ip actions) := by
  induction actions generalizing s with
  | nil => rfl
  | cons a actions ih =>
    show ((s.step w url a).run w url actions).db.alertTimes _ = _
    rw [ih (step_ids w url hid a) hread.2, step_alertTimes hid hpos hread.1, looks, Detector.run_append]

end System

/-! ### Bursts -/

section
variable {w : World} {url : Option Str} {tenant : Str} {rule : RuleConfig} {ip : Inet} {s : System}

/-- An address that has never alerted has an alert after a run exactly if some tick of the run had enough of
its arrivals in the window. A burst ensures one if its spread and the time to the next tick fit in the window. -/
theorem first_alert_iff (w : World) (url : Option Str) (s : System)
    (hid : ∀ a ∈ s.db.alerts, a.id < s.db.sequences.alert) (tenant : Str) (rule : RuleConfig) (ip : Inet)
    (hpos : 0 < rule.threshold) (hnone : s.db.alertTimes (tenant, rule.id, ip) = []) (actions : List Action)
    (hread : s.AllRead w url tenant rule actions) :
    ((s.run w url actions).db.alertTimes (tenant, rule.id, ip) ≠ [] ↔
      ∃ l ∈ s.looks w url tenant ip actions, rule.detector.Sees l) ∧
    ∀ l ∈ s.looks w url tenant ip actions, ∀ (burst : List Time) (last spread poll : Int),
      rule.detector.Burst burst → burst.Subperm l.seen → (∀ x ∈ burst, last - spread ≤ x) → l.time ≤ last + poll →
      spread + poll ≤ seconds rule.windowSeconds →
      (s.run w url actions).db.alertTimes (tenant, rule.id, ip) ≠ [] := by
  have hiff : (s.run w url actions).db.alertTimes (tenant, rule.id, ip) ≠ [] ↔
      ∃ l ∈ s.looks w url tenant ip actions, rule.detector.Sees l := by
    rw [System.run_alertTimes hid hpos hread, hnone]
    exact Detector.run_ne_nil_iff
  refine ⟨hiff, fun l hl burst last spread poll hburst hseen hspread hpoll hwindow => hiff.2 ⟨l, hl, ?_⟩⟩
  exact hburst.sees_of_spread hseen hspread hpoll hwindow

/-- The tenant `demoA` with a rule. -/
def System.sample (body : AlertRuleCreate) : System :=
  System.run .sample none {} [requestAt 0 (.createUser (str "admin_a") (str "x") .admin (str "demoA")),
    requestAt 0 (.createAlertRule body .admin)]

/-- Two failed logins between two ticks. -/
def twoLogins : List Action :=
  tickAt 0 (fun _ => false) ++
    [requestAt (seconds 1) (.writeEvent .sample), requestAt (seconds 2) (.writeEvent .sample)] ++
    tickAt (seconds 30) fun _ => false

/-- They are noticed by a rule with a window of five minutes. -/
theorem first_alert_sample :
    ((System.sample { threshold := 2 }).run .sample none twoLogins).db.alertTimes
      (str "demoA", 1, .v4 0x0A000001 32) ≠ [] :=
  (first_alert_iff .sample none (.sample { threshold := 2 }) (by decide) (str "demoA") ⟨1, 2, 300, 900⟩
    (.v4 0x0A000001 32) (by decide) (by decide) twoLogins (by decide)).2
    ⟨seconds 30, [seconds 1, seconds 2]⟩ (by decide) [seconds 1, seconds 2] (seconds 2) (seconds 1) (seconds 28)
    ⟨by decide, by decide⟩ (List.Subperm.refl _) (by decide) (by decide) (by decide)

/-- A rule with a window of ten seconds never sees them, though the ticks are thirty seconds apart and the two
come within a second. -/
theorem burst_between_ticks :
    let s := System.sample { threshold := 2, windowSeconds := 10 }
    let rule : RuleConfig := ⟨1, 2, 10, 900⟩
    s.db.alertTimes (str "demoA", 1, .v4 0x0A000001 32) = [] ∧
      s.AllRead .sample none (str "demoA") rule twoLogins ∧
      s.looks .sample none (str "demoA") (.v4 0x0A000001 32) twoLogins =
        [⟨0, []⟩, ⟨seconds 30, [seconds 1, seconds 2]⟩] ∧
      rule.detector.Burst [seconds 1, seconds 2] ∧
      (s.run .sample none twoLogins).db.alertTimes (str "demoA", 1, .v4 0x0A000001 32) = [] := by
  exact ⟨by decide, by decide, by decide, ⟨by decide, by decide⟩, by decide⟩

/-- Up to the first tick after a cooldown, there is an alert not earlier than an arrival after the last alert
exactly if that tick is not earlier than it and has enough arrivals in its own window. -/
theorem alert_after_cooldown_iff (w : World) (url : Option Str) (s : System)
    (hid : ∀ a ∈ s.db.alerts, a.id < s.db.sequences.alert) (tenant : Str) (rule : RuleConfig) (ip : Inet)
    (hpos : 0 < rule.threshold) (t : Time) (ht : t ∈ s.db.alertTimes (tenant, rule.id, ip))
    (hmax : ∀ t' ∈ s.db.alertTimes (tenant, rule.id, ip), t' ≤ t) (actions : List Action)
    (hread : s.AllRead w url tenant rule actions) (before : List Look) (l : Look)
    (hlooks : s.looks w url tenant ip actions = before ++ [l])
    (hbefore : ∀ l' ∈ before, l'.time < t + seconds rule.cooldownSeconds)
    (hl : t + seconds rule.cooldownSeconds ≤ l.time) (last : Time) (hlast : t < last) :
    (∃ t' ∈ (s.run w url actions).db.alertTimes (tenant, rule.id, ip), last ≤ t') ↔
      last ≤ l.time ∧ rule.detector.Sees l := by
  rw [System.run_alertTimes hid hpos hread, hlooks, Detector.run_after_cooldown ht hmax hbefore hl]
  have hold : ¬ ∃ t' ∈ s.db.alertTimes (tenant, rule.id, ip), last ≤ t' := by
    rintro ⟨t', ht', hle⟩
    exact (hlast.trans_le hle).not_ge (hmax t' ht')
  by_cases hsees : rule.detector.Sees l
  · rw [if_pos hsees]
    simp only [List.mem_append, List.mem_singleton, hsees, and_true]
    constructor
    · rintro ⟨t', ht' | rfl, hle⟩
      · exact absurd ⟨t', ht', hle⟩ hold
      · exact hle
    · exact fun hle => ⟨l.time, .inr rfl, hle⟩
  · rw [if_neg hsees]
    simp [hold, hsees]

end

/-- The tenant `demoA` after an alert at 30 s, with a cooldown of 15 minutes. -/
def System.alerted : System :=
  (System.sample { AlertRuleCreate.standard with threshold := 2, threshold_pos := by decide }).run .sample none twoLogins

/-- Two more failed logins, a second apart, and a tick that sees them; the next is the first after the cooldown. -/
def twoMoreLogins (start : Int) : List Action :=
  [requestAt (seconds start) (.writeEvent .sample), requestAt (seconds (start + 1)) (.writeEvent .sample)] ++
    tickAt (seconds (start + 20)) (fun _ => false) ++ tickAt (seconds 930) fun _ => false

/-- They are noticed if they are still in the window when the cooldown ends. -/
theorem alert_after_cooldown_sample :
    ∃ t ∈ (System.alerted.run .sample none (twoMoreLogins 800)).db.alertTimes (str "demoA", 1, .v4 0x0A000001 32),
      seconds 801 ≤ t :=
  (alert_after_cooldown_iff .sample none .alerted (by decide) (str "demoA") ⟨1, 2, 300, 900⟩ (.v4 0x0A000001 32)
    (by decide) (seconds 30) (by decide) (by decide) (twoMoreLogins 800) (by decide)
    [⟨seconds 820, [seconds 1, seconds 2, seconds 800, seconds 801]⟩]
    ⟨seconds 930, [seconds 1, seconds 2, seconds 800, seconds 801]⟩ (by decide) (by decide) (by decide)
    (seconds 801) (by decide)).2 (by decide)

/-- They are hidden if they have left it: a tick saw the two in its window, but during the cooldown. -/
theorem burst_hidden_by_cooldown :
    let rule : RuleConfig := ⟨1, 2, 300, 900⟩
    let seen := [seconds 1, seconds 2, seconds 400, seconds 401]
    System.alerted.db.alertTimes (str "demoA", 1, .v4 0x0A000001 32) = [seconds 30] ∧
      System.alerted.AllRead .sample none (str "demoA") rule (twoMoreLogins 400) ∧
      System.alerted.looks .sample none (str "demoA") (.v4 0x0A000001 32) (twoMoreLogins 400) =
        [⟨seconds 420, seen⟩, ⟨seconds 930, seen⟩] ∧
      rule.detector.Burst [seconds 400, seconds 401] ∧
      [seconds 400, seconds 401].Sublist (rule.detector.inWindow ⟨seconds 420, seen⟩) ∧
      ¬ ∃ t ∈ (System.alerted.run .sample none (twoMoreLogins 400)).db.alertTimes
        (str "demoA", 1, .v4 0x0A000001 32), seconds 401 ≤ t := by
  exact ⟨by decide, by decide, by decide, ⟨by decide, by decide⟩, by decide, by decide⟩

end LogMgmt
