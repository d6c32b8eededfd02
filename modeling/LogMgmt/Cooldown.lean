import LogMgmt.Lib.Spacing
import LogMgmt.Ticks

/-!
# The cooldown

Two alerts of one address under one rule are at least a cooldown apart: that of the rule as the evaluation
that fired the later one read it. `System.Inv` holds over every run, whatever is ingested, edited, rolled
back or committed between two statements of the engine.
-/

namespace LogMgmt
open Prog

/-- The rule and address of an alert. -/
abbrev AlertKey := Str × Nat × Inet

def Alert.key (a : Alert) : AlertKey := (a.tenant, a.ruleId, a.srcIp)

def Firing.key (f : Firing) : AlertKey := (f.tenant, f.ruleId, f.srcIp)

/-- What the record of the engine keeps of an alert. -/
def Alert.core (a : Alert) : Nat × AlertKey × Time := (a.id, a.key, a.triggeredAt)

def Firing.core (f : Firing) : Nat × AlertKey × Time := (f.alertId, f.key, f.triggeredAt)

namespace Inserted
variable {tenant : Str} {rule : RuleConfig} {s₀ s : Session} {now : Time} {found : List Candidate}
  {outs : List Outcome}

/-- An alert is fired only when the older ones of its address are past the cooldown. -/
theorem past_of_mem (h : Inserted tenant rule s₀ now found outs s) {o : Outcome} (ho : o ∈ outs) {a : Alert}
    (ha : a ∈ s₀.db.alerts) (hkey : a.key = (tenant, rule.id, o.candidate.srcIp)) :
    a.triggeredAt + seconds rule.cooldownSeconds ≤ now := by
  have hmem : o.candidate ∈ outs.map (·.candidate) := List.mem_map_of_mem ho
  rw [h.past] at hmem
  have hpast := (List.mem_filter.1 hmem).2
  simp only [Alert.key, Prod.mk.injEq] at hkey
  rw [pastCooldown, List.all_eq_true] at hpast
  have hle := hpast a (List.mem_filter.2 ⟨ha, by simpa using hkey⟩)
  rw [decide_eq_true_eq] at hle
  exact Int.add_le_of_le_sub_right hle

theorem srcIps_nodup (h : Inserted tenant rule s₀ now found outs s) (hfound : (found.map (·.srcIp)).Nodup) :
    (outs.map (·.candidate.srcIp)).Nodup := by
  have hmap : outs.map (·.candidate.srcIp) = (outs.map (·.candidate)).map (·.srcIp) := by
    rw [List.map_map]
    rfl
  rw [hmap, h.past]
  exact hfound.sublist (List.filter_sublist.map _)

end Inserted

namespace System
variable {w : World} {url : Option Str} {s : System} {a : Action}

structure Inv (s : System) : Prop where
  rules : s.db.RulesChecked
  ids : ∀ a ∈ s.db.alerts, a.id < s.db.sequences.alert
  nodup : (s.db.alerts.map (·.id)).Nodup
  recorded : s.log.fired.map Firing.core = s.db.alerts.map Alert.core
  positive : ∀ f ∈ s.log.fired, 0 < seconds f.cooldownSeconds
  spaced : Spaced Firing.key Firing.triggeredAt (fun f => seconds f.cooldownSeconds) s.log.fired

namespace Inv

theorem init : Inv {} where
  rules _ h := by cases h
  ids _ h := by cases h
  nodup := List.nodup_nil
  recorded := rfl
  positive _ h := by cases h
  spaced := .nil

theorem exists_alert (h : Inv s) {f : Firing} (hf : f ∈ s.log.fired) : ∃ a ∈ s.db.alerts, a.core = f.core := by
  have hmem := List.mem_map_of_mem (f := Firing.core) hf
  rw [h.recorded] at hmem
  exact List.mem_map.1 hmem

theorem exists_firing (h : Inv s) {a : Alert} (ha : a ∈ s.db.alerts) : ∃ f ∈ s.log.fired, f.core = a.core := by
  have hmem := List.mem_map_of_mem (f := Alert.core) ha
  rw [← h.recorded] at hmem
  exact List.mem_map.1 hmem

theorem of_eq (h : Inv s) {s' : System} (hrules : s'.db.RulesChecked)
    (hids : ∀ a ∈ s'.db.alerts, a.id < s'.db.sequences.alert) (halerts : s'.db.alerts = s.db.alerts)
    (hfired : s'.log.fired = s.log.fired) : Inv s' where
  rules := hrules
  ids := hids
  nodup := halerts ▸ h.nodup
  recorded := by rw [hfired, halerts, h.recorded]
  positive := hfired ▸ h.positive
  spaced := hfired ▸ h.spaced

theorem inserted (h : Inv s) {s' : System} (hrules : s'.db.RulesChecked)
    (hids : ∀ a ∈ s'.db.alerts, a.id < s'.db.sequences.alert) {tenant : Str} {rule : RuleConfig}
    {ν : Nat → Choice} {between : Nat → List Request} {now : Time} {found : List Candidate} {outs : List Outcome}
    {t : Session} (hdb : s'.db = t.db) (hlog : s'.log = t.log) (hpos : 0 < rule.cooldownSeconds)
    (hfound : (found.map (·.srcIp)).Nodup)
    (hi : Inserted tenant rule (s.session w ν between) now found outs t) : Inv s' where
  rules := hrules
  ids := hids
  nodup := by
    have hnew : (outs.map (·.alert tenant rule now)).map (·.id) = List.range' s.db.sequences.alert outs.length := by
      rw [List.map_map]
      exact hi.ids
    rw [hdb, hi.alerts, List.map_append, hnew]
    refine h.nodup.append List.nodup_range' fun i hi hi' => ?_
    obtain ⟨a, ha, rfl⟩ := List.mem_map.1 hi
    exact (h.ids a ha).not_ge (List.mem_range'_1.1 hi').1
  recorded := by
    rw [hdb, hlog, hi.alerts, hi.fired, List.map_append, List.map_append, List.map_map, List.map_map]
    exact congrArg (· ++ _) h.recorded
  positive f hf := by
    rw [hlog, hi.fired] at hf
    rcases List.mem_append.1 hf with hf | hf
    · exact h.positive f hf
    · obtain ⟨o, -, rfl⟩ := List.mem_map.1 hf
      exact Int.mul_pos hpos (by decide)
  spaced := by
    rw [hlog, hi.fired]
    refine h.spaced.append (fun f hf f' hf' hkey => ?_) ?_
    · obtain ⟨o, ho, rfl⟩ := List.mem_map.1 hf'
      obtain ⟨a, ha, hcore⟩ := h.exists_alert hf
      obtain ⟨-, hcore, htime⟩ := Prod.mk.inj hcore |>.imp_right Prod.mk.inj
      rw [← htime]
      exact hi.past_of_mem ho ha (hcore.trans hkey)
    · have hkeys : (outs.map (·.firing tenant rule now)).map Firing.key =
          (outs.map (·.candidate.srcIp)).map fun ip => (tenant, rule.id, ip) := by
        rw [List.map_map, List.map_map]
        rfl
      rw [hkeys]
      exact (hi.srcIps_nodup hfound).map fun ip ip' heq => (Prod.mk.inj (Prod.mk.inj heq).2).2

theorem step (h : Inv s) (a : Action) : Inv (s.step w url a) := by
  have hrules := step_rules w url h.rules a
  have hids := step_ids w url h.ids a
  cases step_cases w url h.ids a with
  | quiet _ hq => exact h.of_eq hrules hids hq.alerts hq.fired
  | evaluate tenant queue ν between s' ha hqueue hs' hdb hlog hcase =>
    cases hcase with
    | committed _ hcase =>
      cases hcase with
      | noRule hrule halerts hnext hfired hdelivered =>
        exact h.of_eq hrules hids (hdb ▸ halerts) (hlog ▸ hfired)
      | rule rule found outs hrule hfound _ hi =>
        have hpos := (Db.ruleOf_checked (seenAt_rules h.rules ν between 2) hrule).2.2
        exact h.inserted hrules hids hdb hlog hpos (nodup_of_detected hfound) hi
    | undone _ hundone =>
      exact h.of_eq hrules hids (hdb ▸ hundone.alerts) (hlog ▸ hundone.fired)

theorem run (h : Inv s) (actions : List Action) : Inv (s.run w url actions) := by
  induction actions generalizing s with
  | nil => exact h
  | cons a actions ih => exact ih (h.step a)

end Inv

/-- `b` was fired at least a cooldown after `a`: the one that `SELECT_RULE_SQL` read when `b` was fired. -/
def CooldownBetween (s : System) (a b : Alert) : Prop :=
  ∃ f ∈ s.log.fired, f.core = b.core ∧ 0 < f.cooldownSeconds ∧
    seconds f.cooldownSeconds ≤ b.triggeredAt - a.triggeredAt

end System

/-- In every state that any run of the system reaches, two alerts with the same rule and address are at
least the later one's cooldown apart. -/
theorem alerts_spaced (w : World) (url : Option Str) (actions : List Action) :
    let s := System.run w url {} actions
    (s.db.alerts.map (·.id)).Nodup ∧
      ∀ a ∈ s.db.alerts, ∀ b ∈ s.db.alerts, a ≠ b →
        a.tenant = b.tenant → a.ruleId = b.ruleId → a.srcIp = b.srcIp → a.triggeredAt ≤ b.triggeredAt →
        s.CooldownBetween a b := by
  intro s
  have h : s.Inv := System.Inv.init.run actions
  refine ⟨h.nodup, fun a ha b hb hab htenant hrule hip hle => ?_⟩
  obtain ⟨f, hf, hfa⟩ := h.exists_firing ha
  obtain ⟨g, hg, hgb⟩ := h.exists_firing hb
  obtain ⟨hfid, hfkey, hftime⟩ := Prod.mk.inj hfa |>.imp_right Prod.mk.inj
  obtain ⟨hgid, hgkey, hgtime⟩ := Prod.mk.inj hgb |>.imp_right Prod.mk.inj
  have hne : f ≠ g := fun hfg => by
    subst hfg
    exact hab (List.inj_on_of_nodup_map h.nodup ha hb (hfid.symm.trans hgid))
  have hkey : f.key = g.key := by rw [hfkey, hgkey, Alert.key, Alert.key, htenant, hrule, hip]
  have hgap := h.spaced.of_le h.positive hf hg hne hkey (by rw [hftime, hgtime]; exact hle)
  rw [hftime, hgtime] at hgap
  have hpos := h.positive g hg
  refine ⟨g, hg, hgb, ?_, Int.le_sub_left_of_add_le hgap⟩
  unfold seconds at hpos
  omega

/-- A request made and answered at `now`. -/
def requestAt (now : Time) (call : Call) : Action := .request ⟨call, { autocommit := true }, fun _ => { now }⟩

/-- One tick over one tenant with the clock at `now`, in which the commands in `fault` raise. -/
def tickAt (now : Time) (fault : Nat → Bool) : List Action :=
  [.discover (fun _ => { now }) fun _ => [], .evaluate (fun n => { now, fault := fault n }) fun _ => []]

/-- A failed login of the tenant `demoA`. -/
def NormalizedEvent.sample : NormalizedEvent where
  tenant := str "demoA"
  eventTime := ⟨0, none⟩
  source := str "api"
  eventType := str "login_failed"
  srcIp := some (.v4 0x0A000001)

/-- An administrator of the tenant `demoA`. -/
def TokenClaims.admin : TokenClaims := ⟨str "admin_a", .admin, str "demoA"⟩

/-- An address that fails to log in again and again, and ticks 899 and 900 seconds after its first alert. -/
def sampleRun : List Action :=
  [requestAt 0 (.createUser (str "admin_a") (str "x") .admin (str "demoA")),
    requestAt 0 (.createAlertRule { AlertRuleCreate.standard with threshold := 1, threshold_pos := by decide } .admin),
    requestAt 0 (.writeEvent .sample)] ++
    tickAt 0 (fun _ => false) ++ [requestAt (seconds 890) (.writeEvent .sample)] ++
    tickAt (seconds 899) (fun _ => false) ++ tickAt (seconds 900) fun _ => false

/-- Its alerts. -/
def Alert.sample (id : Nat) (triggeredAt : Time) : Alert :=
  ⟨id, str "demoA", 1, triggeredAt, .v4 0x0A000001 32, 1, 1, 300, 0, 0, none⟩

theorem alerts_spaced_sample :
    let s := System.run .sample none {} sampleRun
    s.db.alerts = [.sample 1 0, .sample 2 (seconds 900)] ∧ s.CooldownBetween (.sample 1 0) (.sample 2 (seconds 900)) := by
  have h : (System.run .sample none {} sampleRun).db.alerts = [.sample 1 0, .sample 2 (seconds 900)] := by decide
  refine ⟨h, (alerts_spaced .sample none sampleRun).2 _ ?_ _ ?_ (by decide) rfl rfl rfl (by decide)⟩ <;> simp [h]

end LogMgmt
