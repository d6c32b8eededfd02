import LogMgmt.RuleStore
import LogMgmt.Authority

/-!
# The alerts page

`AlertsPage.jsx` in the hands of several people of one tenant at once. A page loads the rule once, keeps a
copy of all four fields in its form and sends the whole form with every save; it never looks at the
rule again. A saved field so stays saved as long as every save finds the fields that its user has left alone as
the page shows them (`edits_survive`).
-/

namespace LogMgmt
open Prog

/-! ### The form -/

/-- `ruleForm`; a number is none where it is no integer. -/
structure RuleForm where
  threshold : Option Int := some 5
  windowSeconds : Option Int := some 300
  cooldownSeconds : Option Int := some 900
  enabled : Bool := true
deriving DecidableEq

inductive Edit where
  | threshold (value : Option Int)
  | windowSeconds (value : Option Int)
  | cooldownSeconds (value : Option Int)
  | enabled (value : Bool)
deriving DecidableEq

def Edit.field : Edit → RuleField
  | threshold _ => .threshold
  | windowSeconds _ => .windowSeconds
  | cooldownSeconds _ => .cooldownSeconds
  | enabled _ => .enabled

namespace RuleForm

def ofRule (r : AlertRule) : RuleForm where
  threshold := some r.threshold
  windowSeconds := some r.windowSeconds
  cooldownSeconds := some r.cooldownSeconds
  enabled := r.enabled

def updateField (form : RuleForm) : Edit → RuleForm
  | .threshold value => { form with threshold := value }
  | .windowSeconds value => { form with windowSeconds := value }
  | .cooldownSeconds value => { form with cooldownSeconds := value }
  | .enabled value => { form with enabled := value }

def get (form : RuleForm) : RuleField → RuleValue
  | .threshold => .ofInt form.threshold
  | .windowSeconds => .ofInt form.windowSeconds
  | .cooldownSeconds => .ofInt form.cooldownSeconds
  | .enabled => .bool form.enabled

/-- The body of the request after validation: `POST` without a rule, else `PATCH` with all four fields. -/
def change (form : RuleForm) (ruleId : Option Nat) : Option RuleChange :=
  match form.threshold, form.windowSeconds, form.cooldownSeconds with
  | some threshold, some windowSeconds, some cooldownSeconds =>
    if h : 0 < threshold ∧ 0 < windowSeconds ∧ 0 < cooldownSeconds then
      match ruleId with
      | none => some (.create ⟨threshold, windowSeconds, cooldownSeconds, form.enabled, h.1, h.2.1, h.2.2⟩)
      | some id => some (.update id {
          threshold := some (some threshold)
          windowSeconds := some (some windowSeconds)
          cooldownSeconds := some (some cooldownSeconds)
          enabled := some (some form.enabled)
          threshold_pos := by simpa using h.1
          windowSeconds_pos := by simpa using h.2.1
          cooldownSeconds_pos := by simpa using h.2.2 })
    else none
  | _, _, _ => none

end RuleForm

/-! ### The page -/

/-- `GET /alert-rules` of the page: sent when it opens, answered by the server, taken up by the page. -/
inductive Load where
  | sent
  | answered (rules : Option (List AlertRule))
  | done

structure Save where
  ruleId : Option Nat
  form : RuleForm
  /-- the fields that the user has edited for it -/
  edited : RuleField → Bool
  /-- the server's answer, once there is one -/
  answer : Option (Option AlertRule) := none

structure AlertsPage where
  rule : Option AlertRule := none
  ruleForm : RuleForm := {}
  load : Load := .sent
  /-- the save button is disabled meanwhile -/
  saving : Option Save := none
  /-- the fields that the user has edited since the page got the rule or last saved it; the page has no such record -/
  edited : RuleField → Bool := fun _ => false

/-- Pages of one tenant, opened by several people. -/
structure Team (ι : Type) where
  world : World
  tenant : Str
  claims : ι → TokenClaims
  claims_tenant : ∀ i, (claims i).tenant = tenant

structure Editing (ι : Type) where
  db : Db
  pages : ι → AlertsPage := fun _ => {}
  /-- a record of the value that each field got from the last save of a user who had edited it -/
  saved : RuleField → Option RuleValue := fun _ => none

inductive UiStep (ι : Type) where
  /-- the server carries out the page's GET -/
  | read (i : ι) (nature : Nat → Choice)
  /-- its response arrives -/
  | loaded (i : ι)
  | edit (i : ι) (edit : Edit)
  | submit (i : ι)
  /-- the server carries out the page's save -/
  | serve (i : ι) (nature : Nat → Choice)
  /-- its response arrives -/
  | answered (i : ι)

namespace AlertsPage

/-- `.then((rules) => ...)` -/
def onLoaded (page : AlertsPage) (rules : List AlertRule) : AlertsPage :=
  match rules.head? with
  | some existing =>
    { page with rule := some existing, ruleForm := .ofRule existing, load := .done, edited := fun _ => false }
  | none => { page with rule := none, load := .done }

/-- `updateField` -/
def onEdit (page : AlertsPage) (edit : Edit) : AlertsPage :=
  { page with
    ruleForm := page.ruleForm.updateField edit
    edited := fun f => f = edit.field || page.edited f }

/-- `handleRuleSubmit` up to its `await` -/
def onSubmit (page : AlertsPage) : AlertsPage :=
  { page with
    saving := some ⟨page.rule.map (·.id), page.ruleForm, page.edited, none⟩
    edited := fun _ => false }

/-- `handleRuleSubmit` after its `await`; the edits of a save that failed are still to be saved. -/
def onAnswered (page : AlertsPage) (save : Save) : Option AlertRule → AlertsPage
  | some saved => { page with rule := some saved, saving := none }
  | none => { page with saving := none, edited := fun f => save.edited f || page.edited f }

end AlertsPage

namespace Editing
variable {ι : Type} [DecidableEq ι]

def setPage (s : Editing ι) (i : ι) (page : AlertsPage) : Editing ι := { s with pages := Function.update s.pages i page }

/-- The answer of the server to a request of a page. -/
def request (team : Team ι) (nature : Nat → Choice) (call : Call) (db : Db) : Except Exn Response × Session :=
  Request.run team.world ⟨call, { autocommit := false }, nature⟩ db

/-- The server carries out a save; a body that validation rejects goes no further. -/
def serve (team : Team ι) (s : Editing ι) (i : ι) (nature : Nat → Choice) (save : Save) : Editing ι :=
  match save.form.change save.ruleId with
  | none => s.setPage i { s.pages i with saving := some { save with answer := some none } }
  | some change =>
    let result := request team nature (change.call (team.claims i)) s.db
    let s := { s with db := result.2.db }
    match result.1 with
    | .ok (.rule row) =>
      { s.setPage i { s.pages i with saving := some { save with answer := some (some row) } } with
        saved := fun f => if save.edited f then some (save.form.get f) else s.saved f }
    | _ => s.setPage i { s.pages i with saving := some { save with answer := some none } }

def step (team : Team ι) (s : Editing ι) : UiStep ι → Editing ι
  | .read i nature =>
    match (s.pages i).load with
    | .sent =>
      let result := request team nature (.listAlertRules (team.claims i)) s.db
      let rules := match result.1 with
        | .ok (.rules rs) => some rs
        | _ => none
      { s.setPage i { s.pages i with load := .answered rules } with db := result.2.db }
    | _ => s
  | .loaded i =>
    match (s.pages i).load with
    | .answered (some rules) => s.setPage i ((s.pages i).onLoaded rules)
    | .answered none => s.setPage i { s.pages i with load := .done }
    | _ => s
  | .edit i edit => s.setPage i ((s.pages i).onEdit edit)
  | .submit i =>
    match (s.pages i).saving with
    | none => s.setPage i (s.pages i).onSubmit
    | some _ => s
  | .serve i nature =>
    match (s.pages i).saving with
    | some save => if save.answer = none then s.serve team i nature save else s
    | none => s
  | .answered i =>
    match (s.pages i).saving with
    | some save =>
      match save.answer with
      | some answer => s.setPage i ((s.pages i).onAnswered save answer)
      | none => s
    | none => s

def run (team : Team ι) (s : Editing ι) (steps : List (UiStep ι)) : Editing ι := steps.foldl (step team) s

/-- What was saved for a field by a user who had edited it is in the tenant's rule. -/
def Survives (team : Team ι) (s : Editing ι) : Prop :=
  ∀ f v, s.saved f = some v → ∃ r ∈ s.db.alertRules, r.tenant = team.tenant ∧ r.get f = v

/-- A save that the server carries out finds each field that its user has left alone as the page shows it. -/
def Fresh (team : Team ι) (s : Editing ι) : UiStep ι → Prop
  | .serve i _ => ∀ save ∈ (s.pages i).saving, ∀ f, save.edited f = false →
      ∀ r ∈ s.db.alertRules, r.tenant = team.tenant → save.ruleId = some r.id → r.get f = save.form.get f
  | _ => True

def FreshRun (team : Team ι) : Editing ι → List (UiStep ι) → Prop
  | _, [] => True
  | s, a :: steps => s.Fresh team a ∧ FreshRun team (s.step team a) steps

end Editing

/-! ### What a save writes -/

theorem RulesOk.one_rule {db : Db} (h : RulesOk db) {r r' : AlertRule} (hr : r ∈ db.alertRules)
    (hr' : r' ∈ db.alertRules) (ht : r.tenant = r'.tenant) : r = r' :=
  List.inj_on_of_nodup_map h.keys hr hr' (Prod.ext ht (by cases r.ruleType; cases r'.ruleType; rfl))

namespace RuleForm
variable {form : RuleForm} {ruleId : Option Nat}

theorem change_create {body : AlertRuleCreate} (h : form.change ruleId = some (.create body)) :
    ∀ {claims row before after}, Created claims body row before after → ∀ f, row.get f = form.get f := by
  intro claims row before after hrow f
  unfold change at h
  split at h
  · rename_i threshold windowSeconds cooldownSeconds ht hw hc
    split_ifs at h
    cases ruleId with
    | some id => cases h
    | none =>
      cases h
      obtain ⟨-, -, hthreshold, hwindow, hcooldown, henabled, -⟩ := hrow
      cases f with
      | threshold => rw [get, ht, AlertRule.get, hthreshold]; rfl
      | windowSeconds => rw [get, hw, AlertRule.get, hwindow]; rfl
      | cooldownSeconds => rw [get, hc, AlertRule.get, hcooldown]; rfl
      | enabled => rw [get, AlertRule.get, henabled]
  · cases h

theorem change_update {id : Int} {body : AlertRuleUpdate} (h : form.change ruleId = some (.update id body)) :
    (∃ n : Nat, ruleId = some n ∧ id = n) ∧ ∀ f, body.toRuleUpdate.updates.lookup f = some (form.get f) := by
  unfold change at h
  split at h
  · rename_i threshold windowSeconds cooldownSeconds ht hw hc
    split_ifs at h
    cases ruleId with
    | none => cases h
    | some n =>
      cases h
      refine ⟨⟨n, rfl, rfl⟩, fun f => ?_⟩
      cases f with
      | threshold => rw [get, ht]; rfl
      | windowSeconds => rw [get, hw]; rfl
      | cooldownSeconds => rw [get, hc]; rfl
      | enabled => rfl
  · cases h

end RuleForm

namespace Editing
variable {ι : Type} [DecidableEq ι] {team : Team ι} {s : Editing ι}

omit [DecidableEq ι] in
theorem Survives.of_rules {s' : Editing ι} (h : s.Survives team) (hrules : s'.db.alertRules = s.db.alertRules)
    (hsaved : s'.saved = s.saved) : s'.Survives team := by
  intro f v hv
  rw [hrules]
  exact h f v (hsaved ▸ hv)

omit [DecidableEq ι] in
/-- After a save the rule has the values of its form, and the fields that its user left alone as they were. -/
theorem survives_wrote {i : ι} {nature : Nat → Choice} {save : Save} (hsave : (s.pages i).saving = some save)
    (hok : RulesOk s.db) (h : s.Survives team) (hfresh : s.Fresh team (.serve i nature)) {change : RuleChange}
    (hchange : save.form.change save.ruleId = some change) {row : AlertRule} {after : List AlertRule}
    (hwrote : change.Wrote (team.claims i) row s.db.alertRules after) {f : RuleField} {v : RuleValue}
    (hv : (if save.edited f then some (save.form.get f) else s.saved f) = some v) :
    ∃ r ∈ after, r.tenant = team.tenant ∧ r.get f = v := by
  cases change with
  | create body =>
    have hget := RuleForm.change_create hchange hwrote f
    rw [hwrote.after]
    split at hv
    · cases hv
      exact ⟨row, by simp, hwrote.tenant.trans (team.claims_tenant i), hget⟩
    · obtain ⟨r, hr, htenant, hrf⟩ := h f v hv
      exact ⟨r, List.mem_append_left _ hr, htenant, hrf⟩
  | update id body =>
    obtain ⟨⟨n, hn, rfl⟩, hbody⟩ := RuleForm.change_update hchange
    obtain ⟨r₀, hr₀, htenant₀, hid₀, hsame, -, hget⟩ := hwrote.rule
    have htenant₀ : r₀.tenant = team.tenant := htenant₀.trans (team.claims_tenant i)
    have hrow : row.get f = save.form.get f := by rw [hget f, hbody f]; rfl
    have hmem : row ∈ after := by
      rw [hwrote.after]
      exact List.mem_map.2 ⟨r₀, hr₀, if_pos hsame.id.symm⟩
    refine ⟨row, hmem, hsame.tenant.trans htenant₀, ?_⟩
    split at hv
    · cases hv
      exact hrow
    · rename_i hedited
      obtain ⟨r, hr, htenant, hrf⟩ := h f v hv
      obtain rfl : r = r₀ := hok.one_rule hr hr₀ (htenant.trans htenant₀.symm)
      -- the user left `f` alone, and the form shows what the table has
      rw [hrow, ← hrf]
      refine (hfresh save hsave f (Bool.eq_false_iff.2 hedited) r hr htenant ?_).symm
      rw [hn, Int.natCast_inj.1 hid₀]

theorem survives_serve {i : ι} {nature : Nat → Choice} {save : Save} (hsave : (s.pages i).saving = some save)
    (hok : RulesOk s.db) (h : s.Survives team) (hfresh : s.Fresh team (.serve i nature)) :
    RulesOk (s.serve team i nature save).db ∧ (s.serve team i nature save).Survives team := by
  unfold serve
  split
  · exact ⟨hok, h.of_rules rfl rfl⟩
  · rename_i change hchange
    have hrun := run_rule team.world (team.claims i) change { autocommit := false } rfl nature hok
    unfold request
    revert hrun
    rcases Request.run team.world ⟨change.call (team.claims i), { autocommit := false }, nature⟩ s.db with ⟨e | resp, t⟩
    · rintro ⟨hok', hrules⟩
      exact ⟨hok', h.of_rules hrules rfl⟩
    · rintro ⟨hok', row, rfl, hwrote⟩
      exact ⟨hok', fun f v hv => survives_wrote hsave hok h hfresh hchange hwrote hv⟩

theorem survives_step (hok : RulesOk s.db) (h : s.Survives team) {a : UiStep ι} (hfresh : s.Fresh team a) :
    RulesOk (s.step team a).db ∧ (s.step team a).Survives team := by
  have hsame : ∀ {s' : Editing ι}, s'.db = s.db → s'.saved = s.saved → RulesOk s'.db ∧ s'.Survives team :=
    fun hdb hsaved => ⟨hdb ▸ hok, h.of_rules (congrArg Db.alertRules hdb) hsaved⟩
  cases a with
  | read i nature =>
    unfold step
    dsimp only
    split
    · exact hsame (Request.commits_eq (r := ⟨.listAlertRules (team.claims i), { autocommit := false }, nature⟩) team.world
        (fun stmt hw => by cases stmt <;> cases hw) s.db) rfl
    · exact hsame rfl rfl
  | loaded i =>
    unfold step
    dsimp only
    split <;> exact hsame rfl rfl
  | edit i edit => exact hsame rfl rfl
  | submit i =>
    unfold step
    dsimp only
    split <;> exact hsame rfl rfl
  | serve i nature =>
    unfold step
    dsimp only
    split
    · rename_i save hsave
      split
      · exact survives_serve hsave hok h hfresh
      · exact hsame rfl rfl
    · exact hsame rfl rfl
  | answered i =>
    unfold step
    dsimp only
    split
    · split <;> exact hsame rfl rfl
    · exact hsame rfl rfl

/-- In every run in which each save finds the fields that its user has left alone as the page shows them, a field stays
as the last user who had edited it saved it. -/
theorem edits_survive (team : Team ι) {db : Db} (hok : RulesOk db) {steps : List (UiStep ι)}
    (hfresh : FreshRun team { db } steps) : ∀ done, done <+: steps → (run team { db } done).Survives team := by
  have hrun : ∀ (steps : List (UiStep ι)) (s : Editing ι), RulesOk s.db → s.Survives team → FreshRun team s steps →
      ∀ done, done <+: steps → (run team s done).Survives team := by
    intro steps
    induction steps with
    | nil =>
      intro s _ h _ done hdone
      rw [List.prefix_nil.1 hdone]
      exact h
    | cons a steps ih =>
      intro s hok h hfresh done hdone
      rcases List.prefix_cons_iff.1 hdone with rfl | ⟨rest, rfl, hrest⟩
      · exact h
      · obtain ⟨hok', h'⟩ := survives_step hok h hfresh.1
        exact ih _ hok' h' hfresh.2 rest hrest
  exact hrun steps { db } hok (fun _ _ hv => nomatch hv) hfresh

def twoAdmins : Team Bool where
  world := .sample
  tenant := str "demoA"
  claims first := ⟨str (if first then "admin_a" else "admin_b"), .admin, str "demoA"⟩
  claims_tenant _ := rfl

def opens (i : Bool) : List (UiStep Bool) := [.read i fun _ => {}, .loaded i]

def saves (i : Bool) (e : Edit) : List (UiStep Bool) := [.edit i e, .submit i, .serve i fun _ => {}, .answered i]

/-- The second page opens after the first has saved: both edits survive. -/
theorem edits_survive_apart :
    (run twoAdmins { db := { alertRules := [.demoA], sequences := { rule := 2 } } }
      (opens true ++ saves true (.threshold (some 10)) ++ opens false ++ saves false (.windowSeconds (some 600)))).Survives
      twoAdmins := by
  refine edits_survive twoAdmins ⟨by decide, by decide, by decide⟩ ?_ _ (List.prefix_refl _)
  refine ⟨trivial, trivial, trivial, trivial, ?_, trivial, trivial, trivial, trivial, trivial, ?_, trivial, trivial⟩
  · rintro save hsave f hf r hr - -
    cases hsave
    cases List.mem_singleton.1 hr
    cases f <;> first | rfl | cases hf
  · rintro save hsave f hf r hr - -
    cases hsave
    cases List.mem_singleton.1 hr
    cases f <;> first | rfl | cases hf

/-- Both pages open before either saves: the second save takes back the threshold that the first one set. -/
theorem edit_lost :
    let s := run twoAdmins { db := { alertRules := [.demoA], sequences := { rule := 2 } } }
      (opens true ++ opens false ++ saves true (.threshold (some 10)) ++ saves false (.windowSeconds (some 600)))
    s.saved .threshold = some (.int 10) ∧ s.db.alertRules.map (·.threshold) = [5] ∧ ¬ s.Survives twoAdmins := by
  intro s
  have hsaved : s.saved .threshold = some (.int 10) := rfl
  have hrules : s.db.alertRules.map (·.threshold) = [5] := rfl
  refine ⟨hsaved, hrules, fun h => ?_⟩
  obtain ⟨r, hr, -, hget⟩ := h _ _ hsaved
  have hmem : r.threshold ∈ s.db.alertRules.map (·.threshold) := List.mem_map.2 ⟨r, hr, rfl⟩
  rw [hrules, List.mem_singleton] at hmem
  rw [AlertRule.get, hmem] at hget
  cases hget

end Editing

end LogMgmt
