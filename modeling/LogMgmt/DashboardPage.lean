import LogMgmt.Gateway
import LogMgmt.Lib.Client

/-!
# The dashboard

`DashboardPage.jsx`: the effect of each range sends four requests and joins them, and its cleanup cancels them before the
next effect. The callbacks of a join run in steps of their own, so that a change of the range may come between any two
of them. Only the last batch is ever not cancelled (`Fits.last`), and so it alone reaches the page
(`dashboard_settles`). If it fails, its error stands above the tables of the last range that did not. A row of a response
is of any type: the page hands it on.
-/

namespace LogMgmt
open Client (Tab Event)

/-! ### Requests -/

/-- The state `range`; `null` is none. -/
structure Range where
  startTime : Option Time
  endTime : Option Time

def chooseInterval (startTime endTime : Option Time) : Interval :=
  match startTime, endTime with
  | some startTime, some endTime =>
    let span := endTime - startTime
    let hour := seconds (60 * 60)
    if span ≤ 2 * hour then .minute else if span ≤ 3 * 24 * hour then .hour else .day
  | _, _ => .hour

/-- The four requests of a range, in the order of the join. -/
inductive Panel where
  | timeline
  | ip
  | user
  | eventType
deriving DecidableEq

def Panel.all : List Panel := [timeline, ip, user, eventType]

def statsTop (field : TopField) (range : Range) : Secured :=
  .top { field, startTime := range.startTime, endTime := range.endTime }

def Panel.request (range : Range) : Panel → Secured
  | timeline => .timeline {
      interval := chooseInterval range.startTime range.endTime
      startTime := range.startTime
      endTime := range.endTime }
  | ip => statsTop .ip range
  | user => statsTop .user range
  | eventType => statsTop .eventType range

structure PanelQuery where
  /-- the run of the effect that sent it -/
  batch : Nat
  panel : Panel
  request : Secured

def Panel.query (k : Nat) (range : Range) (panel : Panel) : PanelQuery := ⟨k, panel, panel.request range⟩

section
variable {ρ : Type}

/-- The rows, or the message of the error. -/
abbrev PanelAnswer (ρ : Type) := Except Str (List ρ)

structure Tables (ρ : Type) where
  timeline : List ρ := []
  topIps : List ρ := []
  topUsers : List ρ := []
  topEventTypes : List ρ := []

def Tables.get (tables : Tables ρ) : Panel → List ρ
  | .timeline => tables.timeline
  | .ip => tables.topIps
  | .user => tables.topUsers
  | .eventType => tables.topEventTypes

/-! ### One run of the effect -/

structure Batch (ρ : Type) where
  range : Range
  answers : Panel → Option (List ρ) := fun _ => none
  /-- what `Promise.all` has become -/
  joined : Option (Except Str (Tables ρ)) := none
  /-- `then` or `catch` has run -/
  handled : Bool := false
  /-- `finally` has run -/
  finished : Bool := false
  cancelled : Bool := false

namespace Batch

/-- The tables, once there are all four. -/
def tables (b : Batch ρ) : Option (Tables ρ) := do
  let timeline ← b.answers .timeline
  let topIps ← b.answers .ip
  let topUsers ← b.answers .user
  let topEventTypes ← b.answers .eventType
  return { timeline, topIps, topUsers, topEventTypes }

/-- `Promise.all` is resolved by the last answer and rejected by the first error. -/
def settle (b : Batch ρ) (panel : Panel) : PanelAnswer ρ → Batch ρ
  | .ok rows =>
    let b := { b with answers := Function.update b.answers panel (some rows) }
    { b with joined := b.joined.or (b.tables.map .ok) }
  | .error message => { b with joined := b.joined.or (some (.error message)) }

end Batch

/-! ### The page -/

structure DashboardPage (ρ : Type) where
  range : Range
  tables : Tables ρ := {}
  loading : Bool := true
  error : Option Str := none
  /-- the runs of the effect so far -/
  batches : List (Batch ρ) := []
  /-- the range has been set since the effect ran -/
  effectDue : Bool := true

inductive DashboardEvent where
  | setRange (range : Range)
  | effect
  /-- `then` or `catch` of a batch runs -/
  | handle (k : Nat)
  /-- `finally` of a batch runs -/
  | finish (k : Nat)

namespace DashboardPage

/-- The cleanup of the last run of the effect, then the effect. -/
def effect (page : DashboardPage ρ) : DashboardPage ρ × List PanelQuery :=
  ({ page with
      loading := true
      error := none
      batches := page.batches.modify (page.batches.length - 1) (fun b => { b with cancelled := true }) ++
        [{ range := page.range }]
      effectDue := false },
    Panel.all.map (Panel.query page.batches.length page.range))

/-- `then` and `catch` -/
def onJoined (page : DashboardPage ρ) : Except Str (Tables ρ) → DashboardPage ρ
  | .ok tables => { page with tables }
  | .error message => { page with error := some message }

def handle (page : DashboardPage ρ) (k : Nat) : DashboardPage ρ :=
  match page.batches[k]? with
  | some b =>
    match b.joined, b.handled with
    | some result, false =>
      let page := { page with batches := page.batches.modify k fun b => { b with handled := true } }
      if b.cancelled then page else page.onJoined result
    | _, _ => page
  | none => page

def finish (page : DashboardPage ρ) (k : Nat) : DashboardPage ρ :=
  match page.batches[k]? with
  | some b =>
    if b.handled && !b.finished then
      let page := { page with batches := page.batches.modify k fun b => { b with finished := true } }
      if b.cancelled then page else { page with loading := false }
    else page
  | none => page

def act (page : DashboardPage ρ) : DashboardEvent → DashboardPage ρ × List PanelQuery
  | .setRange range => ({ page with range, effectDue := true }, [])
  | .effect => if page.effectDue then page.effect else (page, [])
  | .handle k => (page.handle k, [])
  | .finish k => (page.finish k, [])

def settle (page : DashboardPage ρ) (query : PanelQuery) (answer : PanelAnswer ρ) : DashboardPage ρ :=
  { page with batches := page.batches.modify query.batch (·.settle query.panel answer) }

end DashboardPage

def dashboardClient (ρ : Type) : Client (DashboardPage ρ) DashboardEvent PanelQuery (PanelAnswer ρ) where
  act := DashboardPage.act
  take page query answer := (page.settle query answer, [])

abbrev DashboardTab (ρ : Type) := Tab (DashboardPage ρ) PanelQuery (PanelAnswer ρ)

namespace DashboardTab

def mounted (ρ : Type) (range : Range) : DashboardTab ρ := { state := { range } }

/-- Every request has its answer and every callback has run. -/
structure Settled (t : DashboardTab ρ) : Prop where
  quiet : t.Quiet
  effect : t.state.effectDue = false
  callbacks : ∀ b ∈ t.state.batches, b.joined.isSome → b.handled ∧ b.finished

end DashboardTab

abbrev PanelCalls (ρ : Type) := List (Client.Call PanelQuery (PanelAnswer ρ))

/-- The tables are the answers to the four requests of a batch. -/
def Tables.From (calls : PanelCalls ρ) (k : Nat) (range : Range) (tables : Tables ρ) : Prop :=
  ∀ panel : Panel, ⟨panel.query k range, some (.ok (tables.get panel))⟩ ∈ calls

/-- The error is the answer to one of the requests of a batch. -/
def ErrorFrom (calls : PanelCalls ρ) (k : Nat) (range : Range) (message : Str) : Prop :=
  ∃ panel : Panel, ⟨panel.query k range, some (.error message)⟩ ∈ calls

theorem Tables.From.mono {calls calls' : PanelCalls ρ} {k : Nat} {range : Range} {tables : Tables ρ}
    (h : tables.From calls k range) (hkeep : ∀ call ∈ calls, call.answer.isSome → call ∈ calls') :
    tables.From calls' k range :=
  fun panel => hkeep _ (h panel) rfl

/-! ### What a batch knows of its requests -/

namespace Batch

structure Backed (calls : PanelCalls ρ) (k : Nat) (b : Batch ρ) : Prop where
  answered : ∀ panel rows, b.answers panel = some rows → ⟨panel.query k b.range, some (.ok rows)⟩ ∈ calls
  pending : b.joined = none → ∀ panel, b.answers panel = none → ⟨panel.query k b.range, none⟩ ∈ calls
  incomplete : b.joined = none → b.tables = none
  tables : ∀ tables, b.joined = some (.ok tables) → tables.From calls k b.range
  error : ∀ message, b.joined = some (.error message) → ErrorFrom calls k b.range message

variable {calls calls' : PanelCalls ρ} {k : Nat} {b : Batch ρ}

theorem tables_eq_some {tables : Tables ρ} (h : b.tables = some tables) (panel : Panel) :
    b.answers panel = some (tables.get panel) := by
  unfold Batch.tables at h
  simp only [Option.bind_eq_bind, Option.bind_eq_some_iff, Option.pure_def, Option.some.injEq] at h
  obtain ⟨timeline, htimeline, ips, hips, users, husers, types, htypes, rfl⟩ := h
  cases panel with
  | timeline => exact htimeline
  | ip => exact hips
  | user => exact husers
  | eventType => exact htypes

theorem exists_answers_none (h : b.tables = none) : ∃ panel, b.answers panel = none := by
  by_contra hall
  have hall := fun panel => Option.ne_none_iff_exists'.1 (not_exists.1 hall panel)
  obtain ⟨timeline, htimeline⟩ := hall .timeline
  obtain ⟨ips, hips⟩ := hall .ip
  obtain ⟨users, husers⟩ := hall .user
  obtain ⟨types, htypes⟩ := hall .eventType
  simp [Batch.tables, htimeline, hips, husers, htypes] at h

theorem Backed.mono (h : b.Backed calls k) (hkeep : ∀ call ∈ calls, call.query.batch = k → call ∈ calls') :
    b.Backed calls' k where
  answered panel rows hrows := hkeep _ (h.answered panel rows hrows) rfl
  pending hnone panel hpanel := hkeep _ (h.pending hnone panel hpanel) rfl
  incomplete := h.incomplete
  tables tables htables := fun panel => hkeep _ (h.tables tables htables panel) rfl
  error message hmessage := by
    obtain ⟨panel, hpanel⟩ := h.error message hmessage
    exact ⟨panel, hkeep _ hpanel rfl⟩

theorem Backed.congr (h : b.Backed calls k) {b' : Batch ρ} (hrange : b'.range = b.range) (hanswers : b'.answers = b.answers)
    (hjoined : b'.joined = b.joined) : b'.Backed calls k := by
  obtain ⟨range, answers, joined, handled, finished, cancelled⟩ := b'
  subst hrange hanswers hjoined
  exact ⟨h.answered, h.pending, h.incomplete, h.tables, h.error⟩

/-- A batch takes the answer to one of its requests. -/
theorem Backed.settle (h : b.Backed calls k) {panel : Panel} {answer : PanelAnswer ρ}
    (hkeep : ∀ call ∈ calls, call ≠ ⟨panel.query k b.range, none⟩ → call ∈ calls')
    (hnew : ⟨panel.query k b.range, some answer⟩ ∈ calls') : (b.settle panel answer).Backed calls' k := by
  have hanswered : ∀ panel rows, b.answers panel = some rows → ⟨panel.query k b.range, some (.ok rows)⟩ ∈ calls' :=
    fun panel rows hrows => hkeep _ (h.answered panel rows hrows) nofun
  have htables : ∀ tables, b.joined = some (.ok tables) → tables.From calls' k b.range :=
    fun tables hjoined panel => hkeep _ (h.tables tables hjoined panel) nofun
  have herror : ∀ message, b.joined = some (.error message) → ErrorFrom calls' k b.range message := by
    intro message hjoined
    obtain ⟨panel, hpanel⟩ := h.error message hjoined
    exact ⟨panel, hkeep _ hpanel nofun⟩
  cases answer with
  | ok rows =>
    have hupdate : ∀ panel' rows', Function.update b.answers panel (some rows) panel' = some rows' →
        ⟨panel'.query k b.range, some (.ok rows')⟩ ∈ calls' := by
      intro panel' rows' hrows
      by_cases hpanel : panel' = panel
      · subst hpanel
        rw [Function.update_self] at hrows
        cases hrows
        exact hnew
      · rw [Function.update_of_ne hpanel] at hrows
        exact hanswered panel' rows' hrows
    refine ⟨hupdate, fun hnone panel' hpanel' => ?_, fun hnone => ?_, fun tables hjoined => ?_, fun message hjoined => ?_⟩
    · have hne : panel' ≠ panel := by
        rintro rfl
        simp [Batch.settle] at hpanel'
      refine hkeep _ (h.pending (Option.or_eq_none_iff.1 hnone).1 panel' ?_) fun heq => hne (by cases heq; rfl)
      simpa [Batch.settle, hne] using hpanel'
    · exact Option.map_eq_none_iff.1 (Option.or_eq_none_iff.1 hnone).2
    · rcases Option.or_eq_some_iff.1 hjoined with hjoined | ⟨-, hjoined⟩
      · exact htables tables hjoined
      · obtain ⟨tables', htables', heq⟩ := Option.map_eq_some_iff.1 hjoined
        cases heq
        exact fun panel' => hupdate panel' _ (tables_eq_some htables' panel')
    · rcases Option.or_eq_some_iff.1 hjoined with hjoined | ⟨-, hjoined⟩
      · exact herror message hjoined
      · obtain ⟨tables', -, heq⟩ := Option.map_eq_some_iff.1 hjoined
        cases heq
  | error message =>
    refine ⟨hanswered, fun hnone => ?_, fun hnone => ?_, fun tables hjoined => ?_, fun message' hjoined => ?_⟩
    · cases (Option.or_eq_none_iff.1 hnone).2
    · cases (Option.or_eq_none_iff.1 hnone).2
    · rcases Option.or_eq_some_iff.1 hjoined with hjoined | ⟨-, hjoined⟩
      · exact htables tables hjoined
      · cases hjoined
    · rcases Option.or_eq_some_iff.1 hjoined with hjoined | ⟨-, hjoined⟩
      · exact herror message' hjoined
      · cases hjoined
        exact ⟨panel, hnew⟩

theorem settle_keeps (b : Batch ρ) (panel : Panel) (answer : PanelAnswer ρ) :
    (b.settle panel answer).range = b.range ∧ (b.settle panel answer).cancelled = b.cancelled ∧
      (b.settle panel answer).handled = b.handled ∧ (b.settle panel answer).finished = b.finished := by
  cases answer <;> exact ⟨rfl, rfl, rfl, rfl⟩

theorem joined_settle {result : Except Str (Tables ρ)} (h : b.joined = some result) (panel : Panel) (answer : PanelAnswer ρ) :
    (b.settle panel answer).joined = some result := by
  cases answer <;> simp [Batch.settle, h]

/-- The page shows what the callbacks of the batch have set. -/
structure Shown (page : DashboardPage ρ) (b : Batch ρ) : Prop where
  joined : b.handled → b.joined.isSome
  error_none : b.handled = false → page.error = none
  tables : ∀ tables, b.handled → b.joined = some (.ok tables) → page.error = none ∧ page.tables = tables
  error : ∀ message, b.handled → b.joined = some (.error message) → page.error = some message
  finished : b.finished → page.loading = false

variable {page page' : DashboardPage ρ}

theorem Shown.congr (h : b.Shown page) (htables : page'.tables = page.tables) (herror : page'.error = page.error)
    (hloading : page'.loading = page.loading) : b.Shown page' where
  joined := h.joined
  error_none := herror ▸ h.error_none
  tables := by
    rw [htables, herror]
    exact h.tables
  error := herror ▸ h.error
  finished := hloading ▸ h.finished

theorem Shown.settle (h : b.Shown page) (panel : Panel) (answer : PanelAnswer ρ) : (b.settle panel answer).Shown page := by
  obtain ⟨-, -, hhandled, hfinished⟩ := b.settle_keeps panel answer
  -- once the join is handled a later answer does not change it
  have hjoined : ∀ {result}, b.handled → (b.settle panel answer).joined = some result → b.joined = some result := by
    intro result hb hresult
    obtain ⟨result', hresult'⟩ := Option.isSome_iff_exists.1 (h.joined hb)
    rw [joined_settle hresult'] at hresult
    rw [hresult', hresult]
  constructor
  · intro hb
    rw [hhandled] at hb
    obtain ⟨result, hresult⟩ := Option.isSome_iff_exists.1 (h.joined hb)
    rw [joined_settle hresult]
    rfl
  · rw [hhandled]
    exact h.error_none
  · rw [hhandled]
    exact fun tables hb htables => h.tables tables hb (hjoined hb htables)
  · rw [hhandled]
    exact fun message hb hmessage => h.error message hb (hjoined hb hmessage)
  · rw [hfinished]
    exact h.finished

end Batch

/-! ### What a run keeps -/

namespace DashboardTab
variable {t : DashboardTab ρ} {k : Nat} {b : Batch ρ}

/-- The batch of run `k` of the effect; only that of the last run is not cancelled. -/
structure Fits (t : DashboardTab ρ) (k : Nat) (b : Batch ρ) : Prop where
  backed : b.Backed t.calls k
  last : b.cancelled = false ↔ k + 1 = t.state.batches.length
  range : b.cancelled = false → t.state.effectDue = false → b.range = t.state.range
  shown : b.cancelled = false → b.Shown t.state

structure Coherent (t : DashboardTab ρ) : Prop where
  batch : ∀ k b, t.state.batches[k]? = some b → Fits t k b
  started : t.state.effectDue = false → t.state.batches ≠ []
  tables : t.state.tables = {} ∨ ∃ k range, t.state.tables.From t.calls k range
  sent : ∀ query ∈ t.queries, ∃ b, t.state.batches[query.batch]? = some b ∧
    query = query.panel.query query.batch b.range

theorem coherent_mounted (range : Range) : Coherent (mounted ρ range) where
  batch k b hb := by cases hb
  started hdue := by cases hdue
  tables := .inl rfl
  sent query hquery := by cases hquery

theorem of_getElem?_modify {batches : List (Batch ρ)} {f : Batch ρ → Batch ρ} {i : Nat}
    (h : (batches.modify i f)[k]? = some b) :
    ∃ b', batches[k]? = some b' ∧ b = if i = k then f b' else b' := by
  rw [List.getElem?_modify, Option.map_eq_map, Option.map_eq_some_iff] at h
  obtain ⟨b', hb', rfl⟩ := h
  exact ⟨b', hb', rfl⟩

/-- One batch has moved on, and perhaps the page with it. -/
theorem Coherent.modify (h : Coherent t) {t' : DashboardTab ρ} {f : Batch ρ → Batch ρ}
    (hbatches : t'.state.batches = t.state.batches.modify k f) (hrange : t'.state.range = t.state.range)
    (hdue : t'.state.effectDue = t.state.effectDue) (hqueries : t'.queries = t.queries)
    (htables : t'.state.tables = {} ∨ ∃ k range, t'.state.tables.From t'.calls k range)
    (hf : ∀ b, (f b).range = b.range ∧ (f b).cancelled = b.cancelled)
    (hself : ∀ b, t.state.batches[k]? = some b → (f b).Backed t'.calls k ∧ (b.cancelled = false → (f b).Shown t'.state))
    (hother : ∀ i b, i ≠ k → t.state.batches[i]? = some b →
      b.Backed t'.calls i ∧ (b.cancelled = false → b.Shown t'.state)) : Coherent t' where
  batch i b hb := by
    rw [hbatches] at hb
    obtain ⟨b', hb', rfl⟩ := of_getElem?_modify hb
    have hfits := h.batch i b' hb'
    have hlength : t'.state.batches.length = t.state.batches.length := by rw [hbatches, List.length_modify]
    split
    · rename_i heq
      subst heq
      obtain ⟨hbacked, hshown⟩ := hself b' hb'
      obtain ⟨hbrange, hcancelled⟩ := hf b'
      refine ⟨hbacked, ?_, ?_, ?_⟩
      · rw [hcancelled, hlength]
        exact hfits.last
      · rw [hcancelled, hdue, hbrange, hrange]
        exact hfits.range
      · rw [hcancelled]
        exact hshown
    · rename_i hne
      obtain ⟨hbacked, hshown⟩ := hother i b' (Ne.symm hne) hb'
      refine ⟨hbacked, ?_, ?_, hshown⟩
      · rw [hlength]
        exact hfits.last
      · rw [hdue, hrange]
        exact hfits.range
  started := by
    rw [hdue, hbatches]
    exact fun hfalse hnil => h.started hfalse (List.modify_eq_nil_iff.1 hnil)
  tables := htables
  sent query hquery := by
    rw [hqueries] at hquery
    obtain ⟨b, hb, heq⟩ := h.sent query hquery
    refine ⟨if k = query.batch then f b else b, ?_, ?_⟩
    · rw [hbatches, List.getElem?_modify, hb]
      rfl
    · split
      · rw [(hf b).1]
        exact heq
      · exact heq

/-- Only one batch is not cancelled. -/
theorem Coherent.cancelled_of_ne (h : Coherent t) (hb : t.state.batches[k]? = some b) (hlive : b.cancelled = false)
    {i : Nat} {b' : Batch ρ} (hb' : t.state.batches[i]? = some b') (hne : i ≠ k) : b'.cancelled = true := by
  have hk := (h.batch k b hb).last.1 hlive
  by_contra hfalse
  have hi := (h.batch i b' hb').last.1 (Bool.eq_false_iff.2 hfalse)
  omega

/-- A callback of a batch: if the batch is cancelled, the page stays as it is. -/
theorem Coherent.callback (h : Coherent t) (hb : t.state.batches[k]? = some b) {page' : DashboardPage ρ}
    {f : Batch ρ → Batch ρ} (hbatches : page'.batches = t.state.batches.modify k f) (hrange : page'.range = t.state.range)
    (hdue : page'.effectDue = t.state.effectDue)
    (hf : ∀ b, (f b).range = b.range ∧ (f b).cancelled = b.cancelled ∧ (f b).answers = b.answers ∧ (f b).joined = b.joined)
    (hsame : b.cancelled = true →
      page'.tables = t.state.tables ∧ page'.error = t.state.error ∧ page'.loading = t.state.loading)
    (hlive : b.cancelled = false → (f b).Shown page')
    (htables : page'.tables = t.state.tables ∨ page'.tables.From t.calls k b.range) :
    Coherent (t.send (page', [])) := by
  refine h.modify hbatches hrange hdue (by simp) ?_ (fun b => ⟨(hf b).1, (hf b).2.1⟩) (fun b' hb' => ?_) fun i b' hne hb' => ?_
  · rw [Tab.calls_send_nil]
    rcases htables with htables | htables
    · rw [Tab.state_send, htables]
      exact h.tables
    · exact .inr ⟨k, b.range, htables⟩
  · rw [hb] at hb'
    cases hb'
    obtain ⟨hbrange, -, hanswers, hjoined⟩ := hf b
    rw [Tab.calls_send_nil]
    exact ⟨(h.batch k b hb).backed.congr hbrange hanswers hjoined, hlive⟩
  · rw [Tab.calls_send_nil]
    refine ⟨(h.batch i b' hb').backed, fun hlive' => ?_⟩
    have hcancelled : b.cancelled = true := h.cancelled_of_ne hb' hlive' hb (Ne.symm hne)
    obtain ⟨htables, herror, hloading⟩ := hsame hcancelled
    exact ((h.batch i b' hb').shown hlive').congr htables herror hloading

theorem Coherent.handle (h : Coherent t) (k : Nat) : Coherent (t.send (t.state.handle k, [])) := by
  unfold DashboardPage.handle
  rcases hb : t.state.batches[k]? with _ | b
  · simpa using h
  rcases hjoined : b.joined with _ | result
  · simpa [hjoined] using h
  cases hhandled : b.handled with
  | true => simpa [hjoined, hhandled] using h
  | false =>
    have hfits := h.batch k b hb
    simp only [hjoined, hhandled]
    split
    · rename_i hcancelled
      exact h.callback hb rfl rfl rfl (fun _ => ⟨rfl, rfl, rfl, rfl⟩) (fun _ => ⟨rfl, rfl, rfl⟩)
        (fun hlive => nomatch hcancelled.symm.trans hlive) (.inl rfl)
    · rename_i hlive
      have hshown := hfits.shown (Bool.eq_false_iff.2 hlive)
      cases result with
      | ok tables =>
        refine h.callback hb rfl rfl rfl (fun _ => ⟨rfl, rfl, rfl, rfl⟩) (fun hcancelled => absurd hcancelled hlive)
          (fun _ => ⟨?_, nofun, ?_, ?_, hshown.finished⟩) (.inr (hfits.backed.tables tables hjoined))
        · exact fun _ => hjoined ▸ rfl
        · intro tables' _ htables'
          cases hjoined.symm.trans htables'
          exact ⟨hshown.error_none hhandled, rfl⟩
        · intro message _ hmessage
          cases hjoined.symm.trans hmessage
      | error message =>
        refine h.callback hb rfl rfl rfl (fun _ => ⟨rfl, rfl, rfl, rfl⟩) (fun hcancelled => absurd hcancelled hlive)
          (fun _ => ⟨?_, nofun, ?_, ?_, hshown.finished⟩) (.inl rfl)
        · exact fun _ => hjoined ▸ rfl
        · intro tables _ htables
          cases hjoined.symm.trans htables
        · intro message' _ hmessage
          cases hjoined.symm.trans hmessage
          rfl

theorem Coherent.finish (h : Coherent t) (k : Nat) : Coherent (t.send (t.state.finish k, [])) := by
  unfold DashboardPage.finish
  rcases hb : t.state.batches[k]? with _ | b
  · simpa using h
  dsimp only
  split_ifs with _ hcancelled
  · exact h.callback hb rfl rfl rfl (fun _ => ⟨rfl, rfl, rfl, rfl⟩) (fun _ => ⟨rfl, rfl, rfl⟩)
      (fun hlive => nomatch hcancelled.symm.trans hlive) (.inl rfl)
  · refine h.callback hb rfl rfl rfl (fun _ => ⟨rfl, rfl, rfl, rfl⟩) (fun htrue => absurd htrue hcancelled) (fun hlive => ?_)
      (.inl rfl)
    have hshown := (h.batch k b hb).shown hlive
    exact ⟨hshown.joined, hshown.error_none, hshown.tables, hshown.error, fun _ => rfl⟩
  · rwa [Tab.send_nil]

theorem Coherent.arrive (h : Coherent t) {i : Nat} {query : PanelQuery} (hi : t.Outstanding i query) (answer : PanelAnswer ρ) :
    Coherent ((t.answered i query answer).send (t.state.settle query answer, [])) := by
  have hmem : query ∈ t.queries := List.mem_map_of_mem hi.mem
  obtain ⟨b, hb, hquery⟩ := h.sent query hmem
  have hkeep : ∀ call ∈ t.calls, call ≠ ⟨query, none⟩ → call ∈ (t.answered i query answer).calls := fun _ hcall hne =>
    Tab.mem_answered_of_ne hcall hne hi
  refine h.modify rfl rfl rfl (by simp [hi.queries_answered]) ?_
    (fun b => ⟨(b.settle_keeps _ _).1, (b.settle_keeps _ _).2.1⟩) (fun b' hb' => ?_) fun k b' hne hb' => ?_
  · rw [Tab.calls_send_nil]
    refine h.tables.imp_right fun ⟨k, range, htables⟩ => ⟨k, range, htables.mono fun call hcall hanswer => ?_⟩
    refine hkeep call hcall ?_
    rintro rfl
    cases hanswer
  · rw [hb] at hb'
    cases hb'
    have hfits := h.batch _ b hb
    rw [Tab.calls_send_nil]
    refine ⟨hfits.backed.settle ?_ ?_, fun hlive => ?_⟩
    · rw [← hquery]
      exact hkeep
    · rw [← hquery]
      exact hi.mem_answered
    · exact ((hfits.shown hlive).settle _ _).congr rfl rfl rfl
  · have hfits := h.batch k b' hb'
    rw [Tab.calls_send_nil]
    refine ⟨hfits.backed.mono fun call hcall hbatch => hkeep call hcall ?_, fun hlive => (hfits.shown hlive).congr rfl rfl rfl⟩
    rintro rfl
    exact hne hbatch.symm

/-- The batch of a new run of the effect, with its four requests on their way. -/
theorem backed_new {calls : PanelCalls ρ} {k : Nat} {range : Range}
    (h : ∀ panel : Panel, ⟨panel.query k range, none⟩ ∈ calls) : ({ range } : Batch ρ).Backed calls k where
  answered _ _ := nofun
  pending _ panel _ := h panel
  incomplete _ := rfl
  tables _ := nofun
  error _ := nofun

/-- After the cleanup every earlier batch is cancelled. -/
theorem Coherent.batch_effect (h : Coherent t) (hb : t.state.effect.1.batches[k]? = some b) :
    (∃ b', t.state.batches[k]? = some b' ∧ b.cancelled = true ∧ b.range = b'.range ∧ b.answers = b'.answers ∧
      b.joined = b'.joined) ∨ k = t.state.batches.length ∧ b = { range := t.state.range } := by
  rw [DashboardPage.effect, List.getElem?_append, List.length_modify] at hb
  split at hb
  · obtain ⟨b', hb', rfl⟩ := of_getElem?_modify hb
    refine .inl ⟨b', hb', ?_⟩
    split
    · exact ⟨rfl, rfl, rfl, rfl⟩
    · rename_i hlt hne
      refine ⟨?_, rfl, rfl, rfl⟩
      by_contra hfalse
      have hlast := (h.batch k b' hb').last.1 (Bool.eq_false_iff.2 hfalse)
      omega
  · rename_i hge
    have hk : k = t.state.batches.length := by
      have hlt := (List.getElem?_eq_some_iff.1 hb).1
      rw [List.length_singleton] at hlt
      omega
    subst hk
    rw [Nat.sub_self] at hb
    cases hb
    exact .inr ⟨rfl, rfl⟩

theorem Coherent.effect (h : Coherent t) : Coherent (t.send t.state.effect) := by
  have hold : ∀ call ∈ t.calls, call ∈ (t.send t.state.effect).calls := fun _ => List.mem_append_left _
  have hlength : (t.send t.state.effect).state.batches.length = t.state.batches.length + 1 := by
    simp [DashboardPage.effect]
  have hnew : ∀ panel : Panel,
      ⟨panel.query t.state.batches.length t.state.range, none⟩ ∈ (t.send t.state.effect).calls := by
    intro panel
    refine List.mem_append_right _ (List.mem_map.2 ⟨_, List.mem_map.2 ⟨panel, ?_, rfl⟩, rfl⟩)
    cases panel <;> decide
  refine ⟨fun k b hb => ?_, fun _ => ?_, ?_, fun query hquery => ?_⟩
  · rcases h.batch_effect hb with ⟨b', hb', hcancelled, hrange, hanswers, hjoined⟩ | ⟨rfl, rfl⟩
    · have hlt : k < t.state.batches.length := (List.getElem?_eq_some_iff.1 hb').1
      have hbacked := (h.batch k b' hb').backed.congr hrange hanswers hjoined
      refine ⟨hbacked.mono fun call hcall _ => hold call hcall, ?_, ?_, ?_⟩
      · rw [hcancelled, hlength]
        exact iff_of_false nofun (by omega)
      · rw [hcancelled]
        exact nofun
      · rw [hcancelled]
        exact nofun
    · refine ⟨backed_new hnew, ?_, fun _ _ => rfl, fun _ => ⟨nofun, fun _ => rfl, fun _ => nofun, fun _ => nofun, nofun⟩⟩
      rw [hlength]
      exact iff_of_true rfl rfl
  · exact List.append_ne_nil_of_right_ne_nil _ (List.cons_ne_nil _ _)
  · exact h.tables.imp_right fun ⟨k, range, htables⟩ => ⟨k, range, htables.mono fun call hcall _ => hold call hcall⟩
  · rw [Tab.queries_send, List.mem_append] at hquery
    rcases hquery with hquery | hquery
    · obtain ⟨b, hb, heq⟩ := h.sent query hquery
      have hlt := (List.getElem?_eq_some_iff.1 hb).1
      refine ⟨if t.state.batches.length - 1 = query.batch then { b with cancelled := true } else b, ?_, ?_⟩
      · rw [Tab.state_send, DashboardPage.effect, List.getElem?_append_left (by rwa [List.length_modify]),
          List.getElem?_modify, hb]
        rfl
      · split <;> exact heq
    · obtain ⟨panel, -, rfl⟩ := List.mem_map.1 hquery
      refine ⟨{ range := t.state.range }, ?_, rfl⟩
      simp [DashboardPage.effect, Panel.query]

theorem Coherent.setRange (h : Coherent t) (range : Range) :
    Coherent (t.send ({ t.state with range, effectDue := true }, [])) where
  batch k b hb := by
    obtain ⟨hbacked, hlast, -, hshown⟩ := h.batch k b hb
    rw [Tab.state_send] at *
    exact ⟨by simpa using hbacked, hlast, nofun, fun hlive => (hshown hlive).congr rfl rfl rfl⟩
  started := nofun
  tables := by simpa using h.tables
  sent := by simpa using h.sent

theorem Coherent.settled (h : Coherent t) (hsettled : Settled t) :
    t.state.loading = false ∧ ∃ k, k + 1 = t.state.batches.length ∧
      (t.state.error = none ∧ t.state.tables.From t.calls k t.state.range ∨
        ∃ message, t.state.error = some message ∧ ErrorFrom t.calls k t.state.range message) := by
  obtain ⟨b, hb⟩ := List.getLast?_isSome.2 (h.started hsettled.effect) |> Option.isSome_iff_exists.1
  have hpos : 0 < t.state.batches.length := List.length_pos_iff.2 (h.started hsettled.effect)
  rw [List.getLast?_eq_getElem?] at hb
  obtain ⟨hbacked, hlast, hrange, hshown⟩ := h.batch _ b hb
  have hlive : b.cancelled = false := hlast.2 (by omega)
  replace hshown := hshown hlive
  have hjoined : b.joined.isSome := by
    rw [Option.isSome_iff_ne_none]
    intro hnone
    obtain ⟨panel, hpanel⟩ := Batch.exists_answers_none (hbacked.incomplete hnone)
    cases hsettled.quiet _ (hbacked.pending hnone panel hpanel)
  obtain ⟨hhandled, hfinished⟩ := hsettled.callbacks b (List.mem_of_getElem? hb) hjoined
  refine ⟨hshown.finished hfinished, t.state.batches.length - 1, by omega, ?_⟩
  rw [← hrange hlive hsettled.effect]
  obtain ⟨_ | tables, hresult⟩ := Option.isSome_iff_exists.1 hjoined
  · exact .inr ⟨_, hshown.error _ hhandled hresult, hbacked.error _ hresult⟩
  · obtain ⟨herror, htables⟩ := hshown.tables tables hhandled hresult
    exact .inl ⟨herror, htables ▸ hbacked.tables tables hresult⟩

/-- Before and after every step the tables are those of one range, and once all is settled they are those of the range
that was set last, or the error is. -/
theorem dashboard_settles (ρ : Type) (range : Range) (events : List (Event DashboardEvent (PanelAnswer ρ))) :
    let t := (dashboardClient ρ).run (mounted ρ range) events
    (t.state.tables = {} ∨ ∃ k range, t.state.tables.From t.calls k range) ∧
      (Settled t → t.state.loading = false ∧ ∃ k, k + 1 = t.state.batches.length ∧
        (t.state.error = none ∧ t.state.tables.From t.calls k t.state.range ∨
          ∃ message, t.state.error = some message ∧ ErrorFrom t.calls k t.state.range message)) := by
  intro t
  have h : Coherent t := by
    refine (Client.meets_true events).invariant (I := Coherent) (fun t a ht _ => ?_)
      (fun t i query answer ht hi _ => ht.arrive hi answer) (coherent_mounted range)
    cases a with
    | setRange range => exact ht.setRange range
    | effect =>
      unfold dashboardClient DashboardPage.act
      dsimp only
      split
      · exact ht.effect
      · rwa [Tab.send_nil]
    | handle k => exact ht.handle k
    | finish k => exact ht.finish k
  exact ⟨h.tables, h.settled⟩

end DashboardTab

end

namespace DashboardTab

/-- The responses of the second range come before those of the first, of which one is an error. -/
def lateResponses : List (Event DashboardEvent (PanelAnswer Nat)) :=
  [.act .effect, .act (.setRange ⟨none, none⟩), .arrive 0 (.ok [0]), .act .effect, .arrive 4 (.ok [4]), .arrive 5 (.ok [5]),
    .arrive 6 (.ok [6]), .arrive 7 (.ok [7]), .act (.handle 1), .arrive 1 (.error (str "HTTP 500")), .act (.handle 0),
    .act (.finish 0), .act (.finish 1), .arrive 3 (.ok [3]), .arrive 2 (.ok [2])]

theorem dashboard_settles_late :
    let t := (dashboardClient Nat).run (mounted Nat ⟨some 0, some (seconds 900)⟩) lateResponses
    t.state.loading = false ∧ ∃ k, k + 1 = t.state.batches.length ∧
      (t.state.error = none ∧ t.state.tables.From t.calls k t.state.range ∨
        ∃ message, t.state.error = some message ∧ ErrorFrom t.calls k t.state.range message) :=
  (dashboard_settles Nat ⟨some 0, some (seconds 900)⟩ lateResponses).2 ⟨by decide, rfl, by decide⟩

end DashboardTab

end LogMgmt
