import LogMgmt.Browsing
import LogMgmt.SearchPage

/-!
# The list of alerts

The lower half of `AlertsPage.jsx`, next to the server: the page sends a request for each click, the server answers it
at some moment before the answer arrives, and alerts are fired all the while. Two requests may be on their way at once,
for the buttons stay enabled. Nevertheless what the page shows is always one page of the alerts as they have once been,
and never an empty one but the first (`alerts_list_shown`).
-/

namespace LogMgmt
open Prog
open Client (Tab Event)

/-! ### The page -/

/-- The response, or the message of the error. -/
abbrev AlertsAnswer := Except Str AlertListResponse

structure AlertsList where
  items : List Alert := []
  hasMore : Bool := false
  offset : Nat := 0
  loadingAlerts : Bool := true
  alertsError : Option Str := none

/-- What `loadAlerts` sends for an offset. -/
def alertsRequest (offset : Nat) : AlertsRequest where
  limit := defaultLimit
  offset := offset

inductive AlertsEvent where
  | previous
  | next

namespace AlertsList

/-- `loadAlerts` up to its callbacks; a request is its offset. -/
def loadAlerts (page : AlertsList) (nextOffset : Nat) : AlertsList × List Nat :=
  ({ page with loadingAlerts := true, alertsError := none }, [nextOffset])

/-- Previous and Next are disabled on the first and on the last page, but not while alerts are loading. -/
def act (page : AlertsList) : AlertsEvent → AlertsList × List Nat
  | .previous => if page.offset = 0 then (page, []) else page.loadAlerts (page.offset - defaultLimit)
  | .next => if !page.hasMore then (page, []) else page.loadAlerts (page.offset + defaultLimit)

/-- The callbacks of `loadAlerts`. -/
def onAnswer (page : AlertsList) (offset : Nat) : AlertsAnswer → AlertsList
  | .ok data => { page with items := data.items, hasMore := data.hasMore, offset, loadingAlerts := false }
  | .error message => { page with alertsError := some message, loadingAlerts := false }

end AlertsList

def alertsClient : Client AlertsList AlertsEvent Nat AlertsAnswer where
  act := AlertsList.act
  take page offset answer := (page.onAnswer offset answer, [])

abbrev AlertsTab := Tab AlertsList Nat AlertsAnswer

/-! ### The page and the server -/

structure AlertsVisit where
  /-- the page after its effect, which loads the first alerts -/
  tab : AlertsTab := Tab.send { state := {} } (AlertsList.loadAlerts {} 0)
  system : System
  /-- the answers on their way -/
  answers : Nat → Option AlertsAnswer := fun _ => none

namespace AlertsVisit

inductive Action where
  | click (e : AlertsEvent)
  | system (a : LogMgmt.Action)
  /-- The server answers request `i`; an answer that is not one of the endpoint says `message`. -/
  | serve (i : Nat) (conn : Conn) (ν : Nat → Choice) (message : Str)
  /-- The request or its answer is lost. -/
  | lose (i : Nat) (message : Str)
  | arrive (i : Nat)

def answer (message : Str) : Except Exn Response → AlertsAnswer
  | .ok (.alerts r) => .ok r
  | _ => .error message

section
variable (w : World) (url : Option Str) (claims : TokenClaims)

def step (v : AlertsVisit) : Action → AlertsVisit
  | .click e => { v with tab := alertsClient.step v.tab (.act e) }
  | .system a => { v with system := v.system.step w url a }
  | .serve i conn ν message =>
    match v.tab.calls[i]?, v.answers i with
    | some ⟨offset, none⟩, none =>
      let r : Request := ⟨.listAlerts (alertsRequest offset) claims, conn, ν⟩
      { v with
        system := v.system.step w url (.request r)
        answers := Function.update v.answers i (some (answer message (r.run w v.system.db).1)) }
    | _, _ => v
  | .lose i message =>
    match v.tab.calls[i]?, v.answers i with
    | some ⟨_, none⟩, none => { v with answers := Function.update v.answers i (some (.error message)) }
    | _, _ => v
  | .arrive i =>
    match v.answers i with
    | some answer => { v with tab := alertsClient.step v.tab (.arrive i answer) }
    | none => v

def run (v : AlertsVisit) (actions : List Action) : AlertsVisit := actions.foldl (step w url claims) v

/-- The alerts that the caller may see. -/
def alerts (v : AlertsVisit) : List Alert := matchingAlerts w claims v.system.db {}

/-- What is on a page, if the alerts are those of `v`. -/
structure PageOf (v : AlertsVisit) (order : RowOrder) (offset : Nat) (items : List Alert) (hasMore : Bool) : Prop where
  items : items = ((order.arrange (fun a : Alert => -a.triggeredAt) (v.alerts w claims)).drop offset).take defaultLimit
  hasMore : hasMore = decide (offset + defaultLimit < (v.alerts w claims).length)
  inside : offset = 0 ∨ offset < (v.alerts w claims).length

end

/-! ### Alerts are only added -/

section
variable {w : World} {url : Option Str} {claims : TokenClaims} {v start : AlertsVisit}

theorem run_append (v : AlertsVisit) (actions more : List Action) :
    v.run w url claims (actions ++ more) = (v.run w url claims actions).run w url claims more :=
  List.foldl_append

/-- The system takes one step or none. -/
theorem system_step (w : World) (url : Option Str) (claims : TokenClaims) (v : AlertsVisit) (a : Action) :
    (v.step w url claims a).system = v.system ∨
      ∃ a', (v.step w url claims a).system = v.system.step w url a' := by
  cases a with
  | click e => exact .inl rfl
  | system a => exact .inr ⟨a, rfl⟩
  | serve i conn ν message =>
    simp only [step]
    split
    · exact .inr ⟨.request _, rfl⟩
    · exact .inl rfl
  | lose i message =>
    simp only [step]
    split <;> exact .inl rfl
  | arrive i =>
    simp only [step]
    split <;> exact .inl rfl

theorem inv_step (h : v.system.Inv) (a : Action) : (v.step w url claims a).system.Inv := by
  rcases system_step w url claims v a with heq | ⟨a', heq⟩
  · exact heq ▸ h
  · exact heq ▸ h.step a'

theorem inv_run (h : v.system.Inv) (actions : List Action) : (v.run w url claims actions).system.Inv := by
  induction actions generalizing v with
  | nil => exact h
  | cons a actions ih => exact ih (inv_step h a)

theorem length_step (w : World) (url : Option Str) (claims : TokenClaims) (h : v.system.Inv) (a : Action) :
    (v.alerts w claims).length ≤ ((v.step w url claims a).alerts w claims).length := by
  rcases system_step w url claims v a with heq | ⟨a', heq⟩
  · simp only [alerts, heq, Nat.le_refl]
  · have hprefix := System.step_alerts (w := w) url h.ids a'
    rw [← heq] at hprefix
    exact (matchingAlerts_mono claims {} hprefix).length_le

theorem length_run (h : v.system.Inv) (actions : List Action) :
    (v.alerts w claims).length ≤ ((v.run w url claims actions).alerts w claims).length := by
  induction actions generalizing v with
  | nil => exact Nat.le_refl _
  | cons a actions ih => exact Nat.le_trans (length_step w url claims h a) (ih (inv_step h a))

theorem length_past (w : World) (url : Option Str) (claims : TokenClaims) (h : start.system.Inv)
    {past actions : List Action} (hpast : past <+: actions) :
    ((start.run w url claims past).alerts w claims).length ≤ ((start.run w url claims actions).alerts w claims).length := by
  obtain ⟨rest, rfl⟩ := hpast
  rw [run_append]
  exact length_run (inv_run h past) rest

/-! ### What the page knows -/

/-- At some moment of the visit this was a page of the alerts. -/
def Seen (w : World) (url : Option Str) (claims : TokenClaims) (start : AlertsVisit) (actions : List Action)
    (offset : Nat) (items : List Alert) (hasMore : Bool) : Prop :=
  ∃ past, past <+: actions ∧ ∃ order, PageOf w claims (start.run w url claims past) order offset items hasMore

/-- The page has not taken any alerts. -/
structure Blank (page : AlertsList) : Prop where
  items : page.items = []
  hasMore : page.hasMore = false
  offset : page.offset = 0
  waits : page.loadingAlerts = true ∨ page.alertsError ≠ none

/-- A request is for a page that there is. -/
structure Inv (w : World) (url : Option Str) (claims : TokenClaims) (start : AlertsVisit) (actions : List Action)
    (v : AlertsVisit) : Prop where
  sent : ∀ offset ∈ v.tab.queries, defaultLimit ∣ offset ∧ (offset = 0 ∨ offset < (v.alerts w claims).length)
  answers : ∀ i r, v.answers i = some (.ok r) → ∃ offset, v.tab.queries[i]? = some offset ∧
    Seen w url claims start actions offset r.items r.hasMore
  page : Seen w url claims start actions v.tab.state.offset v.tab.state.items v.tab.state.hasMore ∨ Blank v.tab.state
  multiple : defaultLimit ∣ v.tab.state.offset
  waiting : v.tab.state.loadingAlerts = true → ∃ i offset, v.tab.Outstanding i offset

theorem Seen.later {actions more : List Action} {offset : Nat} {items : List Alert} {hasMore : Bool}
    (h : Seen w url claims start actions offset items hasMore) :
    Seen w url claims start (actions ++ more) offset items hasMore := by
  obtain ⟨past, hpast, hpage⟩ := h
  exact ⟨past, hpast.trans (List.prefix_append _ _), hpage⟩

/-- The page before and the page after one that was seen are there now, if they are asked for. -/
theorem Seen.inside (hstart : start.system.Inv) {actions : List Action} {offset : Nat} {items : List Alert} {hasMore : Bool}
    (h : Seen w url claims start actions offset items hasMore) :
    (offset = 0 ∨ offset < ((start.run w url claims actions).alerts w claims).length) ∧
      (hasMore = true → offset + defaultLimit < ((start.run w url claims actions).alerts w claims).length) := by
  obtain ⟨past, hpast, order, hpage⟩ := h
  have hle := length_past w url claims hstart hpast
  refine ⟨?_, fun hmore => ?_⟩
  · have := hpage.inside
    omega
  · have hlt := hpage.hasMore.symm.trans hmore
    rw [decide_eq_true_eq] at hlt
    omega

theorem Inv.init (system : System) :
    Inv w url claims { system } [] { system } where
  sent := by
    intro offset hoffset
    obtain rfl := List.mem_singleton.1 hoffset
    exact ⟨Nat.dvd_zero _, .inl rfl⟩
  answers _ _ h := by cases h
  page := .inr ⟨rfl, rfl, rfl, .inl rfl⟩
  multiple := Nat.dvd_zero _
  waiting _ := ⟨0, 0, rfl⟩

section
variable {actions : List Action} {a : Action} {v' : AlertsVisit}

/-- The page takes no part. -/
theorem Inv.frame (h : Inv w url claims start actions v) (htab : v'.tab = v.tab)
    (hle : (v.alerts w claims).length ≤ (v'.alerts w claims).length)
    (hanswers : ∀ i r, v'.answers i = some (.ok r) → v.answers i = some (.ok r) ∨ ∃ offset,
      v.tab.queries[i]? = some offset ∧ Seen w url claims start actions offset r.items r.hasMore) :
    Inv w url claims start (actions ++ [a]) v' where
  sent offset hoffset := by
    obtain ⟨hdvd, hinside⟩ := h.sent offset (htab ▸ hoffset)
    exact ⟨hdvd, by omega⟩
  answers i r hr := by
    obtain ⟨offset, hi, hseen⟩ := (hanswers i r hr).elim (h.answers i r) id
    exact ⟨offset, htab ▸ hi, hseen.later⟩
  page := by
    rw [htab]
    exact h.page.imp_left Seen.later
  multiple := htab ▸ h.multiple
  waiting hloading := by
    rw [htab] at hloading ⊢
    exact h.waiting hloading

/-- A request for the page before or after the one that is shown. -/
theorem Inv.load (h : Inv w url claims start actions v) {offset : Nat} (hdvd : defaultLimit ∣ offset)
    (hinside : offset = 0 ∨ offset < (v.alerts w claims).length)
    (hseen : Seen w url claims start actions v.tab.state.offset v.tab.state.items v.tab.state.hasMore) :
    Inv w url claims start (actions ++ [a]) { v with tab := v.tab.send (v.tab.state.loadAlerts offset) } where
  sent := by
    intro offset' hoffset'
    rw [Tab.queries_send, List.mem_append] at hoffset'
    rcases hoffset' with hoffset' | hoffset'
    · exact h.sent offset' hoffset'
    · obtain rfl := List.mem_singleton.1 hoffset'
      exact ⟨hdvd, hinside⟩
  answers i r hr := by
    obtain ⟨offset', hi, hseen'⟩ := h.answers i r hr
    refine ⟨offset', ?_, hseen'.later⟩
    rw [Tab.queries_send, List.getElem?_append_left (List.getElem?_eq_some_iff.1 hi).1, hi]
  page := .inl hseen.later
  multiple := h.multiple
  waiting _ := by
    refine ⟨v.tab.calls.length, offset, ?_⟩
    simp [Tab.Outstanding, Tab.send, AlertsList.loadAlerts]

theorem Inv.click (hstart : start.system.Inv) (hv : v = start.run w url claims actions)
    (h : Inv w url claims start actions v) (e : AlertsEvent) :
    Inv w url claims start (actions ++ [.click e]) (v.step w url claims (.click e)) := by
  have hstay : Inv w url claims start (actions ++ [.click e])
      { v with tab := v.tab.send (v.tab.state, []) } := by
    rw [Tab.send_nil]
    exact h.frame rfl (Nat.le_refl _) fun i r hr => .inl hr
  show Inv w url claims start (actions ++ [.click e]) { v with tab := v.tab.send (v.tab.state.act e) }
  rcases h.page with hseen | hblank
  swap
  · cases e with
    | previous => rwa [AlertsList.act, if_pos hblank.offset]
    | next => rwa [AlertsList.act, if_pos (by simp [hblank.hasMore])]
  have hinside := hseen.inside hstart
  rw [← hv] at hinside
  cases e with
  | previous =>
    rw [AlertsList.act]
    split_ifs with hzero
    · exact hstay
    · exact h.load (Nat.dvd_sub h.multiple (Nat.dvd_refl _)) (by omega) hseen
  | next =>
    rw [AlertsList.act]
    split_ifs with hlast
    · exact hstay
    · have hmore : v.tab.state.hasMore = true := by simpa using hlast
      exact h.load (Nat.dvd_add h.multiple (Nat.dvd_refl _)) (.inr (hinside.2 hmore)) hseen

/-- The server answers a request with a page as it is now. -/
theorem Inv.serve (hv : v = start.run w url claims actions) (hinv : v.system.Inv)
    (h : Inv w url claims start actions v) (i : Nat) (conn : Conn) (ν : Nat → Choice) (message : Str) :
    Inv w url claims start (actions ++ [.serve i conn ν message]) (v.step w url claims (.serve i conn ν message)) := by
  have hle := length_step w url claims hinv (.serve i conn ν message)
  refine h.frame ?_ hle fun j r hr => ?_
  · simp only [step]
    split <;> rfl
  · simp only [step] at hr
    split at hr
    swap
    · exact .inl hr
    rename_i offset hcall _
    dsimp only at hr
    by_cases hji : j = i
    swap
    · rw [Function.update_of_ne hji] at hr
      exact .inl hr
    rw [hji, Function.update_self] at hr
    have hquery : v.tab.queries[j]? = some offset := by
      rw [Tab.queries, List.getElem?_map, hji, hcall]
      rfl
    refine .inr ⟨offset, hquery, actions, List.prefix_refl _, (ν 2).order, ?_⟩
    rw [← hv]
    have hrun : (Request.run w ⟨.listAlerts (alertsRequest offset) claims, conn, ν⟩ v.system.db).1 = .ok (.alerts r) := by
      unfold answer at hr
      split at hr
      · rename_i heq
        rw [heq, Except.ok.inj (Option.some.inj hr)]
      · cases hr
    obtain ⟨hitems, hmore⟩ := of_listAlerts hrun
    refine ⟨?_, ?_, (h.sent offset (List.mem_of_getElem? hquery)).2⟩
    · rw [hitems, List.take_take]
      rfl
    · rw [hmore, List.length_take, List.length_drop, RowOrder.length_arrange, decide_eq_decide]
      show 50 < min (50 + 1) ((v.alerts w claims).length - offset) ↔ offset + 50 < (v.alerts w claims).length
      omega

theorem Inv.lose (h : Inv w url claims start actions v) (i : Nat) (message : Str) :
    Inv w url claims start (actions ++ [.lose i message]) (v.step w url claims (.lose i message)) := by
  simp only [step]
  split
  swap
  · exact h.frame rfl (Nat.le_refl _) fun j r hr => .inl hr
  refine h.frame rfl (Nat.le_refl _) fun j r hr => .inl ?_
  dsimp only at hr
  by_cases hji : j = i
  · rw [hji, Function.update_self] at hr
    cases hr
  · rwa [Function.update_of_ne hji] at hr

theorem Inv.arrive (h : Inv w url claims start actions v) (i : Nat) :
    Inv w url claims start (actions ++ [.arrive i]) (v.step w url claims (.arrive i)) := by
  have hstay : Inv w url claims start (actions ++ [.arrive i]) v := h.frame rfl (Nat.le_refl _) fun i r hr => .inl hr
  simp only [step]
  split
  swap
  · exact hstay
  rename_i answer hanswer
  rcases Client.step_arrive_cases alertsClient v.tab i answer with hsame | ⟨offset, hi, hstep⟩
  · rwa [hsame]
  have hqueries : (alertsClient.step v.tab (.arrive i answer)).queries = v.tab.queries := by
    rw [hstep, Tab.queries_send, hi.queries_answered]
    exact List.append_nil _
  have hoffset : v.tab.queries[i]? = some offset := by
    rw [Tab.queries, List.getElem?_map, hi]
    rfl
  refine ⟨fun offset' hoffset' => h.sent offset' (hqueries ▸ hoffset'), fun j r hr => ?_, ?_, ?_, ?_⟩
  · obtain ⟨offset', hj, hseen⟩ := h.answers j r hr
    exact ⟨offset', (congrArg (·[j]?) hqueries).trans hj, hseen.later⟩
  · rw [hstep]
    cases answer with
    | ok data =>
      obtain ⟨offset', hi', hseen⟩ := h.answers i data hanswer
      obtain rfl := Option.some.inj (hoffset.symm.trans hi')
      exact .inl hseen.later
    | error message =>
      refine h.page.imp Seen.later fun hblank => ?_
      exact ⟨hblank.items, hblank.hasMore, hblank.offset, .inr (by simp [alertsClient, AlertsList.onAnswer])⟩
  · rw [hstep]
    cases answer with
    | ok data => exact (h.sent offset (List.mem_of_getElem? hoffset)).1
    | error message => exact h.multiple
  · rw [hstep]
    intro hloading
    cases answer <;> cases hloading

theorem inv_actions (hsystem : System) (hinv : hsystem.Inv) (actions : List Action) :
    let start : AlertsVisit := { system := hsystem }
    Inv w url claims start actions (start.run w url claims actions) := by
  intro start
  induction actions using List.reverseRecOn with
  | nil => exact Inv.init hsystem
  | append_singleton actions a ih =>
    have hsystem : (start.run w url claims actions).system.Inv := inv_run hinv actions
    rw [run_append]
    show Inv w url claims start (actions ++ [a]) ((start.run w url claims actions).step w url claims a)
    cases a with
    | click e => exact ih.click hinv rfl e
    | system a => exact ih.frame rfl (length_step w url claims hsystem (.system a)) fun i r hr => .inl hr
    | serve i conn ν message => exact ih.serve rfl hsystem i conn ν message
    | lose i message => exact ih.lose i message
    | arrive i => exact ih.arrive i

end

end

end AlertsVisit

open AlertsVisit in
/-- Whatever is clicked, fired, answered, lost and arrives, in any order: the page asks for the first alerts or for a page
that there is; unless it is loading or shows an error, it shows one page of the alerts as they were at some moment of the
visit, and that there are none only if there were none at that moment; and with no request on its way it is not loading. -/
theorem alerts_list_shown (w : World) (url : Option Str) (claims : TokenClaims) (before : List LogMgmt.Action)
    (actions : List AlertsVisit.Action) :
    let start : AlertsVisit := { system := System.run w url {} before }
    let v := start.run w url claims actions
    let page := v.tab.state
    (∀ offset ∈ v.tab.queries, defaultLimit ∣ offset ∧ (offset = 0 ∨ offset < (v.alerts w claims).length)) ∧
    (page.loadingAlerts = false → page.alertsError = none → ∃ past, past <+: actions ∧
      (∃ order, PageOf w claims (start.run w url claims past) order page.offset page.items page.hasMore) ∧
      (page.items = [] → (start.run w url claims past).alerts w claims = [])) ∧
    (v.tab.Quiet → page.loadingAlerts = false) := by
  intro start v page
  have hinv : Inv w url claims start actions v := inv_actions _ (System.Inv.init.run before) actions
  refine ⟨hinv.sent, fun hloading herror => ?_, fun hquiet => ?_⟩
  · rcases hinv.page with ⟨past, hpast, order, hpage⟩ | hblank
    swap
    · rcases hblank.waits with h | h
      · rw [hloading] at h
        cases h
      · exact absurd herror h
    refine ⟨past, hpast, ⟨order, hpage⟩, fun hempty => ?_⟩
    -- an empty page is the first one
    have hlength := congrArg List.length (hpage.items.symm.trans hempty)
    rw [List.length_take, List.length_drop, RowOrder.length_arrange, List.length_nil] at hlength
    have hlimit : defaultLimit = 50 := rfl
    have hinside := hpage.inside
    exact List.length_eq_zero_iff.1 (by omega)
  · cases hloading : page.loadingAlerts with
    | false => rfl
    | true =>
      obtain ⟨i, offset, hi⟩ := hinv.waiting hloading
      cases hquiet _ hi.mem

end LogMgmt
