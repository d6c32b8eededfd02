import LogMgmt.Paging
import LogMgmt.Lib.Client

/-!
# The search page

`SearchPage.jsx`: a response writes its page and its offset over what is there, whichever request it answers, and
Previous and Next search with the filters as they stand in the form. The page so settles on the last search if the
last response to arrive answers the latest request and nobody pages with filters that have not been submitted
(`search_page_settles`).
-/

namespace LogMgmt
open Client (Tab Event)

/-! ### The page -/

def defaultLimit : Nat := 50

structure SearchFilters where
  startTime : Str := []
  endTime : Str := []
  source : Str := []
  eventType : Str := []
  user : Str := []
  srcIp : Str := []
deriving DecidableEq

inductive SearchField where
  | startTime
  | endTime
  | source
  | eventType
  | user
  | srcIp

def SearchFilters.set (filters : SearchFilters) (value : Str) : SearchField → SearchFilters
  | .startTime => { filters with startTime := value }
  | .endTime => { filters with endTime := value }
  | .source => { filters with source := value }
  | .eventType => { filters with eventType := value }
  | .user => { filters with user := value }
  | .srcIp => { filters with srcIp := value }

/-- The parameters of `searchEvents`. -/
structure SearchQuery where
  filters : SearchFilters
  limit : Nat := defaultLimit
  offset : Nat
deriving DecidableEq

/-- What the page reads of a response. -/
structure SearchResult where
  items : List SearchResultItem := []
  hasMore : Bool := false

def SearchResult.ofResponse (data : SearchResponse) : SearchResult := ⟨data.items, data.hasMore⟩

/-- The response, or the message of the error. -/
abbrev SearchAnswer := Except Str SearchResponse

structure SearchPage where
  filters : SearchFilters := {}
  offset : Nat := 0
  result : SearchResult := {}
  loading : Bool := false
  error : Option Str := none
  /-- the filters of the last submit, or of the search on mount; the page has no such record -/
  submitted : SearchFilters := {}
  /-- the offset that the last search was sent with; the page has no such record -/
  reached : Nat := 0

inductive SearchEvent where
  | updateFilter (field : SearchField) (value : Str)
  | submit
  | previous
  | next

namespace SearchPage

/-- `runSearch` up to its callbacks -/
def runSearch (page : SearchPage) (nextOffset : Nat) : SearchPage × List SearchQuery :=
  ({ page with loading := true, error := none, reached := nextOffset }, [{ filters := page.filters, offset := nextOffset }])

/-- Previous and Next are there while nothing loads, and disabled on the first and on the last page. -/
def act (page : SearchPage) : SearchEvent → SearchPage × List SearchQuery
  | .updateFilter field value => ({ page with filters := page.filters.set value field }, [])
  | .submit => runSearch { page with submitted := page.filters } 0
  | .previous => if page.loading || page.offset = 0 then (page, []) else page.runSearch (page.offset - defaultLimit)
  | .next => if page.loading || !page.result.hasMore then (page, []) else page.runSearch (page.offset + defaultLimit)

/-- The callbacks of `runSearch`. -/
def onAnswer (page : SearchPage) (query : SearchQuery) : SearchAnswer → SearchPage
  | .ok data => { page with result := .ofResponse data, offset := query.offset, loading := false }
  | .error message => { page with error := some message, loading := false }

end SearchPage

def searchClient : Client SearchPage SearchEvent SearchQuery SearchAnswer where
  act := SearchPage.act
  take page query answer := (page.onAnswer query answer, [])

abbrev SearchTab := Tab SearchPage SearchQuery SearchAnswer

namespace SearchTab

/-- The page after its effect, which searches without filters. -/
def mounted : SearchTab := Tab.send { state := {} } (SearchPage.runSearch {} 0)

/-- The items shown are the response for the filters of the last submit at the offset of the page, which is the one that
the last search was to reach. -/
structure ShowsLastSearch (t : SearchTab) : Prop where
  loading : t.state.loading = false
  offset : t.state.offset = t.state.reached
  result : ∃ data, t.state.result = .ofResponse data ∧
    ⟨{ filters := t.state.submitted, offset := t.state.offset }, some (.ok data)⟩ ∈ t.calls

def successful : Event SearchEvent SearchAnswer → Bool
  | .arrive _ answer => answer.isOk
  | .act _ => true

/-- Nobody pages while filters wait to be submitted, and a response after which none is outstanding is for the filters
and the offset of the latest request. -/
def Timely (t : SearchTab) : Event SearchEvent SearchAnswer → Prop
  | .act .previous | .act .next => t.state.filters = t.state.submitted
  | .act _ => True
  | .arrive i _ => (∀ j query, t.Outstanding j query → j = i) →
      ∀ query, t.Outstanding i query → t.queries.getLast? = some query

/-! ### What a run keeps -/

structure Coherent (t : SearchTab) : Prop where
  latest : t.queries.getLast? = some { filters := t.state.submitted, offset := t.state.reached }
  settled : t.Quiet → t.ShowsLastSearch

theorem coherent_runSearch (calls : List (Client.Call SearchQuery SearchAnswer)) {page page' : SearchPage}
    (h : page.filters = page.submitted) (nextOffset : Nat) :
    Coherent (Tab.send ⟨page', calls⟩ (page.runSearch nextOffset)) where
  latest := by
    rw [Tab.queries_send, List.getLast?_append]
    simp only [SearchPage.runSearch, h]
    rfl
  settled hquiet := by
    obtain ⟨-, hnone⟩ := Tab.quiet_send_iff.1 hquiet
    cases hnone

theorem coherent_mounted : Coherent mounted := coherent_runSearch [] rfl 0

section
variable {t : SearchTab}

theorem Coherent.act (h : Coherent t) {a : SearchEvent} (hok : t.Timely (.act a)) :
    Coherent (t.send (t.state.act a)) := by
  cases a with
  | updateFilter field value =>
    simp only [SearchPage.act, Tab.send, List.map_nil, List.append_nil]
    refine ⟨h.latest, fun hquiet => ?_⟩
    obtain ⟨hloading, hoffset, hresult⟩ := h.settled hquiet
    exact ⟨hloading, hoffset, hresult⟩
  | submit => exact coherent_runSearch t.calls rfl 0
  | previous | next =>
    simp only [SearchPage.act]
    split
    · rwa [Tab.send_nil]
    · exact coherent_runSearch t.calls hok _

theorem Coherent.arrive (h : Coherent t) {i : Nat} {query : SearchQuery} {answer : SearchAnswer}
    (hi : t.Outstanding i query) (hok : t.Timely (.arrive i answer)) (hsuccess : answer.isOk) :
    Coherent ((t.answered i query answer).send (t.state.onAnswer query answer, [])) := by
  rcases answer with message | data
  · cases hsuccess
  refine ⟨?_, fun hquiet => ?_⟩
  · rw [Tab.queries_send, List.append_nil, hi.queries_answered]
    exact h.latest
  · obtain ⟨hquiet, -⟩ := Tab.quiet_send_iff.1 hquiet
    have hlast := hok (fun j q hj => Tab.only_outstanding hquiet hj) query hi
    obtain rfl : query = _ := Option.some.inj (hlast.symm.trans h.latest)
    refine ⟨rfl, rfl, data, rfl, ?_⟩
    exact List.mem_append_left _ hi.mem_answered

end

/-- In every run whose responses all succeed, with no paging between an edit of the filters and their submit, and in
which the last response to arrive is for the latest search, the page shows the last search once it has settled. -/
theorem search_page_settles {events : List (Event SearchEvent SearchAnswer)} (hsuccess : ∀ e ∈ events, successful e)
    (h : searchClient.Meets Timely mounted events) (hquiet : (searchClient.run mounted events).Quiet) :
    ShowsLastSearch (searchClient.run mounted events) := by
  refine Client.Meets.invariant (I := Coherent) ?_ ?_ (h.and_forall hsuccess) coherent_mounted |>.settled hquiet
  · exact fun t a ht hok => ht.act hok.1
  · exact fun t i query answer ht hi hok => ht.arrive hi hok.1 hok.2

def someEvent : SearchResponse := ⟨[.ofRow (.sample 1 0)], defaultLimit, 0, true⟩

def noEvent : SearchResponse := ⟨[], defaultLimit, 0, false⟩

def adSubmitted : List (Event SearchEvent SearchAnswer) := [.act (.updateFilter .source (str "ad")), .act .submit]

/-- The page is open, then a search is submitted. -/
theorem search_page_settles_ad :
    ShowsLastSearch (searchClient.run mounted (.arrive 0 (.ok someEvent) :: adSubmitted ++ [.arrive 1 (.ok noEvent)])) := by
  refine search_page_settles (by decide) ⟨?_, trivial, trivial, ?_, trivial⟩ (by decide)
  · rintro - query ⟨⟩
    rfl
  · rintro - query ⟨⟩
    rfl

/-- A search is submitted while the first one still loads, and answered before it; Next is clicked after an edit. -/
theorem other_search_shown :
    let stale := searchClient.run mounted (adSubmitted ++ [.arrive 1 (.ok noEvent), .arrive 0 (.ok someEvent)])
    let unsubmitted := searchClient.run mounted [.arrive 0 (.ok someEvent), .act (.updateFilter .source (str "ad")),
      .act .next, .arrive 1 (.ok noEvent)]
    (stale.Quiet ∧ ¬ShowsLastSearch stale) ∧ unsubmitted.Quiet ∧ ¬ShowsLastSearch unsubmitted := by
  intro stale unsubmitted
  refine ⟨⟨by decide, fun h => ?_⟩, by decide, fun h => ?_⟩
  · obtain ⟨data, hresult, hcall⟩ := h.result
    rcases List.mem_cons.1 hcall with hfirst | hcall
    · cases hfirst
    · cases List.mem_singleton.1 hcall
      cases congrArg SearchResult.hasMore hresult
  · obtain ⟨data, -, hcall⟩ := h.result
    rcases List.mem_cons.1 hcall with hfirst | hcall
    · cases hfirst
    · cases List.mem_singleton.1 hcall

end SearchTab

end LogMgmt
