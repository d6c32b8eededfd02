import LogMgmt.Paging
import LogMgmt.History

/-!
# Reading while others write

A client goes from page to page of `GET /search` or `GET /alerts`, and before each request the system takes any steps:
events and alerts are added, and push the rows behind them to later pages. No request, writer or engine removes a row
(`drop_old_partitions` does, and is not run here), and so the client misses none that was there when it began, other than
by a page boundary between rows with equal times (`reading_complete`).
-/

namespace LogMgmt
open Prog

/-- The system when request `k` of a client runs, if the actions `between j` are taken before request `j`. -/
def System.meanwhile (w : World) (url : Option Str) (s : System) (between : Nat → List Action) : Nat → System
  | 0 => s.run w url (between 0)
  | k + 1 => (s.meanwhile w url between k).run w url (between (k + 1))

section
variable {w : World} {claims : TokenClaims} {db db' : Db}

/-! ### What an answered request shows -/

theorem answer_of_tenantQuery {pg : Pg} {α : Type} {stmt : Stmt} {f : stmt.Resp → α} {t t' : Session} {a : α}
    (hothers : t.snapshot = t.db)
    (h : (tenantConn claims do let r ← sql stmt; return f r).run (handle pg) t = (.ok a, t')) :
    ∃ r, (stmt.answer pg claims t.nature t.db).toOption = some r ∧ a = f r := by
  have hwp := wp_tenantQuery pg claims f t
  rw [wp, h] at hwp
  obtain ⟨htext, r, ws, hexec, ha⟩ := hwp
  rw [hothers] at hexec
  refine ⟨r, ?_, ha⟩
  rw [Stmt.answer, if_pos htext, hexec]
  rfl

/-- A page of a search that is answered, with whatever failures in the session. -/
theorem of_searchPage {req : SearchRequest} {ν : Nat → Nat → Choice} {k : Nat} {p : Pages.Answer SearchResultItem}
    (h : searchPage w claims db req ν k = some p) :
    p = (Pages.page req.limit k ((ν k 2).order.arrange (fun e : SearchResultItem => -e.eventTime)
        ((matchingEvents w claims db req.filter).map .ofRow)),
      decide ((k + 1) * req.limit < ((ν k 2).order.arrange (fun e : SearchResultItem => -e.eventTime)
        ((matchingEvents w claims db req.filter).map .ofRow)).length)) := by
  unfold searchPage Request.run Call.app search at h
  split at h
  · rename_i r hrun
    obtain ⟨rows, hrows, hr⟩ := answer_of_tenantQuery (t := { db, conn := { autocommit := false }, nature := ν k }) rfl
      (Prod.ext hrun rfl)
    rw [answer_searchEvents] at hrows
    dsimp only at hrows
    split_ifs at hrows
    obtain rfl := Option.some.inj hrows
    obtain ⟨hitems, hmore⟩ := Pages.take_fetched req.limit ((ν k 2).order.arrange (fun e : EventRow => -e.eventTime)
      (matchingEvents w claims db req.filter)) k
    rw [← Option.some.inj h, RowOrder.arrange_map, List.length_map, Response.search.inj hr]
    dsimp only
    rw [hitems, hmore, Pages.page, Pages.page, List.map_take, List.map_drop]
    rfl
  · cases h

/-- A request for alerts that is answered, with whatever failures in the session. -/
theorem of_listAlerts {req : AlertsRequest} {conn : Conn} {ν : Nat → Choice} {r : AlertListResponse}
    (h : (Request.run w ⟨.listAlerts req claims, conn, ν⟩ db).1 = .ok (.alerts r)) :
    let rows := (ν 2).order.arrange (fun a : Alert => -a.triggeredAt) (matchingAlerts w claims db req.filter)
    r.items = ((rows.drop req.offset).take (req.limit + 1)).take req.limit ∧
      r.hasMore = decide (req.limit < ((rows.drop req.offset).take (req.limit + 1)).length) := by
  unfold Request.run Call.app listAlerts at h
  obtain ⟨rows, hrows, hr⟩ := answer_of_tenantQuery (t := { db, conn, nature := ν }) rfl (Prod.ext h rfl)
  rw [answer_listAlerts] at hrows
  dsimp only at hrows
  split_ifs at hrows
  obtain rfl := Option.some.inj hrows
  rw [Response.alerts.inj hr]
  exact ⟨rfl, rfl⟩

theorem of_alertsPage {req : AlertsRequest} {ν : Nat → Nat → Choice} {k : Nat} {p : Pages.Answer Alert}
    (h : alertsPage w claims db req ν k = some p) :
    p = (Pages.page req.limit k ((ν k 2).order.arrange (fun a : Alert => -a.triggeredAt)
        (matchingAlerts w claims db req.filter)),
      decide ((k + 1) * req.limit < ((ν k 2).order.arrange (fun a : Alert => -a.triggeredAt)
        (matchingAlerts w claims db req.filter)).length)) := by
  unfold alertsPage at h
  split at h
  · rename_i r hrun
    obtain ⟨hitems, hmore⟩ := of_listAlerts hrun
    obtain ⟨hpage, hlast⟩ := Pages.take_fetched req.limit ((ν k 2).order.arrange (fun a : Alert => -a.triggeredAt)
      (matchingAlerts w claims db req.filter)) k
    rw [← Option.some.inj h, hitems, hmore]
    exact Prod.ext hpage hlast
  · cases h

/-! ### Rows that are added -/

theorem matchingEvents_mono (claims : TokenClaims) (f : EventFilter) (h : db.events <+: db'.events) :
    (matchingEvents w claims db f).Sublist (matchingEvents w claims db' f) := by
  unfold matchingEvents
  split
  · exact (h.sublist.filter _).filter _
  · exact List.Sublist.refl _

theorem matchingAlerts_mono (claims : TokenClaims) (f : AlertFilter) (h : db.alerts <+: db'.alerts) :
    (matchingAlerts w claims db f).Sublist (matchingAlerts w claims db' f) := by
  unfold matchingAlerts
  split
  · exact (h.sublist.filter _).filter _
  · exact List.Sublist.refl _

theorem uncut_map {α β : Type} {key : β → Int} {f : α → β} {limit k : Nat} {rows : List α} {a : α} :
    Pages.Uncut key limit k (rows.map f) (f a) ↔ Pages.Uncut (fun a => key (f a)) limit k rows a := by
  unfold Pages.Uncut Pages.before Pages.level
  rw [List.countP_map, List.countP_map]
  rfl

namespace System
variable {url : Option Str} {s : System} {between : Nat → List Action}

theorem meanwhile_inv (h : s.Inv) (k : Nat) : (s.meanwhile w url between k).Inv := by
  induction k with
  | zero => exact h.run _
  | succ k ih => exact ih.run _

theorem meanwhile_extends (k : Nat) :
    (s.meanwhile w url between k).db.Extends (s.meanwhile w url between (k + 1)).db :=
  run_extends w url _ _

theorem meanwhile_alerts (h : s.Inv) (k : Nat) :
    (s.meanwhile w url between k).db.alerts <+: (s.meanwhile w url between (k + 1)).db.alerts :=
  run_alerts (meanwhile_inv h k) _

end System

end

/-- Whatever requests and engine steps come before each of its own, a client that reads to the last page gets every row that
matched when it began, and that no page boundary separates from rows with its time when the page is read. -/
theorem reading_complete (w : World) (url : Option Str) (before : List Action) (between : Nat → List Action)
    (claims : TokenClaims) (ν : Nat → Nat → Choice) (fuel : Nat) :
    let s := System.run w url {} before
    let db := fun k => (s.meanwhile w url between k).db
    (∀ (req : SearchRequest) (items : List SearchResultItem),
      Pages.browse (fun k => searchPage w claims (db k) req ν k) fuel 0 = some items →
      ∀ e ∈ matchingEvents w claims s.db req.filter,
        (∀ k < fuel, Pages.Uncut (fun e : EventRow => -e.eventTime) req.limit k
          (matchingEvents w claims (db k) req.filter) e) →
        .ofRow e ∈ items) ∧
    ∀ (req : AlertsRequest) (items : List Alert),
      Pages.browse (fun k => alertsPage w claims (db k) req ν k) fuel 0 = some items →
      ∀ a ∈ matchingAlerts w claims s.db req.filter,
        (∀ k < fuel, Pages.Uncut (fun a : Alert => -a.triggeredAt) req.limit k
          (matchingAlerts w claims (db k) req.filter) a) →
        a ∈ items := by
  intro s db
  have hinv : s.Inv := System.Inv.init.run before
  constructor
  · intro req items hitems e he huncut
    have hgrow : ∀ k, (matchingEvents w claims (db k) req.filter).Sublist (matchingEvents w claims (db (k + 1)) req.filter) :=
      fun k => matchingEvents_mono claims _ (System.meanwhile_extends k).events
    have hstart := matchingEvents_mono (w := w) claims req.filter (System.run_extends w url s (between 0)).events
    exact Pages.mem_browse (fun k p => of_searchPage)
      (fun k => RowOrder.arrange_perm _ _ _) (fun k => RowOrder.arrange_ascending _ _ _) (fun k => (hgrow k).map _)
      (List.mem_map_of_mem (hstart.subset he)) (fun k hk => uncut_map.2 (huncut k hk)) hitems
  · intro req items hitems a ha huncut
    have hgrow : ∀ k, (matchingAlerts w claims (db k) req.filter).Sublist (matchingAlerts w claims (db (k + 1)) req.filter) :=
      fun k => matchingAlerts_mono claims _ (System.meanwhile_alerts hinv k)
    have hfired : s.db.alerts <+: (s.run w url (between 0)).db.alerts := System.run_alerts hinv (between 0)
    have hstart := matchingAlerts_mono (w := w) claims req.filter hfired
    exact Pages.mem_browse (fun k p => of_alertsPage)
      (fun k => RowOrder.arrange_perm _ _ _) (fun k => RowOrder.arrange_ascending _ _ _) hgrow
      (hstart.subset ha) huncut hitems

end LogMgmt
