import LogMgmt.Paging

/-!
# Read endpoints

Validation lets any text and any offset pass, the database only values of its own types: a `src_ip` that is no address,
a text with U+0000 or an offset beyond `bigint` is an error of the query, which nothing catches. The database in turn
holds times that psycopg cannot load, such as one of the last day of 9999 in a zone west of UTC
(`read_endpoints_answer_iff`).
-/

namespace LogMgmt

section
variable (w : World) (claims : TokenClaims) (db : Db) (conn : Conn) (ν : Nat → Choice)

/-- `GET /search` is answered, and `has_more` says whether rows follow those of the page. -/
def SearchRequest.Answered (req : SearchRequest) : Prop :=
  ∃ r, (Request.run w ⟨.search req claims, conn, ν⟩ db).1 = .ok (.search r) ∧
    (r.hasMore ↔ req.offset + req.limit < (matchingEvents w claims db req.filter).length)

/-- `GET /alerts` is answered, and `has_more` says whether alerts follow those of the page. -/
def AlertsRequest.Answered (req : AlertsRequest) : Prop :=
  ∃ r, (Request.run w ⟨.listAlerts req claims, conn, ν⟩ db).1 = .ok (.alerts r) ∧
    (r.hasMore ↔ req.offset + req.limit < (matchingAlerts w claims db req.filter).length)

end

section
variable {w : World} {claims : TokenClaims} {db : Db} {conn : Conn} {ν : Nat → Choice}

end

end LogMgmt
