import LogMgmt.SyslogServer
import LogMgmt.Lib.Lines

/-!
# Lines on a TCP connection

What `handle_tcp_connection` puts on the queue for a whole stream, however the network cuts it: the messages of the
lines before the first one that is longer than the limit of asyncio's `StreamReader` (`handleTcpConnection_eq`).
-/

namespace LogMgmt
open Utf8 (Byte)
open Lines

def newline : Byte := 0x0A

/-- The limit of a `StreamReader` that `asyncio.start_server` makes. -/
def streamLimit : Nat := 2 ^ 16

section
variable {py : Py} {u : Unicode} {tenant : Str} {raw line : List Byte} {clock : Clock}

theorem ne_nil_of_tcpLine {framed : Framed} (h : tcpLine py u tenant raw clock = .ok framed)
    (hframed : framed ≠ .close) :
    raw ≠ [] := by
  rintro rfl
  cases h
  exact hframed rfl

theorem rest_lt {r r' : Reader Byte} (h : r.readline newline streamLimit = (some raw, r')) (hne : raw ≠ []) :
    r'.rest.length < r.rest.length := by
  rw [Reader.rest_of_readline h, List.length_append]
  have := List.length_pos_of_ne_nil hne
  omega

end

section
variable (py : Py) (u : Unicode) (tenant : Str)

/-- What the loop of `handle_tcp_connection` puts on the queue; `clock n` is read for message `n`. An exception of
`readline` or of `handle_message` ends the loop as the end of the stream does. -/
def handleTcpConnection (clock : Nat → Clock) (r : Reader Byte) : List NormalizedEvent :=
  match _ : r.readline newline streamLimit with
  | (none, _) => []
  | (some raw, r') =>
    match hline : tcpLine py u tenant raw (clock 0) with
    | .ok .skip => handleTcpConnection clock r'
    | .ok (.put e) => e :: handleTcpConnection (fun n => clock (n + 1)) r'
    | _ => []
termination_by r.rest.length
decreasing_by
  · exact rest_lt ‹_› (ne_nil_of_tcpLine hline nofun)
  · exact rest_lt ‹_› (ne_nil_of_tcpLine hline nofun)

/-- The messages of lines: those that are not empty, each handled by itself. -/
def messages (clock : Nat → Clock) (lines : List (List Byte)) : List (Except PyExc NormalizedEvent) :=
  (lines.filter (· ≠ [])).mapIdx fun n line => handleMessage py u tenant (Utf8.decode line) (clock n)

/-- The events of lines up to the first that is over the limit or cannot be handled. -/
def putLines (clock : Nat → Clock) : List (List Byte) → List NormalizedEvent
  | [] => []
  | line :: lines =>
    if streamLimit < line.length then []
    else if line = [] then putLines clock lines
    else match handleMessage py u tenant (Utf8.decode line) (clock 0) with
      | .ok e => e :: putLines (fun n => clock (n + 1)) lines
      | .error _ => []

end

section
variable {py : Py} {u : Unicode} {tenant : Str} {clock : Nat → Clock} {line : List Byte} {lines : List (List Byte)}

theorem newline_not_mem_decode (h : newline ∉ line) : chr '\n' ∉ Utf8.decode line := by
  intro hmem
  rcases Utf8.decode_chars hmem with hascii | ⟨b, hb, heq⟩
  · revert hascii
    decide
  · refine h ?_
    have hb' : b = newline := UInt8.toNat_inj.1 heq.symm
    exact hb' ▸ hb

/-- The newline that ended a line is stripped, and nothing else. -/
theorem decodeLine_of_not_mem (h : newline ∉ line) : decodeLine line = Utf8.decode line := by
  refine List.rdropWhile_eq_self_iff.2 fun hne hlast => newline_not_mem_decode h ?_
  rw [← beq_iff_eq.1 hlast]
  exact List.getLast_mem hne

theorem decodeLine_newline (h : newline ∉ line) : decodeLine (line ++ [newline]) = Utf8.decode line := by
  have hdecode : Utf8.decode (line ++ [newline]) = Utf8.decode line ++ [chr '\n'] :=
    Utf8.decode_ascii (by decide) line []
  unfold decodeLine
  rw [hdecode]
  exact (List.rdropWhile_concat_pos (· == chr '\n') _ _ (beq_self_eq_true (chr '\n'))).trans (decodeLine_of_not_mem h)

theorem tcpLine_of_decodeLine {raw : List Byte} (hraw : raw ≠ []) (h : decodeLine raw = Utf8.decode line)
    (clock : Clock) :
    tcpLine py u tenant raw clock =
      if line = [] then .ok .skip else (handleMessage py u tenant (Utf8.decode line) clock).map .put := by
  unfold tcpLine
  rw [if_neg hraw, h]
  simp only [Utf8.decode_eq_nil]
  split
  · rfl
  · cases handleMessage py u tenant (Utf8.decode line) clock <;> rfl

theorem handleTcpConnection_none {r : Reader Byte} (clock : Nat → Clock)
    (h : (r.readline newline streamLimit).1 = none) :
    handleTcpConnection py u tenant clock r = [] := by
  rw [handleTcpConnection]
  split
  · rfl
  · rename_i h'
    rw [h'] at h
    cases h

theorem handleTcpConnection_some {r r' : Reader Byte} {raw : List Byte} (clock : Nat → Clock)
    (h : r.readline newline streamLimit = (some raw, r')) : handleTcpConnection py u tenant clock r =
      match tcpLine py u tenant raw (clock 0) with
      | .ok .skip => handleTcpConnection py u tenant clock r'
      | .ok (.put e) => e :: handleTcpConnection py u tenant (fun n => clock (n + 1)) r'
      | _ => [] := by
  rw [handleTcpConnection]
  split
  · rename_i h'
    rw [h] at h'
    cases h'
  · rename_i h'
    rw [h] at h'
    cases h'
    split <;> simp [*]

/-- A line that is given out, with its newline or at the end of the stream. -/
theorem handleTcpConnection_line {r r' : Reader Byte} {raw : List Byte} (clock : Nat → Clock)
    (h : r.readline newline streamLimit = (some raw, r')) (hraw : raw ≠ []) (hline : decodeLine raw = Utf8.decode line)
    (hle : line.length ≤ streamLimit)
    (hrest : ∀ clock, handleTcpConnection py u tenant clock r' = putLines py u tenant clock lines) :
    handleTcpConnection py u tenant clock r = putLines py u tenant clock (line :: lines) := by
  rw [handleTcpConnection_some clock h, tcpLine_of_decodeLine hraw hline, putLines, if_neg (Nat.not_lt.2 hle)]
  by_cases hempty : line = []
  · rw [if_pos hempty, if_pos hempty]
    exact hrest clock
  · rw [if_neg hempty, if_neg hempty]
    cases handleMessage py u tenant (Utf8.decode line) (clock 0) with
    | ok e => exact congrArg (e :: ·) (hrest _)
    | error exc => rfl

/-- What the loop does depends on the lines of the stream, not on how it was cut. -/
theorem handleTcpConnection_eq (clock : Nat → Clock) (r : Reader Byte) :
    handleTcpConnection py u tenant clock r = putLines py u tenant clock (r.rest.splitOn newline) := by
  induction hn : r.rest.length using Nat.strong_induction_on generalizing clock r with
  | _ n ih =>
  subst hn
  cases hcut : cut newline r.rest with
  | some p =>
    obtain ⟨line, rest⟩ := p
    have hsplit := splitOn_of_cut hcut
    by_cases hlong : streamLimit < line.length
    · rw [handleTcpConnection_none clock (Reader.readline_long (by rw [hsplit]; rfl) hlong), hsplit, putLines, if_pos hlong]
    · obtain ⟨r', hr', hrest⟩ := Reader.readline_of_cut hcut (Nat.not_lt.1 hlong)
      have hraw : line ++ [newline] ≠ [] := by simp
      rw [hsplit, ← hrest]
      exact handleTcpConnection_line clock hr' hraw (decodeLine_newline (not_mem_of_cut hcut)) (Nat.not_lt.1 hlong)
        fun clock => ih _ (rest_lt hr' hraw) clock r' rfl
  | none =>
    have hsplit := splitOn_of_cut_none hcut
    by_cases hlong : streamLimit < r.rest.length
    · rw [handleTcpConnection_none clock (Reader.readline_long (by rw [hsplit]; rfl) hlong), hsplit, putLines, if_pos hlong]
    obtain ⟨r', hr', hrest⟩ := Reader.readline_of_cut_none hcut (Nat.not_lt.1 hlong)
    by_cases hempty : r.rest = []
    · rw [handleTcpConnection_some clock hr', hempty]
      rfl
    · rw [hsplit]
      refine handleTcpConnection_line clock hr' hempty (decodeLine_of_not_mem (not_mem_of_cut_none hcut))
        (Nat.not_lt.1 hlong) fun clock => ?_
      rw [ih _ (rest_lt hr' hempty) clock r' rfl, hrest]
      rfl

theorem messages_cons_nil (clock : Nat → Clock) (lines : List (List Byte)) :
    messages py u tenant clock ([] :: lines) = messages py u tenant clock lines := rfl

theorem messages_cons (clock : Nat → Clock) (hline : line ≠ []) (lines : List (List Byte)) :
    messages py u tenant clock (line :: lines) =
      handleMessage py u tenant (Utf8.decode line) (clock 0) :: messages py u tenant (fun n => clock (n + 1)) lines := by
  unfold messages
  rw [List.filter_cons_of_pos (by simpa using hline), List.mapIdx_cons]

/-- The events are all messages exactly if no line is over the limit and every message can be handled. -/
theorem putLines_eq_messages_iff (clock : Nat → Clock) (lines : List (List Byte)) :
    (putLines py u tenant clock lines).map .ok = messages py u tenant clock lines ↔
      (∀ line ∈ lines, line.length ≤ streamLimit) ∧ ∀ m ∈ messages py u tenant clock lines, m.isOk := by
  induction lines generalizing clock with
  | nil => simp [putLines, messages]
  | cons line lines ih =>
    rw [putLines]
    by_cases hempty : line = []
    · have hzero : ([] : List Byte).length ≤ streamLimit := Nat.zero_le _
      rw [hempty, if_neg (Nat.not_lt.2 hzero), if_pos rfl, messages_cons_nil, ih, List.forall_mem_cons]
      exact and_congr_left' (and_iff_right hzero).symm
    · rw [messages_cons clock hempty, List.forall_mem_cons, List.forall_mem_cons]
      by_cases hlong : streamLimit < line.length
      · rw [if_pos hlong]
        exact iff_of_false (List.cons_ne_nil _ _).symm fun h => Nat.not_lt.2 h.1.1 hlong
      · rw [if_neg hlong, if_neg hempty, and_iff_right (Nat.not_lt.1 hlong)]
        cases handleMessage py u tenant (Utf8.decode line) (clock 0) with
        | error exc => exact iff_of_false (List.cons_ne_nil _ _).symm fun h => Bool.false_ne_true h.2.1
        | ok e =>
          rw [List.map_cons, List.cons.injEq, ih, and_iff_right rfl]
          exact and_congr_right' (and_iff_right rfl).symm

end

/-- On a stream that is closed by the sender, however it is cut, the events put on the queue are the messages of all
lines exactly if no line is over 64 KiB and every message can be handled; so it is exactly if no line is over 64 KiB
for clocks that are not in the last minutes of the year 9999. -/
theorem tcp_lossless_iff (py : Py) (u : Unicode) (tenant : Str) (clock : Nat → Clock) (chunks : List (List Byte)) :
    let events : List (Except PyExc NormalizedEvent) := (handleTcpConnection py u tenant clock { chunks }).map .ok
    let lines := chunks.flatten.splitOn newline
    (events = messages py u tenant clock lines ↔
      (∀ line ∈ lines, line.length ≤ 65536) ∧ ∀ m ∈ messages py u tenant clock lines, m.isOk) ∧
    ((∀ n, (clock n).parsing.Current) →
      (events = messages py u tenant clock lines ↔ ∀ line ∈ lines, line.length ≤ 65536)) := by
  intro events lines
  have hiff : events = messages py u tenant clock lines ↔
      (∀ line ∈ lines, line.length ≤ 65536) ∧ ∀ m ∈ messages py u tenant clock lines, m.isOk := by
    show (handleTcpConnection py u tenant clock { chunks }).map Except.ok = _ ↔ _
    rw [handleTcpConnection_eq]
    exact putLines_eq_messages_iff clock lines
  refine ⟨hiff, fun hclock => hiff.trans (and_iff_left ?_)⟩
  intro m hm
  obtain ⟨n, hn, rfl⟩ := List.mem_mapIdx.1 hm
  exact handleMessage_isOk tenant _ (hclock n)

/-- A line over the limit takes the lines after it with it. -/
theorem long_line_lost {py : Py} {u : Unicode} {tenant : Str} {clock : Nat → Clock} {line : List Byte}
    (next : List Byte)
    (hlong : streamLimit < line.length) (hline : newline ∉ line) (hnext : next ≠ []) (hnext' : newline ∉ next) :
    handleTcpConnection py u tenant clock { chunks := [line ++ [newline], next ++ [newline]] } = [] ∧
      messages py u tenant clock ([line ++ [newline], next ++ [newline]].flatten.splitOn newline) =
        [handleMessage py u tenant (Utf8.decode line) (clock 0),
          handleMessage py u tenant (Utf8.decode next) (clock 1)] := by
  have hne : line ≠ [] := List.ne_nil_of_length_pos (by omega)
  have hsplit : [line ++ [newline], next ++ [newline]].flatten.splitOn newline = [line, next, []] := by
    have hflatten : [line ++ [newline], next ++ [newline]].flatten = line ++ newline :: (next ++ newline :: []) := by simp
    rw [hflatten, List.splitOn_append_cons_self_of_not_mem hline, List.splitOn_append_cons_self_of_not_mem hnext']
    rfl
  rw [hsplit, messages_cons _ hne, messages_cons _ hnext, handleTcpConnection_eq]
  refine ⟨?_, rfl⟩
  show putLines py u tenant clock ([line ++ [newline], next ++ [newline]].flatten.splitOn newline) = []
  rw [hsplit]
  exact if_pos hlong

/-- Two lines, the first of 65537 bytes: neither is put on the queue. -/
theorem long_line_loses_stream :
    handleTcpConnection .sample .sample (str "A") (fun _ => .sample)
      { chunks := [List.replicate 65537 0x61 ++ [newline], [0x62] ++ [newline]] } = [] ∧
    messages .sample .sample (str "A") (fun _ => .sample)
      ([List.replicate 65537 0x61 ++ [newline], [0x62] ++ [newline]].flatten.splitOn newline) ≠ [] := by
  have hlong : streamLimit < (List.replicate 65537 (0x61 : Byte)).length := by
    rw [List.length_replicate]
    decide
  have hline : newline ∉ List.replicate 65537 0x61 := fun h => absurd (List.eq_of_mem_replicate h) (by decide)
  obtain ⟨hevents, hmessages⟩ := long_line_lost [0x62] hlong hline (by decide) (by decide)
  refine ⟨hevents, ?_⟩
  rw [hmessages]
  exact List.cons_ne_nil _ _

end LogMgmt
