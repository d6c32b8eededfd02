import LogMgmt.TcpFraming
import LogMgmt.Classification

/-!
# UDP and TCP

The same message as a datagram and as a line of a connection. Both paths strip the newline and hand the text to
`handle_message`, but only the connection skips what is empty then, so that they part on the empty message
(`transports_agree_iff`).
-/

namespace LogMgmt
open Utf8 (Byte)

/-- The same event, up to the time that a fallback event has from the clock. -/
structure NormalizedEvent.Alike (e e' : NormalizedEvent) : Prop where
  fields : e' = { e with eventTime := e'.eventTime }
  eventTime : e.tags ≠ [str "fallback"] → e'.eventTime = e.eventTime

section
variable {py : Py} {u : Unicode} {tenant line : Str} {clock clock' : Clock} {m data : List Byte}
  {e : NormalizedEvent}

theorem NormalizedEvent.Alike.refl (e : NormalizedEvent) : e.Alike e := ⟨rfl, fun _ => rfl⟩

theorem alike_of_clock (h : handleMessage py u tenant line clock = .ok e) (hclock : clock'.parsing = clock.parsing) :
    ∃ e', handleMessage py u tenant line clock' = .ok e' ∧ e.Alike e' := by
  have hnormalize : ∀ {hint payload}, normalize py hint payload (.str tenant) clock.fallback = .ok e →
      ∃ e', normalize py hint payload (.str tenant) clock'.fallback = .ok e' ∧ e.Alike e' := by
    intro hint payload hn
    obtain ⟨e', he', heq⟩ := normalize_clock hn clock'.fallback
    refine ⟨e', he', ?_⟩
    rcases heq with rfl | ⟨htags, -, rfl⟩
    · exact .refl e'
    · exact ⟨rfl, fun hne => absurd htags hne⟩
  unfold handleMessage at h ⊢
  rw [hclock]
  split at h
  · exact hnormalize h
  · exact hnormalize h
  · cases h

/-- One message at the same time is the same event, or none, on both paths. -/
theorem forall₂_alike (line : Str) (hclock : clock'.parsing = clock.parsing) :
    List.Forall₂ NormalizedEvent.Alike (handleMessage py u tenant line clock).toOption.toList
      (handleMessage py u tenant line clock').toOption.toList := by
  cases h : handleMessage py u tenant line clock with
  | ok e =>
    obtain ⟨e', he', halike⟩ := alike_of_clock h hclock
    rw [he']
    exact .cons halike .nil
  | error exc =>
    cases h' : handleMessage py u tenant line clock' with
    | error exc' => exact .nil
    | ok e' =>
      obtain ⟨e, he, -⟩ := alike_of_clock h' hclock.symm
      rw [h] at he
      cases he

theorem datagramEvents_eq (hm : newline ∉ m) (hdata : data = m ∨ data = m ++ [newline]) (clock : Clock) :
    datagramEvents py u tenant data clock = (handleMessage py u tenant (Utf8.decode m) clock).toOption.toList := by
  have hline : decodeLine data = Utf8.decode m := by
    rcases hdata with rfl | rfl
    · exact decodeLine_of_not_mem hm
    · exact decodeLine_newline hm
  rw [datagramEvents, udpMessage, hline]

/-- A connection that sends one line puts its event, if the line is not empty. -/
theorem handleTcpConnection_message (hm : newline ∉ m) (hsize : m.length ≤ streamLimit) {chunks : List (List Byte)}
    (hchunks : chunks.flatten = m ++ [newline]) (clock : Nat → Clock) :
    handleTcpConnection py u tenant clock { chunks } =
      if m = [] then [] else (handleMessage py u tenant (Utf8.decode m) (clock 0)).toOption.toList := by
  have hsplit : (Lines.Reader.rest { chunks }).splitOn newline = [m, []] := by
    show ([] ++ chunks.flatten).splitOn newline = _
    rw [List.nil_append, hchunks, List.splitOn_append_cons_self_of_not_mem hm]
    rfl
  have hend : ∀ clock, putLines py u tenant clock [[]] = [] := fun clock => rfl
  rw [handleTcpConnection_eq, hsplit, putLines, if_neg (Nat.not_lt.2 hsize)]
  split
  · exact hend clock
  · cases handleMessage py u tenant (Utf8.decode m) (clock 0) with
    | ok e => exact congrArg (e :: ·) (hend _)
    | error exc => rfl

/-- The empty message is unparsed like any other. -/
theorem handleMessage_empty_isOk (py : Py) (u : Unicode) (tenant : Str) (clock : Clock) :
    (handleMessage py u tenant (Utf8.decode []) clock).isOk := by
  have hparse : parseSyslogLine u [] clock.parsing = .error (.valueError (.str [])) := parseSyslogLine_of_none rfl _
  unfold handleMessage
  rw [show Utf8.decode [] = [] from rfl, hparse]
  exact (normalize_isOk_iff py _ _ _ _).2 ⟨fun _ => rfl, rfl⟩

end

/-- A message without a newline, in any chunks on the connection and with or without one in the datagram, becomes the
same events on both paths exactly if it is not empty. -/
theorem transports_agree_iff (py : Py) (u : Unicode) (tenant : Str) {m : List Byte} (hm : newline ∉ m)
    (hsize : m.length ≤ 65507) {chunks : List (List Byte)} (hchunks : chunks.flatten = m ++ [newline])
    (clocks : Nat → Clock) :
    (∀ (data : List Byte) (clock : Clock), (data = m ∨ data = m ++ [newline]) →
      clock.parsing = (clocks 0).parsing → List.Forall₂ NormalizedEvent.Alike
        (datagramEvents py u tenant data clock) (handleTcpConnection py u tenant clocks { chunks })) ↔
      m ≠ [] := by
  have hlimit : m.length ≤ streamLimit := by
    unfold streamLimit
    omega
  rw [handleTcpConnection_message hm hlimit hchunks]
  constructor
  · rintro h rfl
    have halike := h [] (clocks 0) (.inl rfl) rfl
    rw [if_pos rfl, datagramEvents_eq hm (.inl rfl)] at halike
    obtain ⟨e, he⟩ := exists_of_isOk (handleMessage_empty_isOk py u tenant (clocks 0))
    rw [he] at halike
    cases halike
  · intro hne data clock hdata hclock
    rw [datagramEvents_eq hm hdata, if_neg hne]
    exact forall₂_alike _ hclock.symm

/-- A carriage return alone, sent in two chunks. -/
theorem transports_agree_sample :
    List.Forall₂ NormalizedEvent.Alike (datagramEvents .sample .sample (str "A") [0x0D, newline] .sample)
      (handleTcpConnection .sample .sample (str "A") (fun _ => .sample) { chunks := [[0x0D], [newline]] }) :=
  (transports_agree_iff .sample .sample (str "A") (m := [0x0D]) (by decide) (by decide) rfl fun _ => .sample).2
    (List.cons_ne_nil _ _) _ _ (.inr rfl) rfl

/-- An empty datagram, or one with a newline alone, becomes an event; the empty line does not. -/
theorem empty_message_parts :
    (datagramEvents .sample .sample (str "A") [] .sample).length = 1 ∧
      (datagramEvents .sample .sample (str "A") [newline] .sample).length = 1 ∧
      handleTcpConnection .sample .sample (str "A") (fun _ => .sample) { chunks := [[newline]] } = [] := by
  refine ⟨by decide, by decide, ?_⟩
  exact handleTcpConnection_message (m := []) List.not_mem_nil (Nat.zero_le _) rfl _

end LogMgmt
