import Mathlib.Algebra.BigOperators.Group.List.Basic
import Pyjamaz.Transport.Protocol

/-!
# Framing

A stream should deliver the messages that were put on it, however its bytes are cut into events
(`Frames`).  The loop of the receiver reads the header of a message from the first five bytes of the
event in which the message begins.  These are the bytes of the header only where the message begins
the event, and they are all there only where the event is long enough.

`frames_iff` says exactly when the messages come through: every one of them is handled, and where it
begins, the event starts with its type and, as far as the event goes, with its length (`HeadersSeen`).
The loop keeps account of the bytes it has taken (`Accounted`), from which it follows that the headers
were right; and while they are right it is never out of step (`Synced`).
-/

namespace Transport

open Octets

/-! ## What a stream should deliver -/

/-- After each event the messages that have arrived are handled, and the buffer has the bytes of the
next one. -/
def Frames (p : Protocol) (messages : List Message) (events : List Octets) : Prop :=
  ∀ k ≤ events.length, ∃ c n, n ≤ messages.length ∧
    receive p (events.take k) = some (c, (messages.take n).map Message.dispatch) ∧
    (events.take k).flatten = (messages.take n).flatMap Message.encode ++ c.msgBuffer ∧
    ∀ m, messages[n]? = some m → c.msgBuffer.length < m.encode.length

/-- The type and the length that are read from the start of an event. -/
def header (event : Octets) : ℕ × ℕ :=
  (ofLittleEndian (slice event 0 1), ofLittleEndian (slice event 1 5))

/-- The header of the event that has the byte at a position of the stream. -/
def headerAt : List Octets → ℕ → ℕ × ℕ
  | [], _ => (0, 0)
  | event :: events, pos =>
    if pos < event.length then header event else headerAt events (pos - event.length)

/-- Where a message begins, the event starts with the type and the length of the message. -/
def HeadersSeen (messages : List Message) (events : List Octets) : Prop :=
  ∀ before m after, messages = before ++ m :: after →
    headerAt events (before.flatMap Message.encode).length = (m.type.toNat, m.payload.length)

/-- Every message has a case, and its handling does not raise. -/
def AllHandled (p : Protocol) (messages : List Message) : Prop :=
  ∀ before m after, messages = before ++ m :: after →
    p.handles (before.map Message.dispatch) m.dispatch = true

/-! ## Positions of the stream -/

/-- The headers of the events that begin at a position. -/
def Describes (headers : ℕ → ℕ × ℕ) : ℕ → List Octets → Prop
  | _, [] => True
  | pos, event :: events =>
    (∀ q, pos ≤ q → q < pos + event.length → headers q = header event) ∧
      Describes headers (pos + event.length) events

lemma describes_of_headerAt {headers : ℕ → ℕ × ℕ} (events : List Octets) :
    ∀ pos, (∀ q, headers (pos + q) = headerAt events q) → Describes headers pos events := by
  induction events with
  | nil => exact fun _ _ => trivial
  | cons event events ih =>
    intro pos h
    constructor
    · intro q hle hlt
      have hq := h (q - pos)
      rwa [Nat.add_sub_cancel' hle, headerAt, if_pos (by omega)] at hq
    · apply ih
      intro q
      rw [Nat.add_assoc, h, headerAt, if_neg (by omega), Nat.add_sub_cancel_left]

lemma Describes.take {headers : ℕ → ℕ × ℕ} {events : List Octets} :
    ∀ {pos : ℕ}, Describes headers pos events → ∀ k, Describes headers pos (events.take k) := by
  induction events with
  | nil => exact fun h k => by rw [List.take_nil]; exact h
  | cons event events ih =>
    intro pos h k
    cases k with
    | zero => exact trivial
    | succ k => exact ⟨h.1, ih h.2 k⟩

/-! ## Filling the buffer -/

/-- The number of bytes that a message still lacks. -/
def Connection.lacks (c : Connection) : ℕ := (c.msgLen - c.msgBuffer.length).toNat

/-- A message under way: its payload is at the place where it belongs, and it is not too long. -/
structure Connection.UnderWay (c : Connection) : Prop where
  offset : c.msgOffset = 5
  five_le : 5 ≤ c.msgLen
  length_le : (c.msgBuffer.length : ℤ) ≤ c.msgLen

/-- The bytes that a message lacks are taken.  When it lacks none, what is left may be dropped. -/
def Protocol.Fills (p : Protocol) : Prop :=
  ∀ c bytesLeft, (c.msgBuffer.length : ℤ) ≤ c.msgLen → ∃ rest,
    p.fill c bytesLeft = ({ c with msgBuffer := c.msgBuffer ++ bytesLeft.take c.lacks }, rest) ∧
      (rest = bytesLeft.drop c.lacks ∨ c.lacks = 0 ∧ rest = [])

lemma lacks_eq {c : Connection} (h : (c.msgBuffer.length : ℤ) ≤ c.msgLen) :
    (c.lacks : ℤ) = c.msgLen - c.msgBuffer.length := by
  rw [Connection.lacks]
  omega

lemma sliceIndex_natCast (n k : ℕ) : sliceIndex n (k : ℤ) = min k n := by
  rw [sliceIndex, if_neg (by omega), Int.toNat_natCast]

lemma fill_eq (c : Connection) (bytesLeft : Octets) (h : (c.msgBuffer.length : ℤ) ≤ c.msgLen) :
    c.fill bytesLeft = ({ c with msgBuffer := c.msgBuffer ++ bytesLeft.take c.lacks },
      bytesLeft.drop c.lacks) := by
  rw [Connection.fill, ← lacks_eq h, sliceTo, sliceFrom, sliceIndex_natCast]
  congr 1
  · congr 2
    rw [List.take_eq_take_iff]
    omega
  · rcases Nat.le_total c.lacks bytesLeft.length with hle | hle
    · rw [min_eq_left hle]
    · rw [min_eq_right hle, List.drop_length, List.drop_eq_nil_of_le hle]

lemma clientProtocol_fills (accepts : List Dispatch → Octets → Bool) :
    (clientProtocol accepts).Fills :=
  fun c bytesLeft h => ⟨_, fill_eq c bytesLeft h, .inl rfl⟩

lemma serverProtocol_fills (serves : List Dispatch → Octets → Bool) :
    (serverProtocol serves).Fills := by
  intro c bytesLeft h
  change ∃ rest, c.fillMissing bytesLeft = _ ∧ _
  by_cases hmissing : 0 < c.msgLen - c.msgBuffer.length
  · rw [Connection.fillMissing, if_pos hmissing]
    exact ⟨_, fill_eq c bytesLeft h, .inl rfl⟩
  · have hlacks : c.lacks = 0 := by
      rw [Connection.lacks]
      omega
    rw [Connection.fillMissing, if_neg hmissing, hlacks]
    exact ⟨[], by simp, .inr ⟨rfl, rfl⟩⟩

/-! ## One iteration -/

/-- A buffer with bytes in it belongs to a message under way. -/
def Connection.Sane (c : Connection) : Prop := c.msgBuffer ≠ [] → c.UnderWay

lemma resetMsg_sane : resetMsg.Sane := fun h => absurd rfl h

lemma Connection.Sane.begin {c : Connection} (h : c.Sane) (event : Octets) :
    (c.beginMessage event).UnderWay := by
  rw [Connection.beginMessage]
  split
  · next hempty => exact ⟨rfl, by simp, by simp [hempty]; omega⟩
  · next hbuffer => exact h hbuffer

lemma beginMessage_msgBuffer (c : Connection) (event : Octets) :
    (c.beginMessage event).msgBuffer = c.msgBuffer := by
  rw [Connection.beginMessage]
  split <;> rfl

/-- What is left of a message whose handling raises is all of it or nothing. -/
def Protocol.Raises (p : Protocol) : Prop := ∀ c, p.onRaise c = c ∨ p.onRaise c = resetMsg

/-- The message with the bytes that were taken for it. -/
def Connection.filled (c : Connection) (bytesLeft : Octets) : Connection :=
  { c with msgBuffer := c.msgBuffer ++ bytesLeft.take c.lacks }

lemma Connection.UnderWay.filled {c : Connection} (h : c.UnderWay) (bytesLeft : Octets) :
    (c.filled bytesLeft).UnderWay := by
  refine ⟨h.offset, h.five_le, ?_⟩
  have hle := h.length_le
  have htake : (bytesLeft.take c.lacks).length ≤ c.lacks := List.length_take_le _ _
  have hlacks := lacks_eq hle
  simp only [Connection.filled, List.length_append]
  omega

lemma message_eq {c : Connection} (h : c.UnderWay) (hfull : c.msgLen = c.msgBuffer.length) :
    c.message = ⟨c.msgType, c.msgBuffer.drop 5⟩ := by
  have hfive : sliceIndex c.msgBuffer.length 5 = min 5 c.msgBuffer.length :=
    sliceIndex_natCast c.msgBuffer.length 5
  have hle := h.five_le
  rw [Connection.message, h.offset, hfull, hfive, sliceIndex_natCast, slice, min_self,
    min_eq_left (by omega)]
  congr 1
  exact List.take_of_length_le (by simp)

/-- What one iteration does. -/
lemma iteration_eq {p : Protocol} (hp : p.Fills) {event : Octets} {r : Receiver}
    (h : (r.connection.beginMessage event).UnderWay) :
    ∃ c rest, c = (r.connection.beginMessage event).filled r.bytesLeft ∧
      (rest = r.bytesLeft.drop (r.connection.beginMessage event).lacks ∨
        (r.connection.beginMessage event).lacks = 0 ∧ rest = []) ∧
      iteration p event r = if c.msgLen = c.msgBuffer.length then
          if p.handles r.handled c.message then (⟨resetMsg, rest, r.handled ++ [c.message]⟩, false)
          else (⟨p.onRaise c, rest, r.handled⟩, true)
        else (⟨c, rest, r.handled⟩, false) := by
  obtain ⟨rest, hfill, hrest⟩ := hp (r.connection.beginMessage event) r.bytesLeft h.length_le
  refine ⟨_, rest, rfl, hrest, ?_⟩
  have hpos : 0 < (r.connection.beginMessage event).msgLen := by
    have hfive := h.five_le
    omega
  rw [iteration, hfill]
  exact if_congr (and_iff_right hpos) rfl rfl

/-! ## Account of the bytes -/

/-- The bytes of the messages handled. -/
def weight (log : List Dispatch) : ℕ := (log.map (fun d => d.payload.length + 5)).sum

lemma weight_append (log log' : List Dispatch) : weight (log ++ log') = weight log + weight log' := by
  rw [weight, List.map_append, List.sum_append]
  rfl

/-- All bytes up to a position are in messages that were handled or in the buffer, and these messages
have the headers that were read where they begin. -/
structure Exact (headers : ℕ → ℕ × ℕ) (pos : ℕ) (c : Connection) (log : List Dispatch) : Prop where
  weight_eq : weight log + c.msgBuffer.length = pos
  seen : ∀ before d after, log = before ++ d :: after →
    d.type = ((headers (weight before)).1 : ℤ) ∧ d.payload.length = (headers (weight before)).2
  pending : c.msgBuffer ≠ [] →
    c.msgType = ((headers (weight log)).1 : ℤ) ∧ c.msgLen = (headers (weight log)).2 + 5

/-- Bytes are missing, or all are accounted for. -/
def Accounted (headers : ℕ → ℕ × ℕ) (pos : ℕ) (c : Connection) (log : List Dispatch) : Prop :=
  weight log + c.msgBuffer.length < pos ∨ Exact headers pos c log

variable {headers : ℕ → ℕ × ℕ} {pos : ℕ} {c : Connection} {log : List Dispatch}

/-- Bytes that are passed over are missing. -/
lemma Accounted.skip (h : Accounted headers pos c log) (n : ℕ) : Accounted headers (pos + n) c log := by
  rcases h with h | h
  · exact .inl (by omega)
  · rcases Nat.eq_zero_or_pos n with rfl | hn
    · exact .inr h
    · have hweight := h.weight_eq
      exact .inl (by omega)

/-- The account of a message that begins or goes on. -/
lemma Accounted.filled (h : Accounted headers pos c log) {event bytesLeft : Octets}
    (hheader : headers pos = header event) {taken : ℕ}
    (htaken : taken = (bytesLeft.take (c.beginMessage event).lacks).length) :
    Accounted headers (pos + taken) ((c.beginMessage event).filled bytesLeft) log := by
  have hlength : ((c.beginMessage event).filled bytesLeft).msgBuffer.length =
      c.msgBuffer.length + taken := by
    rw [htaken, Connection.filled, List.length_append, beginMessage_msgBuffer]
  rcases h with h | h
  · exact .inl (by omega)
  · refine .inr ⟨by rw [hlength, ← h.weight_eq, Nat.add_assoc], h.seen, fun _ => ?_⟩
    by_cases hempty : c.msgBuffer = []
    · have hpos : weight log = pos := by
        rw [← h.weight_eq, hempty]
        rfl
      rw [hpos, hheader]
      simp only [Connection.filled, Connection.beginMessage, if_pos hempty]
      exact ⟨rfl, rfl⟩
    · have hsame : c.beginMessage event = c := by
        rw [Connection.beginMessage, if_neg hempty]
      rw [hsame]
      exact h.pending hempty

/-- An entry of a log is its last one, or one before that. -/
lemma eq_or_of_append {α : Type} {log before after : List α} {x d : α}
    (h : log ++ [x] = before ++ d :: after) :
    (before = log ∧ d = x) ∨ ∃ after', log = before ++ d :: after' := by
  rcases List.eq_nil_or_concat after with rfl | ⟨after', y, rfl⟩
  · obtain ⟨rfl, hd⟩ := List.append_inj' h rfl
    exact .inl ⟨rfl, (List.singleton_inj.mp hd).symm⟩
  · rw [List.concat_eq_append, ← List.cons_append, ← List.append_assoc] at h
    exact .inr ⟨after', (List.append_inj' h rfl).1⟩

/-- A full buffer becomes a message. -/
lemma Accounted.handled (h : Accounted headers pos c log) (hway : c.UnderWay)
    (hfull : c.msgLen = c.msgBuffer.length) :
    Accounted headers pos resetMsg (log ++ [c.message]) := by
  have hfive := hway.five_le
  have hpayload : c.message.payload.length + 5 = c.msgBuffer.length := by
    rw [message_eq hway hfull, List.length_drop]
    omega
  have hweight : weight (log ++ [c.message]) = weight log + c.msgBuffer.length := by
    rw [weight_append, ← hpayload]
    simp [weight]
  rcases h with h | h
  · exact .inl (by rw [hweight]; exact h)
  · refine .inr ⟨by rw [hweight, ← h.weight_eq]; rfl, ?_, fun hbuffer => absurd rfl hbuffer⟩
    intro before d after hsplit
    rcases eq_or_of_append hsplit with ⟨rfl, rfl⟩ | ⟨after', hlog⟩
    · have hbuffer : c.msgBuffer ≠ [] := by
        intro hnil
        rw [hnil] at hpayload
        cases hpayload
      obtain ⟨htype, hlen⟩ := h.pending hbuffer
      rw [message_eq hway hfull]
      refine ⟨htype, ?_⟩
      rw [List.length_drop]
      omega
    · exact h.seen before d after' hlog

/-- Nothing of a message is left, or all of it. -/
lemma Accounted.raised {p : Protocol} (hp : p.Raises) (h : Accounted headers pos c log) :
    Accounted headers pos (p.onRaise c) log := by
  rcases hp c with hsame | hreset
  · rw [hsame]
    exact h
  · rw [hreset]
    by_cases hempty : c.msgBuffer = []
    · rcases h with h | h
      · exact .inl (by rw [hempty] at h; exact h)
      · exact .inr ⟨by rw [← h.weight_eq, hempty]; rfl, h.seen, fun hbuffer => absurd rfl hbuffer⟩
    · have hpos : 0 < c.msgBuffer.length := List.length_pos_iff.mpr hempty
      have hle : weight log + c.msgBuffer.length ≤ pos := by
        rcases h with h | h
        · exact h.le
        · exact h.weight_eq.le
      refine .inl ?_
      change weight log + 0 < pos
      omega

/-- The log of messages is one that the protocol handles in this order. -/
def HandledLog (p : Protocol) (log : List Dispatch) : Prop :=
  ∀ before d after, log = before ++ d :: after → p.handles before d = true

lemma HandledLog.append {p : Protocol} (h : HandledLog p log) {d : Dispatch}
    (hd : p.handles log d = true) : HandledLog p (log ++ [d]) := by
  intro before d' after hsplit
  rcases eq_or_of_append hsplit with ⟨rfl, rfl⟩ | ⟨after', hlog⟩
  · exact hd
  · exact h before d' after' hlog

/-- What holds of a receiver, however the bytes are cut. -/
structure Steady (p : Protocol) (headers : ℕ → ℕ × ℕ) (pos : ℕ) (c : Connection)
    (log : List Dispatch) : Prop where
  sane : c.Sane
  accounted : Accounted headers pos c log
  handledLog : HandledLog p log

/-- One iteration takes some bytes and keeps account of them. -/
lemma Steady.iteration {p : Protocol} (hfills : p.Fills) (hraises : p.Raises) {event : Octets}
    {r : Receiver} (h : Steady p headers pos r.connection r.handled)
    (hheader : headers pos = header event) :
    ∃ taken, taken + (iteration p event r).1.bytesLeft.length = r.bytesLeft.length ∧
      Steady p headers (pos + taken) (iteration p event r).1.connection
        (iteration p event r).1.handled := by
  obtain ⟨hsane, haccounted, hlog⟩ := h
  have hway := hsane.begin event
  obtain ⟨c, rest, rfl, hrest, hiteration⟩ := iteration_eq hfills hway
  set c := (r.connection.beginMessage event).filled r.bytesLeft with hc
  have hwayc : c.UnderWay := hway.filled r.bytesLeft
  -- the bytes that go to the buffer, and those that the server drops
  set taken := (r.bytesLeft.take (r.connection.beginMessage event).lacks).length with htaken
  have hfilled : Accounted headers (pos + taken) c r.handled := haccounted.filled hheader htaken
  have hle : taken + rest.length ≤ r.bytesLeft.length := by
    rw [htaken, List.length_take]
    rcases hrest with hrest | ⟨hlacks, hrest⟩
    · rw [hrest, List.length_drop]
      omega
    · rw [hrest]
      simp
  have hall : Accounted headers (pos + (r.bytesLeft.length - rest.length)) c r.handled := by
    have hskip := hfilled.skip (r.bytesLeft.length - rest.length - taken)
    have hsum : pos + taken + (r.bytesLeft.length - rest.length - taken) =
        pos + (r.bytesLeft.length - rest.length) := by omega
    rwa [hsum] at hskip
  refine ⟨r.bytesLeft.length - rest.length, ?_, ?_⟩
  · rw [hiteration]
    split
    · split <;> exact Nat.sub_add_cancel (by omega)
    · exact Nat.sub_add_cancel (by omega)
  · rw [hiteration]
    split
    · next hfull =>
      split
      · next hhandles =>
        exact ⟨resetMsg_sane, hall.handled hwayc hfull, hlog.append hhandles⟩
      · refine ⟨?_, hall.raised hraises, hlog⟩
        rcases hraises c with hsame | hreset
        · rw [hsame]
          exact fun _ => hwayc
        · rw [hreset]
          exact resetMsg_sane
    · exact ⟨fun _ => hwayc, hall, hlog⟩

/-- The loop keeps account of all bytes of the event. -/
lemma Steady.loop {p : Protocol} (hfills : p.Fills) (hraises : p.Raises) {event : Octets}
    (fuel : ℕ) : ∀ {pos : ℕ} {r r' : Receiver}, Steady p headers pos r.connection r.handled →
      (∀ q, pos ≤ q → q < pos + r.bytesLeft.length → headers q = header event) →
      loop p event fuel r = some r' →
      Steady p headers (pos + r.bytesLeft.length) r'.connection r'.handled := by
  induction fuel with
  | zero =>
    intro pos r r' h hheaders hloop
    rw [Transport.loop] at hloop
    split at hloop
    · next hempty =>
      cases hloop
      rw [hempty]
      exact h
    · cases hloop
  | succ fuel ih =>
    intro pos r r' h hheaders hloop
    rw [Transport.loop] at hloop
    split at hloop
    · next hempty =>
      cases hloop
      rw [hempty]
      exact h
    · next hleft =>
      have hpos : 0 < r.bytesLeft.length := List.length_pos_iff.mpr hleft
      obtain ⟨taken, hlength, hsteady⟩ :=
        h.iteration hfills hraises (hheaders pos le_rfl (by omega))
      have hstop : pos + taken + (Transport.iteration p event r).1.bytesLeft.length =
          pos + r.bytesLeft.length := by omega
      simp only at hloop
      split at hloop
      · cases hloop
        rw [← hstop]
        exact ⟨hsteady.sane, hsteady.accounted.skip _, hsteady.handledLog⟩
      · rw [← hstop]
        exact ih hsteady (fun q hle hlt => hheaders q (by omega) (by omega)) hloop

/-- The receiver keeps account of all bytes of the stream. -/
lemma Steady.events {p : Protocol} (hfills : p.Fills) (hraises : p.Raises) {events : List Octets} :
    ∀ {pos : ℕ} {c c' : Connection × List Dispatch}, Steady p headers pos c.1 c.2 →
      Describes headers pos events → events.foldlM (quicEventReceived p) c = some c' →
      Steady p headers (pos + events.flatten.length) c'.1 c'.2 := by
  induction events with
  | nil =>
    intro pos c c' h _ hrun
    cases hrun
    exact h
  | cons event events ih =>
    intro pos c c' h hdescribes hrun
    rw [List.foldlM_cons] at hrun
    obtain ⟨c₁, hevent, hrun⟩ := Option.bind_eq_some_iff.mp hrun
    obtain ⟨r, hloop, hr⟩ := Option.bind_eq_some_iff.mp hevent
    cases hr
    have hsteady := Steady.loop hfills hraises event.length
      (show Steady p headers pos (⟨c.1, event, c.2⟩ : Receiver).connection _ from h)
      hdescribes.1 hloop
    rw [List.flatten_cons, List.length_append, ← Nat.add_assoc]
    exact ih hsteady hdescribes.2 hrun

/-! ## Keeping step -/

lemma Message.length_encode (m : Message) : m.encode.length = m.payload.length + 5 := by
  simp only [Message.encode, List.length_cons, List.length_append, length_littleEndian]
  omega

/-- The connection while a message comes in. -/
def Message.connection (m : Message) (msgBuffer : Octets) : Connection :=
  ⟨msgBuffer, m.encode.length, m.type.toNat, 5⟩

lemma Message.connection_underWay (m : Message) {msgBuffer : Octets}
    (h : msgBuffer.length ≤ m.encode.length) : (m.connection msgBuffer).UnderWay := by
  have hlength := m.length_encode
  refine ⟨rfl, ?_, ?_⟩
  · change (5 : ℤ) ≤ m.encode.length
    omega
  · change (msgBuffer.length : ℤ) ≤ m.encode.length
    exact_mod_cast h

lemma Message.message_connection (m : Message) :
    (m.connection m.encode).message = m.dispatch := by
  rw [message_eq (m.connection_underWay le_rfl) rfl]
  rfl

/-- The receiver is in step with the stream: some messages are handled, and the buffer has the first
bytes of the next one. -/
structure Synced (messages : List Message) (pos : ℕ) (c : Connection) (log : List Dispatch)
    (before rest : List Message) : Prop where
  split : messages = before ++ rest
  log_eq : log = before.map Message.dispatch
  pos_eq : pos = (before.flatMap Message.encode).length + c.msgBuffer.length
  buffer : c.msgBuffer = [] ∨ ∃ m after, rest = m :: after ∧ c = m.connection c.msgBuffer ∧
    c.msgBuffer.length < m.encode.length ∧
    c.msgBuffer = m.encode.take c.msgBuffer.length

variable {messages : List Message} {before rest : List Message}

/-- What is still to come of the stream. -/
lemma Synced.drop_eq (h : Synced messages pos c log before rest) :
    (messages.flatMap Message.encode).drop pos =
      (rest.flatMap Message.encode).drop c.msgBuffer.length := by
  rw [h.split, h.pos_eq, List.flatMap_append, List.drop_append, List.drop_eq_nil_of_le (by omega),
    List.nil_append, Nat.add_sub_cancel_left]

/-- The message that comes in, at its beginning or later. -/
lemma Synced.begin (h : Synced messages pos c log before rest) {event : Octets}
    (hseen : ∀ before m after, messages = before ++ m :: after →
      headers (before.flatMap Message.encode).length = (m.type.toNat, m.payload.length))
    (hheader : headers pos = header event)
    (hmore : pos < (messages.flatMap Message.encode).length) :
    ∃ m after, rest = m :: after ∧ c.beginMessage event = m.connection c.msgBuffer ∧
      c.msgBuffer.length < m.encode.length ∧ c.msgBuffer = m.encode.take c.msgBuffer.length := by
  by_cases hempty : c.msgBuffer = []
  · cases rest with
    | nil =>
      rw [h.split, List.append_nil] at hmore
      have hpos := h.pos_eq
      omega
    | cons m after =>
      have hpos : pos = (before.flatMap Message.encode).length := by
        rw [h.pos_eq, hempty]
        rfl
      have hread := hseen before m after h.split
      rw [← hpos, hheader] at hread
      obtain ⟨htype, hlength⟩ := Prod.ext_iff.mp hread
      have hencode := m.length_encode
      refine ⟨m, after, rfl, ?_, by rw [hempty, hencode]; exact Nat.succ_pos _, by simp [hempty]⟩
      rw [Connection.beginMessage, if_pos hempty, Message.connection, hencode]
      simp only [header] at htype hlength
      rw [htype, hlength]
      rfl
  · rcases h.buffer with hnil | ⟨m, after, hrest, hc, hlt, htake⟩
    · exact absurd hnil hempty
    · refine ⟨m, after, hrest, ?_, hlt, htake⟩
      rw [Connection.beginMessage, if_neg hempty]
      exact hc

/-- The bytes to come are the rest of the message under way and then the others. -/
lemma Synced.next_eq {m : Message} {after : List Message}
    (h : Synced messages pos c log before (m :: after))
    (hlt : c.msgBuffer.length < m.encode.length) {left future : Octets}
    (hstream : (messages.flatMap Message.encode).drop pos = left ++ future) :
    left ++ future = m.encode.drop c.msgBuffer.length ++ after.flatMap Message.encode := by
  rw [← hstream, h.drop_eq, List.flatMap_cons, List.drop_append_of_le_length hlt.le]

/-- Bytes too few for the message leave it under way. -/
lemma Synced.goOn {m : Message} {after : List Message}
    (h : Synced messages pos c log before (m :: after))
    (htake : c.msgBuffer = m.encode.take c.msgBuffer.length) {left future : Octets}
    (hnext : left ++ future = m.encode.drop c.msgBuffer.length ++ after.flatMap Message.encode)
    (hshort : left.length < m.encode.length - c.msgBuffer.length) :
    Synced messages (pos + left.length) (m.connection (c.msgBuffer ++ left)) log before
      (m :: after) := by
  have hlen : (c.msgBuffer ++ left).length = c.msgBuffer.length + left.length := List.length_append
  have hpos := h.pos_eq
  refine ⟨h.split, h.log_eq, ?_, .inr ⟨m, after, rfl, rfl, ?_, ?_⟩⟩
  · change pos + _ = _ + (c.msgBuffer ++ left).length
    omega
  · change (c.msgBuffer ++ left).length < _
    omega
  · change c.msgBuffer ++ left = m.encode.take (c.msgBuffer ++ left).length
    have hhead : left = (m.encode.drop c.msgBuffer.length).take left.length := by
      have hcut := congrArg (List.take left.length) hnext
      rwa [List.take_left, List.take_append_of_le_length (by rw [List.length_drop]; omega)] at hcut
    rw [hlen, List.take_add, ← htake, ← hhead]

/-- Bytes enough for the message complete it. -/
lemma append_take_eq_encode {m : Message} {buffer left future others : Octets}
    (htake : buffer = m.encode.take buffer.length)
    (hnext : left ++ future = m.encode.drop buffer.length ++ others)
    (henough : m.encode.length - buffer.length ≤ left.length) :
    buffer ++ left.take (m.encode.length - buffer.length) = m.encode := by
  have hcut := congrArg (List.take (m.encode.length - buffer.length)) hnext
  rw [List.take_append_of_le_length henough, List.take_left' (by rw [List.length_drop])] at hcut
  have happend := List.take_append_drop buffer.length m.encode
  rw [← htake] at happend
  rw [hcut, happend]

/-- A complete message is handed over, and the next one has not begun. -/
lemma Synced.complete {m : Message} {after : List Message}
    (h : Synced messages pos c log before (m :: after))
    (hlt : c.msgBuffer.length < m.encode.length) :
    Synced messages (pos + (m.encode.length - c.msgBuffer.length)) resetMsg (log ++ [m.dispatch])
      (before ++ [m]) after := by
  have hpos := h.pos_eq
  refine ⟨?_, ?_, ?_, .inl rfl⟩
  · rw [h.split, List.append_assoc]
    rfl
  · rw [h.log_eq, List.map_append]
    rfl
  · rw [List.flatMap_append, List.length_append, List.flatMap_singleton]
    change _ = _ + 0
    omega

/-- One iteration keeps in step, takes a byte at least, and does not raise. -/
lemma Synced.iteration {p : Protocol} (hfills : p.Fills) {event : Octets} {r : Receiver}
    (h : Synced messages pos r.connection r.handled before rest)
    (hseen : ∀ before m after, messages = before ++ m :: after →
      headers (before.flatMap Message.encode).length = (m.type.toNat, m.payload.length))
    (hhandled : AllHandled p messages) (hheader : headers pos = header event)
    (hleft : r.bytesLeft ≠ []) {future : Octets}
    (hstream : (messages.flatMap Message.encode).drop pos = r.bytesLeft ++ future) :
    (Transport.iteration p event r).2 = false ∧ ∃ taken before' rest', 0 < taken ∧
      (Transport.iteration p event r).1.bytesLeft = r.bytesLeft.drop taken ∧
      taken ≤ r.bytesLeft.length ∧
      Synced messages (pos + taken) (Transport.iteration p event r).1.connection
        (Transport.iteration p event r).1.handled before' rest' := by
  have hmore : pos < (messages.flatMap Message.encode).length := by
    by_contra hle
    rw [List.drop_eq_nil_of_le (not_lt.mp hle)] at hstream
    exact hleft (List.append_eq_nil_iff.mp hstream.symm).1
  obtain ⟨m, after, rfl, hbegin, hlt, htake⟩ := h.begin hseen hheader hmore
  have hway := m.connection_underWay hlt.le
  obtain ⟨c, left, rfl, hrest, hiteration⟩ := iteration_eq hfills (by rw [hbegin]; exact hway)
  rw [hbegin] at hrest hiteration
  have hnext := h.next_eq hlt hstream
  have hgoOn := h.goOn htake hnext
  have hcomplete := h.complete hlt
  set buffer := r.connection.msgBuffer with hbuffer
  have hlacks : (m.connection buffer).lacks = m.encode.length - buffer.length := by
    have heq := lacks_eq hway.length_le
    change ((m.connection buffer).lacks : ℤ) = m.encode.length - buffer.length at heq
    omega
  have hdrop : left = r.bytesLeft.drop (m.encode.length - buffer.length) := by
    rcases hrest with hrest | ⟨hzero, -⟩
    · rw [hrest, hlacks]
    · omega
  have hfilled : (m.connection buffer).filled r.bytesLeft =
      m.connection (buffer ++ r.bytesLeft.take (m.encode.length - buffer.length)) := by
    rw [Connection.filled, hlacks]
    rfl
  rw [hfilled] at hiteration
  have hpos : 0 < r.bytesLeft.length := List.length_pos_iff.mpr hleft
  by_cases hshort : r.bytesLeft.length < m.encode.length - buffer.length
  · -- the message goes on in the next event
    have hnotfull : ¬ (m.connection (buffer ++ r.bytesLeft)).msgLen =
        ((m.connection (buffer ++ r.bytesLeft)).msgBuffer.length : ℤ) := by
      change ¬ (m.encode.length : ℤ) = ((buffer ++ r.bytesLeft).length : ℤ)
      rw [List.length_append]
      omega
    rw [List.take_of_length_le hshort.le, if_neg hnotfull] at hiteration
    rw [hiteration]
    refine ⟨rfl, r.bytesLeft.length, before, m :: after, hpos, ?_, le_rfl, hgoOn hshort⟩
    rw [hdrop, List.drop_eq_nil_of_le hshort.le, List.drop_length]
  · -- the message is complete
    have hfull : (m.connection m.encode).msgLen =
        ((m.connection m.encode).msgBuffer.length : ℤ) := rfl
    have hhandles : p.handles r.handled m.dispatch = true := by
      rw [h.log_eq]
      exact hhandled before m after h.split
    rw [append_take_eq_encode htake hnext (not_lt.mp hshort), if_pos hfull, m.message_connection,
      if_pos hhandles] at hiteration
    rw [hiteration]
    exact ⟨rfl, m.encode.length - buffer.length, before ++ [m], after, Nat.sub_pos_of_lt hlt, hdrop,
      not_lt.mp hshort, hcomplete⟩

/-- The loop takes all bytes of the event. -/
lemma Synced.loop {p : Protocol} (hfills : p.Fills) {event : Octets}
    (hseen : ∀ before m after, messages = before ++ m :: after →
      headers (before.flatMap Message.encode).length = (m.type.toNat, m.payload.length))
    (hhandled : AllHandled p messages) {future : Octets} (fuel : ℕ) :
    ∀ {pos : ℕ} {r : Receiver} {before rest : List Message},
      Synced messages pos r.connection r.handled before rest →
      r.bytesLeft.length ≤ fuel →
      (∀ q, pos ≤ q → q < pos + r.bytesLeft.length → headers q = header event) →
      (messages.flatMap Message.encode).drop pos = r.bytesLeft ++ future →
      ∃ r' before' rest', Transport.loop p event fuel r = some r' ∧
        Synced messages (pos + r.bytesLeft.length) r'.connection r'.handled before' rest' := by
  induction fuel with
  | zero =>
    intro pos r before rest h hfuel _ _
    have hempty : r.bytesLeft = [] := List.eq_nil_of_length_eq_zero (by omega)
    refine ⟨r, before, rest, by rw [Transport.loop, if_pos hempty], ?_⟩
    rw [hempty]
    exact h
  | succ fuel ih =>
    intro pos r before rest h hfuel hheaders hstream
    by_cases hleft : r.bytesLeft = []
    · refine ⟨r, before, rest, by rw [Transport.loop, if_pos hleft], ?_⟩
      rw [hleft]
      exact h
    · have hpos : 0 < r.bytesLeft.length := List.length_pos_iff.mpr hleft
      obtain ⟨hraised, taken, before', rest', htaken, hrest, hle, hsynced⟩ :=
        h.iteration hfills hseen hhandled (hheaders pos le_rfl (by omega)) hleft hstream
      have hlength : (Transport.iteration p event r).1.bytesLeft.length =
          r.bytesLeft.length - taken := by
        rw [hrest, List.length_drop]
      have hstream' : (messages.flatMap Message.encode).drop (pos + taken) =
          (Transport.iteration p event r).1.bytesLeft ++ future := by
        rw [← List.drop_drop, hstream, List.drop_append_of_le_length hle, hrest]
      obtain ⟨r', before'', rest'', hloop, hsynced'⟩ := ih hsynced (by omega)
        (fun q hq hlt => hheaders q (by omega) (by omega)) hstream'
      refine ⟨r', before'', rest'', ?_, ?_⟩
      · rw [Transport.loop, if_neg hleft]
        simp only [hraised]
        exact hloop
      · have hsum : pos + taken + (Transport.iteration p event r).1.bytesLeft.length =
            pos + r.bytesLeft.length := by omega
        rwa [hsum] at hsynced'

/-- The receiver keeps step with the stream. -/
lemma Synced.events {p : Protocol} (hfills : p.Fills)
    (hseen : ∀ before m after, messages = before ++ m :: after →
      headers (before.flatMap Message.encode).length = (m.type.toNat, m.payload.length))
    (hhandled : AllHandled p messages) {future : Octets} {events : List Octets} :
    ∀ {pos : ℕ} {c : Connection × List Dispatch} {before rest : List Message},
      Synced messages pos c.1 c.2 before rest → Describes headers pos events →
      (messages.flatMap Message.encode).drop pos = events.flatten ++ future →
      ∃ c' before' rest', events.foldlM (quicEventReceived p) c = some c' ∧
        Synced messages (pos + events.flatten.length) c'.1 c'.2 before' rest' := by
  induction events with
  | nil => exact fun {pos c before rest} h _ _ => ⟨c, before, rest, rfl, h⟩
  | cons event events ih =>
    intro pos c before rest h hdescribes hstream
    rw [List.flatten_cons, List.append_assoc] at hstream
    obtain ⟨r, before', rest', hloop, hsynced⟩ := Synced.loop hfills hseen hhandled event.length
      (show Synced messages pos (⟨c.1, event, c.2⟩ : Receiver).connection _ before rest from h)
      le_rfl hdescribes.1 hstream
    have hstream' : (messages.flatMap Message.encode).drop (pos + event.length) =
        events.flatten ++ future := by
      rw [← List.drop_drop, hstream, List.drop_left]
    obtain ⟨c', before'', rest'', hrun, hsynced'⟩ :=
      ih (c := (r.connection, r.handled)) hsynced hdescribes.2 hstream'
    refine ⟨c', before'', rest'', ?_, ?_⟩
    · rw [List.foldlM_cons, quicEventReceived, hloop]
      exact hrun
    · rwa [List.flatten_cons, List.length_append, ← Nat.add_assoc]

/-! ## When the messages come through -/

lemma weight_dispatch (messages : List Message) :
    weight (messages.map Message.dispatch) = (messages.flatMap Message.encode).length := by
  induction messages with
  | nil => rfl
  | cons m messages ih =>
    rw [List.map_cons, weight, List.map_cons, List.sum_cons, List.flatMap_cons, List.length_append,
      m.length_encode, ← ih]
    rfl

/-- When the whole stream has arrived, all messages are handled and the buffer is empty. -/
lemma Frames.all {p : Protocol} {events : List Octets} (h : Frames p messages events)
    (hstream : events.flatten = messages.flatMap Message.encode) :
    ∃ c, receive p events = some (c, messages.map Message.dispatch) ∧ c.msgBuffer = [] := by
  obtain ⟨c, n, hn, hrun, hbytes, hincomplete⟩ := h events.length le_rfl
  rw [List.take_length] at hrun hbytes
  have hall : n = messages.length := by
    by_contra hne
    have hlt : n < messages.length := by omega
    have hsplit : messages = messages.take n ++ messages[n] :: messages.drop (n + 1) := by
      rw [← List.drop_eq_getElem_cons hlt, List.take_append_drop]
    have hlength := congrArg List.length (hstream.symm.trans hbytes)
    have hlt' := hincomplete messages[n] (List.getElem?_eq_getElem hlt)
    conv_lhs at hlength => rw [hsplit]
    rw [List.flatMap_append, List.flatMap_cons] at hlength
    simp only [List.length_append] at hlength
    omega
  rw [hall, List.take_length] at hrun hbytes
  refine ⟨c, hrun, ?_⟩
  rw [hstream] at hbytes
  exact List.append_cancel_left (hbytes.symm.trans (List.append_nil _).symm)

/-- Messages that come through are handled, and their headers are read where they begin. -/
lemma Frames.seen_handled {p : Protocol} (hfills : p.Fills) (hraises : p.Raises)
    {events : List Octets} (hstream : events.flatten = messages.flatMap Message.encode)
    (h : Frames p messages events) : HeadersSeen messages events ∧ AllHandled p messages := by
  have hdescribes : Describes (headerAt events) 0 events :=
    describes_of_headerAt events 0 (fun q => by rw [Nat.zero_add])
  obtain ⟨c, hrun, hempty⟩ := h.all hstream
  have hstart : Steady p (headerAt events) 0 resetMsg [] :=
    ⟨resetMsg_sane, .inr ⟨rfl, by simp, fun hbuffer => absurd rfl hbuffer⟩, by simp [HandledLog]⟩
  have hend := Steady.events hfills hraises (c := (resetMsg, [])) hstart hdescribes hrun
  rw [Nat.zero_add, hstream, ← weight_dispatch] at hend
  have hsplit : ∀ before m after, messages = before ++ m :: after →
      messages.map Message.dispatch =
        before.map Message.dispatch ++ m.dispatch :: after.map Message.dispatch := by
    rintro before m after rfl
    rw [List.map_append, List.map_cons]
  refine ⟨?_, fun before m after hm => hend.handledLog _ _ _ (hsplit before m after hm)⟩
  intro before m after hm
  rcases hend.accounted with hlost | hexact
  · change weight (messages.map Message.dispatch) + c.msgBuffer.length < _ at hlost
    omega
  · obtain ⟨htype, hlength⟩ := hexact.seen _ _ _ (hsplit before m after hm)
    rw [weight_dispatch] at htype hlength
    refine Prod.ext ?_ hlength.symm
    exact Int.ofNat_inj.mp htype.symm

/-- The bytes that a receiver in step has taken are the messages handled and the buffer. -/
lemma Synced.take_eq (h : Synced messages pos c log before rest) :
    (messages.flatMap Message.encode).take pos =
      before.flatMap Message.encode ++ c.msgBuffer := by
  rw [h.pos_eq, h.split, List.flatMap_append, List.take_add, List.take_left, List.drop_left]
  congr 1
  rcases h.buffer with hnil | ⟨m, after, hrest, -, hlt, hbuffer⟩
  · rw [hnil]
    rfl
  · rw [hrest, List.flatMap_cons, List.take_append_of_le_length hlt.le, ← hbuffer]

/-- The next message is not complete. -/
lemma Synced.length_lt (h : Synced messages pos c log before rest) {m : Message}
    (hm : messages[before.length]? = some m) : c.msgBuffer.length < m.encode.length := by
  rw [h.split, List.getElem?_append_right le_rfl, Nat.sub_self] at hm
  rcases h.buffer with hnil | ⟨m', after, hrest, -, hlt, -⟩
  · rw [hnil, m.length_encode]
    exact Nat.succ_pos _
  · rw [hrest] at hm
    obtain rfl : m' = m := Option.some.inj hm
    exact hlt

/-- Messages that are handled, and whose headers are read where they begin, come through. -/
lemma frames_of_seen {p : Protocol} (hfills : p.Fills) {events : List Octets}
    (hstream : events.flatten = messages.flatMap Message.encode)
    (hseen : HeadersSeen messages events) (hhandled : AllHandled p messages) :
    Frames p messages events := by
  intro k _
  have hdescribes : Describes (headerAt events) 0 events :=
    describes_of_headerAt events 0 (fun q => by rw [Nat.zero_add])
  have hstart : Synced messages 0 resetMsg [] [] messages := ⟨rfl, rfl, rfl, .inl rfl⟩
  have hstream' : messages.flatMap Message.encode =
      (events.take k).flatten ++ (events.drop k).flatten := by
    rw [← hstream, ← List.flatten_append, List.take_append_drop]
  obtain ⟨st, before, rest, hrun, hsynced⟩ := Synced.events hfills hseen hhandled
    (c := (resetMsg, [])) hstart (hdescribes.take k) hstream'
  have htake : messages.take before.length = before := by
    rw [hsynced.split, List.take_left]
  refine ⟨st.1, before.length, by rw [hsynced.split, List.length_append]; omega, ?_, ?_, ?_⟩
  · rw [htake, ← hsynced.log_eq]
    exact hrun
  · rw [htake, ← hsynced.take_eq, hstream', Nat.zero_add, List.take_left]
  · intro m hm
    exact hsynced.length_lt hm

/-- The messages of a stream come through exactly if each is handled and has its header at the start
of the event in which it begins. -/
lemma frames_iff_of_fills {p : Protocol} (hfills : p.Fills) (hraises : p.Raises)
    {events : List Octets} (hstream : events.flatten = messages.flatMap Message.encode) :
    Frames p messages events ↔ HeadersSeen messages events ∧ AllHandled p messages :=
  ⟨Frames.seen_handled hfills hraises hstream,
    fun h => frames_of_seen hfills hstream h.1 h.2⟩

/-- However the bytes of a sequence of messages are cut into events, the server and the client hand
on exactly these messages, and keep the bytes of an unfinished one, if and only if each is handled and
the event in which it begins starts with its type and, in the four bytes after that or as many as there
are, with its length. -/
theorem frames_iff (messages : List Message) (events : List Octets)
    (hstream : events.flatten = messages.flatMap Message.encode) :
    (∀ serves, Frames (serverProtocol serves) messages events ↔
      HeadersSeen messages events ∧ AllHandled (serverProtocol serves) messages) ∧
    ∀ accepts, Frames (clientProtocol accepts) messages events ↔
      HeadersSeen messages events ∧ AllHandled (clientProtocol accepts) messages :=
  ⟨fun serves => frames_iff_of_fills (serverProtocol_fills serves) (fun _ => .inl rfl) hstream,
    fun accepts => frames_iff_of_fills (clientProtocol_fills accepts) (fun _ => .inr rfl) hstream⟩

/-- Two announcements, of one byte and of two. -/
def sampleAnnouncements : List Message := [⟨0, [7], by decide⟩, ⟨0, [8, 9], by decide⟩]

/-- Two messages for the server, one empty and one with a byte. -/
def sampleOpenings : List Message := [⟨66, [], by decide⟩, ⟨66, [1], by decide⟩]

/-- The announcements come through when each comes in two events, of its header and its payload. -/
theorem sampleAnnouncements_come_through :
    Frames (clientProtocol fun _ _ => true) sampleAnnouncements
      [[0, 1, 0, 0, 0], [7], [0, 2, 0, 0, 0, 8], [9]] := by
  refine ((frames_iff sampleAnnouncements [[0, 1, 0, 0, 0], [7], [0, 2, 0, 0, 0, 8], [9]]
    rfl).2 fun _ _ => true).mpr ⟨?_, ?_⟩
  · intro before m after hsplit
    rcases before with _ | ⟨m₁, _ | ⟨m₂, before⟩⟩
    · obtain ⟨rfl, -⟩ := List.cons.inj hsplit
      rfl
    · obtain ⟨rfl, hrest⟩ := List.cons.inj hsplit
      obtain ⟨rfl, -⟩ := List.cons.inj hrest
      rfl
    · obtain ⟨-, hrest⟩ := List.cons.inj hsplit
      obtain ⟨-, hnil⟩ := List.cons.inj hrest
      simp at hnil
  · intro before m after hsplit
    have hm : m ∈ sampleAnnouncements := by
      rw [hsplit]
      simp
    have htype : ∀ m ∈ sampleAnnouncements, m.type = 0 := by
      simp [sampleAnnouncements]
    simp [clientProtocol, Message.dispatch, htype m hm, up0BlockAnnouncement]

/-- In one event they do not: the header of the first message is read for the second one as well. -/
theorem messages_lost_in_one_event :
    ¬ Frames (clientProtocol fun _ _ => true) sampleAnnouncements
        [[0, 1, 0, 0, 0, 7, 0, 2, 0, 0, 0, 8, 9]] ∧
      ¬ Frames (serverProtocol fun _ _ => true) sampleOpenings
        [[66, 0, 0, 0, 0, 66, 1, 0, 0, 0, 1]] := by
  constructor
  · intro h
    obtain ⟨c, hrun, -⟩ := h.all rfl
    have hreceived : receive (clientProtocol fun _ _ => true)
        [[0, 1, 0, 0, 0, 7, 0, 2, 0, 0, 0, 8, 9]] =
          some (⟨[9], 6, 0, 5⟩, [⟨0, [7]⟩, ⟨0, [8]⟩]) := by decide
    rw [hreceived] at hrun
    cases hrun
  · intro h
    obtain ⟨c, hrun, -⟩ := h.all rfl
    have hreceived : receive (serverProtocol fun _ _ => true)
        [[66, 0, 0, 0, 0, 66, 1, 0, 0, 0, 1]] =
          some (⟨[1], 5, 66, 5⟩, [⟨66, []⟩, ⟨66, []⟩]) := by decide
    rw [hreceived] at hrun
    cases hrun

end Transport
