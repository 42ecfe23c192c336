import Myrun.Error

namespace Myrun

/-!
# The synchronisation channel, byte by byte

`src/runtime/ipc.rs` frames messages as `[tag][length, 4 bytes LE][payload]`
over a stream socket.  The kernel decides how many bytes each `write` takes and
each `read` returns, and a signal may interrupt either call; these choices are
explicit arguments here.  A writer's calls are answered by a list of
`Acceptance`s, a reader's by a list of `Arrival`s, at the end of which the peer
has closed its end.

The codec theorem at the end says that every choice of pieces gives the reader
the messages that were sent, and that a stream cut short gives it the messages
that arrived whole and nothing else.
-/

namespace Channel

/-- init → parent: namespaces are set up, waiting for the go signal. -/
def tagReady : UInt8 := 'R'.toUInt8

/-- init → parent: container is configured, about to exec. -/
def tagStarted : UInt8 := 'S'.toUInt8

/-- init → parent: setup failed; the payload is the message. -/
def tagError : UInt8 := 'E'.toUInt8

/-- init → parent: the workload exited; the payload is code and signal. -/
def tagExit : UInt8 := 'X'.toUInt8

/-- `MAX_PAYLOAD`. -/
def maxPayload : Nat := 64 * 1024

/-- A frame as the two ends see it. -/
structure Message where
  tag : UInt8
  payload : List UInt8
  deriving Repr, DecidableEq

/-- `EINTR`. -/
def eintr : Int32 := 4

/-! ## Little-endian words -/

/-- `u32::to_le_bytes`. -/
def toLeBytes (n : Nat) : List UInt8 :=
  [.ofNat n, .ofNat (n / 256), .ofNat (n / 65536), .ofNat (n / 16777216)]

/-- `u32::from_le_bytes`. -/
def fromLeBytes (b₀ b₁ b₂ b₃ : UInt8) : Nat :=
  b₀.toNat + 256 * b₁.toNat + 65536 * b₂.toNat + 16777216 * b₃.toNat

private theorem fromLeBytes_toLeBytes
    {n : Nat}
    (fits : n < 2 ^ 32) :
    fromLeBytes (.ofNat n) (.ofNat (n / 256)) (.ofNat (n / 65536))
      (.ofNat (n / 16777216)) = n := by
  simp only [fromLeBytes, UInt8.toNat_ofNat']
  omega

/-! ## Sending -/

/-- What one call of `write` does: it fails, or takes some bytes. -/
inductive Acceptance where
  | failed (errno : Int32)
  | took (count : Nat)
  deriving Repr, DecidableEq

/-- The outcome of sending, the bytes that reached the stream, and the answers
the kernel has still to give. -/
structure Sent where
  result : Result Unit
  wire : List UInt8
  answers : List Acceptance

/-- `Channel::write_all`.  A kernel with no more answers takes what is left. -/
def writeAll (buf : List UInt8) : List Acceptance → Sent
  | [] => ⟨.ok (), buf, []⟩
  | answer :: answers =>
      if buf.isEmpty then ⟨.ok (), [], answer :: answers⟩
      else
        match answer with
        | .failed errno =>
            if errno = eintr then writeAll buf answers
            else ⟨.error (.syscall "write" errno "sync channel"), [], answers⟩
        | .took 0 =>
            ⟨.error (.io "sync channel closed while writing"), [], answers⟩
        | .took count =>
            let more := writeAll (buf.drop count) answers
            { more with wire := buf.take count ++ more.wire }

/-- The bytes of a frame; the length is narrowed to 32 bits. -/
def frame (m : Message) : List UInt8 :=
  m.tag :: (toLeBytes (m.payload.length % 2 ^ 32) ++ m.payload)

/-- `Channel::send`. -/
def send (m : Message) (answers : List Acceptance) : Sent :=
  if m.payload.length % 2 ^ 32 > maxPayload then
    ⟨.error (.io "sync message too large"), [], answers⟩
  else writeAll (frame m) answers

/-- `send` for one message after another, up to the first failure. -/
def sendAll : List Message → List Acceptance → Sent
  | [], answers => ⟨.ok (), [], answers⟩
  | m :: rest, answers =>
      let first := send m answers
      match first.result with
      | .error e => ⟨.error e, first.wire, first.answers⟩
      | .ok () =>
          let others := sendAll rest first.answers
          { others with wire := first.wire ++ others.wire }

/-- `send_exit`: the frame of an exit status. -/
def exitMessage (code signal : Int32) : Message where
  tag := tagExit
  payload := toLeBytes code.toUInt32.toNat ++ toLeBytes signal.toUInt32.toNat

/-- `i32::from_le_bytes`. -/
def int32OfLeBytes (b₀ b₁ b₂ b₃ : UInt8) : Int32 :=
  (UInt32.ofNat (fromLeBytes b₀ b₁ b₂ b₃)).toInt32

/-- `Channel::parse_exit`. -/
def parseExit : List UInt8 → Option (Int32 × Int32)
  | b₀ :: b₁ :: b₂ :: b₃ :: c₀ :: c₁ :: c₂ :: c₃ :: _ =>
      some (int32OfLeBytes b₀ b₁ b₂ b₃, int32OfLeBytes c₀ c₁ c₂ c₃)
  | _ => none

/-- The exit status init reports is the one the parent decodes. -/
theorem parseExit_exitMessage
    (code signal : Int32) :
    parseExit (exitMessage code signal).payload = some (code, signal) := by
  have reads : ∀ n : Int32,
      int32OfLeBytes (.ofNat n.toUInt32.toNat)
        (.ofNat (n.toUInt32.toNat / 256)) (.ofNat (n.toUInt32.toNat / 65536))
        (.ofNat (n.toUInt32.toNat / 16777216)) = n := by
    intro n
    rw [int32OfLeBytes, fromLeBytes_toLeBytes n.toUInt32.toNat_lt]
    simp
  simp only [exitMessage, toLeBytes, parseExit, List.cons_append,
    List.nil_append, reads]

/-! ## Receiving -/

/-- What the next calls of `read` meet: a failure, or a piece of the stream. -/
inductive Arrival where
  | failed (errno : Int32)
  | piece (bytes : List UInt8)
  deriving Repr, DecidableEq

/-- A `read` of `Channel::read_exact` that returns 0, with the bytes read so
far: the peer has closed its end. -/
def readEnd (n : Nat) (got : List UInt8) : Result (Option (List UInt8)) :=
  if got.isEmpty then .ok none
  else .error (.io ("sync channel truncated: wanted " ++ toString n ++
    " bytes, got " ++ toString got.length))

/-- The loop of `Channel::read_exact`, with the bytes read so far.  A `read`
returns at most the bytes still wanted; the rest of a longer piece stays in the
socket. -/
def readLoop (n : Nat) (got : List UInt8) :
    List Arrival → Result (Option (List UInt8)) × List Arrival
  | [] =>
      if n ≤ got.length then (.ok (some got), [])
      else (readEnd n got, [])
  | arrival :: rest =>
      if n ≤ got.length then (.ok (some got), arrival :: rest)
      else
        match arrival with
        | .failed errno =>
            if errno = eintr then readLoop n got rest
            else (.error (.syscall "read" errno "sync channel"), rest)
        | .piece bytes =>
            if bytes.isEmpty then (readEnd n got, rest)
            else if bytes.length ≤ n - got.length then
              readLoop n (got ++ bytes) rest
            else
              (.ok (some (got ++ bytes.take (n - got.length))),
                .piece (bytes.drop (n - got.length)) :: rest)

/-- `Channel::read_exact`. -/
def readExact (n : Nat) (arrivals : List Arrival) :
    Result (Option (List UInt8)) × List Arrival :=
  readLoop n [] arrivals

/-- The payload of a frame whose header was read. -/
def recvPayload (tag : UInt8) (len : Nat) (arrivals : List Arrival) :
    Result (Option Message) × List Arrival :=
  if len > maxPayload then
    (.error (.parse ("sync frame claims " ++ toString len ++
      " bytes, which is beyond the " ++ toString maxPayload ++ " byte limit")),
      arrivals)
  else if len = 0 then (.ok (some ⟨tag, []⟩), arrivals)
  else
    match readExact len arrivals with
    | (.ok (some payload), rest) => (.ok (some ⟨tag, payload⟩), rest)
    | (.ok none, rest) => (.error (.io "sync channel closed mid-frame"), rest)
    | (.error e, rest) => (.error e, rest)

/-- `Channel::recv`. -/
def recv (arrivals : List Arrival) : Result (Option Message) × List Arrival :=
  match readExact 5 arrivals with
  | (.ok (some head), rest) =>
      recvPayload (head.getD 0 0)
        (fromLeBytes (head.getD 1 0) (head.getD 2 0) (head.getD 3 0)
          (head.getD 4 0)) rest
  | (.ok none, rest) => (.ok none, rest)
  | (.error e, rest) => (.error e, rest)

/-- The results of the given number of `recv` calls. -/
def recvTimes : Nat → List Arrival → List (Result (Option Message))
  | 0, _ => []
  | calls + 1, arrivals =>
      (recv arrivals).1 :: recvTimes calls (recv arrivals).2

/-! ## Pieces of a stream -/

/-- The arrivals are the given bytes cut into non-empty pieces, with the calls
interrupted here and there, and then the end of the stream. -/
inductive Cut : List Arrival → List UInt8 → Prop where
  | closed : Cut [] []
  | interrupted
      {rest : List Arrival}
      {bytes : List UInt8}
      (later : Cut rest bytes) :
      Cut (.failed eintr :: rest) bytes
  | piece
      {rest : List Arrival}
      {bytes first : List UInt8}
      (some : first ≠ [])
      (later : Cut rest bytes) :
      Cut (.piece first :: rest) (first ++ bytes)

/-- A request that the stream can fill is filled with its next bytes. -/
theorem readLoop_filled
    {n : Nat}
    {arrivals : List Arrival}
    {bytes : List UInt8}
    (cut : Cut arrivals bytes)
    (got : List UInt8)
    (room : got.length ≤ n)
    (enough : n - got.length ≤ bytes.length) :
    ∃ rest,
      readLoop n got arrivals =
          (.ok (some (got ++ bytes.take (n - got.length))), rest) ∧
        Cut rest (bytes.drop (n - got.length)) := by
  induction cut generalizing got with
  | closed =>
      have full : n ≤ got.length :=
        Nat.le_of_sub_eq_zero (Nat.le_zero.mp enough)
      exact ⟨[], by simp [readLoop, full], by simpa using .closed⟩
  | @interrupted rest bytes later inductionHypothesis =>
      by_cases full : n ≤ got.length
      · have none : n - got.length = 0 := Nat.sub_eq_zero_of_le full
        exact ⟨.failed eintr :: rest, by simp [readLoop, full, none],
          by simpa [none] using .interrupted later⟩
      · obtain ⟨left, read, leftCut⟩ := inductionHypothesis got room enough
        exact ⟨left, by simpa [readLoop, full] using read, leftCut⟩
  | @piece rest bytes first nonempty later inductionHypothesis =>
      by_cases full : n ≤ got.length
      · have none : n - got.length = 0 := Nat.sub_eq_zero_of_le full
        exact ⟨.piece first :: rest, by simp [readLoop, full, none],
          by simpa [none] using .piece nonempty later⟩
      · by_cases fits : first.length ≤ n - got.length
        · have room' : (got ++ first).length ≤ n := by
            rw [List.length_append]
            omega
          have enough' : n - (got ++ first).length ≤ bytes.length := by
            rw [List.length_append] at enough ⊢
            omega
          obtain ⟨left, read, leftCut⟩ :=
            inductionHypothesis (got ++ first) room' enough'
          have wanted : n - (got ++ first).length =
              n - got.length - first.length := by
            rw [List.length_append, Nat.sub_sub]
          rw [wanted] at read leftCut
          refine ⟨left, ?_, ?_⟩
          · simp [readLoop, full, nonempty, fits, read, List.take_append,
              List.take_of_length_le fits]
          · rw [List.drop_append, List.drop_eq_nil_of_le fits]
            simpa using leftCut
        · have beyond : n - got.length < first.length := Nat.lt_of_not_le fits
          have short : n - got.length - first.length = 0 := by
            omega
          refine ⟨.piece (first.drop (n - got.length)) :: rest, ?_, ?_⟩
          · simp [readLoop, full, nonempty, fits, List.take_append, short]
          · rw [List.drop_append, short, List.drop_zero]
            refine .piece ?_ later
            simpa using beyond

/-- A request that the stream cannot fill reaches its end. -/
theorem readLoop_short
    {n : Nat}
    {arrivals : List Arrival}
    {bytes : List UInt8}
    (cut : Cut arrivals bytes)
    (got : List UInt8)
    (short : got.length + bytes.length < n) :
    readLoop n got arrivals = (readEnd n (got ++ bytes), []) := by
  induction cut generalizing got with
  | closed =>
      have empty : ¬ n ≤ got.length := by
        simpa using short
      simp [readLoop, empty]
  | interrupted later inductionHypothesis =>
      have empty : ¬ n ≤ got.length := by
        omega
      simpa [readLoop, empty] using inductionHypothesis got short
  | @piece rest bytes first nonempty later inductionHypothesis =>
      rw [List.length_append] at short
      have empty : ¬ n ≤ got.length := by
        omega
      have fits : first.length ≤ n - got.length := by
        omega
      have short' : (got ++ first).length + bytes.length < n := by
        rw [List.length_append]
        omega
      simpa [readLoop, empty, nonempty, fits] using
        inductionHypothesis (got ++ first) short'

/-- `read_exact` on a stream with enough bytes. -/
theorem readExact_filled
    {n : Nat}
    {arrivals : List Arrival}
    {bytes more : List UInt8}
    (cut : Cut arrivals (bytes ++ more))
    (size : bytes.length = n) :
    ∃ rest, readExact n arrivals = (.ok (some bytes), rest) ∧ Cut rest more := by
  obtain ⟨rest, read, restCut⟩ :=
    readLoop_filled cut [] (Nat.zero_le n) (by simp [← size])
  refine ⟨rest, ?_, ?_⟩
  · simpa [readExact, ← size] using read
  · simpa [← size] using restCut

/-- `read_exact` on a stream with too few bytes. -/
theorem readExact_short
    {n : Nat}
    {arrivals : List Arrival}
    {bytes : List UInt8}
    (cut : Cut arrivals bytes)
    (short : bytes.length < n) :
    readExact n arrivals = (readEnd n bytes, []) := by
  simpa [readExact] using readLoop_short cut [] (by simpa using short)

/-- A truncated request fails, unless nothing at all was read. -/
theorem readEnd_of_ne_nil
    (n : Nat)
    {got : List UInt8}
    (some : got ≠ []) :
    ∃ e, readEnd n got = .error e := by
  simp [readEnd, some]

/-! ## Frames -/

/-- A message that `send` frames as it is. -/
def Message.Framed (m : Message) : Prop :=
  m.payload.length ≤ maxPayload

/-- The five bytes before the payload. -/
def header (m : Message) : List UInt8 :=
  m.tag :: toLeBytes (m.payload.length % 2 ^ 32)

theorem frame_eq
    (m : Message) :
    frame m = header m ++ m.payload :=
  rfl

private theorem header_length
    (m : Message) :
    (header m).length = 5 :=
  rfl

/-- Reading the header of a framed message leaves its payload to be read. -/
theorem recv_header
    {m : Message}
    (framed : m.Framed)
    {arrivals : List Arrival}
    {bytes : List UInt8}
    (cut : Cut arrivals (header m ++ bytes)) :
    ∃ rest,
      recv arrivals = recvPayload m.tag m.payload.length rest ∧
        Cut rest bytes := by
  obtain ⟨rest, read, restCut⟩ := readExact_filled cut (header_length m)
  have fits : m.payload.length < 2 ^ 32 :=
    Nat.lt_of_le_of_lt framed (by decide)
  refine ⟨rest, ?_, restCut⟩
  simp only [recv, read, header, toLeBytes, List.getD_cons_zero,
    List.getD_cons_succ, Nat.mod_eq_of_lt fits, fromLeBytes_toLeBytes fits]

/-- A whole frame is received as the message it was made from. -/
theorem recv_frame
    {m : Message}
    (framed : m.Framed)
    {arrivals : List Arrival}
    {bytes : List UInt8}
    (cut : Cut arrivals (frame m ++ bytes)) :
    ∃ rest, recv arrivals = (.ok (some m), rest) ∧ Cut rest bytes := by
  rw [frame_eq, List.append_assoc] at cut
  obtain ⟨afterHeader, received, payloadCut⟩ := recv_header framed cut
  have inLimit : ¬ m.payload.length > maxPayload := Nat.not_lt.mpr framed
  by_cases empty : m.payload = []
  · refine ⟨afterHeader, ?_, by simpa [empty] using payloadCut⟩
    rw [received]
    obtain ⟨tag, payload⟩ := m
    subst empty
    simp [recvPayload]
  · obtain ⟨rest, read, restCut⟩ := readExact_filled payloadCut rfl
    refine ⟨rest, ?_, restCut⟩
    rw [received]
    simp [recvPayload, inLimit, empty, read]

/-- At the end of the stream `recv` reports the end. -/
theorem recv_closed
    {arrivals : List Arrival}
    (cut : Cut arrivals []) :
    recv arrivals = (.ok none, []) := by
  simp [recv, readExact_short cut (n := 5) (by simp), readEnd]

/-- A frame that was cut short is an error, after which the stream is at its
end. -/
theorem recv_truncated
    {m : Message}
    (framed : m.Framed)
    {arrivals : List Arrival}
    {inside : List UInt8}
    (part : inside <+: frame m)
    (proper : inside ≠ frame m)
    (started : inside ≠ [])
    (cut : Cut arrivals inside) :
    ∃ e, recv arrivals = (.error e, []) := by
  have inLimit : ¬ m.payload.length > maxPayload := Nat.not_lt.mpr framed
  by_cases inHeader : inside.length < 5
  · obtain ⟨e, ended⟩ := readEnd_of_ne_nil 5 started
    exact ⟨e, by simp [recv, readExact_short cut inHeader, ended]⟩
  · -- the header is whole, so what is missing is missing from the payload
    have headerPart : header m <+: inside :=
      List.prefix_of_prefix_length_le ⟨m.payload, rfl⟩ part
        (Nat.le_of_not_lt inHeader)
    obtain ⟨payloadPart, rfl⟩ := headerPart
    have within : payloadPart <+: m.payload :=
      (List.prefix_append_right_inj (header m)).mp part
    have short : payloadPart.length < m.payload.length := by
      refine Nat.lt_of_le_of_ne within.length_le fun sameLength => proper ?_
      rw [frame_eq, within.eq_of_length sameLength]
    have nonempty : m.payload ≠ [] :=
      List.ne_nil_of_length_pos (Nat.zero_lt_of_lt short)
    obtain ⟨rest, received, payloadCut⟩ := recv_header framed cut
    rw [received]
    by_cases none : payloadPart = []
    · subst none
      exact ⟨.io "sync channel closed mid-frame", by
        simp [recvPayload, inLimit, nonempty, readExact_short payloadCut short,
          readEnd]⟩
    · obtain ⟨e, ended⟩ := readEnd_of_ne_nil m.payload.length none
      exact ⟨e, by
        simp [recvPayload, inLimit, nonempty, readExact_short payloadCut short,
          ended]⟩

/-! ## Streams of frames -/

/-- The bytes of a list of messages. -/
def frames (messages : List Message) : List UInt8 :=
  messages.flatMap frame

/-- Whole frames are received one by one. -/
theorem recvTimes_frames
    {messages : List Message}
    (framed : ∀ m ∈ messages, m.Framed)
    {arrivals : List Arrival}
    {bytes : List UInt8}
    (cut : Cut arrivals (frames messages ++ bytes)) :
    ∃ rest,
      Cut rest bytes ∧
        ∀ calls, recvTimes (messages.length + calls) arrivals =
          messages.map (fun m => .ok (some m)) ++ recvTimes calls rest := by
  induction messages generalizing arrivals with
  | nil =>
      exact ⟨arrivals, cut, fun calls => by simp⟩
  | cons m messages inductionHypothesis =>
      have split : frames (m :: messages) ++ bytes =
          frame m ++ (frames messages ++ bytes) := by
        simp [frames]
      rw [split] at cut
      obtain ⟨next, received, nextCut⟩ :=
        recv_frame (framed m List.mem_cons_self) cut
      obtain ⟨rest, restCut, others⟩ :=
        inductionHypothesis
          (fun other member => framed other (List.mem_cons_of_mem m member))
          nextCut
      refine ⟨rest, restCut, fun calls => ?_⟩
      rw [List.length_cons, Nat.add_right_comm, recvTimes, received,
        others calls]
      rfl

/-- Past the end of the stream every call reports the end. -/
theorem recvTimes_closed
    {arrivals : List Arrival}
    (cut : Cut arrivals [])
    (calls : Nat) :
    recvTimes calls arrivals = List.replicate calls (.ok none) := by
  induction calls generalizing arrivals with
  | zero =>
      rfl
  | succ calls inductionHypothesis =>
      rw [recvTimes, recv_closed cut, inductionHypothesis .closed]
      rfl

/-- A stream cut short ends inside, or right before, one of its frames. -/
theorem cut_inside_frame
    {messages : List Message}
    {part : List UInt8}
    (leading : part <+: frames messages)
    (proper : part ≠ frames messages) :
    ∃ arrived m missing inside,
      messages = arrived ++ m :: missing ∧
        part = frames arrived ++ inside ∧
          inside <+: frame m ∧ inside ≠ frame m := by
  induction messages generalizing part with
  | nil =>
      exact absurd (List.prefix_nil.mp leading) proper
  | cons m messages inductionHypothesis =>
      have split : frames (m :: messages) = frame m ++ frames messages := rfl
      rw [split] at leading proper
      by_cases early : part.length < (frame m).length
      · refine ⟨[], m, messages, part, rfl, rfl, ?_, ?_⟩
        · exact List.prefix_of_prefix_length_le leading
            (List.prefix_append _ _) (Nat.le_of_lt early)
        · intro same
          exact Nat.lt_irrefl _ (same ▸ early)
      · have whole : frame m <+: part :=
          List.prefix_of_prefix_length_le (List.prefix_append _ _) leading
            (Nat.le_of_not_lt early)
        obtain ⟨later, rfl⟩ := whole
        have laterLeading : later <+: frames messages :=
          (List.prefix_append_right_inj (frame m)).mp leading
        have laterProper : later ≠ frames messages :=
          fun same => proper (by rw [same])
        obtain ⟨arrived, next, missing, inside, order, made, within, cut⟩ :=
          inductionHypothesis laterLeading laterProper
        refine ⟨m :: arrived, next, missing, inside, ?_, ?_, within, cut⟩
        · rw [order, List.cons_append]
        · simp [made, frames]

/-- A `write_all` that succeeds has put its whole buffer on the stream. -/
theorem writeAll_wire
    {buf : List UInt8}
    {answers : List Acceptance}
    (sent : (writeAll buf answers).result = .ok ()) :
    (writeAll buf answers).wire = buf := by
  induction answers generalizing buf with
  | nil =>
      rfl
  | cons answer answers inductionHypothesis =>
      by_cases empty : buf = []
      · simp [writeAll, empty]
      · cases answer with
        | failed errno =>
            by_cases interrupted : errno = eintr
            · simp only [writeAll, List.isEmpty_iff, empty, ↓reduceIte,
                interrupted] at sent ⊢
              exact inductionHypothesis sent
            · simp [writeAll, empty, interrupted] at sent
        | took count =>
            cases count with
            | zero =>
                simp [writeAll, empty] at sent
            | succ count =>
                simp only [writeAll, List.isEmpty_iff, empty,
                  ↓reduceIte] at sent ⊢
                rw [inductionHypothesis sent, List.take_append_drop]

/-- A `send` that succeeds on a payload whose length fits its length field. -/
theorem send_ok
    {m : Message}
    {answers : List Acceptance}
    (fits : m.payload.length < 2 ^ 32)
    (sent : (send m answers).result = .ok ()) :
    m.Framed ∧ (send m answers).wire = frame m := by
  by_cases large : m.payload.length % 2 ^ 32 > maxPayload
  · rw [send, if_pos large] at sent
    cases sent
  · rw [send, if_neg large] at sent ⊢
    rw [Nat.mod_eq_of_lt fits] at large
    exact ⟨Nat.le_of_not_lt large, writeAll_wire sent⟩

private theorem sendAll_ok
    {messages : List Message}
    {answers : List Acceptance}
    (fits : ∀ m ∈ messages, m.payload.length < 2 ^ 32)
    (sent : (sendAll messages answers).result = .ok ()) :
    (∀ m ∈ messages, m.Framed) ∧
      (sendAll messages answers).wire = frames messages := by
  induction messages generalizing answers with
  | nil =>
      simp [sendAll, frames]
  | cons m messages inductionHypothesis =>
      cases first : (send m answers).result with
      | error e =>
          simp [sendAll, first] at sent
      | ok =>
          simp only [sendAll, first] at sent ⊢
          obtain ⟨framed, wire⟩ := send_ok (fits m List.mem_cons_self) first
          obtain ⟨othersFramed, othersWire⟩ :=
            inductionHypothesis
              (fun other member => fits other (List.mem_cons_of_mem m member))
              sent
          refine ⟨?_, ?_⟩
          · intro other member
            rcases List.mem_cons.mp member with rfl | later
            · exact framed
            · exact othersFramed other later
          · rw [wire, othersWire]
            rfl

/-! ## The codec -/

/-- What the reader of a stream that was cut short is told after the messages
that arrived: the end, at a frame boundary, and an error inside a frame. -/
inductive Ending (messages arrived : List Message) (part : List UInt8) :
    Result (Option Message) → Prop where
  | boundary
      (whole : part = frames arrived) :
      Ending messages arrived part (.ok none)
  | inside
      {m : Message}
      {missing : List Message}
      {bytes : List UInt8}
      {e : Error}
      (order : messages = arrived ++ m :: missing)
      (cut : part = frames arrived ++ bytes)
      (within : bytes <+: frame m)
      (proper : bytes ≠ frame m)
      (started : bytes ≠ []) :
      Ending messages arrived part (.error e)

/-- However the writes and the reads cut the stream, the reader gets the
messages that were sent, in order, and then the end; of a stream that was cut
short it gets the messages that arrived whole, and then the end or an error. -/
theorem messages_delivered
    (messages : List Message)
    (answers : List Acceptance)
    (fits : ∀ m ∈ messages, m.payload.length < 2 ^ 32)
    (sent : (sendAll messages answers).result = .ok ()) :
    (∀ arrivals, Cut arrivals (sendAll messages answers).wire →
      ∀ calls, recvTimes (messages.length + calls) arrivals =
        messages.map (fun m => .ok (some m)) ++
          List.replicate calls (.ok none)) ∧
    (∀ part, part <+: (sendAll messages answers).wire →
      part ≠ (sendAll messages answers).wire →
      ∀ arrivals, Cut arrivals part →
        ∃ arrived last,
          arrived <+: messages ∧ Ending messages arrived part last ∧
            ∀ calls, recvTimes (arrived.length + 1 + calls) arrivals =
              arrived.map (fun m => .ok (some m)) ++
                last :: List.replicate calls (.ok none)) := by
  obtain ⟨framed, wire⟩ := sendAll_ok fits sent
  rw [wire]
  constructor
  · intro arrivals cut calls
    rw [← List.append_nil (frames messages)] at cut
    obtain ⟨rest, restCut, received⟩ := recvTimes_frames framed cut
    rw [received, recvTimes_closed restCut]
  · intro part leading proper arrivals cut
    obtain ⟨arrived, m, missing, inside, order, rfl, within, cutInside⟩ :=
      cut_inside_frame leading proper
    have arrivedFramed : ∀ other ∈ arrived, other.Framed := by
      intro other member
      exact framed other (by simp [order, member])
    obtain ⟨rest, restCut, received⟩ := recvTimes_frames arrivedFramed cut
    have arrivedLeading : arrived <+: messages := by
      rw [order]
      exact List.prefix_append _ _
    by_cases started : inside = []
    · subst started
      refine ⟨arrived, .ok none, arrivedLeading, .boundary (by simp), ?_⟩
      intro calls
      rw [Nat.add_assoc, received, recvTimes_closed restCut, Nat.add_comm 1,
        List.replicate_succ]
    · have mFramed : m.Framed := framed m (by simp [order])
      obtain ⟨e, failed⟩ :=
        recv_truncated mFramed within cutInside started restCut
      refine ⟨arrived, .error e, arrivedLeading,
        .inside order rfl within cutInside started, ?_⟩
      intro calls
      rw [Nat.add_assoc, received, Nat.add_comm 1, recvTimes, failed,
        recvTimes_closed .closed]

/-- A ready frame and an error frame; the first write is interrupted and the
pieces that are read do not end where the frames do. -/
theorem ready_and_error_delivered :
    let messages : List Message := [⟨tagReady, []⟩, ⟨tagError, [110, 111]⟩]
    let answers : List Acceptance := [.failed eintr, .took 3, .took 9]
    (sendAll messages answers).result = .ok () ∧
      recvTimes 3
          [.piece [82, 0, 0, 0, 0, 69], .failed eintr, .piece [2, 0],
            .piece [0, 0, 110, 111]] =
        [.ok (some ⟨tagReady, []⟩), .ok (some ⟨tagError, [110, 111]⟩),
          .ok none] := by
  intro messages answers
  have sent : (sendAll messages answers).result = .ok () := by
    rfl
  have cut : Cut
      [.piece [82, 0, 0, 0, 0, 69], .failed eintr, .piece [2, 0],
        .piece [0, 0, 110, 111]] (sendAll messages answers).wire :=
    .piece (by simp) (.interrupted
      (.piece (by simp) (.piece (by simp) .closed)))
  have fits : ∀ m ∈ messages, m.payload.length < 2 ^ 32 := by
    simp [messages]
  exact ⟨sent, (messages_delivered messages answers fits sent).1 _ cut 1⟩

end Channel

end Myrun
