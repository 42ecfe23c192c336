import Myrun.AttributeTree

namespace Myrun

/-!
# Netlink replies

What `send_recv` of `src/sys/netlink.rs` makes of one datagram: it goes through
the messages in its buffer by their lengths, and passes over those that answer
another request. As for attributes, `none` is a panic.
-/

namespace Netlink

/-- `NLM_F_MULTI`. -/
def nlmFMulti : UInt16 := 0x002

/-- `NLMSG_NOOP`, `NLMSG_ERROR`, `NLMSG_DONE`. -/
def nlmsgNoop : UInt16 := 1
def nlmsgError : UInt16 := 2
def nlmsgDone : UInt16 := 3

/-! ## Reading a datagram -/

/-- `from_ne_bytes` of the bytes at an offset. -/
def readWord (order : ByteOrder) (buf : List UInt8) (off width : Nat) :
    Option Nat :=
  (slice buf off (off + width)).map order.fromBytes

/-- What one round of the inner loop of `send_recv` comes to. -/
inductive Scanned where
  | stop
  | refused (err : Int32)
  | next (off : Nat) (replies : List (List UInt8)) (done : Bool)
  deriving Repr, DecidableEq

/-- One round of the inner loop; `buf` is longer than the `total` bytes that
were received. -/
def scanRound (order : ByteOrder) (seq : UInt32) (dump : Bool)
    (buf : List UInt8) (total off : Nat) (replies : List (List UInt8))
    (done : Bool) : Option Scanned :=
  if total < off + 16 then some .stop
  else do
    let len ← readWord order buf off 4
    let ty := UInt16.ofNat (← readWord order buf (off + 4) 2)
    let flags := UInt16.ofNat (← readWord order buf (off + 6) 2)
    let mseq := UInt32.ofNat (← readWord order buf (off + 8) 4)
    if len < 16 ∨ total < off + len then some .stop
    else if mseq ≠ seq then some (.next (off + nlAlign len) replies done)
    else if ty = nlmsgError then do
      let err := (UInt32.ofNat (← readWord order buf (off + 16) 4)).toInt32
      if err ≠ 0 then some (.refused err)
      else some (.next (off + nlAlign len) replies true)
    else if ty = nlmsgDone then some (.next (off + nlAlign len) replies true)
    else if ty = nlmsgNoop then some (.next (off + nlAlign len) replies done)
    else do
      let payload ← slice buf (off + 16) (off + len)
      some (.next (off + nlAlign len) (replies ++ [payload])
        (done || !dump && flags &&& nlmFMulti = 0))

/-- The inner loop; it has no result when the fuel is used up. -/
def scanLoop (order : ByteOrder) (seq : UInt32) (dump : Bool)
    (buf : List UInt8) (total : Nat) :
    Nat → Nat → List (List UInt8) → Bool →
      Option (Except Int32 (List (List UInt8) × Bool))
  | 0, _, _, _ => none
  | fuel + 1, off, replies, done => do
      match ← scanRound order seq dump buf total off replies done with
      | .stop => some (.ok (replies, done))
      | .refused err => some (.error err)
      | .next off replies done =>
          scanLoop order seq dump buf total fuel off replies done

/-- What `send_recv` makes of one datagram. -/
def scan (order : ByteOrder) (seq : UInt32) (dump : Bool) (buf : List UInt8)
    (total : Nat) (replies : List (List UInt8)) :
    Option (Except Int32 (List (List UInt8) × Bool)) :=
  scanLoop order seq dump buf total (total + 1) 0 replies false

/-! ## Messages -/

/-- A message, apart from its length. -/
structure NlMsg where
  ty : UInt16
  flags : UInt16
  seq : UInt32
  pid : UInt32
  payload : List UInt8
  deriving Repr, DecidableEq

/-- The header of a message. -/
def NlMsg.header (order : ByteOrder) (m : NlMsg) : List UInt8 :=
  order.toBytes 4 (16 + m.payload.length) ++ order.toBytes 2 m.ty.toNat ++
    order.toBytes 2 m.flags.toNat ++ order.toBytes 4 m.seq.toNat ++
    order.toBytes 4 m.pid.toNat

/-- The bytes of a message. -/
def NlMsg.bytes (order : ByteOrder) (m : NlMsg) : List UInt8 :=
  m.header order ++ m.payload

/-- Messages that are sent at once, each padded. -/
def datagram (order : ByteOrder) (msgs : List NlMsg) : List UInt8 :=
  msgs.flatMap fun m => padded (m.bytes order)

/-- The error that a message carries. -/
def NlMsg.err (order : ByteOrder) (m : NlMsg) : Int32 :=
  (UInt32.ofNat (order.fromBytes (m.payload.take 4))).toInt32

/-- What messages say of a request, after some replies. -/
def hear (order : ByteOrder) (seq : UInt32) (dump : Bool) :
    List NlMsg → List (List UInt8) → Bool →
      Except Int32 (List (List UInt8) × Bool)
  | [], replies, done => .ok (replies, done)
  | m :: rest, replies, done =>
      if m.seq ≠ seq then hear order seq dump rest replies done
      else if m.ty = nlmsgError then
        if m.err order ≠ 0 then .error (m.err order)
        else hear order seq dump rest replies true
      else if m.ty = nlmsgDone then hear order seq dump rest replies true
      else if m.ty = nlmsgNoop then hear order seq dump rest replies done
      else
        hear order seq dump rest (replies ++ [m.payload])
          (done || !dump && m.flags &&& nlmFMulti = 0)

/-- A round of the inner loop, for one message. -/
def heard (off : Nat) :
    Except Int32 (List (List UInt8) × Bool) → Scanned
  | .error err => .refused err
  | .ok (replies, done) => .next off replies done

/-- An answer to the request that is an error has room for its code. -/
def NlMsg.Complete (seq : UInt32) (m : NlMsg) : Prop :=
  m.seq = seq → m.ty = nlmsgError → 4 ≤ m.payload.length

/-! ## What is read of messages -/

section Scan

variable {order : ByteOrder} {seq : UInt32} {dump : Bool}

/-- Bytes between others. -/
theorem slice_middle
    (before middle after : List UInt8) :
    slice (before ++ middle ++ after) before.length
      (before.length + middle.length) = some middle := by
  unfold slice
  rw [if_pos (by simp only [List.length_append]; omega), ← List.length_append,
    List.take_left, List.drop_left]

/-- A word between others. -/
theorem readWord_middle
    {width n : Nat}
    (fits : n < 256 ^ width)
    (before after : List UInt8) :
    readWord order (before ++ order.toBytes width n ++ after) before.length
      width = some n := by
  have found := slice_middle before (order.toBytes width n) after
  rw [ByteOrder.length_toBytes] at found
  rw [readWord, found, Option.map_some, order.fromBytes_toBytes fits]

private theorem NlMsg.length_header
    (m : NlMsg) :
    (m.header order).length = 16 := by
  simp only [NlMsg.header, List.length_append, ByteOrder.length_toBytes]

private theorem NlMsg.length_bytes
    (m : NlMsg) :
    (m.bytes order).length = 16 + m.payload.length := by
  rw [NlMsg.bytes, List.length_append, NlMsg.length_header]

theorem length_padded_bytes
    (m : NlMsg) :
    (padded (m.bytes order)).length = nlAlign (16 + m.payload.length) := by
  rw [padded, List.length_append, List.length_replicate, NlMsg.length_bytes,
    nlAlign_eq]

/-- The words of a header after some bytes. -/
structure HeaderAt (order : ByteOrder) (buf : List UInt8) (off : Nat)
    (m : NlMsg) : Prop where
  len : readWord order buf off 4 = some (16 + m.payload.length)
  ty : readWord order buf (off + 4) 2 = some m.ty.toNat
  flags : readWord order buf (off + 6) 2 = some m.flags.toNat
  seq : readWord order buf (off + 8) 4 = some m.seq.toNat

private theorem headerAt
    {m : NlMsg}
    (small : 16 + m.payload.length < 2 ^ 32)
    (before after : List UInt8) :
    HeaderAt order (before ++ (m.bytes order ++ after)) before.length m := by
  have read : ∀ (front : List UInt8) {width n : Nat} (back : List UInt8),
      n < 256 ^ width →
      m.bytes order ++ after = front ++ order.toBytes width n ++ back →
      readWord order (before ++ (m.bytes order ++ after))
        (before.length + front.length) width = some n := by
    intro front width n back fits same
    have found := @readWord_middle order width n fits (before ++ front) back
    rw [List.length_append] at found
    rw [same, ← found]
    simp only [List.append_assoc]
  have words : ∀ {width n : Nat}, (order.toBytes width n).length = width :=
    order.length_toBytes _ _
  refine ⟨?_, ?_, ?_, ?_⟩
  · simpa using read [] _ small (by simp only [NlMsg.bytes, NlMsg.header,
      List.append_assoc, List.nil_append]; rfl)
  · simpa [words] using read (order.toBytes 4 (16 + m.payload.length)) _
      m.ty.toNat_lt (by simp only [NlMsg.bytes, NlMsg.header,
        List.append_assoc]; rfl)
  · simpa [words] using read (order.toBytes 4 (16 + m.payload.length) ++
      order.toBytes 2 m.ty.toNat) _ m.flags.toNat_lt
      (by simp only [NlMsg.bytes, NlMsg.header, List.append_assoc]; rfl)
  · simpa [words] using read (order.toBytes 4 (16 + m.payload.length) ++
      order.toBytes 2 m.ty.toNat ++ order.toBytes 2 m.flags.toNat) _
      m.seq.toNat_lt
      (by simp only [NlMsg.bytes, NlMsg.header, List.append_assoc]; rfl)

/-- The payload of a message after some bytes. -/
theorem payloadAt
    (m : NlMsg)
    (before after : List UInt8) :
    slice (before ++ (m.bytes order ++ after)) (before.length + 16)
      (before.length + (16 + m.payload.length)) = some m.payload := by
  have found := slice_middle (before ++ m.header order) m.payload after
  rw [List.length_append, NlMsg.length_header] at found
  rw [NlMsg.bytes, ← Nat.add_assoc, ← found]
  simp only [List.append_assoc]

/-- The code of an error after some bytes. -/
theorem errorAt
    {m : NlMsg}
    (room : 4 ≤ m.payload.length)
    (before after : List UInt8) :
    readWord order (before ++ (m.bytes order ++ after)) (before.length + 16) 4 =
      some (order.fromBytes (m.payload.take 4)) := by
  have four : (m.payload.take 4).length = 4 := by
    simp only [List.length_take]
    omega
  have found := slice_middle (before ++ m.header order) (m.payload.take 4)
    (m.payload.drop 4 ++ after)
  rw [List.length_append, NlMsg.length_header, four] at found
  have same : before ++ (m.bytes order ++ after) =
      before ++ m.header order ++ m.payload.take 4 ++
        (m.payload.drop 4 ++ after) := by
    rw [NlMsg.bytes]
    simp only [List.append_assoc]
    rw [← List.append_assoc (m.payload.take 4), List.take_append_drop]
  rw [readWord, same, found, Option.map_some]

/-- One message is read as it is heard. -/
theorem scanRound_message
    {m : NlMsg}
    {before after : List UInt8}
    {replies : List (List UInt8)}
    {done : Bool}
    {total : Nat}
    (small : 16 + m.payload.length < 2 ^ 32)
    (complete : m.Complete seq)
    (inside : before.length + (16 + m.payload.length) ≤ total) :
    scanRound order seq dump (before ++ (m.bytes order ++ after)) total
        before.length replies done =
      some (heard (before.length + nlAlign (16 + m.payload.length))
        (hear order seq dump [m] replies done)) := by
  have header := @headerAt order m small before after
  unfold scanRound
  rw [if_neg (by omega), header.len, header.ty, header.flags, header.seq]
  simp only [Option.bind_eq_bind, Option.bind_some, UInt16.ofNat_toNat,
    UInt32.ofNat_toNat, payloadAt m before after]
  rw [if_neg (by omega)]
  unfold hear
  by_cases other : m.seq ≠ seq
  · rw [if_pos other, if_pos other, hear, heard]
  · rw [if_neg other, if_neg other]
    by_cases isError : m.ty = nlmsgError
    · rw [if_pos isError, if_pos isError,
        errorAt (complete (not_not.mp other) isError) before after]
      have code : (UInt32.ofNat (order.fromBytes (m.payload.take 4))).toInt32 =
          m.err order := rfl
      simp only [Option.bind_some, code]
      by_cases refused : m.err order ≠ 0
      · rw [if_pos refused, if_pos refused, heard]
      · rw [if_neg refused, if_neg refused, hear, heard]
    · rw [if_neg isError, if_neg isError]
      by_cases isDone : m.ty = nlmsgDone
      · rw [if_pos isDone, if_pos isDone, hear, heard]
      · rw [if_neg isDone, if_neg isDone]
        by_cases isNoop : m.ty = nlmsgNoop
        · rw [if_pos isNoop, if_pos isNoop, hear, heard]
        · rw [if_neg isNoop, if_neg isNoop, hear, heard]

/-- What is heard first decides how the rest is heard. -/
theorem hear_cons
    (m : NlMsg)
    (rest : List NlMsg)
    (replies : List (List UInt8))
    (done : Bool) :
    hear order seq dump (m :: rest) replies done =
      (hear order seq dump [m] replies done).bind fun told =>
        hear order seq dump rest told.1 told.2 := by
  simp only [hear]
  split_ifs
  · rfl
  · rfl
  · rfl
  · rfl
  · rfl
  · rfl

theorem hear_append
    (first second : List NlMsg) :
    ∀ (replies : List (List UInt8)) (done : Bool),
      hear order seq dump (first ++ second) replies done =
        (hear order seq dump first replies done).bind fun told =>
          hear order seq dump second told.1 told.2 := by
  induction first with
  | nil => exact fun replies done => rfl
  | cons m first inductionHypothesis =>
      intro replies done
      rw [List.cons_append, hear_cons, hear_cons m first]
      cases hear order seq dump [m] replies done with
      | error err => rfl
      | ok told => exact inductionHypothesis told.1 told.2

/-- A datagram is read as it is heard, whatever the buffer has behind it. -/
theorem scanLoop_datagram
    (stale : List UInt8)
    (msgs : List NlMsg) :
    ∀ (before : List UInt8) (replies : List (List UInt8)) (done : Bool)
      (fuel : Nat),
      (∀ m ∈ msgs, m.Complete seq) →
      (datagram order msgs).length < 2 ^ 32 →
      msgs.length < fuel →
      scanLoop order seq dump (before ++ (datagram order msgs ++ stale))
          (before.length + (datagram order msgs).length) fuel before.length
          replies done =
        some (hear order seq dump msgs replies done) := by
  induction msgs with
  | nil =>
      intro before replies done fuel _ _ enough
      obtain ⟨fuel, rfl⟩ := Nat.exists_eq_succ_of_ne_zero (by omega : fuel ≠ 0)
      simp [scanLoop, scanRound, datagram, hear]
  | cons m msgs inductionHypothesis =>
      intro before replies done fuel complete small enough
      obtain ⟨fuel, rfl⟩ := Nat.exists_eq_succ_of_ne_zero (by omega : fuel ≠ 0)
      have bytes : datagram order (m :: msgs) =
          padded (m.bytes order) ++ datagram order msgs := rfl
      have one := @length_padded_bytes order m
      have longer : 16 + m.payload.length ≤ nlAlign (16 + m.payload.length) := by
        rw [nlAlign_eq]
        omega
      have text : before ++ (datagram order (m :: msgs) ++ stale) =
          before ++ (m.bytes order ++
            (List.replicate (padding (m.bytes order).length) 0 ++
              (datagram order msgs ++ stale))) := by
        rw [bytes, padded]
        simp only [List.append_assoc]
      have size : (datagram order (m :: msgs)).length =
          nlAlign (16 + m.payload.length) + (datagram order msgs).length := by
        rw [bytes, List.length_append, one]
      have round := @scanRound_message order seq dump m before
        (List.replicate (padding (m.bytes order).length) 0 ++
          (datagram order msgs ++ stale)) replies done
        (before.length + (datagram order (m :: msgs)).length)
        (by omega) (complete m List.mem_cons_self) (by omega)
      rw [scanLoop, text, round, hear_cons m msgs]
      simp only [Option.bind_eq_bind, Option.bind_some]
      cases hear order seq dump [m] replies done with
      | error err => rfl
      | ok told =>
          have later := inductionHypothesis
            (before ++ padded (m.bytes order)) told.1 told.2 fuel
            (fun m member => complete m (List.mem_cons_of_mem _ member))
            (by omega) (by simp only [List.length_cons] at enough; omega)
          have place : (before ++ padded (m.bytes order)).length =
              before.length + nlAlign (16 + m.payload.length) := by
            rw [List.length_append, one]
          have same : before ++ padded (m.bytes order) ++
                (datagram order msgs ++ stale) =
              before ++ (m.bytes order ++
                (List.replicate (padding (m.bytes order).length) 0 ++
                  (datagram order msgs ++ stale))) := by
            rw [padded]
            simp only [List.append_assoc]
          rw [place, same, Nat.add_assoc, ← size] at later
          exact later

private theorem length_le_datagram
    (msgs : List NlMsg) :
    msgs.length ≤ (datagram order msgs).length := by
  induction msgs with
  | nil => exact Nat.zero_le _
  | cons m msgs inductionHypothesis =>
      have bytes : datagram order (m :: msgs) =
          padded (m.bytes order) ++ datagram order msgs := rfl
      rw [bytes, List.length_append, length_padded_bytes, nlAlign_eq,
        List.length_cons]
      omega

/-- A whole datagram is read as it is heard. -/
theorem scan_datagram
    {msgs : List NlMsg}
    (complete : ∀ m ∈ msgs, m.Complete seq)
    (small : (datagram order msgs).length < 2 ^ 32)
    (stale : List UInt8)
    (replies : List (List UInt8)) :
    scan order seq dump (datagram order msgs ++ stale)
        (datagram order msgs).length replies =
      some (hear order seq dump msgs replies false) := by
  have read := @scanLoop_datagram order seq dump stale msgs [] replies false
    ((datagram order msgs).length + 1) complete small
    (Nat.lt_succ_of_le (length_le_datagram msgs))
  simpa [scan] using read

end Scan

end Netlink

end Myrun
