import Myrun.Error
import Myrun.Ipc
import Myrun.NetlinkReplies
import Myrun.Prog

namespace Myrun

/-!
# Requests to the kernel

`send_recv` of `src/sys/netlink.rs` over a socket: the datagrams of earlier
requests may come late, receiving may be interrupted, time out or lose
datagrams. A client of this protocol is compared with one for which a request
is a single operation of the kernel.
-/

namespace Netlink

/-! ## The requests of a client -/

/-- One request, of a builder. -/
inductive ReqOp where
  | request (m : MsgBuilder) (dump : Bool)

/-- The payloads of the replies. -/
abbrev ReqAns : ReqOp → Type
  | .request _ _ => Result (List (List UInt8))

/-! ## The socket -/

/-- The operations on the socket. -/
inductive SockOp where
  | send (bytes : List UInt8)
  | recv
  /-- a loop that goes on for too long -/
  | spin

/-- The answers, with `errno` for failures. -/
abbrev SockAns : SockOp → Type
  | .send _ => Except Int32 Unit
  | .recv => Except Int32 (List UInt8)
  | .spin => Empty

abbrev SockAct := Prog SockOp SockAns

/-- One operation. -/
abbrev askSock (op : SockOp) : SockAct (SockAns op) :=
  Prog.perform op

/-- The size of the buffer of `send_recv`. -/
def bufferSize : Nat := 32 * 1024

/-- `Error::Syscall` of a rejected request. -/
def rejected (err : Int32) : Error :=
  .syscall "netlink" (-err) "kernel rejected the request"

/-- The outer loop of `send_recv`; what was received before stays behind it in
the buffer. No result is a panic. -/
def receive (order : ByteOrder) (seq : UInt32) (dump : Bool) :
    Nat → List UInt8 → List (List UInt8) →
      SockAct (Option (Result (List (List UInt8))))
  | 0, _, _ => do
      let never ← askSock .spin
      return never.elim
  | rounds + 1, buf, replies => do
      match ← askSock .recv with
      | .error e =>
          if e = Channel.eintr then receive order seq dump rounds buf replies
          else return some (.error (.syscall "recv" e "netlink reply"))
      | .ok bytes =>
          let buf := bytes ++ buf.drop bytes.length
          match scan order seq dump buf bytes.length replies with
          | none => return none
          | some (.error err) => return some (.error (rejected err))
          | some (.ok (replies, done)) =>
              if done then return some (.ok replies)
              else receive order seq dump rounds buf replies

/-- `send_recv`, for a number of rounds; the counter of the socket is
incremented before anything can fail. -/
def sendRecv (order : ByteOrder) (rounds : Nat) (seq : UInt32)
    (m : MsgBuilder) (dump : Bool) :
    SockAct (Option (Result (List (List UInt8)))) := do
  match ← askSock (.send (m.finish order (seq + 1))) with
  | .error e => return some (.error (.syscall "send" e "netlink request"))
  | .ok () =>
      receive order (seq + 1) dump rounds (List.replicate bufferSize 0) []

/-- A client over the socket, from a value of the counter. -/
def overSocket {α : Type} (order : ByteOrder) (rounds : Nat) :
    UInt32 → Prog ReqOp ReqAns α → SockAct (Option α)
  | _, .ret value => return some value
  | seq, .call (.request m dump) next => do
      match ← sendRecv order rounds seq m dump with
      | none => return none
      | some answer => overSocket order rounds (seq + 1) (next answer)

/-! ## The kernel -/

/-- What the kernel decides about a request. -/
inductive Answer where
  | ack
  | refused (errno : Int32)
  | dump (entries : List (List UInt8))

/-- What the caller of `send_recv` is to see of it. -/
def Answer.result : Answer → Result (List (List UInt8))
  | .ack => .ok []
  | .refused errno => .error (.syscall "netlink" errno "kernel rejected the request")
  | .dump entries => .ok entries

/-- A request without its length and its number. -/
def asked (bytes : List UInt8) : List UInt8 :=
  (bytes.take 8).drop 4 ++ bytes.drop 12

/-- The number of a request. -/
def seqOf (order : ByteOrder) (bytes : List UInt8) : UInt32 :=
  .ofNat (order.fromBytes ((bytes.take 12).drop 8))

/-- The last message of an answer, after the entries. -/
def Ends (order : ByteOrder) (entries : List (List UInt8)) (last : NlMsg) :
    Answer → Prop
  | .ack => entries = [] ∧ last.ty = nlmsgError ∧ 4 ≤ last.payload.length ∧
      last.err order = 0
  | .refused errno => last.ty = nlmsgError ∧ 4 ≤ last.payload.length ∧
      last.err order ≠ 0 ∧ -last.err order = errno ∧ 0 < errno
  | .dump all => entries = all ∧ last.ty = nlmsgDone

/-- One of several messages with entries. -/
structure NlMsg.Part (seq : UInt32) (m : NlMsg) : Prop where
  seq : m.seq = seq
  ty : m.ty ≠ nlmsgError ∧ m.ty ≠ nlmsgDone ∧ m.ty ≠ nlmsgNoop
  multi : m.flags &&& nlmFMulti ≠ 0

/-- The messages of an answer: its entries, and a last one; some entries may
have come before. -/
def Tells (order : ByteOrder) (seq : UInt32) (before : List (List UInt8))
    (answer : Answer) (msgs : List NlMsg) : Prop :=
  ∃ parts last, msgs = parts ++ [last] ∧ (∀ m ∈ parts, m.Part seq) ∧
    last.seq = seq ∧
    Ends order (before ++ parts.map NlMsg.payload) last answer

/-- The kernel, the datagrams on their way, oldest first, and how often
receiving will be interrupted. -/
structure SockWorld (K : Type) where
  kernel : K
  queue : List (List NlMsg)
  interrupts : Nat

section Kernel

variable {K : Type} (order : ByteOrder)
  (handles : K → List UInt8 → Answer → K → Prop) (most : Nat)

/-- The kernel takes a request: its answer is sent in at most so many
datagrams, which fit the buffer. -/
def Takes (w : SockWorld K) (bytes : List UInt8) (w' : SockWorld K) : Prop :=
  ∃ answer groups, handles w.kernel (asked bytes) answer w'.kernel ∧
    Tells order (seqOf order bytes) [] answer groups.flatten ∧
    (∀ group ∈ groups, (datagram order group).length ≤ bufferSize) ∧
    groups.length ≤ most ∧ w'.queue = w.queue ++ groups ∧
    w'.interrupts = w.interrupts

/-- What the socket can do. A failed `send` may have reached the kernel, and a
failed `recv` may have lost datagrams, unless it was interrupted. -/
def sockStep (w : SockWorld K) :
    (op : SockOp) → SockAns op → SockWorld K → Prop
  | .send bytes, .ok (), w' => Takes order handles most w bytes w'
  | .send bytes, .error _, w' => w' = w ∨ Takes order handles most w bytes w'
  | .recv, .ok bytes, w' =>
      ∃ first, w.queue = first :: w'.queue ∧ bytes = datagram order first ∧
        w'.kernel = w.kernel ∧ w'.interrupts = w.interrupts
  | .recv, .error e, w' =>
      if e = Channel.eintr then
        w.interrupts = w'.interrupts + 1 ∧ w'.queue = w.queue ∧
          w'.kernel = w.kernel
      else w'.queue.Sublist w.queue ∧ w'.kernel = w.kernel ∧
        w'.interrupts = w.interrupts
  | .spin, never, _ => never.elim

/-- A request as one operation: answered by the kernel, or not answered for a
failure of the socket. -/
def kernelStep (k : K) :
    (op : ReqOp) → ReqAns op → K → Prop
  | .request m _, told, k' =>
      (∃ answer, handles k (asked m.buf) answer k' ∧ told = answer.result) ∨
      (∃ call errno context, told = .error (.syscall call errno context) ∧
        (call = "send" ∨ call = "recv")) ∧
        (k' = k ∨ ∃ answer, handles k (asked m.buf) answer k')

end Kernel

/-! ## One request -/

section Hear

variable {order : ByteOrder} {seq : UInt32} {dump : Bool}

/-- What answers another request is passed over. -/
theorem hear_stale
    {msgs : List NlMsg}
    (stale : ∀ m ∈ msgs, m.seq ≠ seq)
    (replies : List (List UInt8))
    (done : Bool) :
    hear order seq dump msgs replies done = .ok (replies, done) := by
  induction msgs with
  | nil => rfl
  | cons m msgs inductionHypothesis =>
      rw [hear, if_pos (stale m List.mem_cons_self)]
      exact inductionHypothesis fun m member =>
        stale m (List.mem_cons_of_mem _ member)

/-- Parts are collected. -/
theorem hear_parts
    {parts : List NlMsg}
    (isPart : ∀ m ∈ parts, m.Part seq)
    (done : Bool) :
    ∀ replies, hear order seq dump parts replies done =
      .ok (replies ++ parts.map NlMsg.payload, done) := by
  induction parts with
  | nil => simp [hear]
  | cons m parts inductionHypothesis =>
      intro replies
      have part := isPart m List.mem_cons_self
      have later := inductionHypothesis fun m member =>
        isPart m (List.mem_cons_of_mem _ member)
      rw [hear, if_neg (not_not_intro part.seq), if_neg part.ty.1,
        if_neg part.ty.2.1, if_neg part.ty.2.2]
      simp [part.multi, later]

/-- What is told at the end of an answer. -/
theorem hear_last
    {last : NlMsg}
    {entries : List (List UInt8)}
    {answer : Answer}
    (same : last.seq = seq)
    (ends : Ends order entries last answer)
    (done : Bool) :
    hear order seq dump [last] entries done = .ok (entries, true) ∧
        answer.result = .ok entries ∨
      ∃ err, hear order seq dump [last] entries done = .error err ∧
        answer.result = .error (rejected err) := by
  rw [hear, if_neg (not_not_intro same)]
  cases answer with
  | ack =>
      obtain ⟨rfl, isError, _, isZero⟩ := ends
      rw [if_pos isError, if_neg (not_not_intro isZero), hear]
      exact .inl ⟨rfl, rfl⟩
  | refused errno =>
      obtain ⟨isError, _, notZero, rfl, _⟩ := ends
      rw [if_pos isError, if_pos notZero]
      exact .inr ⟨_, rfl, rfl⟩
  | dump all =>
      obtain ⟨rfl, isDone⟩ := ends
      rw [if_neg (by rw [isDone]; decide), if_pos isDone, hear]
      exact .inl ⟨rfl, rfl⟩

private theorem Ends.complete
    {last : NlMsg}
    {entries : List (List UInt8)}
    {answer : Answer}
    (ends : Ends order entries last answer) :
    last.Complete seq := by
  intro _ isError
  cases answer with
  | ack => exact ends.2.2.1
  | refused errno => exact ends.2.1
  | dump all =>
      rw [ends.2] at isError
      cases isError

/-- Messages that answer no other request, or are parts of the answer. -/
theorem complete_of_ty
    {m : NlMsg}
    (harmless : m.seq ≠ seq ∨ m.Part seq) :
    m.Complete seq := by
  intro same isError
  rcases harmless with other | part
  · exact absurd same other
  · exact absurd isError part.ty.1

end Hear

section Request

open Prog

variable {K : Type} {order : ByteOrder}
  {handles : K → List UInt8 → Answer → K → Prop} {most : Nat} {w : SockWorld K}

/-- The datagrams on their way fit the buffer. -/
def Fit (order : ByteOrder) (queue : List (List NlMsg)) : Prop :=
  ∀ group ∈ queue, (datagram order group).length ≤ bufferSize

/-- To receive is to wait for what is on its way, and no loop goes on for too
long. -/
def Expects (w : SockWorld K) : SockOp → Prop
  | .send _ => True
  | .recv => w.queue ≠ []
  | .spin => False

/-- How often a `recv` can return before it has to wait. -/
def SockWorld.pending (w : SockWorld K) : Nat :=
  w.queue.length + w.interrupts

/-- Receiving takes datagrams off their way. -/
structure Received (w w' : SockWorld K) : Prop where
  kernel : w'.kernel = w.kernel
  queue : w'.queue.Sublist w.queue
  interrupts : w'.interrupts ≤ w.interrupts

private theorem Received.trans
    {w' w'' : SockWorld K}
    (first : Received w w')
    (second : Received w' w'') :
    Received w w'' where
  kernel := second.kernel.trans first.kernel
  queue := second.queue.trans first.queue
  interrupts := Nat.le_trans second.interrupts first.interrupts

private theorem Received.pending
    {w' : SockWorld K}
    (received : Received w w') :
    w'.pending ≤ w.pending :=
  Nat.add_le_add received.queue.length_le received.interrupts

/-- A datagram that fits is read from the buffer. -/
theorem scan_received
    {seq : UInt32}
    {dump : Bool}
    {group : List NlMsg}
    (fits : (datagram order group).length ≤ bufferSize)
    (complete : ∀ m ∈ group, m.Complete seq)
    (buf : List UInt8)
    (replies : List (List UInt8)) :
    scan order seq dump
        (datagram order group ++ buf.drop (datagram order group).length)
        (datagram order group).length replies =
      some (hear order seq dump group replies false) :=
  scan_datagram complete
    (Nat.lt_of_le_of_lt fits (by decide)) _ replies

/-- The answer to a request is received behind what is left of others. -/
theorem wp_receive
    {seq : UInt32}
    {dump : Bool}
    {answer : Answer}
    {Q : Option (Result (List (List UInt8))) → SockWorld K → Prop}
    (rounds : Nat) :
    ∀ {w : SockWorld K} (late groups : List (List NlMsg)) (buf : List UInt8)
      (replies : List (List UInt8)),
      w.queue = late ++ groups →
      w.pending < rounds →
      Fit order w.queue →
      (∀ group ∈ late, ∀ m ∈ group, m.seq ≠ seq) →
      Tells order seq replies answer groups.flatten →
      (∀ w', Received w w' → Q (some answer.result) w') →
      (∀ e w', Received w w' →
        Q (some (.error (.syscall "recv" e "netlink reply"))) w') →
      (receive order seq dump rounds buf replies).wp
        (.requiring Expects (sockStep order handles most)) w Q := by
  induction rounds with
  | zero =>
      intro w late groups buf replies _ enough
      exact absurd enough (Nat.not_lt_zero _)
  | succ rounds inductionHypothesis =>
      intro w late groups buf replies queued enough fit others tells fine failed
      have onTheWay : w.queue ≠ [] := by
        intro none
        rw [none] at queued
        obtain ⟨rfl, rfl⟩ := List.append_eq_nil_iff.mp queued.symm
        obtain ⟨parts, last, msgs, _⟩ := tells
        simp at msgs
      -- a round that the loop goes on after
      have again : ∀ {w' : SockWorld K} (late' groups' : List (List NlMsg)) buf'
          replies',
          Received w w' →
          w'.pending < w.pending →
          w'.queue = late' ++ groups' →
          (∀ group ∈ late', ∀ m ∈ group, m.seq ≠ seq) →
          Tells order seq replies' answer groups'.flatten →
          (receive order seq dump rounds buf' replies').wp
            (.requiring Expects (sockStep order handles most)) w' Q := by
        intro w' late' groups' buf' replies' received less queued' others' tells'
        exact inductionHypothesis late' groups' buf' replies' queued' (by omega)
          (fun group member => fit group (received.queue.subset member))
          others' tells' (fun w'' later => fine w'' (received.trans later))
          (fun e w'' later => failed e w'' (received.trans later))
      simp only [receive, bind_def, wp_bind]
      refine ⟨onTheWay, ?_⟩
      intro got w' step
      cases got with
      | error e =>
          simp only [wp_ret]
          simp only [sockStep] at step
          split at step
          · rename_i interrupted
            obtain ⟨fewer, same, sameKernel⟩ := step
            rw [if_pos interrupted]
            refine again late groups buf replies
              ⟨sameKernel, same ▸ List.Sublist.refl _, by omega⟩ ?_
              (same.trans queued) others tells
            simp only [SockWorld.pending, same]
            omega
          · rename_i broken
            obtain ⟨shorter, sameKernel, sameInterrupts⟩ := step
            rw [if_neg broken]
            exact failed e w' ⟨sameKernel, shorter, by omega⟩
      | ok bytes =>
          obtain ⟨first, taken, rfl, sameKernel, sameInterrupts⟩ := step
          have received : Received w w' := by
            refine ⟨sameKernel, ?_, by omega⟩
            rw [taken]
            exact List.sublist_cons_self _ _
          have less : w'.pending < w.pending := by
            simp only [SockWorld.pending, taken, sameInterrupts,
              List.length_cons]
            omega
          have fitsFirst := fit first (by rw [taken]; exact List.mem_cons_self)
          simp only [wp_ret]
          cases late with
          | cons group late =>
              obtain ⟨rfl, rest⟩ := List.cons.inj (taken.symm.trans queued)
              have stale := others first List.mem_cons_self
              rw [scan_received fitsFirst
                fun m member => complete_of_ty (.inl (stale m member))]
              rw [hear_stale stale]
              exact again late groups _ replies received less rest
                (fun group member => others group (List.mem_cons_of_mem _ member))
                tells
          | nil =>
              obtain ⟨parts, last, msgs, isPart, same, ends⟩ := tells
              cases groups with
              | nil => simp at msgs
              | cons group groups =>
                  obtain ⟨rfl, rest⟩ := List.cons.inj (taken.symm.trans queued)
                  rw [List.flatten_cons] at msgs
                  rcases List.eq_nil_or_concat groups.flatten with
                    isLast | ⟨front, back, shape⟩
                  · rw [isLast, List.append_nil] at msgs
                    subst msgs
                    have complete : ∀ m ∈ parts ++ [last], m.Complete seq := by
                      intro m member
                      rcases List.mem_append.mp member with part | isLast
                      · exact complete_of_ty (.inr (isPart m part))
                      · rw [List.mem_singleton.mp isLast]
                        exact ends.complete
                    rw [scan_received fitsFirst complete, hear_append,
                      hear_parts isPart]
                    have finished := fine w' received
                    rcases @hear_last order seq dump last _ _ same ends false with
                      ⟨told, result⟩ | ⟨err, told, result⟩
                    · rw [result] at finished
                      simp only [Except.bind, told]
                      exact finished
                    · rw [result] at finished
                      simp only [Except.bind, told]
                      exact finished
                  · rw [List.concat_eq_append] at shape
                    rw [shape, ← List.append_assoc] at msgs
                    obtain ⟨rfl, isBack⟩ := List.append_inj' msgs.symm rfl
                    obtain rfl := List.singleton_injective isBack
                    have isFirst : ∀ m ∈ first, m.Part seq := fun m member =>
                      isPart m (List.mem_append_left _ member)
                    rw [scan_received fitsFirst
                      fun m member => complete_of_ty (.inr (isFirst m member)),
                      hear_parts isFirst]
                    refine again [] groups _ _ received less rest
                      (fun group member => by cases member)
                      ⟨front, last, shape, fun m member =>
                        isPart m (List.mem_append_right _ member), same, ?_⟩
                    simpa using ends

/-- A request is asked under its number. -/
theorem asked_finish
    (m : MsgBuilder)
    (seq : UInt32) :
    asked (m.finish order seq) = asked m.buf ∧
      seqOf order (m.finish order seq) = seq := by
  have large := m.large
  have first := MsgBuilder.lengthField_inside order m
  have inHeader : ∀ word, (order.toBytes 4 word).length = 4 :=
    fun word => order.length_toBytes 4 word
  have second : 8 + (order.toBytes 4 seq.toNat).length ≤
      (patch m.buf 0 (order.toBytes 4 (UInt32.ofNat m.buf.length).toNat)).length := by
    rw [length_patch first, inHeader]
    omega
  refine ⟨?_, ?_⟩
  · unfold asked MsgBuilder.finish
    rw [take_patch (by omega) (Nat.le_refl 8),
      drop_patch second (by rw [inHeader]),
      drop_patch first (by rw [inHeader]; omega), List.drop_take, List.drop_take,
      drop_patch first (by rw [inHeader])]
  · have front : ((patch m.buf 0
        (order.toBytes 4 (UInt32.ofNat m.buf.length).toNat)).take 8).length = 8 := by
      rw [List.length_take, length_patch first]
      omega
    have both : ((patch m.buf 0
        (order.toBytes 4 (UInt32.ofNat m.buf.length).toNat)).take 8 ++
          order.toBytes 4 seq.toNat).length = 12 := by
      rw [List.length_append, front, inHeader]
    rw [seqOf, MsgBuilder.finish, patch, List.take_left' both,
      List.drop_left' front, order.fromBytes_toBytes seq.toNat_lt,
      UInt32.ofNat_toNat]

/-- What is on the way to a socket: answers to requests before. -/
structure Quiet (order : ByteOrder) (seq : UInt32) (w : SockWorld K) : Prop where
  fit : Fit order w.queue
  earlier : ∀ group ∈ w.queue, ∀ m ∈ group, m.seq.toNat ≤ seq.toNat

private theorem Quiet.received
    {seq : UInt32}
    {w' : SockWorld K}
    (quiet : Quiet order seq w)
    (received : Received w w') :
    Quiet order seq w' where
  fit group member := quiet.fit group (received.queue.subset member)
  earlier group member := quiet.earlier group (received.queue.subset member)

/-- What the kernel sends for a request has its number. -/
theorem Tells.seq
    {seq : UInt32}
    {before : List (List UInt8)}
    {answer : Answer}
    {msgs : List NlMsg}
    (tells : Tells order seq before answer msgs) :
    ∀ m ∈ msgs, m.seq = seq := by
  obtain ⟨parts, last, rfl, isPart, same, _⟩ := tells
  intro m member
  rcases List.mem_append.mp member with part | isLast
  · exact (isPart m part).seq
  · rw [List.mem_singleton.mp isLast]
    exact same

/-- A request that the kernel has taken is the next one on the way. -/
theorem Quiet.takes
    {seq : UInt32}
    {m : MsgBuilder}
    {w' : SockWorld K}
    (quiet : Quiet order seq w)
    (next : (seq + 1).toNat = seq.toNat + 1)
    (takes : Takes order handles most w (m.finish order (seq + 1)) w') :
    Quiet order (seq + 1) w' ∧ w'.pending ≤ w.pending + most ∧
      ∃ answer groups, handles w.kernel (asked m.buf) answer w'.kernel ∧
        w'.queue = w.queue ++ groups ∧
        Tells order (seq + 1) [] answer groups.flatten := by
  obtain ⟨answer, groups, handled, tells, fit, few, queued, interrupts⟩ := takes
  rw [(asked_finish m (seq + 1)).1] at handled
  rw [(asked_finish m (seq + 1)).2] at tells
  refine ⟨⟨?_, ?_⟩, ?_, answer, groups, handled, queued, tells⟩
  · intro group member
    rw [queued] at member
    rcases List.mem_append.mp member with old | new
    · exact quiet.fit group old
    · exact fit group new
  · intro group member m inside
    rw [queued] at member
    rcases List.mem_append.mp member with old | new
    · have := quiet.earlier group old m inside
      omega
    · rw [tells.seq m (List.mem_flatten_of_mem new inside)]
  · simp only [SockWorld.pending, queued, interrupts, List.length_append]
    omega

/-- One request is answered by the kernel, or fails. -/
theorem wp_sendRecv
    {seq : UInt32}
    {m : MsgBuilder}
    {dump : Bool}
    {rounds : Nat}
    (enough : w.pending + most < rounds)
    (quiet : Quiet order seq w)
    (next : (seq + 1).toNat = seq.toNat + 1) :
    (sendRecv order rounds seq m dump).wp
      (.requiring Expects (sockStep order handles most)) w
      fun told w' => Quiet order (seq + 1) w' ∧ w'.pending ≤ w.pending + most ∧
        ∃ answer, told = some answer ∧
          kernelStep handles w.kernel (.request m dump) answer w'.kernel := by
  simp only [sendRecv, bind_def, wp_bind]
  refine ⟨trivial, ?_⟩
  intro sent w' step
  cases sent with
  | error e =>
      simp only [wp_ret, pure_def]
      rcases step with rfl | takes
      · refine ⟨⟨quiet.fit, fun group member m inside => ?_⟩, by omega, _, rfl,
          .inr ⟨⟨"send", e, "netlink request", rfl, .inl rfl⟩, .inl rfl⟩⟩
        have := quiet.earlier group member m inside
        omega
      · obtain ⟨quiet', few, answer, groups, handled, _, _⟩ :=
          quiet.takes next takes
        exact ⟨quiet', few, _, rfl,
          .inr ⟨⟨"send", e, "netlink request", rfl, .inl rfl⟩, .inr ⟨answer, handled⟩⟩⟩
  | ok _ =>
      simp only [wp_ret]
      obtain ⟨quiet', few, answer, groups, handled, queued, tells⟩ :=
        quiet.takes next step
      refine wp_receive rounds w.queue groups _ [] queued (by omega) quiet'.fit ?_
        tells ?_ ?_
      · intro group member m inside same
        have := quiet.earlier group member m inside
        rw [same] at this
        omega
      · intro w'' received
        exact ⟨quiet'.received received, received.pending.trans few, _, rfl,
          .inl ⟨answer, received.kernel ▸ handled, rfl⟩⟩
      · intro e w'' received
        exact ⟨quiet'.received received, received.pending.trans few, _, rfl,
          .inr ⟨⟨"recv", e, "netlink reply", rfl, .inr rfl⟩,
            .inr ⟨answer, received.kernel ▸ handled⟩⟩⟩

/-- Request after request. -/
theorem wp_overSocket
    {α : Type}
    {rounds : Nat}
    (client : Prog ReqOp ReqAns α) :
    ∀ {w : SockWorld K} {seq : UInt32} {n : Nat},
      client.AtMost n → seq.toNat + n < 2 ^ 32 → w.pending + n * most < rounds →
      Quiet order seq w →
      (overSocket order rounds seq client).wp
        (.requiring Expects (sockStep order handles most)) w
        fun told w' => ∃ value, told = some value ∧
          Exec (kernelStep handles) client w.kernel value w'.kernel := by
  induction client with
  | ret value =>
      intro w seq n _ _ _ _
      exact ⟨value, rfl, .ret value _⟩
  | call op next inductionHypothesis =>
      intro w seq n within room enough quiet
      obtain ⟨m, dump⟩ := op
      cases n with
      | zero => exact within.elim
      | succ n =>
          rw [Nat.succ_mul] at enough
          have moves : (seq + 1).toNat = seq.toNat + 1 := by
            rw [UInt32.toNat_add]
            exact Nat.mod_eq_of_lt (by simp only [UInt32.toNat_one]; omega)
          simp only [overSocket, bind_def, wp_bind]
          refine wp_mono ?_ (wp_sendRecv (by omega) quiet moves)
          rintro _ w' ⟨quiet', few, answer, rfl, stepped⟩
          refine wp_mono ?_ (inductionHypothesis answer (within answer)
            (by omega) (by omega) quiet')
          rintro _ w'' ⟨value, rfl, rest⟩
          exact ⟨value, rfl, .call stepped rest⟩

/--
Over a socket, each request of a client is as good as one operation of the
kernel: it gets the kernel's answer to it, whole and no other, or the failure of
its own `send` or `recv`, and never panics. The client waits only for datagrams
that are on their way, and `send_recv` does not go on for longer than these and
the interruptions last.
-/
theorem requests_are_atomic
    {α : Type}
    {client : Prog ReqOp ReqAns α}
    {n rounds : Nat}
    {seq : UInt32}
    (within : client.AtMost n)
    (room : seq.toNat + n < 2 ^ 32)
    (enough : w.pending + n * most < rounds)
    (quiet : Quiet order seq w) :
    (∀ told w',
      Exec (sockStep order handles most) (overSocket order rounds seq client) w
          told w' →
        ∃ value, told = some value ∧
          Exec (kernelStep handles) client w.kernel value w'.kernel) ∧
      ∀ op next w',
        Reaches (sockStep order handles most)
            (overSocket order rounds seq client) w (.call op next) w' →
          Expects w' op := by
  exact ⟨fun _ _ execution =>
      execution.of_requiring (wp_overSocket client within room enough quiet),
    fun _ _ _ reached =>
      reached.requires (wp_overSocket client within room enough quiet)⟩

end Request

/-! ### An exchange -/

/-- The datagrams of a dump, with one entry in each. -/
def dumped (seq : UInt32) (entries : List (List UInt8)) : List (List NlMsg) :=
  entries.map (fun entry => [⟨16, nlmFMulti, seq, 0, entry⟩]) ++
    [[⟨nlmsgDone, nlmFMulti, seq, 0, [0, 0, 0, 0]⟩]]

private theorem tells_dumped
    (order : ByteOrder)
    (seq : UInt32)
    (entries : List (List UInt8)) :
    Tells order seq [] (.dump entries) (dumped seq entries).flatten := by
  refine ⟨entries.map fun entry => ⟨16, nlmFMulti, seq, 0, entry⟩,
    ⟨nlmsgDone, nlmFMulti, seq, 0, [0, 0, 0, 0]⟩, ?_, ?_, rfl, ?_, rfl⟩
  · rw [dumped, List.flatten_append, ← List.flatMap_def, ← List.map_eq_flatMap]
    rfl
  · intro m member
    obtain ⟨entry, _, rfl⟩ := List.mem_map.mp member
    exact ⟨rfl, by simp [nlmsgError, nlmsgDone, nlmsgNoop], by simp [nlmFMulti]⟩
  · simp [Function.comp_def]

/-- A kernel that answers every request with a dump. -/
def Dumps (entries : List (List UInt8)) :
    Unit → List UInt8 → Answer → Unit → Prop :=
  fun _ _ answer _ => answer = .dump entries

/-- A socket that only interrupts. -/
def usualAnswer (order : ByteOrder) (w : SockWorld Unit) :
    (op : SockOp) → Option (SockAns op)
  | .send _ => some (.ok ())
  | .recv =>
      if w.interrupts = 0 then
        w.queue.head?.map fun group => .ok (datagram order group)
      else some (.error Channel.eintr)
  | .spin => none

/-- What becomes of it. -/
def usualMove (order : ByteOrder) (entries : List (List UInt8))
    (w : SockWorld Unit) : (op : SockOp) → SockAns op → Option (SockWorld Unit)
  | .send bytes, _ =>
      some { w with queue := w.queue ++ dumped (seqOf order bytes) entries }
  | .recv, .ok _ => some { w with queue := w.queue.tail }
  | .recv, .error _ => some { w with interrupts := w.interrupts - 1 }
  | .spin, _ => none

private theorem step_usual
    {order : ByteOrder}
    {entries : List (List UInt8)}
    (fit : ∀ seq, Fit order (dumped seq entries))
    (w : SockWorld Unit)
    (op : SockOp)
    (answer : SockAns op)
    (w' : SockWorld Unit)
    (given : usualAnswer order w op = some answer)
    (moved : usualMove order entries w op answer = some w') :
    sockStep order (Dumps entries) (entries.length + 1) w op answer w' := by
  cases op with
  | send bytes =>
      obtain rfl := Option.some.inj given
      obtain rfl := Option.some.inj moved
      exact ⟨.dump entries, dumped (seqOf order bytes) entries, rfl,
        tells_dumped order _ entries, fit _, by simp [dumped], rfl, rfl⟩
  | recv =>
      simp only [usualAnswer] at given
      split at given
      · obtain ⟨group, isFirst, rfl⟩ := Option.map_eq_some_iff.mp given
        obtain rfl := Option.some.inj moved
        exact ⟨group, (List.cons_head?_tail isFirst).symm, rfl, rfl, rfl⟩
      · rename_i more
        obtain rfl := Option.some.inj given
        obtain rfl := Option.some.inj moved
        exact ⟨by simp only; omega, rfl, rfl⟩
  | spin => exact answer.elim

private theorem fit_dumped
    {order : ByteOrder}
    {entries : List (List UInt8)}
    (short : ∀ entry ∈ entries, entry.length ≤ 32000)
    (seq : UInt32) :
    Fit order (dumped seq entries) := by
  intro group member
  rcases List.mem_append.mp member with isPart | last
  · obtain ⟨entry, isEntry, rfl⟩ := List.mem_map.mp isPart
    have := short entry isEntry
    simp only [datagram, List.flatMap_singleton, length_padded_bytes, nlAlign,
      bufferSize]
    omega
  · rw [List.mem_singleton.mp last]
    simp [datagram, length_padded_bytes, nlAlign, bufferSize]

theorem exec_of_exchange
    {α : Type}
    {order : ByteOrder}
    {entries : List (List UInt8)}
    {told : SockAct α}
    {w : SockWorld Unit}
    {test : α × SockWorld Unit → Bool}
    (short : ∀ entry ∈ entries, entry.length ≤ 32000)
    (found : (Prog.drive (usualAnswer order) (usualMove order entries) told
      w).any test = true) :
    ∃ value w', Prog.Exec (sockStep order (Dumps entries) (entries.length + 1))
        told w value w' ∧ test (value, w') = true :=
  Prog.Exec.of_drive_any (step_usual (fit_dumped short)) found

/-- An acknowledgement of the first request that was not received. -/
def lateAck : NlMsg where
  ty := nlmsgError
  flags := 0
  seq := 1
  pid := 0
  payload := [0, 0, 0, 0]

/-- A request for a dump. -/
def dumpRequest : Prog ReqOp ReqAns (Result (List (List UInt8))) :=
  Prog.perform (.request (MsgBuilder.new .little 18 0x301) true)

theorem late_ack_is_passed_over :
    ∃ w', Prog.Exec (sockStep .little (Dumps [[1], [2]]) 3)
        (overSocket .little 6 1 dumpRequest) ⟨(), [[lateAck]], 1⟩
        (some (.ok [[1], [2]])) w' ∧
      Prog.Exec (kernelStep (Dumps [[1], [2]])) dumpRequest ()
        (.ok [[1], [2]]) w'.kernel := by
  have exchanged :
      (Prog.drive (usualAnswer .little) (usualMove .little [[1], [2]])
        (overSocket .little 6 1 dumpRequest) ⟨(), [[lateAck]], 1⟩).any
          (fun ended => ended.1 = some (.ok [[1], [2]])) = true := by
    decide +kernel
  obtain ⟨told, w', execution, isTold⟩ :=
    exec_of_exchange (by decide) exchanged
  obtain rfl := of_decide_eq_true isTold
  have within : dumpRequest.AtMost 1 := fun _ => trivial
  have quiet : Quiet .little 1 (⟨(), [[lateAck]], 1⟩ : SockWorld Unit) := by
    constructor
    · intro group member
      rw [List.mem_singleton.mp member]
      decide
    · intro group member m inside
      rw [List.mem_singleton.mp member] at inside
      rw [List.mem_singleton.mp inside]
      decide
  obtain ⟨value, same, atomic⟩ :=
    (requests_are_atomic within (by decide) (by decide) quiet).1 _ w' execution
  obtain rfl := Option.some.inj same
  exact ⟨w', execution, atomic⟩

end Netlink

end Myrun
