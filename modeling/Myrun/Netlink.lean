import Myrun.ByteOrder

namespace Myrun

/-!
# Netlink messages

`MsgBuilder` and `parse_attrs` of `src/sys/netlink.rs`: a message is built by
appending attributes and patching the lengths of nested ones, and a stream of
attributes is taken apart one level at a time. Every access to a buffer that
can be out of range is checked here, and `none` is a panic.
-/

namespace Netlink

/-- `nl_align`. -/
def nlAlign (n : Nat) : Nat :=
  n + 3 - (n + 3) % 4

/-- `while buf.len() % 4 != 0 { buf.push(0) }`. -/
def pad (buf : List UInt8) : List UInt8 :=
  if buf.length % 4 ≠ 0 then pad (buf ++ [0]) else buf
termination_by (4 - buf.length % 4) % 4
decreasing_by
  simp only [List.length_append, List.length_singleton]
  omega

/-- How many zeros that takes. -/
def padding (n : Nat) : Nat :=
  (4 - n % 4) % 4

theorem pad_eq
    (buf : List UInt8) :
    pad buf = buf ++ List.replicate (padding buf.length) 0 := by
  induction buf using pad.induct with
  | case1 buf unaligned inductionHypothesis =>
      have one :
          padding buf.length = 1 + padding (buf ++ [0]).length := by
        simp only [padding, List.length_append, List.length_singleton]
        omega
      rw [pad, if_pos unaligned, inductionHypothesis, one,
        List.replicate_add]
      simp
  | case2 buf aligned =>
      have none : padding buf.length = 0 := by
        simp only [padding]
        omega
      rw [pad, if_neg aligned, none]
      simp

private theorem pad_aligned
    (buf : List UInt8) :
    4 ∣ (pad buf).length := by
  simp only [pad_eq, List.length_append, List.length_replicate, padding]
  omega

private theorem length_le_pad
    (buf : List UInt8) :
    buf.length ≤ (pad buf).length := by
  simp [pad_eq]

theorem nlAlign_eq
    (n : Nat) :
    nlAlign n = n + padding n := by
  simp only [nlAlign, padding]
  omega

/-! ## Building a message -/

/-- A request under construction: aligned, and with room for its header. -/
structure MsgBuilder where
  buf : List UInt8
  aligned : 4 ∣ buf.length
  large : 16 ≤ buf.length

/-- `buf[off..off + bytes.len()].copy_from_slice(bytes)`. -/
def patch (buf : List UInt8) (off : Nat) (bytes : List UInt8) :
    List UInt8 :=
  buf.take off ++ bytes ++ buf.drop (off + bytes.length)

theorem length_patch
    {buf bytes : List UInt8}
    {off : Nat}
    (inside : off + bytes.length ≤ buf.length) :
    (patch buf off bytes).length = buf.length := by
  simp only [patch, List.length_append, List.length_take, List.length_drop]
  omega

/-- Bytes are replaced by as many others. -/
theorem patch_append
    (before after : List UInt8)
    {old new : List UInt8}
    (same : old.length = new.length) :
    patch (before ++ old ++ after) before.length new =
      before ++ new ++ after := by
  have drop :
      (before ++ old ++ after).drop (before.length + new.length) = after :=
    List.drop_left' (by simp [same])
  rw [patch, drop, List.append_assoc before old, List.take_left]

/-- What comes after the bytes that are replaced stays. -/
theorem drop_patch
    {buf bytes : List UInt8}
    {off n : Nat}
    (inside : off + bytes.length ≤ buf.length)
    (later : off + bytes.length ≤ n) :
    (patch buf off bytes).drop n = buf.drop n := by
  have length : (buf.take off ++ bytes).length = off + bytes.length := by
    simp only [List.length_append, List.length_take]
    omega
  obtain ⟨k, rfl⟩ := Nat.exists_eq_add_of_le later
  rw [patch, ← length, ← List.drop_drop, List.drop_left, length,
    List.drop_drop]

/-- What comes before the bytes that are replaced stays. -/
theorem take_patch
    {buf bytes : List UInt8}
    {off n : Nat}
    (inside : off ≤ buf.length)
    (earlier : n ≤ off) :
    (patch buf off bytes).take n = buf.take n := by
  rw [patch, List.append_assoc,
    List.take_append_of_le_length (by simp only [List.length_take]; omega),
    List.take_take, Nat.min_eq_left earlier]

namespace MsgBuilder

/-- `MsgBuilder::new`. -/
def new (order : ByteOrder) (ty flags : UInt16) : MsgBuilder where
  buf :=
    patch (patch (List.replicate 16 0) 4 (order.toBytes 2 ty.toNat)) 6
      (order.toBytes 2 flags.toNat)
  aligned := by simp [length_patch]
  large := by simp [length_patch]

/-- `MsgBuilder::payload`: the bytes of the header, padded. -/
def payload (m : MsgBuilder) (bytes : List UInt8) : MsgBuilder where
  buf := pad (m.buf ++ bytes)
  aligned := pad_aligned _
  large := by
    have large := m.large
    have longer := length_le_pad (m.buf ++ bytes)
    simp only [List.length_append] at longer
    omega

/-- `MsgBuilder::attr`. The length is truncated to 16 bits. -/
def attr (order : ByteOrder) (m : MsgBuilder) (ty : UInt16)
    (data : List UInt8) : MsgBuilder :=
  m.payload
    (order.toBytes 2 (UInt16.ofNat (4 + data.length)).toNat ++
      order.toBytes 2 ty.toNat ++ data)

/-- `MsgBuilder::attr_str`. -/
def attrStr (order : ByteOrder) (m : MsgBuilder) (ty : UInt16)
    (s : List UInt8) : MsgBuilder :=
  m.attr order ty (s ++ [0])

/-- `MsgBuilder::begin_nested`, with the offset for `end_nested`. -/
def beginNested (order : ByteOrder) (m : MsgBuilder) (ty : UInt16) :
    MsgBuilder × Nat :=
  ({ buf := m.buf ++ order.toBytes 2 0 ++ order.toBytes 2 ty.toNat
     aligned := by
      have aligned := m.aligned
      simp only [List.length_append, ByteOrder.length_toBytes]
      omega
     large := by
      have large := m.large
      simp only [List.length_append, ByteOrder.length_toBytes]
      omega },
    m.buf.length)

/-- `MsgBuilder::end_nested`. -/
def endNested (order : ByteOrder) (m : MsgBuilder) (off : Nat) :
    Option MsgBuilder :=
  if inside : off + 2 ≤ m.buf.length then
    some
      { buf :=
          patch m.buf off
            (order.toBytes 2 (UInt16.ofNat (m.buf.length - off)).toNat)
        aligned := by
          rw [length_patch (by simpa using inside)]
          exact m.aligned
        large := by
          rw [length_patch (by simpa using inside)]
          exact m.large }
  else none

/-- `MsgBuilder::finish`. -/
def finish (order : ByteOrder) (m : MsgBuilder) (seq : UInt32) :
    List UInt8 :=
  patch
    (patch m.buf 0 (order.toBytes 4 (UInt32.ofNat m.buf.length).toNat)) 8
    (order.toBytes 4 seq.toNat)

@[simp] theorem length_new
    (order : ByteOrder)
    (ty flags : UInt16) :
    (new order ty flags).buf.length = 16 := by
  simp [new, length_patch]

/-- There is room for the length. -/
theorem lengthField_inside
    (order : ByteOrder)
    (m : MsgBuilder) :
    0 + (order.toBytes 4 (UInt32.ofNat m.buf.length).toNat).length ≤
      m.buf.length := by
  have large := m.large
  rw [ByteOrder.length_toBytes]
  omega

@[simp] theorem length_finish
    (order : ByteOrder)
    (m : MsgBuilder)
    (seq : UInt32) :
    (m.finish order seq).length = m.buf.length := by
  have large := m.large
  have first := lengthField_inside order m
  rw [finish, length_patch, length_patch first]
  rw [length_patch first, ByteOrder.length_toBytes]
  omega

/-- The total length is in the first four bytes. -/
theorem finish_length_field
    (order : ByteOrder)
    (m : MsgBuilder)
    (seq : UInt32) :
    (m.finish order seq).take 4 =
      order.toBytes 4 (UInt32.ofNat m.buf.length).toNat := by
  have large := m.large
  have first := lengthField_inside order m
  rw [finish, take_patch (by rw [length_patch first]; omega) (by decide)]
  exact List.take_left' (by simp)

/-- What follows the message header is as it was built. -/
theorem drop_finish
    (order : ByteOrder)
    (m : MsgBuilder)
    (seq : UInt32)
    {n : Nat}
    (later : 16 ≤ n) :
    (m.finish order seq).drop n = m.buf.drop n := by
  have large := m.large
  have first := lengthField_inside order m
  have second :
      8 + (order.toBytes 4 seq.toNat).length ≤
        (patch m.buf 0
          (order.toBytes 4 (UInt32.ofNat m.buf.length).toNat)).length := by
    rw [length_patch first, ByteOrder.length_toBytes]
    omega
  have inHeader : ∀ word, (order.toBytes 4 word).length = 4 :=
    fun word => order.length_toBytes 4 word
  rw [finish, drop_patch second (by rw [inHeader]; omega),
    drop_patch first (by rw [inHeader]; omega)]

end MsgBuilder

/-! ## Taking a stream apart -/

/-- One parsed attribute: its data, and where they lie in the input. -/
structure Attr where
  ty : UInt16
  offset : Nat
  data : List UInt8
  deriving Repr, DecidableEq

/-- `&buf[start..stop]`. -/
def slice (buf : List UInt8) (start stop : Nat) : Option (List UInt8) :=
  if start ≤ stop ∧ stop ≤ buf.length then some ((buf.take stop).drop start)
  else none

/-- What one round of `parse_attrs` finds, and where the next one begins. -/
structure Round where
  found : Option Attr
  next : Option (List UInt8 × Nat)
  deriving Repr, DecidableEq

/-- The loop ends without another attribute. -/
def Round.done : Round :=
  { found := none, next := none }

/-- One round of `parse_attrs`; `offset` is where `buf` lies in the input. -/
def parseRound (order : ByteOrder) (buf : List UInt8) (offset : Nat) :
    Option Round :=
  if buf.length < 4 then some .done
  else do
    let len := order.fromBytes [← buf[0]?, ← buf[1]?]
    let ty := UInt16.ofNat (order.fromBytes [← buf[2]?, ← buf[3]?])
    if len < 4 ∨ buf.length < len then some .done
    else do
      let data ← slice buf 4 len
      let found := some { ty, offset := offset + 4, data }
      let step := nlAlign len
      if buf.length ≤ step then some { found, next := none }
      else do
        let rest ← slice buf step buf.length
        some { found, next := some (rest, offset + step) }

/-- The loop of `parse_attrs`; it has no result when the fuel is used up. -/
def parseLoop (order : ByteOrder) :
    Nat → List UInt8 → Nat → List Attr → Option (List Attr)
  | 0, _, _, _ => none
  | fuel + 1, buf, offset, out => do
      let round ← parseRound order buf offset
      let out := out ++ round.found.toList
      match round.next with
      | none => some out
      | some (rest, offset) => parseLoop order fuel rest offset out

/-- `parse_attrs`. -/
def parseAttrs (order : ByteOrder) (buf : List UInt8) :
    Option (List Attr) :=
  parseLoop order (buf.length + 1) buf 0 []

/-- An attribute's length field, type and data. -/
def record (order : ByteOrder) (ty : UInt16) (data : List UInt8) :
    List UInt8 :=
  order.toBytes 2 (UInt16.ofNat (4 + data.length)).toNat ++
    order.toBytes 2 ty.toNat ++ data

@[simp] theorem length_record
    (order : ByteOrder)
    (ty : UInt16)
    (data : List UInt8) :
    (record order ty data).length = 4 + data.length := by
  simp only [record, List.length_append, ByteOrder.length_toBytes]

/-! ## Arbitrary bytes -/

/-- The data are a slice of the input, at the offset. -/
structure Attr.Lies (input : List UInt8) (a : Attr) : Prop where
  inside : a.offset + a.data.length ≤ input.length
  same : a.data = (input.drop a.offset).take a.data.length

/-- What a round finds lies in its buffer, and it goes on further right. -/
structure Round.Sound (buf : List UInt8) (offset : Nat) (round : Round) :
    Prop where
  found : ∀ a ∈ round.found, ∃ start,
    a.offset = offset + start ∧ start + a.data.length ≤ buf.length ∧
      a.data = (buf.drop start).take a.data.length
  next : ∀ rest offset', round.next = some (rest, offset') →
    ∃ step, 0 < step ∧ step < buf.length ∧ rest = buf.drop step ∧
      offset' = offset + step

private theorem Round.done_sound
    (buf : List UInt8)
    (offset : Nat) :
    Round.done.Sound buf offset :=
  ⟨fun _ found => (nomatch found), fun _ _ next => (nomatch next)⟩

/-- A round never indexes out of range. -/
theorem parseRound_sound
    (order : ByteOrder)
    (buf : List UInt8)
    (offset : Nat) :
    ∃ round, parseRound order buf offset = some round ∧
      round.Sound buf offset := by
  unfold parseRound
  split
  · exact ⟨_, rfl, Round.done_sound buf offset⟩
  · rename_i enough
    have byte : ∀ i < 4, ∃ b, buf[i]? = some b :=
      fun i small => ⟨_, List.getElem?_eq_getElem (by omega)⟩
    obtain ⟨b₀, zero⟩ := byte 0 (by decide)
    obtain ⟨b₁, one⟩ := byte 1 (by decide)
    obtain ⟨b₂, two⟩ := byte 2 (by decide)
    obtain ⟨b₃, three⟩ := byte 3 (by decide)
    simp only [zero, one, two, three, Option.bind_eq_bind, Option.bind_some]
    generalize order.fromBytes [b₀, b₁] = len
    split
    · exact ⟨_, rfl, Round.done_sound buf offset⟩
    · rename_i fits
      have data : slice buf 4 len = some ((buf.take len).drop 4) := by
        rw [slice, if_pos (by omega)]
      have found :
          ∃ start, offset + 4 = offset + start ∧
            start + ((buf.take len).drop 4).length ≤ buf.length ∧
            (buf.take len).drop 4 =
              (buf.drop start).take ((buf.take len).drop 4).length := by
        refine ⟨4, rfl, ?_, ?_⟩
        · simp only [List.length_drop, List.length_take]
          omega
        · simp only [List.length_drop, List.length_take, List.drop_take]
          congr 1
          omega
      simp only [data, Option.bind_some]
      split
      · refine ⟨_, rfl, ?_, fun _ _ next => nomatch next⟩
        intro a isFound
        cases isFound
        exact found
      · rename_i more
        have rest :
            slice buf (nlAlign len) buf.length =
              some (buf.drop (nlAlign len)) := by
          rw [slice, if_pos (by omega), List.take_length]
        simp only [rest, Option.bind_some]
        refine ⟨_, rfl, ?_, ?_⟩
        · intro a isFound
          cases isFound
          exact found
        · intro rest' offset' next
          cases next
          refine ⟨nlAlign len, ?_, by omega, rfl, rfl⟩
          rw [nlAlign_eq]
          omega

/-- The loop ends, and every attribute lies in the input. -/
theorem parseLoop_sound
    (order : ByteOrder)
    (input : List UInt8)
    (fuel : Nat) :
    ∀ {offset : Nat} {out : List Attr},
      (input.drop offset).length < fuel →
      offset ≤ input.length →
      (∀ a ∈ out, a.Lies input) →
      ∃ found, parseLoop order fuel (input.drop offset) offset out =
        some found ∧ ∀ a ∈ found, a.Lies input := by
  induction fuel with
  | zero =>
      intro offset out short
      omega
  | succ fuel inductionHypothesis =>
      intro offset out short inside lie
      obtain ⟨round, parsed, sound⟩ :=
        parseRound_sound order (input.drop offset) offset
      have lie' : ∀ a ∈ out ++ round.found.toList, a.Lies input := by
        intro a member
        rcases List.mem_append.mp member with old | new
        · exact lie a old
        · obtain ⟨start, at_, fits, same⟩ :=
            sound.found a (by simpa using new)
          simp only [List.length_drop] at fits
          refine ⟨by omega, ?_⟩
          rw [at_, ← List.drop_drop]
          exact same
      simp only [parseLoop, parsed, Option.bind_eq_bind, Option.bind_some]
      split
      · exact ⟨_, rfl, lie'⟩
      · rename_i rest offset' next
        obtain ⟨step, positive, short', rfl, rfl⟩ := sound.next _ _ next
        rw [List.drop_drop]
        simp only [List.length_drop] at short short'
        exact inductionHypothesis
          (by simp only [List.length_drop]; omega) (by omega) lie'

/-- `parse_attrs` returns slices of its input, whatever the input. -/
theorem parseAttrs_sound
    (order : ByteOrder)
    (input : List UInt8) :
    ∃ found, parseAttrs order input = some found ∧
      ∀ a ∈ found, a.Lies input := by
  have sound := @parseLoop_sound order input (input.length + 1) 0 []
    (by simp) (Nat.zero_le _) (fun _ member => nomatch member)
  simpa only [parseAttrs, List.drop_zero] using sound

/-! ## Well-formed records -/

/-- Nothing is found in an empty buffer. -/
theorem parseLoop_nil
    (order : ByteOrder)
    {fuel : Nat}
    (enough : 0 < fuel)
    (offset : Nat)
    (out : List Attr) :
    parseLoop order fuel [] offset out = some out := by
  obtain ⟨fuel, rfl⟩ := Nat.exists_eq_succ_of_ne_zero (by omega : fuel ≠ 0)
  simp [parseLoop, parseRound, Round.done]

/-- A round finds the record at the front of the buffer. -/
theorem parseRound_record
    (order : ByteOrder)
    (ty : UInt16)
    {data : List UInt8}
    (sized : 4 + data.length < 65536)
    (after : List UInt8)
    (offset : Nat) :
    parseRound order (record order ty data ++ after) offset =
      some
        { found := some { ty, offset := offset + 4, data }
          next :=
            if 4 + data.length + after.length ≤ nlAlign (4 + data.length) then
              none
            else
              some
                (after.drop (padding (4 + data.length)),
                  offset + nlAlign (4 + data.length)) } := by
  have small : (UInt16.ofNat (4 + data.length)).toNat = 4 + data.length := by
    rw [UInt16.toNat_ofNat']
    exact Nat.mod_eq_of_lt sized
  obtain ⟨l₀, l₁, length⟩ := order.toBytes_two (4 + data.length)
  obtain ⟨t₀, t₁, type⟩ := order.toBytes_two ty.toNat
  have lengthRead : order.fromBytes [l₀, l₁] = 4 + data.length := by
    rw [← length]
    exact order.fromBytes_toBytes sized
  have typeRead : UInt16.ofNat (order.fromBytes [t₀, t₁]) = ty := by
    rw [← type, order.fromBytes_toBytes ty.toNat_lt]
    exact UInt16.ofNat_toNat
  have bytes :
      record order ty data ++ after = l₀ :: l₁ :: t₀ :: t₁ :: (data ++ after) := by
    simp only [record, small, length, type, List.cons_append,
      List.nil_append]
  have total :
      (l₀ :: l₁ :: t₀ :: t₁ :: (data ++ after)).length =
        4 + data.length + after.length := by
    simp only [List.length_cons, List.length_append]
    omega
  have found :
      slice (l₀ :: l₁ :: t₀ :: t₁ :: (data ++ after)) 4 (4 + data.length) =
        some data := by
    rw [slice, if_pos (by omega), Nat.add_comm 4]
    simp
  rw [bytes]
  unfold parseRound
  rw [if_neg (by omega)]
  simp only [List.getElem?_cons_zero, List.getElem?_cons_succ,
    Option.bind_eq_bind, Option.bind_some, lengthRead, typeRead, total, found]
  rw [if_neg (by omega)]
  split
  · rfl
  · rename_i more
    have rest :
        slice (l₀ :: l₁ :: t₀ :: t₁ :: (data ++ after))
            (nlAlign (4 + data.length)) (4 + data.length + after.length) =
          some (after.drop (padding (4 + data.length))) := by
      rw [slice, if_pos (by omega), ← total, List.take_length, nlAlign_eq,
        ← List.drop_drop, Nat.add_comm 4]
      simp
    simp only [rest, Option.bind_some]

end Netlink

end Myrun
