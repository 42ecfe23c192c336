import Myrun.Netlink

namespace Myrun

/-!
# Trees of attributes

What `attr`, `begin_nested` and `end_nested` of `src/sys/netlink.rs` write for
a tree of attributes, and that `parse_attrs` finds each level of the tree again.
-/

namespace Netlink

/-- A family-specific header (`ifinfomsg`, `ifaddrmsg`, `rtmsg`). -/
structure FamilyHeader where
  bytes : List UInt8
  aligned : 4 ∣ bytes.length

/-- An attribute with its data, or with a header and attributes of its own. -/
inductive Attribute where
  | leaf (ty : UInt16) (data : List UInt8)
  | nested (ty : UInt16) (header : Option FamilyHeader)
      (attrs : List Attribute)

/-- The bytes of an optional header. -/
def headerBytes : Option FamilyHeader → List UInt8
  | none => []
  | some header => header.bytes

theorem headerBytes_aligned
    (header : Option FamilyHeader) :
    4 ∣ (headerBytes header).length := by
  cases header with
  | none =>
      exact ⟨0, rfl⟩
  | some header =>
      exact header.aligned

/-- The type of an attribute. -/
def Attribute.ty : Attribute → UInt16
  | leaf ty _ => ty
  | nested ty _ _ => ty

/-! ## Building a tree -/

/-- Append an optional header. -/
def MsgBuilder.header (m : MsgBuilder) : Option FamilyHeader → MsgBuilder
  | none => m
  | some header => m.payload header.bytes

mutual

/-- Build an attribute the way `create_veth` builds its own. -/
def build (order : ByteOrder) (m : MsgBuilder) :
    Attribute → Option MsgBuilder
  | .leaf ty data => some (m.attr order ty data)
  | .nested ty header attrs => do
      let (m, off) := m.beginNested order ty
      let m ← buildAll order (m.header header) attrs
      m.endNested order off

/-- Build attributes one after another. -/
def buildAll (order : ByteOrder) (m : MsgBuilder) :
    List Attribute → Option MsgBuilder
  | [] => some m
  | attr :: rest => do
      let m ← build order m attr
      buildAll order m rest

end

/-! ## The bytes of a tree -/

/-- The data of a leaf are padded, but the padding is not counted. -/
def padded (bytes : List UInt8) : List UInt8 :=
  bytes ++ List.replicate (padding bytes.length) 0

mutual

/-- What an attribute contributes to the message. -/
def encode (order : ByteOrder) : Attribute → List UInt8
  | .leaf ty data => padded (record order ty data)
  | .nested ty header attrs =>
      record order ty (headerBytes header ++ encodeAll order attrs)

/-- What a list of attributes contributes to the message. -/
def encodeAll (order : ByteOrder) : List Attribute → List UInt8
  | [] => []
  | attr :: rest => encode order attr ++ encodeAll order rest

end

/-- The data `parse_attrs` is to find. -/
def Attribute.payload (order : ByteOrder) : Attribute → List UInt8
  | leaf _ data => data
  | nested _ header attrs => headerBytes header ++ encodeAll order attrs

mutual

/-- The encoded size of every attribute of the tree stays below 65536. -/
def Sized (order : ByteOrder) : Attribute → Prop
  | .leaf _ data => 4 + data.length < 65536
  | .nested _ header attrs =>
      4 + (headerBytes header ++ encodeAll order attrs).length < 65536 ∧
        SizedAll order attrs

def SizedAll (order : ByteOrder) : List Attribute → Prop
  | [] => True
  | attr :: rest => Sized order attr ∧ SizedAll order rest

end

mutual

/-- The attribute is found, and what is nested in it is found in its data. -/
def Recovers (order : ByteOrder) : Attribute → Attr → Prop
  | .leaf ty data, found => found.ty = ty ∧ found.data = data
  | .nested ty header attrs, found =>
      found.ty = ty ∧
        ∃ rest inner, found.data = headerBytes header ++ rest ∧
          parseAttrs order rest = some inner ∧
          RecoversAll order attrs inner

/-- The attributes are found, in order, and no others. -/
def RecoversAll (order : ByteOrder) :
    List Attribute → List Attr → Prop
  | [], found => found = []
  | attr :: rest, found =>
      ∃ first others, found = first :: others ∧
        Recovers order attr first ∧ RecoversAll order rest others

end

/-! ## Alignment -/

theorem padded_aligned
    (bytes : List UInt8) :
    4 ∣ (padded bytes).length := by
  simp only [padded, List.length_append, List.length_replicate, padding]
  omega

mutual

theorem encode_aligned
    (order : ByteOrder) :
    ∀ attr, 4 ∣ (encode order attr).length
  | .leaf ty data => by
      rw [encode]
      exact padded_aligned _
  | .nested ty header attrs => by
      have inner := encodeAll_aligned order attrs
      have before := headerBytes_aligned header
      simp only [encode, length_record, List.length_append]
      omega

theorem encodeAll_aligned
    (order : ByteOrder) :
    ∀ attrs, 4 ∣ (encodeAll order attrs).length
  | [] => by
      simp [encodeAll]
  | attr :: rest => by
      have first := encode_aligned order attr
      have others := encodeAll_aligned order rest
      simp only [encodeAll, List.length_append]
      omega

end

/-! ## What the builder writes -/

theorem payload_buf
    (m : MsgBuilder)
    (bytes : List UInt8) :
    (m.payload bytes).buf = m.buf ++ padded bytes := by
  have same : padding (m.buf.length + bytes.length) = padding bytes.length := by
    have aligned := m.aligned
    simp only [padding]
    omega
  simp only [MsgBuilder.payload, pad_eq, padded, List.length_append, same,
    List.append_assoc]

theorem padded_of_aligned
    {bytes : List UInt8}
    (aligned : 4 ∣ bytes.length) :
    padded bytes = bytes := by
  have none : padding bytes.length = 0 := by
    simp only [padding]
    omega
  simp [padded, none]

theorem header_buf
    (m : MsgBuilder)
    (header : Option FamilyHeader) :
    (m.header header).buf = m.buf ++ headerBytes header := by
  cases header with
  | none =>
      exact (List.append_nil _).symm
  | some header =>
      exact (payload_buf m header.bytes).trans
        (congrArg _ (padded_of_aligned header.aligned))

/-- Closing a nested attribute patches the length it was opened with. -/
theorem endNested_buf
    (order : ByteOrder)
    {m : MsgBuilder}
    {before data : List UInt8}
    {ty : UInt16}
    (same :
      m.buf = before ++ order.toBytes 2 0 ++ order.toBytes 2 ty.toNat ++ data) :
    ∃ m', m.endNested order before.length = some m' ∧
      m'.buf = before ++ record order ty data := by
  have length : m.buf.length = before.length + (4 + data.length) := by
    simp only [same, List.length_append, ByteOrder.length_toBytes]
    omega
  refine ⟨_, dif_pos (by omega), ?_⟩
  have grown : m.buf.length - before.length = 4 + data.length := by
    omega
  have patched :=
    @patch_append before (order.toBytes 2 ty.toNat ++ data)
      (order.toBytes 2 0)
      (order.toBytes 2 (UInt16.ofNat (4 + data.length)).toNat) (by simp)
  simp only [grown]
  simpa only [same, record, List.append_assoc] using patched

mutual

/-- Building an attribute appends its bytes. -/
theorem build_buf
    (order : ByteOrder) :
    ∀ (attr : Attribute) (m : MsgBuilder),
      ∃ m', build order m attr = some m' ∧
        m'.buf = m.buf ++ encode order attr
  | .leaf ty data, m => ⟨_, rfl, payload_buf m _⟩
  | .nested ty header attrs, m => by
      obtain ⟨inner, built, buf⟩ :=
        buildAll_buf order attrs ((m.beginNested order ty).1.header header)
      rw [header_buf] at buf
      have closed := @endNested_buf order inner m.buf
        (headerBytes header ++ encodeAll order attrs) ty
        (by rw [buf]; simp [MsgBuilder.beginNested])
      obtain ⟨m', ended, buf'⟩ := closed
      refine ⟨m', ?_, buf'⟩
      simp only [build, Option.bind_eq_bind]
      exact (congrArg (Option.bind · _) built).trans ended

theorem buildAll_buf
    (order : ByteOrder) :
    ∀ (attrs : List Attribute) (m : MsgBuilder),
      ∃ m', buildAll order m attrs = some m' ∧
        m'.buf = m.buf ++ encodeAll order attrs
  | [], m => ⟨m, rfl, (List.append_nil _).symm⟩
  | attr :: rest, m => by
      obtain ⟨first, built, buf⟩ := build_buf order attr m
      obtain ⟨last, builtAll, buf'⟩ := buildAll_buf order rest first
      refine ⟨last, ?_, ?_⟩
      · simp only [buildAll, built, Option.bind_eq_bind, Option.bind_some,
          builtAll]
      · rw [buf', buf, encodeAll, List.append_assoc]

end

/-! ## What the parser finds -/

/-- Every attribute is a record and its padding. -/
theorem encode_eq
    (order : ByteOrder)
    (attr : Attribute) :
    encode order attr = padded (record order attr.ty (attr.payload order)) := by
  cases attr with
  | leaf ty data =>
      rw [encode]
      rfl
  | nested ty header attrs =>
      have aligned := encode_aligned order (.nested ty header attrs)
      rw [encode] at aligned ⊢
      exact (padded_of_aligned aligned).symm

theorem Sized.payload
    {order : ByteOrder}
    {attr : Attribute}
    (sized : Sized order attr) :
    4 + (attr.payload order).length < 65536 := by
  cases attr with
  | leaf ty data =>
      rw [Sized] at sized
      exact sized
  | nested ty header attrs =>
      rw [Sized] at sized
      exact sized.1

/-- A stream that starts with an attribute is parsed from there on. -/
theorem parseLoop_encode
    (order : ByteOrder)
    {attr : Attribute}
    (sized : Sized order attr)
    (rest : List UInt8)
    {fuel : Nat}
    (enough : 0 < fuel)
    (offset : Nat)
    (out : List Attr) :
    ∃ offset',
      parseLoop order (fuel + 1) (encode order attr ++ rest) offset out =
        parseLoop order fuel rest offset'
          (out ++ [⟨attr.ty, offset + 4, attr.payload order⟩]) := by
  have round :=
    parseRound_record order attr.ty sized.payload
      (List.replicate (padding (4 + (attr.payload order).length)) 0 ++ rest)
      offset
  have bytes :
      encode order attr ++ rest =
        record order attr.ty (attr.payload order) ++
          (List.replicate (padding (4 + (attr.payload order).length)) 0 ++
            rest) := by
    rw [encode_eq, padded, length_record, List.append_assoc]
  refine ⟨offset + nlAlign (4 + (attr.payload order).length), ?_⟩
  rw [parseLoop, bytes, round]
  simp only [Option.bind_eq_bind, Option.bind_some, Option.toList_some,
    List.length_append, List.length_replicate, nlAlign_eq]
  cases rest with
  | nil =>
      rw [if_pos (by simp), parseLoop_nil order enough]
  | cons byte rest =>
      rw [if_neg (by simp only [List.length_cons]; omega),
        List.drop_left' List.length_replicate]

mutual

/-- An attribute's data hold what is nested in it. -/
theorem recovers
    (order : ByteOrder) :
    ∀ (attr : Attribute),
      Sized order attr → ∀ offset,
        Recovers order attr ⟨attr.ty, offset, attr.payload order⟩
  | .leaf ty data, _, offset => by
      rw [Recovers]
      exact ⟨rfl, rfl⟩
  | .nested ty header attrs, sized, offset => by
      rw [Sized] at sized
      rw [Recovers]
      obtain ⟨inner, parsed, recovered⟩ :=
        recoversAll order attrs sized.2 0
          ((encodeAll order attrs).length + 1) (Nat.lt_succ_self _) []
      exact ⟨rfl, encodeAll order attrs, inner, rfl, parsed, recovered⟩

/-- A stream of attributes is parsed to its end. -/
theorem recoversAll
    (order : ByteOrder) :
    ∀ (attrs : List Attribute),
      SizedAll order attrs → ∀ offset fuel,
        (encodeAll order attrs).length < fuel → ∀ out,
          ∃ found,
            parseLoop order fuel (encodeAll order attrs) offset out =
              some (out ++ found) ∧ RecoversAll order attrs found
  | [], _, offset, fuel, enough, out => by
      refine ⟨[], ?_, by rw [RecoversAll]⟩
      rw [encodeAll, parseLoop_nil order (by omega), List.append_nil]
  | attr :: rest, sized, offset, fuel + 1, enough, out => by
      rw [SizedAll] at sized
      have positive : 0 < (encode order attr).length := by
        simp only [encode_eq, padded, List.length_append, length_record]
        omega
      rw [encodeAll, List.length_append] at enough
      obtain ⟨offset', step⟩ :=
        parseLoop_encode order sized.1 (encodeAll order rest)
          (by omega : 0 < fuel) offset out
      obtain ⟨others, parsed, recovered⟩ :=
        recoversAll order rest sized.2 offset' fuel (by omega)
          (out ++ [⟨attr.ty, offset + 4, attr.payload order⟩])
      refine ⟨⟨attr.ty, offset + 4, attr.payload order⟩ :: others, ?_, ?_⟩
      · rw [encodeAll, step, parsed, List.append_assoc]
        rfl
      · rw [RecoversAll]
        exact ⟨_, others, rfl, recovers order attr sized.1 _, recovered⟩

end

/-! ## A whole message -/

/--
A message built from a header and attributes, each of an encoded size below
65536: the builder does not panic and stays aligned, the message starts with
its length, and the parser finds every level of the attributes. On any bytes
at all the parser ends, without a panic, with slices of these bytes.
-/
theorem attributes_recovered
    (order : ByteOrder)
    (ty flags : UInt16)
    (seq : UInt32)
    (header : Option FamilyHeader)
    (attrs : List Attribute)
    (sized : SizedAll order attrs) :
    (∃ m,
      buildAll order ((MsgBuilder.new order ty flags).header header) attrs =
        some m ∧
      4 ∣ m.buf.length ∧
      (m.finish order seq).length = m.buf.length ∧
      (m.buf.length < 2 ^ 32 →
        order.fromBytes ((m.finish order seq).take 4) = m.buf.length) ∧
      ∃ found,
        parseAttrs order
            ((m.finish order seq).drop (16 + (headerBytes header).length)) =
          some found ∧
        RecoversAll order attrs found) ∧
    ∀ input, ∃ found, parseAttrs order input = some found ∧
      ∀ a ∈ found, a.Lies input := by
  refine ⟨?_, parseAttrs_sound order⟩
  obtain ⟨m, built, buf⟩ :=
    buildAll_buf order attrs ((MsgBuilder.new order ty flags).header header)
  refine ⟨m, built, m.aligned, m.length_finish order seq, ?_, ?_⟩
  · intro small
    have word : (UInt32.ofNat m.buf.length).toNat = m.buf.length := by
      rw [UInt32.toNat_ofNat']
      exact Nat.mod_eq_of_lt small
    rw [m.finish_length_field, word]
    exact order.fromBytes_toBytes small
  · have attributes :
        (m.finish order seq).drop (16 + (headerBytes header).length) =
          encodeAll order attrs := by
      rw [m.drop_finish order seq (by omega), buf, header_buf]
      exact List.drop_left' (by simp)
    rw [attributes]
    exact recoversAll order attrs sized 0 _ (Nat.lt_succ_self _) []

/-! ## The message of `create_veth` -/

/-- `RTM_NEWLINK`. -/
def rtmNewlink : UInt16 := 16

/-- `NLM_F_REQUEST | NLM_F_CREATE | NLM_F_EXCL | NLM_F_ACK`. -/
def createFlags : UInt16 := 0x001 ||| 0x400 ||| 0x200 ||| 0x004

/-- `IFLA_IFNAME`. -/
def iflaIfname : UInt16 := 3

/-- `IFLA_LINKINFO`. -/
def iflaLinkinfo : UInt16 := 18

/-- `IFLA_INFO_KIND`. -/
def iflaInfoKind : UInt16 := 1

/-- `IFLA_INFO_DATA`. -/
def iflaInfoData : UInt16 := 2

/-- `VETH_INFO_PEER`. -/
def vethInfoPeer : UInt16 := 1

/-- `"veth"`. -/
def vethKind : List UInt8 :=
  "veth".toList.map Char.toUInt8

/-- `IfInfoMsg::default()`. -/
def ifInfoMsg : FamilyHeader where
  bytes := List.replicate 16 0
  aligned := by decide

/-- The request of `create_veth`. -/
def createVeth (order : ByteOrder) (name peer : List UInt8) :
    Option MsgBuilder := do
  let m := MsgBuilder.new order rtmNewlink createFlags
  let m := m.payload ifInfoMsg.bytes
  let m := m.attrStr order iflaIfname name
  let (m, li) := m.beginNested order iflaLinkinfo
  let m := m.attrStr order iflaInfoKind vethKind
  let (m, id) := m.beginNested order iflaInfoData
  let (m, pe) := m.beginNested order vethInfoPeer
  let m := m.payload ifInfoMsg.bytes
  let m := m.attrStr order iflaIfname peer
  let m ← m.endNested order pe
  let m ← m.endNested order id
  m.endNested order li

/-- The attributes of that request. -/
def vethAttrs (name peer : List UInt8) : List Attribute :=
  [.leaf iflaIfname (name ++ [0]),
    .nested iflaLinkinfo none
      [.leaf iflaInfoKind (vethKind ++ [0]),
        .nested iflaInfoData none
          [.nested vethInfoPeer (some ifInfoMsg)
            [.leaf iflaIfname (peer ++ [0])]]]]

/-- `create_veth` builds this tree. -/
theorem createVeth_eq
    (order : ByteOrder)
    (name peer : List UInt8) :
    createVeth order name peer =
      buildAll order
        ((MsgBuilder.new order rtmNewlink createFlags).header (some ifInfoMsg))
        (vethAttrs name peer) := by
  simp only [createVeth, vethAttrs, build, buildAll, MsgBuilder.header,
    MsgBuilder.attrStr, Option.bind_eq_bind, Option.bind_some,
    Option.bind_assoc, Option.bind_fun_some]

/-- Interface names are short enough for it. -/
theorem vethAttrs_sized
    (order : ByteOrder)
    {name peer : List UInt8}
    (nameShort : name.length < 16)
    (peerShort : peer.length < 16) :
    SizedAll order (vethAttrs name peer) := by
  have kind : vethKind.length = 4 := by
    decide
  have info : ifInfoMsg.bytes.length = 16 := by
    decide
  simp only [vethAttrs, SizedAll, Sized, encodeAll, encode, headerBytes,
    padded, padding, length_record, List.length_append, List.length_replicate,
    List.length_nil, List.length_singleton, kind, info, and_true]
  omega

/-- The message that makes `veth0` and `eth0` a pair. -/
theorem createVeth_attributes_recovered :
    (∃ m,
      createVeth .little ("veth0".toList.map Char.toUInt8)
          ("eth0".toList.map Char.toUInt8) = some m ∧
      4 ∣ m.buf.length ∧
      (m.finish .little 1).length = m.buf.length ∧
      (m.buf.length < 2 ^ 32 →
        ByteOrder.little.fromBytes ((m.finish .little 1).take 4) =
          m.buf.length) ∧
      ∃ found,
        parseAttrs .little ((m.finish .little 1).drop 32) = some found ∧
        RecoversAll .little
          (vethAttrs ("veth0".toList.map Char.toUInt8)
            ("eth0".toList.map Char.toUInt8)) found) := by
  rw [createVeth_eq]
  exact (attributes_recovered .little rtmNewlink createFlags 1 (some ifInfoMsg) _
    (vethAttrs_sized .little (by decide) (by decide))).1

end Netlink

end Myrun
