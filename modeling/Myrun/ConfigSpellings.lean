import Myrun.ConfigRoundTrip

namespace Myrun

/-!
# The two spellings of a configuration entry

A published port and a volume can be given as an object or as one string.
`PortMapping::parse` and `MountSpec::parse` check what the string says; the
object form narrows its numbers with a cast, keeps its protocol as it is, and
leaves the rest to validation.  This module compares the two: what the object
form accepts after validation, what the string form accepts, and when both
give the same record.
-/

/-! ## What the string form of a port mapping accepts -/

/-- The string `host:container/protocol`. -/
def publishText (host container : List Char) (protocol : String) : String :=
  String.ofList (host ++ ':' :: (container ++ '/' :: protocol.toList))

/-- A port as `PortMapping::parse` reads it: trimmed, in range and not zero. -/
def portOf (text : List Char) : Option UInt16 :=
  (parseU16 (trim (String.ofList text))).filter (· ≠ 0)

/-- The protocols of the packet filter. -/
def IsProtocol (protocol : String) : Prop :=
  protocol = "tcp" ∨ protocol = "udp"

instance (protocol : String) : Decidable (IsProtocol protocol) :=
  inferInstanceAs (Decidable (_ ∨ _))

private theorem isDigit_of_parseDigits
    {cs : List Char}
    {n : Nat}
    (parsed : parseDigits cs = some n) :
    ∀ c ∈ cs, c.isDigit = true := by
  unfold parseDigits at parsed
  split at parsed
  · cases parsed
  · split at parsed
    · rename_i digits
      exact List.all_eq_true.mp digits
    · cases parsed

/-- An unsigned number is a list of digits, perhaps after a plus sign. -/
theorem parseUnsigned_shape
    {max n : Nat}
    {cs : List Char}
    (parsed : parseUnsigned max cs = some n) :
    ∃ digits, (cs = digits ∨ cs = '+' :: digits) ∧
      parseDigits digits = some n ∧ n ≤ max := by
  unfold parseUnsigned at parsed
  simp only [Option.filter_eq_some_iff, decide_eq_true_eq] at parsed
  split at parsed
  · rename_i rest
    exact ⟨rest, Or.inr rfl, parsed⟩
  · exact ⟨cs, Or.inl rfl, parsed⟩

private theorem mem_dropWhile_of_not
    {leaves : Char → Bool}
    {cs : List Char}
    {c : Char}
    (member : c ∈ cs)
    (stays : leaves c = false) :
    c ∈ cs.dropWhile leaves := by
  rw [← List.takeWhile_append_dropWhile (p := leaves) (l := cs)] at member
  rcases List.mem_append.mp member with dropped | kept
  · have leaving := List.mem_takeWhile_imp dropped
    simp [stays] at leaving
  · exact kept

/-- Trimming drops white space only. -/
theorem mem_trimChars
    {cs : List Char}
    {c : Char}
    (member : c ∈ cs)
    (stays : isWhitespace c = false) :
    c ∈ trimChars cs := by
  have front := mem_dropWhile_of_not member stays
  have back := mem_dropWhile_of_not (List.mem_reverse.mpr front) stays
  exact List.mem_reverse.mpr back

/-- A text that is read as a port contains neither separator. -/
theorem not_mem_of_parseU16
    {text : List Char}
    {port : UInt16}
    (read : parseU16 (trim (String.ofList text)) = some port)
    {c : Char}
    (separator : c = ':' ∨ c = '/') :
    c ∉ text := by
  intro member
  have stays : isWhitespace c = false := by
    rcases separator with rfl | rfl <;> decide
  have kept := mem_trimChars member stays
  simp only [parseU16, trim, String.toList_ofList,
    Option.map_eq_some_iff] at read
  obtain ⟨n, parsed, _⟩ := read
  obtain ⟨digits, shape, value, _⟩ := parseUnsigned_shape parsed
  have digit := isDigit_of_parseDigits value
  have isDigit : c.isDigit = true := by
    rcases shape with same | signed
    · exact digit c (same ▸ kept)
    · rw [signed] at kept
      rcases List.mem_cons.mp kept with rfl | inDigits
      · rcases separator with plus | plus <;> simp at plus
      · exact digit c inDigits
  rcases separator with rfl | rfl <;> simp at isDigit

private theorem portOf_eq_some_iff
    {text : List Char}
    {port : UInt16} :
    portOf text = some port ↔
      parseU16 (trim (String.ofList text)) = some port ∧ port ≠ 0 := by
  simp [portOf, Option.filter_eq_some_iff]

/-- Lower-casing leaves the two separators where they are. -/
theorem not_isProtocol_of_mem
    {text : List Char}
    {c : Char}
    (member : c ∈ text)
    (separator : c = ':' ∨ c = '/') :
    ¬ IsProtocol (toAsciiLowercase (String.ofList text)) := by
  have same : asciiLower c = c := by
    rcases separator with rfl | rfl <;> decide
  have lowered : c ∈ text.map asciiLower :=
    List.mem_map.mpr ⟨c, member, same⟩
  intro named
  unfold toAsciiLowercase at named
  rw [String.toList_ofList] at named
  have chars : text.map asciiLower = "tcp".toList ∨
      text.map asciiLower = "udp".toList := by
    rcases named with tcp | udp
    · exact Or.inl (by rw [← tcp, String.toList_ofList])
    · exact Or.inr (by rw [← udp, String.toList_ofList])
  rcases separator with rfl | rfl <;> rcases chars with eq | eq <;>
    rw [eq] at lowered <;> simp at lowered

/-- The second half of `PortMapping::parse`, on the parts of the string. -/
theorem parse_ok_of_parts
    {s spec protocol : String}
    {h c : String}
    (cut : splitOnce '/' s = some (spec, protocol))
    (parts : (splitOnce ':' spec).getD (spec, spec) = (h, c))
    (p : PortMapping) :
    PortMapping.parse s = .ok p ↔
      parseU16 (trim h) = some p.hostPort ∧
        parseU16 (trim c) = some p.containerPort ∧
        p.hostPort ≠ 0 ∧ p.containerPort ≠ 0 ∧
        p.protocol = toAsciiLowercase protocol ∧
        IsProtocol (toAsciiLowercase protocol) := by
  unfold PortMapping.parse
  simp only [cut, parts]
  by_cases named : IsProtocol (toAsciiLowercase protocol)
  · have accepted : ¬ (toAsciiLowercase protocol ≠ "tcp" ∧
        toAsciiLowercase protocol ≠ "udp") := by
      rcases named with tcp | udp
      · simp [tcp]
      · simp [udp]
    rw [if_neg accepted]
    cases hostRead : parseU16 (trim h) with
    | none =>
        simp
    | some hostPort =>
        cases containerRead : parseU16 (trim c) with
        | none =>
            simp
        | some containerPort =>
            obtain ⟨pHost, pContainer, pProtocol⟩ := p
            by_cases zero : hostPort = 0 ∨ containerPort = 0
            · simp only [zero, ↓reduceIte, reduceCtorEq, Option.some.injEq,
                false_iff]
              rintro ⟨rfl, rfl, hostNonzero, containerNonzero, _⟩
              exact zero.elim hostNonzero containerNonzero
            · simp only [zero, ↓reduceIte, Except.ok.injEq,
                PortMapping.mk.injEq, Option.some.injEq, named, and_true]
              rw [not_or] at zero
              constructor
              · rintro ⟨rfl, rfl, rfl⟩
                exact ⟨rfl, rfl, zero.1, zero.2, rfl⟩
              · rintro ⟨rfl, rfl, _, _, rfl⟩
                exact ⟨rfl, rfl, rfl⟩
  · have refused : toAsciiLowercase protocol ≠ "tcp" ∧
        toAsciiLowercase protocol ≠ "udp" :=
      not_or.mp named
    rw [if_pos refused]
    simp [named]

/--
What the string form accepts: two ports and a protocol, whatever the texts of
the two ports are.  A separator inside one of them is never read as another
mapping.
-/
theorem parse_publishText_ok_iff
    (h c : List Char)
    (protocol : String)
    (p : PortMapping) :
    PortMapping.parse (publishText h c protocol) = .ok p ↔
      portOf h = some p.hostPort ∧ portOf c = some p.containerPort ∧
        p.protocol = toAsciiLowercase protocol ∧
        IsProtocol (toAsciiLowercase protocol) := by
  by_cases slash : '/' ∈ h ++ ':' :: c
  · obtain ⟨spec, rest, shape, free⟩ := List.eq_append_cons_of_mem slash
    have cut : splitOnce '/' (publishText h c protocol) =
        some (String.ofList spec,
          String.ofList (rest ++ '/' :: protocol.toList)) := by
      have whole : h ++ ':' :: (c ++ '/' :: protocol.toList) =
          spec ++ '/' :: (rest ++ '/' :: protocol.toList) := by
        rw [← List.cons_append, ← List.append_assoc, shape]
        simp
      simp [splitOnce, publishText, whole, splitOnceChars_append free]
    constructor
    · intro accepted
      have parsed := (parse_ok_of_parts cut rfl p).mp accepted
      have named := parsed.2.2.2.2.2
      exact (not_isProtocol_of_mem (List.mem_append_right rest
        List.mem_cons_self) (Or.inr rfl) named).elim
    · rintro ⟨hostRead, containerRead, _⟩
      have hostFree := not_mem_of_parseU16
        (portOf_eq_some_iff.mp hostRead).1 (Or.inr rfl)
      have containerFree := not_mem_of_parseU16
        (portOf_eq_some_iff.mp containerRead).1 (Or.inr rfl)
      rcases List.mem_append.mp slash with inHost | inContainer
      · exact (hostFree inHost).elim
      · rcases List.mem_cons.mp inContainer with colon | inside
        · simp at colon
        · exact (containerFree inside).elim
  · have cut : splitOnce '/' (publishText h c protocol) =
        some (String.ofList (h ++ ':' :: c), protocol) := by
      have whole : h ++ ':' :: (c ++ '/' :: protocol.toList) =
          (h ++ ':' :: c) ++ '/' :: protocol.toList := by
        simp
      rw [publishText, whole, splitOnce, String.toList_ofList,
        splitOnceChars_append slash]
      simp
    by_cases colon : ':' ∈ h
    · obtain ⟨first, rest, rfl, free⟩ := List.eq_append_cons_of_mem colon
      have parts : (splitOnce ':' (String.ofList
          ((first ++ ':' :: rest) ++ ':' :: c))).getD
            (String.ofList ((first ++ ':' :: rest) ++ ':' :: c),
              String.ofList ((first ++ ':' :: rest) ++ ':' :: c)) =
          (String.ofList first, String.ofList (rest ++ ':' :: c)) := by
        have whole : (first ++ ':' :: rest) ++ ':' :: c =
            first ++ ':' :: (rest ++ ':' :: c) := by
          simp
        rw [whole]
        simp [splitOnce, splitOnceChars_append free]
      constructor
      · intro accepted
        have parsed := (parse_ok_of_parts cut parts p).mp accepted
        exact (not_mem_of_parseU16 parsed.2.1 (Or.inl rfl)
          (List.mem_append_right rest List.mem_cons_self)).elim
      · rintro ⟨hostRead, _⟩
        exact (not_mem_of_parseU16 (portOf_eq_some_iff.mp hostRead).1
          (Or.inl rfl) colon).elim
    · have parts : (splitOnce ':' (String.ofList (h ++ ':' :: c))).getD
            (String.ofList (h ++ ':' :: c), String.ofList (h ++ ':' :: c)) =
          (String.ofList h, String.ofList c) := by
        simp [splitOnce, splitOnceChars_append colon]
      rw [parse_ok_of_parts cut parts p, portOf_eq_some_iff,
        portOf_eq_some_iff]
      constructor
      · rintro ⟨hostRead, containerRead, hostPort, containerPort, named⟩
        exact ⟨⟨hostRead, hostPort⟩, ⟨containerRead, containerPort⟩, named⟩
      · rintro ⟨⟨hostRead, hostPort⟩, ⟨containerRead, containerPort⟩, named⟩
        exact ⟨hostRead, containerRead, hostPort, containerPort, named⟩

/-! ## What the object form accepts -/

namespace Json

/-- The text that the string form carries in the place of a value. -/
inductive Spelled [F64Ops] : Json → List Char → Prop
  | number {v : Json} {text : List Char}
      (scanned : JsonParser.numberText text = text)
      (denotes : JsonParser.numberValue text = .ok v) :
      Spelled v text
  | string (s : String) : Spelled (str s) s.toList
  | other {v : Json}
      (noNumber : v.asI64 = none)
      (noString : v.asStr = none) :
      Spelled v (v.write none 0)

end Json

private theorem asU64_eq_none_of_asI64
    {v : Json}
    (noNumber : v.asI64 = none) :
    v.asU64 = none := by
  cases v with
  | int i => simp [Json.asI64] at noNumber
  | float f => simp [Json.asI64] at noNumber
  | null | bool _ | str _ | arr _ | obj _ => rfl

/-- A value that counts as an unsigned number was written as a number. -/
theorem number_of_asU64 [F64Ops]
    {v : Json}
    {text : List Char}
    {n : UInt64}
    (spelled : v.Spelled text)
    (counts : v.asU64 = some n) :
    JsonParser.numberText text = text ∧
      JsonParser.numberValue text = .ok v := by
  cases spelled with
  | number scanned denotes =>
      exact ⟨scanned, denotes⟩
  | string s =>
      simp [Json.asU64] at counts
  | other noNumber _ =>
      rw [asU64_eq_none_of_asI64 noNumber] at counts
      cases counts

private theorem isWhitespace_of_isNumberChar
    {c : Char}
    (numeric : JsonParser.isNumberChar c = true) :
    isWhitespace c = false := by
  simp only [JsonParser.isNumberChar, Bool.or_eq_true,
    decide_eq_true_eq] at numeric
  rcases numeric with ((((digit | rfl) | rfl) | rfl) | rfl) | rfl
  · exact isWhitespace_of_isDigit digit
  all_goals decide

private theorem isNumberChar_of_scanned
    {text : List Char}
    (scanned : JsonParser.numberText text = text) :
    ∀ c ∈ text, JsonParser.isNumberChar c = true := by
  have signed
      {sign : Char}
      {rest : List Char}
      (numeric : JsonParser.isNumberChar sign = true)
      (same : sign :: rest.takeWhile JsonParser.isNumberChar = sign :: rest) :
      ∀ c ∈ sign :: rest, JsonParser.isNumberChar c = true := by
    intro c member
    rw [← same] at member
    rcases List.mem_cons.mp member with rfl | taken
    · exact numeric
    · exact List.mem_takeWhile_imp taken
  unfold JsonParser.numberText at scanned
  split at scanned
  · exact signed (by decide) scanned
  · exact signed (by decide) scanned
  · intro c member
    rw [← scanned] at member
    exact List.mem_takeWhile_imp member

private theorem trimChars_of_scanned
    {text : List Char}
    (scanned : JsonParser.numberText text = text) :
    trimChars text = text := by
  have stays : ∀ c ∈ text, isWhitespace c = false := fun c member =>
    isWhitespace_of_isNumberChar (isNumberChar_of_scanned scanned c member)
  cases shape : text with
  | nil =>
      rfl
  | cons first rest =>
      rw [← shape]
      have nonempty : text ≠ [] := by
        simp [shape]
      exact trimChars_of_ends shape (List.getLast?_eq_some_getLast nonempty)
        (stays first (shape ▸ List.mem_cons_self))
        (stays _ (List.getLast_mem nonempty))

private theorem not_isDigit_minus : ¬ '-'.isDigit = true := by decide

private theorem not_isDigit_plus : ¬ '+'.isDigit = true := by decide

/-- Digits that the string form reads as a port are read as the same integer. -/
theorem numberValue_of_parseUnsigned [F64Ops]
    {text : List Char}
    {n : Nat}
    (parsed : parseUnsigned (2 ^ 16 - 1) text = some n) :
    JsonParser.numberValue text = .ok (.int (Int64.ofNat n)) := by
  obtain ⟨digits, shape, value, bound⟩ := parseUnsigned_shape parsed
  have digit := isDigit_of_parseDigits value
  have whole : digits.any JsonParser.isFloatChar = false := by
    rw [List.any_eq_false]
    intro c member
    simp [JsonParser.isFloatChar_of_isDigit (digit c member)]
  have wide : (parseDigits digits).filter (· ≤ 2 ^ 63 - 1) = some n := by
    rw [value]
    simp only [Option.filter_some, decide_eq_true_eq]
    rw [if_pos (by omega)]
  have notFloat : JsonParser.looksFloat text = false := by
    unfold JsonParser.looksFloat
    rcases shape with rfl | rfl
    · split
      · exact (not_isDigit_minus (digit '-' List.mem_cons_self)).elim
      · exact (not_isDigit_plus (digit '+' List.mem_cons_self)).elim
      · exact whole
    · exact whole
  have integer : parseI64Chars text = some (Int64.ofNat n) := by
    have unsigned : parseUnsigned (2 ^ 63 - 1) text = some n := by
      unfold parseUnsigned
      rcases shape with rfl | rfl
      · split
        · exact (not_isDigit_plus (digit '+' List.mem_cons_self)).elim
        · exact wide
      · exact wide
    unfold parseI64Chars
    split
    · rcases shape with rfl | signed
      · exact (not_isDigit_minus (digit '-' List.mem_cons_self)).elim
      · simp at signed
    · rw [unsigned]
      rfl
  simp [JsonParser.numberValue, notFloat, integer]

/-- A number that the string form takes as a port is that port as an object. -/
theorem asU64_of_portOf [F64Ops]
    {v : Json}
    {text : List Char}
    {port : UInt16}
    (scanned : JsonParser.numberText text = text)
    (denotes : JsonParser.numberValue text = .ok v)
    (read : portOf text = some port) :
    v.asU64.map UInt64.toUInt16 = some port := by
  obtain ⟨parsed, _⟩ := portOf_eq_some_iff.mp read
  simp only [parseU16, trim, String.toList_ofList,
    trimChars_of_scanned scanned, Option.map_eq_some_iff] at parsed
  obtain ⟨n, value, rfl⟩ := parsed
  have bound : n ≤ 2 ^ 16 - 1 := by
    obtain ⟨_, _, _, small⟩ := parseUnsigned_shape value
    exact small
  rw [numberValue_of_parseUnsigned value] at denotes
  obtain rfl := Except.ok.inj denotes
  rw [asU64_int_ofNat (by omega)]
  simp

/-- An object-form entry of `publish` and the texts of its two ports. -/
structure PublishEntry [F64Ops] (entry host container : Json)
    (h c : List Char) (protocol : String) : Prop where
  object : entry.asStr = none
  hostValue : (entry.get "host").or (entry.get "host_port") = some host
  containerValue :
    (entry.get "container").or (entry.get "container_port") = some container
  protocolValue : entry.strField "protocol" = some protocol
  hostText : host.Spelled h
  containerText : container.Spelled c

/-- The object form casts whatever counts as an unsigned number. -/
theorem PublishEntry.fromJson_ok_iff [F64Ops]
    {entry host container : Json}
    {h c : List Char}
    {protocol : String}
    (given : PublishEntry entry host container h c protocol)
    (p : PortMapping) :
    PortMapping.fromJson entry = .ok p ↔
      host.asU64.map UInt64.toUInt16 = some p.hostPort ∧
        container.asU64.map UInt64.toUInt16 = some p.containerPort ∧
        p.protocol = protocol := by
  obtain ⟨pHost, pContainer, pProtocol⟩ := p
  simp only [PortMapping.fromJson, given.object, given.hostValue,
    given.containerValue, given.protocolValue, Option.bind_some,
    Option.getD_some]
  cases host.asU64 with
  | none =>
      simp [requireField]
  | some hostNumber =>
      cases container.asU64 with
      | none =>
          simp [requireField]
      | some containerNumber =>
          simp [requireField, eq_comm]

/-- A container that validation accepts in bridge mode. -/
structure BridgeContainer (host : ConfigHost) (requireRootfs : Bool)
    (members : List (String × Json)) (c : ContainerConfig) : Prop where
  network : NetworkConfig.fromJson (.obj members) = .ok c.network
  bridge : c.network.mode = .bridge
  accepted : ∃ done, c.finalizeAndValidate host requireRootfs = .ok done

/-- The entry as the only one of `publish`, decoded and then validated. -/
def PublishAccepted (host : ConfigHost) (requireRootfs : Bool)
    (members : List (String × Json)) (c : ContainerConfig) (entry : Json)
    (p : PortMapping) : Prop :=
  ∃ network done,
    NetworkConfig.fromJson (.obj (("publish", .arr [entry]) :: members)) =
        .ok network ∧
      ({ c with network } : ContainerConfig).finalizeAndValidate host
        requireRootfs = .ok done ∧
      done.network.publish = [p]

private theorem fromJson_publish
    {members : List (String × Json)}
    {network : NetworkConfig}
    (decoded : NetworkConfig.fromJson (.obj members) = .ok network)
    (entry : Json) :
    NetworkConfig.fromJson (.obj (("publish", .arr [entry]) :: members)) =
      (PortMapping.fromJson entry).map
        fun p => { network with publish := [p] } := by
  have other
      (key : String)
      (different : "publish" ≠ key) :
      (Json.obj (("publish", .arr [entry]) :: members)).get key =
        (Json.obj members).get key := by
    simp [Json.findMember, different]
  have own :
      (Json.obj (("publish", .arr [entry]) :: members)).get "publish" =
        some (.arr [entry]) := by
    simp [Json.findMember]
  have items : List.mapM PortMapping.fromJson [entry] =
      (PortMapping.fromJson entry).map fun p => [p] := by
    cases read : PortMapping.fromJson entry <;>
      simp [List.mapM_cons, read, Except.map]
  unfold NetworkConfig.fromJson at decoded ⊢
  simp only [Result.bind_eq_ok, Result.pure_eq_ok] at decoded
  obtain ⟨mode, readMode, publish, _, same⟩ := decoded
  obtain rfl := Except.ok.inj same
  simp only [Json.strField, Json.arrayField, Json.u64Field, Json.boolField,
    other "mode" (by decide), other "bridge" (by decide),
    other "subnet" (by decide), other "ip" (by decide),
    other "gateway" (by decide), other "mtu" (by decide),
    other "nat" (by decide), other "dns" (by decide),
    own] at readMode ⊢
  rw [readMode]
  simp only [Option.bind_some, Json.asArray_arr, decodeOr_some, items]
  cases PortMapping.fromJson entry with
  | error e =>
      rfl
  | ok p =>
      rfl

/-- Identity and host name do not look at the network or the mounts. -/
theorem finalizeAndValidate_with
    (host : ConfigHost)
    (requireRootfs : Bool)
    (c : ContainerConfig)
    (network : NetworkConfig)
    (mounts : List MountSpec) :
    ({ c with network, mounts } :
        ContainerConfig).finalizeAndValidate host requireRootfs = (do
      (c.withId host).validateIdentity
      ({ (c.withId host).withHostname with network, mounts } :
        ContainerConfig).finalize host requireRootfs) := by
  unfold ContainerConfig.finalizeAndValidate ContainerConfig.withId
  split <;> rfl

private theorem withHostname_network
    (host : ConfigHost)
    (c : ContainerConfig) :
    (c.withId host).withHostname.network = c.network ∧
      (c.withId host).withHostname.mounts = c.mounts := by
  unfold ContainerConfig.withId
  split <;> exact ⟨rfl, rfl⟩

private theorem validateBridge_publish
    {network : NetworkConfig}
    {done : Unit}
    (accepted : network.validateBridge = .ok done)
    (p : PortMapping) :
    ({ network with publish := [p] } : NetworkConfig).validateBridge =
      .ok () := by
  unfold NetworkConfig.validateBridge at accepted
  simp only [Result.bind_eq_ok] at accepted
  obtain ⟨⟨net, length⟩, cidr, _, wide, gateway, bridgeAddress, _, address,
    _⟩ := accepted
  have published : NetworkConfig.checkPublished [p] [] = .ok () := by
    simp [NetworkConfig.checkPublished]
  unfold NetworkConfig.validateBridge
  simp only [Result.bind_eq_ok]
  exact ⟨(net, length), cidr, (), wide, gateway, bridgeAddress, (), address,
    published⟩

private theorem finalize_publish
    {host : ConfigHost}
    {requireRootfs : Bool}
    {c done : ContainerConfig}
    (bridge : c.network.mode = .bridge)
    (accepted : c.finalize host requireRootfs = .ok done)
    (p : PortMapping) :
    ({ c with network := { c.network with publish := [p] } } :
        ContainerConfig).finalize host requireRootfs =
      .ok { done with network := { done.network with publish := [p] } } := by
  unfold ContainerConfig.finalize at accepted
  simp only [Result.bind_eq_ok, Result.pure_eq_ok] at accepted
  obtain ⟨_, command, rootfs, root, _, mounts, _, resources, namespaces,
    network, _, mtu, mask, capabilities, same⟩ := accepted
  obtain rfl := Except.ok.inj same
  have sameNetwork :
      ({ c with network := { c.network with publish := [p] } } :
        ContainerConfig).validateNetwork = .ok namespaces := by
    simp only [ContainerConfig.validateNetwork, bridge, Result.bind_eq_ok,
      Result.pure_eq_ok] at network
    obtain ⟨_, namespaced, _, checked, kept⟩ := network
    have rechecked := validateBridge_publish checked p
    simp only [ContainerConfig.validateNetwork, bridge, Result.bind_eq_ok,
      Result.pure_eq_ok]
    exact ⟨(), namespaced, (), bridge ▸ rechecked, kept⟩
  unfold ContainerConfig.finalize
  simp only [Result.bind_eq_ok, Result.pure_eq_ok]
  exact ⟨(), command, rootfs, root, (), mounts, (), resources, namespaces,
    sameNetwork, (), mtu, mask, capabilities, rfl⟩

/-- Validation does not reject a single published port. -/
theorem finalizeAndValidate_publish
    {host : ConfigHost}
    {requireRootfs : Bool}
    {c done : ContainerConfig}
    (bridge : c.network.mode = .bridge)
    (accepted : c.finalizeAndValidate host requireRootfs = .ok done)
    (p : PortMapping) :
    ({ c with network := { c.network with publish := [p] } } :
        ContainerConfig).finalizeAndValidate host requireRootfs =
      .ok { done with network := { done.network with publish := [p] } } := by
  obtain ⟨sameNetwork, sameMounts⟩ := withHostname_network host c
  unfold ContainerConfig.finalizeAndValidate at accepted
  obtain ⟨_, identity, finalized⟩ := Result.bind_eq_ok.mp accepted
  refine (finalizeAndValidate_with host requireRootfs c
    { c.network with publish := [p] } c.mounts).trans ?_
  rw [identity, ← sameNetwork, ← sameMounts]
  exact finalize_publish (sameNetwork ▸ bridge) finalized p

/-- A single entry is accepted exactly when it can be decoded. -/
theorem publishAccepted_iff
    {host : ConfigHost}
    {requireRootfs : Bool}
    {members : List (String × Json)}
    {c : ContainerConfig}
    (container : BridgeContainer host requireRootfs members c)
    (entry : Json)
    (p : PortMapping) :
    PublishAccepted host requireRootfs members c entry p ↔
      PortMapping.fromJson entry = .ok p := by
  obtain ⟨done, accepted⟩ := container.accepted
  unfold PublishAccepted
  rw [fromJson_publish container.network entry]
  cases PortMapping.fromJson entry with
  | error e =>
      simp [Except.map]
  | ok q =>
      have validated :=
        finalizeAndValidate_publish container.bridge accepted q
      constructor
      · rintro ⟨network, after, decoded, revalidated, published⟩
        obtain rfl := Except.ok.inj decoded
        rw [validated] at revalidated
        obtain rfl := Except.ok.inj revalidated
        simp only [List.cons.injEq, and_true] at published
        rw [published]
      · intro same
        obtain rfl := Except.ok.inj same
        exact ⟨_, _, rfl, validated, rfl⟩

/-! ## When the two spellings of a port agree -/

/-- Both forms take both ports as written, and the protocol is a known one. -/
structure PlainPorts (host container : Json) (h c : List Char)
    (protocol : String) : Prop where
  hostNumber : host.asU64.isSome = true
  containerNumber : container.asU64.isSome = true
  hostPort : (portOf h).isSome = true
  containerPort : (portOf c).isSome = true
  known : IsProtocol protocol

/--
One of the values is no unsigned number, and the texts are not those of two
ports and a protocol.
-/
structure NoPorts (host container : Json) (h c : List Char)
    (protocol : String) : Prop where
  noNumber : host.asU64 = none ∨ container.asU64 = none
  noText :
    portOf h = none ∨ portOf c = none ∨
      ¬ IsProtocol (toAsciiLowercase protocol)

private theorem toAsciiLowercase_of_isProtocol
    {protocol : String}
    (known : IsProtocol protocol) :
    toAsciiLowercase protocol = protocol := by
  rcases known with rfl | rfl <;> decide

/-- The ports of the two forms agree on a value that both take. -/
theorem asU64_eq_portOf [F64Ops]
    {v : Json}
    {text : List Char}
    (spelled : v.Spelled text)
    (counts : v.asU64.isSome = true)
    (port : (portOf text).isSome = true) :
    v.asU64.map UInt64.toUInt16 = portOf text := by
  obtain ⟨n, number⟩ := Option.isSome_iff_exists.mp counts
  obtain ⟨q, read⟩ := Option.isSome_iff_exists.mp port
  obtain ⟨scanned, denotes⟩ := number_of_asU64 spelled number
  rw [read]
  exact asU64_of_portOf scanned denotes read

private theorem publish_agrees_iff [F64Ops]
    {entry host container : Json}
    {h c : List Char}
    {protocol : String}
    (given : PublishEntry entry host container h c protocol) :
    (∀ p, PortMapping.fromJson entry = .ok p ↔
        PortMapping.parse (publishText h c protocol) = .ok p) ↔
      PlainPorts host container h c protocol ∨
        NoPorts host container h c protocol := by
  simp only [given.fromJson_ok_iff, parse_publishText_ok_iff]
  constructor
  · intro agree
    by_cases numbers : host.asU64.isSome = true ∧
        container.asU64.isSome = true
    · -- The object form accepts, so the string form must give the same.
      obtain ⟨hostNumber, containerNumber⟩ := numbers
      obtain ⟨m, hostRead⟩ := Option.isSome_iff_exists.mp hostNumber
      obtain ⟨n, containerRead⟩ :=
        Option.isSome_iff_exists.mp containerNumber
      have parsed := (agree ⟨m.toUInt16, n.toUInt16, protocol⟩).mp
        ⟨by simp [hostRead], by simp [containerRead], rfl⟩
      obtain ⟨hostPort, containerPort, sameProtocol, known⟩ := parsed
      refine Or.inl ⟨hostNumber, containerNumber, ?_, ?_, ?_⟩
      · simp [hostPort]
      · simp [containerPort]
      · rw [← sameProtocol] at known
        exact known
    · refine Or.inr ⟨?_, ?_⟩
      · rw [not_and_or] at numbers
        simpa using numbers
      · by_contra texts
        simp only [not_or, not_not] at texts
        obtain ⟨hostText, containerText, known⟩ := texts
        obtain ⟨m, hostPort⟩ := Option.ne_none_iff_exists'.mp hostText
        obtain ⟨n, containerPort⟩ :=
          Option.ne_none_iff_exists'.mp containerText
        obtain ⟨hostValue, containerValue, _⟩ :=
          (agree ⟨m, n, toAsciiLowercase protocol⟩).mpr
            ⟨hostPort, containerPort, rfl, known⟩
        obtain ⟨_, hostNumber, _⟩ := Option.map_eq_some_iff.mp hostValue
        obtain ⟨_, containerNumber, _⟩ :=
          Option.map_eq_some_iff.mp containerValue
        exact numbers ⟨by simp [hostNumber], by simp [containerNumber]⟩
  · rintro (plain | neither) p
    · rw [asU64_eq_portOf given.hostText plain.hostNumber plain.hostPort,
        asU64_eq_portOf given.containerText plain.containerNumber
          plain.containerPort,
        toAsciiLowercase_of_isProtocol plain.known]
      simp [plain.known]
    · constructor
      · rintro ⟨hostValue, containerValue, _⟩
        rcases neither.noNumber with none | none
        · simp [none] at hostValue
        · simp [none] at containerValue
      · rintro ⟨hostPort, containerPort, _, known⟩
        rcases neither.noText with none | none | unknown
        · simp [none] at hostPort
        · simp [none] at containerPort
        · exact (unknown known).elim

/-! ## Mounts -/

/-- The string `source:destination[:ro]`. -/
def mountText (source destination : String) (readonly : Bool) : String :=
  String.ofList (source.toList ++ ':' :: (destination.toList ++
    if readonly then ":ro".toList else []))

/-- An object-form entry of `mounts` without a type. -/
structure MountEntry (entry : Json) (source destination : String)
    (readonly : Bool) : Prop where
  object : entry.asStr = none
  sourceValue : entry.strField "source" = some source
  destinationValue : entry.strField "destination" = some destination
  noType : entry.strField "type" = none
  readonlyValue : (entry.boolField "readonly").getD false = readonly
  sourceFree : ':' ∉ source.toList
  destinationFree : ':' ∉ destination.toList

/-- The mount as the only one of the container passes validation. -/
def MountValidated (host : ConfigHost) (requireRootfs : Bool)
    (c : ContainerConfig) (m : MountSpec) : Prop :=
  ∃ done, ({ c with mounts := [m] } :
    ContainerConfig).finalizeAndValidate host requireRootfs = .ok done

private theorem MountEntry.fromJson_eq
    {entry : Json}
    {source destination : String}
    {readonly : Bool}
    (given : MountEntry entry source destination readonly) :
    MountSpec.fromJson entry =
      .ok { source, destination, fstype := "bind", readonly } := by
  simp [MountSpec.fromJson, given.object, given.sourceValue,
    given.destinationValue, given.noType, given.readonlyValue, requireField]

private theorem parse_mountText
    {source destination : String}
    (sourceFree : ':' ∉ source.toList)
    (destinationFree : ':' ∉ destination.toList)
    (readonly : Bool)
    (m : MountSpec) :
    MountSpec.parse (mountText source destination readonly) = .ok m ↔
      startsWithChar '/' destination = true ∧
        m = {
          source
          destination
          fstype := if source = "tmpfs" then "tmpfs" else "bind"
          readonly } := by
  cases readonly with
  | false =>
      have parts : split ':' (mountText source destination false) =
          [source, destination] := by
        simp [split, mountText, splitChars_append sourceFree,
          splitChars_of_not_mem destinationFree]
      simp only [MountSpec.parse, parts, MountSpec.parseOption]
      by_cases absolute : startsWithChar '/' destination = true
      · simp [absolute, eq_comm]
      · simp [absolute]
  | true =>
      have parts : split ':' (mountText source destination true) =
          [source, destination, "ro"] := by
        have last : splitChars ':' ['r', 'o'] = [['r', 'o']] := by
          decide
        simp [split, mountText, splitChars_append sourceFree,
          splitChars_append destinationFree, last]
      simp only [MountSpec.parse, parts, MountSpec.parseOption]
      by_cases absolute : startsWithChar '/' destination = true
      · simp [absolute, eq_comm]
      · simp [absolute]

private theorem validateMounts_single
    (host : ConfigHost)
    (m : MountSpec) :
    ContainerConfig.validateMounts host [m] = .ok () ↔
      (m.fstype = "bind" → host.pathExists m.source = true) := by
  simp only [ContainerConfig.validateMounts, Result.bind_eq_ok]
  constructor
  · rintro ⟨_, checked, _⟩ bound
    have sourceExists := requireConfig_eq_ok.mp checked
    simpa [bound] using sourceExists
  · intro present
    refine ⟨(), requireConfig_eq_ok.mpr ?_, trivial⟩
    rintro ⟨bound, missing⟩
    simp [present bound] at missing

private theorem finalize_mounts
    {host : ConfigHost}
    {requireRootfs : Bool}
    {c done : ContainerConfig}
    (accepted : c.finalize host requireRootfs = .ok done)
    (mounts : List MountSpec) :
    (∃ after, ({ c with mounts } : ContainerConfig).finalize host
        requireRootfs = .ok after) ↔
      ContainerConfig.validateMounts host mounts = .ok () := by
  unfold ContainerConfig.finalize at accepted ⊢
  simp only [Result.bind_eq_ok, Result.pure_eq_ok] at accepted ⊢
  obtain ⟨_, command, rootfs, root, _, _, _, resources, namespaces,
    network, _, mtu, mask, capabilities, _⟩ := accepted
  constructor
  · rintro ⟨_, _, _, _, _, _, checked, _⟩
    exact checked
  · intro checked
    exact ⟨_, (), command, rootfs, root, (), checked, (), resources,
      namespaces, network, (), mtu, mask, capabilities, rfl⟩

/-- Of a single mount, validation checks that a bound source exists. -/
theorem mountValidated_iff
    {host : ConfigHost}
    {requireRootfs : Bool}
    {c done : ContainerConfig}
    (accepted : c.finalizeAndValidate host requireRootfs = .ok done)
    (m : MountSpec) :
    MountValidated host requireRootfs c m ↔
      (m.fstype = "bind" → host.pathExists m.source = true) := by
  obtain ⟨sameNetwork, _⟩ := withHostname_network host c
  unfold ContainerConfig.finalizeAndValidate at accepted
  obtain ⟨_, identity, finalized⟩ := Result.bind_eq_ok.mp accepted
  have moved := finalizeAndValidate_with host requireRootfs c c.network [m]
  rw [identity] at moved
  rw [← validateMounts_single, ← finalize_mounts finalized [m]]
  unfold MountValidated
  have same :
      ({ c with mounts := [m] } : ContainerConfig).finalizeAndValidate host
          requireRootfs =
        ({ (c.withId host).withHostname with mounts := [m] } :
          ContainerConfig).finalize host requireRootfs := by
    refine moved.trans ?_
    rw [← sameNetwork]
    rfl
  rw [same]

private theorem mount_agrees_iff
    {host : ConfigHost}
    {requireRootfs : Bool}
    {c done : ContainerConfig}
    (accepted : c.finalizeAndValidate host requireRootfs = .ok done)
    {entry : Json}
    {source destination : String}
    {readonly : Bool}
    (given : MountEntry entry source destination readonly) :
    (∀ m,
        (MountSpec.fromJson entry = .ok m ∧
          MountValidated host requireRootfs c m) ↔
        (MountSpec.parse (mountText source destination readonly) = .ok m ∧
          MountValidated host requireRootfs c m)) ↔
      (startsWithChar '/' destination = true ∧ source ≠ "tmpfs") ∨
        (startsWithChar '/' destination = false ∧
          host.pathExists source = false) := by
  simp only [given.fromJson_eq, mountValidated_iff accepted,
    parse_mountText given.sourceFree given.destinationFree,
    Except.ok.injEq]
  by_cases absolute : startsWithChar '/' destination = true
  · by_cases tmpfs : source = "tmpfs"
    · -- The string form mounts a fresh file system, the object form binds.
      simp only [absolute, tmpfs, ↓reduceIte, true_and, ne_eq,
        not_true_eq_false, reduceCtorEq, false_and, or_self, iff_false]
      intro agree
      have fresh := (agree ⟨"tmpfs", destination, "tmpfs", readonly⟩).mpr
        ⟨rfl, by simp⟩
      simp at fresh
    · refine iff_of_true (fun m => ?_) (Or.inl ⟨absolute, tmpfs⟩)
      rw [if_neg tmpfs]
      constructor
      · rintro ⟨rfl, valid⟩
        exact ⟨⟨absolute, rfl⟩, valid⟩
      · rintro ⟨⟨_, rfl⟩, valid⟩
        exact ⟨rfl, valid⟩
  · simp only [absolute, Bool.false_eq_true, false_and, false_or,
      true_and, iff_false]
    constructor
    · intro agree
      by_contra present
      exact agree ⟨source, destination, "bind", readonly⟩
        ⟨rfl, fun _ => by simpa using present⟩
    · rintro missing m ⟨rfl, present⟩
      simp [missing] at present

/-! ## Both spellings -/

/-- The two spellings of a published port accept the same and give the same. -/
def PublishAgrees (host : ConfigHost) (requireRootfs : Bool)
    (members : List (String × Json)) (c : ContainerConfig)
    (entry : Json) (text : String) : Prop :=
  ∀ p, PublishAccepted host requireRootfs members c entry p ↔
    PortMapping.parse text = .ok p

/-- The two spellings of a mount accept the same and give the same. -/
def MountAgrees (host : ConfigHost) (requireRootfs : Bool)
    (c : ContainerConfig) (entry : Json) (text : String) : Prop :=
  ∀ m,
    (MountSpec.fromJson entry = .ok m ∧
      MountValidated host requireRootfs c m) ↔
    (MountSpec.parse text = .ok m ∧
      MountValidated host requireRootfs c m)

/--
The spellings of a port agree exactly when its numbers and protocol are given
as the string form wants them, or refused by both forms; those of a mount when
the destination is absolute and the source not `tmpfs`, or both refuse it.
-/
theorem spellings_agree_iff [F64Ops]
    {host : ConfigHost}
    {requireRootfs : Bool}
    {members : List (String × Json)}
    {config : ContainerConfig}
    (container : BridgeContainer host requireRootfs members config)
    {publish hostValue containerValue : Json}
    {h c : List Char}
    {protocol : String}
    (port : PublishEntry publish hostValue containerValue h c protocol)
    {mount : Json}
    {source destination : String}
    {readonly : Bool}
    (volume : MountEntry mount source destination readonly) :
    (PublishAgrees host requireRootfs members config publish
        (publishText h c protocol) ↔
      PlainPorts hostValue containerValue h c protocol ∨
        NoPorts hostValue containerValue h c protocol) ∧
    (MountAgrees host requireRootfs config mount
        (mountText source destination readonly) ↔
      (startsWithChar '/' destination = true ∧ source ≠ "tmpfs") ∨
        (startsWithChar '/' destination = false ∧
          host.pathExists source = false)) := by
  obtain ⟨done, accepted⟩ := container.accepted
  refine ⟨?_, mount_agrees_iff accepted volume⟩
  rw [← publish_agrees_iff port]
  unfold PublishAgrees
  simp only [publishAccepted_iff container publish]

/-- A host without files on which identifiers are `c1`. -/
def bareHost : ConfigHost where
  generateId := "c1"
  canonicalize := fun path => .ok path
  isDir := fun _ => true
  pathExists := fun path => path = "/data"

/-- A container with a shell on the default bridge. -/
def bridged : ContainerConfig where
  command := ["sh"]
  network := { mode := .bridge }

private theorem bridged_accepted :
    BridgeContainer bareHost false [("mode", .str "bridge")] bridged where
  network := by
    rfl
  bridge := rfl
  accepted := by
    have valid :
        (bridged.finalizeAndValidate bareHost false).isOk = true := by
      decide +kernel
    cases done : bridged.finalizeAndValidate bareHost false with
    | ok after => exact ⟨after, rfl⟩
    | error e => simp [done, Except.isOk, Except.toBool] at valid

/-- An object-form entry of `publish`. -/
def publishObject (host container : Int64) (protocol : String) : Json :=
  .obj [("host", .int host), ("container", .int container),
    ("protocol", .str protocol)]

/-- An object-form entry of `mounts`. -/
def mountObject (source destination : String) : Json :=
  .obj [("source", .str source), ("destination", .str destination)]

private theorem publishObject_entry [F64Ops]
    {host container : Int64}
    {h c : List Char}
    (protocol : String)
    (hostText : (Json.int host).Spelled h)
    (containerText : (Json.int container).Spelled c) :
    PublishEntry (publishObject host container protocol) (.int host)
      (.int container) h c protocol :=
  ⟨rfl, rfl, rfl, rfl, hostText, containerText⟩

private theorem mountObject_entry
    {source destination : String}
    (sourceFree : ':' ∉ source.toList)
    (destinationFree : ':' ∉ destination.toList) :
    MountEntry (mountObject source destination) source destination false :=
  ⟨rfl, rfl, rfl, rfl, rfl, sourceFree, destinationFree⟩

private theorem spelled_8080 [F64Ops] :
    (Json.int 8080).Spelled ['8', '0', '8', '0'] :=
  .number (by decide) rfl

private theorem spelled_80 [F64Ops] : (Json.int 80).Spelled ['8', '0'] :=
  .number (by decide) rfl

theorem plain_entries_agree :
    PublishAgrees bareHost false [("mode", .str "bridge")] bridged
        (publishObject 8080 80 "tcp")
        (publishText ['8', '0', '8', '0'] ['8', '0'] "tcp") ∧
      MountAgrees bareHost false bridged (mountObject "/data" "/mnt")
        (mountText "/data" "/mnt" false) := by
  have volume :
      MountEntry (mountObject "/data" "/mnt") "/data" "/mnt" false :=
    mountObject_entry (by decide) (by decide)
  have agree := @spellings_agree_iff unitOps _ _ _ _ bridged_accepted
    _ _ _ _ _ _
    (@publishObject_entry unitOps _ _ _ _ "tcp" (@spelled_8080 unitOps)
      (@spelled_80 unitOps))
    _ _ _ _ volume
  refine ⟨agree.1.mpr (Or.inl ?_), agree.2.mpr (Or.inl ?_)⟩
  · exact ⟨by decide, by decide, by decide, by decide, by decide⟩
  · exact ⟨by decide, by decide⟩

/--
As an object, port 65616 is published as port 80 and a relative destination is
mounted; as strings, both are refused.
-/
theorem narrowed_port_and_relative_mount_differ :
    (PublishAccepted bareHost false [("mode", .str "bridge")] bridged
        (publishObject 65616 80 "tcp") ⟨80, 80, "tcp"⟩ ∧
      ¬ PublishAgrees bareHost false [("mode", .str "bridge")] bridged
        (publishObject 65616 80 "tcp")
        (publishText ['6', '5', '6', '1', '6'] ['8', '0'] "tcp")) ∧
    ¬ MountAgrees bareHost false bridged (mountObject "/data" "mnt")
        (mountText "/data" "mnt" false) := by
  obtain ⟨done, accepted⟩ := bridged_accepted.accepted
  have narrowed :
      PublishAccepted bareHost false [("mode", .str "bridge")] bridged
        (publishObject 65616 80 "tcp") ⟨80, 80, "tcp"⟩ := by
    rw [publishAccepted_iff bridged_accepted]
    rfl
  have mounted :
      MountValidated bareHost false bridged
        ⟨"/data", "mnt", "bind", false⟩ := by
    rw [mountValidated_iff accepted]
    intro _
    decide
  refine ⟨⟨narrowed, fun agree => ?_⟩, fun agree => ?_⟩
  · have parsed := (agree _).mp narrowed
    revert parsed
    decide +kernel
  · have parsed := ((agree _).mp ⟨rfl, mounted⟩).1
    revert parsed
    decide +kernel

end Myrun
