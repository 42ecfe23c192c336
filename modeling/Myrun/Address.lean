import Myrun.Error

namespace Myrun

/-!
# IPv4 addresses and subnets

The address helpers of `src/sys/netlink.rs` and `src/config.rs`: dotted
decimal text in both directions, CIDR notation, and membership in a subnet.
Addresses are four bytes, as in the source; arithmetic on them is done on the
big-endian 32-bit word.
-/

/-- An IPv4 address, `[u8; 4]`. -/
structure Ipv4 where
  a : UInt8
  b : UInt8
  c : UInt8
  d : UInt8
  deriving Repr, DecidableEq

namespace Ipv4

/-- `u32::from_be_bytes`. -/
def toU32 (ip : Ipv4) : UInt32 :=
  ip.a.toUInt32 <<< 24 ||| ip.b.toUInt32 <<< 16 ||| ip.c.toUInt32 <<< 8 |||
    ip.d.toUInt32

/-- `u32::to_be_bytes`. -/
def ofU32 (word : UInt32) : Ipv4 where
  a := (word >>> 24).toUInt8
  b := (word >>> 16).toUInt8
  c := (word >>> 8).toUInt8
  d := word.toUInt8

end Ipv4

/-- `{}` of an unsigned byte. -/
def octetText (octet : UInt8) : List Char :=
  Nat.toDigits 10 octet.toNat

/-- `format_ipv4`. -/
def formatIpv4 (ip : Ipv4) : String :=
  String.ofList (octetText ip.a ++ '.' :: (octetText ip.b ++ '.' ::
    (octetText ip.c ++ '.' :: octetText ip.d)))

/-- The octet parser inside `parse_ipv4`, with its error message. -/
def parseOctet (whole octet : String) : Result UInt8 :=
  match parseU8 octet with
  | some value => .ok value
  | none =>
      .error (.config ("invalid IPv4 octet " ++ debugStr octet ++ " in " ++
        debugStr whole))

/-- `parse_ipv4`. -/
def parseIpv4 (s : String) : Result Ipv4 :=
  match split '.' (trim s) with
  | [a, b, c, d] => do
      let a ← parseOctet s a
      let b ← parseOctet s b
      let c ← parseOctet s c
      let d ← parseOctet s d
      return ⟨a, b, c, d⟩
  | _ => .error (.config ("invalid IPv4 address " ++ debugStr s))

/-- `parse_cidr`. -/
def parseCidr (s : String) : Result (Ipv4 × UInt8) :=
  match splitOnce '/' s with
  | none =>
      .error (.config ("expected CIDR a.b.c.d/len, got " ++ debugStr s))
  | some (ip, pfx) =>
      match parseU8 pfx with
      | none =>
          .error (.config ("invalid prefix length in " ++ debugStr s))
      | some prefixLen =>
          if 32 < prefixLen then
            .error (.config ("prefix length " ++ toString prefixLen.toNat ++
              " > 32"))
          else do
            let net ← parseIpv4 ip
            return (net, prefixLen)

/-- The network mask of a prefix length. -/
def maskOf (prefixLen : UInt8) : UInt32 :=
  if prefixLen = 0 then 0
  else (0xffffffff : UInt32) <<< (32 - prefixLen.toUInt32)

/-- `in_subnet`. -/
def inSubnet (addr net : Ipv4) (prefixLen : UInt8) : Bool :=
  addr.toU32 &&& maskOf prefixLen = net.toU32 &&& maskOf prefixLen

/-! ## Printing followed by parsing -/

/-- Every character of an octet is a digit. -/
theorem isDigit_of_mem_octetText
    {octet : UInt8}
    {c : Char}
    (member : c ∈ octetText octet) :
    c.isDigit = true :=
  List.all_eq_true.mp (toDigits_all_isDigit _) c member

/-- An octet contains no dot. -/
theorem dot_not_mem_octetText (octet : UInt8) :
    '.' ∉ octetText octet := by
  intro member
  have digit := isDigit_of_mem_octetText member
  simp at digit

/-- An octet survives printing and parsing. -/
theorem parseOctet_octetText
    (whole : String)
    (octet : UInt8) :
    parseOctet whole (String.ofList (octetText octet)) = .ok octet := by
  have bound : octet.toNat ≤ 2 ^ 8 - 1 := by
    have := octet.toNat_lt
    omega
  simp only [parseOctet, parseU8, octetText, String.toList_ofList,
    parseUnsigned_toDigits bound, Option.map_some, UInt8.ofNat_toNat]

/-- A text that neither starts nor ends with white space is not trimmed. -/
theorem trimChars_of_ends
    {first last : Char}
    {cs middle : List Char}
    (starts : cs = first :: middle)
    (ends : cs.getLast? = some last)
    (firstStays : isWhitespace first = false)
    (lastStays : isWhitespace last = false) :
    trimChars cs = cs := by
  have front : cs.dropWhile isWhitespace = cs := by
    subst starts
    simp [firstStays]
  have back : cs.reverse.dropWhile isWhitespace = cs.reverse := by
    rw [List.getLast?_eq_head?_reverse] at ends
    cases shape : cs.reverse with
    | nil =>
        rfl
    | cons c rest =>
        rw [shape] at ends
        simp only [List.head?_cons, Option.some.injEq] at ends
        subst ends
        simp [lastStays]
  rw [trimChars, front, back, List.reverse_reverse]

/-- A digit is not white space. -/
theorem isWhitespace_of_isDigit
    {c : Char}
    (digit : c.isDigit = true) :
    isWhitespace c = false := by
  simp only [Char.isDigit, Bool.and_eq_true, decide_eq_true_eq] at digit
  have lower : 48 ≤ c.toNat := digit.1
  have upper : c.toNat ≤ 57 := digit.2
  simp only [isWhitespace, Bool.or_eq_false_iff, Bool.and_eq_false_iff,
    decide_eq_false_iff_not]
  omega

/-- The text of an address is not trimmed. -/
theorem trimChars_formatIpv4 (ip : Ipv4) :
    trimChars (formatIpv4 ip).toList = (formatIpv4 ip).toList := by
  simp only [formatIpv4, String.toList_ofList]
  cases first : octetText ip.a with
  | nil =>
      exact (Nat.toDigits_ne_nil first).elim
  | cons c cs =>
      have firstDigit : c.isDigit = true := head_toDigits_isDigit first
      have nonempty : octetText ip.d ≠ [] := Nat.toDigits_ne_nil
      have lastMember := List.getLast_mem nonempty
      apply trimChars_of_ends rfl _
        (isWhitespace_of_isDigit firstDigit)
        (isWhitespace_of_isDigit (isDigit_of_mem_octetText lastMember))
      rw [List.getLast?_eq_getLast_of_ne_nil (by simp)]
      simp [nonempty, List.getLast_cons]

/-- Parsing the text of an address returns the address. -/
@[simp] theorem parseIpv4_formatIpv4 (ip : Ipv4) :
    parseIpv4 (formatIpv4 ip) = .ok ip := by
  have pieces :
      split '.' (trim (formatIpv4 ip)) =
        [String.ofList (octetText ip.a), String.ofList (octetText ip.b),
          String.ofList (octetText ip.c), String.ofList (octetText ip.d)] := by
    unfold split trim
    rw [trimChars_formatIpv4, String.toList_ofList]
    simp only [formatIpv4, String.toList_ofList]
    rw [splitChars_append (dot_not_mem_octetText _),
      splitChars_append (dot_not_mem_octetText _),
      splitChars_append (dot_not_mem_octetText _),
      splitChars_of_not_mem (dot_not_mem_octetText _)]
    rfl
  simp [parseIpv4, pieces, parseOctet_octetText]

/-! ## Addresses as numbers -/

namespace Ipv4

private theorem toNat_toU32 (ip : Ipv4) :
    ip.toU32.toNat =
      ((ip.a.toNat * 256 + ip.b.toNat) * 256 + ip.c.toNat) * 256 +
        ip.d.toNat := by
  have aBound := ip.a.toNat_lt
  have bBound := ip.b.toNat_lt
  have cBound := ip.c.toNat_lt
  have dBound := ip.d.toNat_lt
  have aFits : ip.a.toNat <<< 24 % 4294967296 = ip.a.toNat <<< 24 :=
    Nat.mod_eq_of_lt (by simp only [Nat.shiftLeft_eq]; omega)
  have bFits : ip.b.toNat <<< 16 % 4294967296 = ip.b.toNat <<< 16 :=
    Nat.mod_eq_of_lt (by simp only [Nat.shiftLeft_eq]; omega)
  have cFits : ip.c.toNat <<< 8 % 4294967296 = ip.c.toNat <<< 8 :=
    Nat.mod_eq_of_lt (by simp only [Nat.shiftLeft_eq]; omega)
  -- the bytes do not overlap, so each `|||` is a sum
  have two :
      ip.c.toNat <<< 8 ||| ip.d.toNat = ip.c.toNat <<< 8 + ip.d.toNat :=
    (Nat.shiftLeft_add_eq_or_of_lt dBound ip.c.toNat).symm
  have three :
      ip.b.toNat <<< 16 ||| (ip.c.toNat <<< 8 + ip.d.toNat) =
        ip.b.toNat <<< 16 + (ip.c.toNat <<< 8 + ip.d.toNat) :=
    (Nat.shiftLeft_add_eq_or_of_lt
      (by simp only [Nat.shiftLeft_eq]; omega) ip.b.toNat).symm
  have four :
      ip.a.toNat <<< 24 |||
          (ip.b.toNat <<< 16 + (ip.c.toNat <<< 8 + ip.d.toNat)) =
        ip.a.toNat <<< 24 +
          (ip.b.toNat <<< 16 + (ip.c.toNat <<< 8 + ip.d.toNat)) :=
    (Nat.shiftLeft_add_eq_or_of_lt
      (by simp only [Nat.shiftLeft_eq]; omega) ip.a.toNat).symm
  simp only [toU32, UInt32.toNat_or, UInt32.toNat_shiftLeft,
    UInt8.toNat_toUInt32, UInt32.reduceToNat, Nat.reduceMod, Nat.reducePow,
    aFits, bFits, cFits, Nat.or_assoc, two, three, four]
  simp only [Nat.shiftLeft_eq]
  omega

@[simp] theorem toU32_ofU32 (word : UInt32) :
    (ofU32 word).toU32 = word := by
  apply UInt32.toNat_inj.1
  have bound := word.toNat_lt
  rw [toNat_toU32]
  simp [ofU32, Nat.shiftRight_eq_div_pow]
  omega

theorem toU32_injective
    {first second : Ipv4}
    (sameWord : first.toU32 = second.toU32) :
    first = second := by
  obtain ⟨a, b, c, d⟩ := first
  obtain ⟨a', b', c', d'⟩ := second
  have sameNumber := congrArg UInt32.toNat sameWord
  rw [toNat_toU32, toNat_toU32] at sameNumber
  simp only at sameNumber
  have bounds := And.intro a.toNat_lt (And.intro b.toNat_lt
    (And.intro c.toNat_lt d.toNat_lt))
  have bounds' := And.intro a'.toNat_lt (And.intro b'.toNat_lt
    (And.intro c'.toNat_lt d'.toNat_lt))
  simp only [mk.injEq, ← UInt8.toNat_inj]
  omega

@[simp] theorem ofU32_toU32 (ip : Ipv4) :
    ofU32 ip.toU32 = ip :=
  toU32_injective (by simp)

end Ipv4

end Myrun
