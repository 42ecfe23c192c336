import Myrun.Error
import Myrun.Float64

namespace Myrun

/-!
# The JSON value tree, its printer and its parser

`src/util/json.rs`.  Objects are association lists in insertion order; `set`
replaces the value of an existing key in place.  The accessors are lossy on
purpose: `as_u64` of a negative number, and every accessor of a wrong kind,
returns nothing.

The parser of the source walks over the UTF-8 bytes of a valid string.  Every
byte it compares is ASCII and never occurs inside a longer sequence, so the
model walks over characters; byte counts remain where the source depends on
them, in the four bytes of a `\u` escape and in the offsets of error messages.
-/

/-- A JSON value. -/
inductive Json where
  | null
  | bool (value : Bool)
  | int (value : Int64)
  | float (value : F64)
  | str (value : String)
  | arr (items : List Json)
  | obj (members : List (String × Json))
  deriving Repr

namespace Json

/-- Replace the first member called `key`, or append a new one. -/
def setMember (key : String) (value : Json) :
    List (String × Json) → List (String × Json)
  | [] => [(key, value)]
  | (k, v) :: rest =>
      if k = key then (k, value) :: rest
      else (k, v) :: setMember key value rest

/-- `Json::set`: a no-op on anything but an object. -/
def set (j : Json) (key : String) (value : Json) : Json :=
  match j with
  | obj members => obj (setMember key value members)
  | other => other

/-- First member called `key`. -/
def findMember (key : String) : List (String × Json) → Option Json
  | [] => none
  | (k, v) :: rest => if k = key then some v else findMember key rest

/-- `Json::get`. -/
def get (j : Json) (key : String) : Option Json :=
  match j with
  | obj members => findMember key members
  | _ => none

/-- `Json::as_str`. -/
def asStr : Json → Option String
  | str s => some s
  | _ => none

/-- `Json::as_i64`. -/
def asI64 : Json → Option Int64
  | int i => some i
  | float f => some f.asI64
  | _ => none

/-- `Json::as_u64`: negative numbers and `NaN` are no number at all here. -/
def asU64 : Json → Option UInt64
  | int i => if 0 ≤ i then some i.toUInt64 else none
  | float f => if f.nonNegative then some f.asU64 else none
  | _ => none

/-- `Json::as_f64`. -/
def asF64 [F64Ops] : Json → Option F64
  | int i => some (F64Ops.ofI64 i)
  | float f => some f
  | _ => none

/-- `Json::as_bool`. -/
def asBool : Json → Option Bool
  | bool b => some b
  | _ => none

/-- `Json::as_array`. -/
def asArray : Json → Option (List Json)
  | arr items => some items
  | _ => none

/-- `Json::as_object`. -/
def asObject : Json → Option (List (String × Json))
  | obj members => some members
  | _ => none

/-- `Json::is_null`. -/
def isNull : Json → Bool
  | null => true
  | _ => false

@[simp] theorem get_obj (members : List (String × Json)) (key : String) :
    (obj members).get key = findMember key members := rfl

/-- Distinct keys are simply appended. -/
theorem setMember_of_not_mem
    {key : String}
    {value : Json}
    {members : List (String × Json)}
    (fresh : key ∉ members.map Prod.fst) :
    setMember key value members = members ++ [(key, value)] := by
  induction members with
  | nil =>
      rfl
  | cons member rest inductionHypothesis =>
      obtain ⟨k, v⟩ := member
      simp only [List.map_cons, List.mem_cons, not_or] at fresh
      simp [setMember, Ne.symm fresh.1, inductionHypothesis fresh.2]

@[simp] theorem asStr_str (s : String) : (str s).asStr = some s := rfl

@[simp] theorem asStr_null : null.asStr = none := rfl

@[simp] theorem asStr_arr (items : List Json) : (arr items).asStr = none := rfl

@[simp] theorem asStr_obj (members : List (String × Json)) :
    (obj members).asStr = none := rfl

@[simp] theorem asBool_bool (b : Bool) : (bool b).asBool = some b := rfl

@[simp] theorem asArray_arr (items : List Json) :
    (arr items).asArray = some items := rfl

@[simp] theorem asObject_obj (members : List (String × Json)) :
    (obj members).asObject = some members := rfl

/-- `Json::strings`. -/
def strings (items : List String) : Json :=
  arr (items.map str)

/-! ## Printing -/

/-- `{}` of a 64-bit signed integer. -/
def intText (i : Int64) : List Char :=
  if i.toInt < 0 then '-' :: Nat.toDigits 10 i.toInt.natAbs
  else Nat.toDigits 10 i.toInt.natAbs

/-- One character of `escape_into`. -/
def escapeChar (c : Char) : List Char :=
  if c = '"' then ['\\', '"']
  else if c = '\\' then ['\\', '\\']
  else if c = '\n' then ['\\', 'n']
  else if c = '\r' then ['\\', 'r']
  else if c = '\t' then ['\\', 't']
  else if c.toNat = 0x08 then ['\\', 'b']
  else if c.toNat = 0x0c then ['\\', 'f']
  else if c.toNat < 0x20 then
    -- `{:04x}` of a number below 0x20
    ['\\', 'u', '0', '0', Nat.digitChar (c.toNat / 16),
      Nat.digitChar (c.toNat % 16)]
  else [c]

/-- `escape_into`: the quoted form of a string. -/
def escape (s : String) : List Char :=
  '"' :: s.toList.flatMap escapeChar ++ ['"']

/-- The `nl` closure of `write`: a line break and the indentation. -/
def newline (indent : Option Nat) (depth : Nat) : List Char :=
  match indent with
  | some step => '\n' :: List.replicate (step * depth) ' '
  | none => []

mutual

/-- `Json::write`: the text it appends for a value. -/
def write [F64Ops] (indent : Option Nat) (depth : Nat) : Json → List Char
  | null => "null".toList
  | bool true => "true".toList
  | bool false => "false".toList
  | int i => intText i
  | float f => if f.isFinite then F64Ops.display f else "null".toList
  | str s => escape s
  | arr [] => "[]".toList
  | arr (first :: rest) =>
      '[' :: newline indent (depth + 1) ++ write indent (depth + 1) first ++
        writeItems indent depth rest ++ newline indent depth ++ [']']
  | obj [] => ['{', '}']
  | obj ((key, value) :: rest) =>
      '{' :: newline indent (depth + 1) ++ escape key ++ ':' ::
        (if indent.isSome then [' '] else []) ++
        write indent (depth + 1) value ++
        writeMembers indent depth rest ++ newline indent depth ++ ['}']

/-- The items of an array after the first one. -/
def writeItems [F64Ops] (indent : Option Nat) (depth : Nat) :
    List Json → List Char
  | [] => []
  | item :: rest =>
      ',' :: newline indent (depth + 1) ++ write indent (depth + 1) item ++
        writeItems indent depth rest

/-- The members of an object after the first one. -/
def writeMembers [F64Ops] (indent : Option Nat) (depth : Nat) :
    List (String × Json) → List Char
  | [] => []
  | (key, value) :: rest =>
      ',' :: newline indent (depth + 1) ++ escape key ++ ':' ::
        (if indent.isSome then [' '] else []) ++
        write indent (depth + 1) value ++ writeMembers indent depth rest

end

/-- `Json::to_string`. -/
def toText [F64Ops] (j : Json) : String :=
  String.ofList (j.write none 0)

/-- `Json::to_string_pretty`. -/
def toStringPretty [F64Ops] (j : Json) : String :=
  String.ofList (j.write (some 2) 0)

end Json

/-! ## Parsing -/

namespace JsonParser

/-- `Parser::ws`. -/
def ws : List Char → List Char
  | c :: rest =>
      if c = ' ' ∨ c = '\t' ∨ c = '\n' ∨ c = '\r' then ws rest else c :: rest
  | [] => []

/-- `Parser::err`: a message with the byte offset of the remaining input. -/
def err {α : Type} (input rest : List Char) (message : String) : Result α :=
  .error (.parse (message ++ " at byte offset " ++
    toString (utf8Len input - utf8Len rest)))

/-- Cut off the first `count` bytes, if they end on a character boundary. -/
def takeBytes : Nat → List Char → Option (List Char × List Char)
  | 0, rest => some ([], rest)
  | _ + 1, [] => none
  | count + 1, c :: rest =>
      if c.utf8Size ≤ count + 1 then
        (takeBytes (count + 1 - c.utf8Size) rest).map
          fun parts => (c :: parts.1, parts.2)
      else none

/-- Value of one hexadecimal digit. -/
def hexDigit (c : Char) : Option Nat :=
  if '0' ≤ c ∧ c ≤ '9' then some (c.toNat - 48)
  else if 'a' ≤ c ∧ c ≤ 'f' then some (c.toNat - 87)
  else if 'A' ≤ c ∧ c ≤ 'F' then some (c.toNat - 55)
  else none

/-- The digits of `u32::from_str_radix(_, 16)`; four bytes cannot overflow. -/
def hexDigits : List Char → Nat → Option Nat
  | [], acc => some acc
  | c :: rest, acc =>
      match hexDigit c with
      | some d => hexDigits rest (16 * acc + d)
      | none => none

/-- `u32::from_str_radix(_, 16)`: an optional plus sign, then digits. -/
def fromHex (cs : List Char) : Option Nat :=
  match cs with
  | [] => none
  | ['+'] => none
  | '+' :: rest => hexDigits rest 0
  | _ => hexDigits cs 0

/-- `char::from_u32(cp).unwrap_or('\u{fffd}')`. -/
def charOrReplacement (cp : Nat) : Char :=
  if cp.isValidChar then Char.ofNat cp else Char.ofNat 0xfffd

/-- The escape after a backslash: the character it denotes and what follows. -/
def escapeSequence (input : List Char) :
    List Char → Result (Char × List Char)
  | [] => err input [] "unterminated escape"
  | e :: rest =>
      if e = '"' then .ok ('"', rest)
      else if e = '\\' then .ok ('\\', rest)
      else if e = '/' then .ok ('/', rest)
      else if e = 'n' then .ok ('\n', rest)
      else if e = 'r' then .ok ('\r', rest)
      else if e = 't' then .ok ('\t', rest)
      else if e = 'b' then .ok (Char.ofNat 0x08, rest)
      else if e = 'f' then .ok (Char.ofNat 0x0c, rest)
      else if e = 'u' then
        if utf8Len rest < 4 then err input rest "truncated \\u escape"
        else
          match takeBytes 4 rest with
          | none => .error (.parse "bad \\u escape")
          | some (hex, rest') =>
              match fromHex hex with
              | none => .error (.parse "bad \\u escape")
              | some cp => .ok (charOrReplacement cp, rest')
      else err input rest "unknown escape"

/-- The characters of `Parser::string` after the opening quote. -/
def stringBody (input : List Char) :
    Nat → List Char → Result (List Char × List Char)
  | 0, rest => err input rest "unterminated string"
  | _ + 1, [] => err input [] "unterminated string"
  | fuel + 1, c :: rest =>
      if c = '"' then .ok ([], rest)
      else if c = '\\' then do
        let (decoded, rest') ← escapeSequence input rest
        let (tail, rest'') ← stringBody input fuel rest'
        return (decoded :: tail, rest'')
      else if c.toNat < 0x20 then
        err input rest "control character in string"
      else do
        let (tail, rest') ← stringBody input fuel rest
        return (c :: tail, rest')

/-- `Parser::string`, entered on the opening quote. -/
def string (input : List Char) (rest : List Char) :
    Result (String × List Char) := do
  let (chars, rest') ← stringBody input rest.length rest.tail
  return (String.ofList chars, rest')

/-- Characters that continue a number after its sign. -/
def isNumberChar (c : Char) : Bool :=
  c.isDigit || c = '.' || c = 'e' || c = 'E' || c = '-' || c = '+'

/-- Characters that make a number a float. -/
def isFloatChar (c : Char) : Bool :=
  c = '.' || c = 'e' || c = 'E' || c = '-' || c = '+'

/-- The text of a number: an optional sign and the characters after it. -/
def numberText (cs : List Char) : List Char :=
  match cs with
  | '-' :: rest => '-' :: rest.takeWhile isNumberChar
  | '+' :: rest => '+' :: rest.takeWhile isNumberChar
  | _ => cs.takeWhile isNumberChar

/-- Does the text of a number, past its sign, contain a float character? -/
def looksFloat (text : List Char) : Bool :=
  match text with
  | '-' :: rest => rest.any isFloatChar
  | '+' :: rest => rest.any isFloatChar
  | _ => text.any isFloatChar

/-- The value denoted by the text of a number. -/
def numberValue [F64Ops] (text : List Char) : Result Json :=
  let asFloat : Result Json :=
    match F64Ops.parse text with
    | some f => .ok (.float f)
    | none =>
        .error (.parse ("bad number " ++ debugStr (String.ofList text) ++
          ": invalid float literal"))
  if looksFloat text then asFloat
  else
    match parseI64Chars text with
    | some i => .ok (.int i)
    | none => asFloat

/-- `Parser::number`. -/
def number [F64Ops] (input rest : List Char) : Result (Json × List Char) :=
  let text := numberText rest
  if text.isEmpty then err input rest "expected a value"
  else do
    let v ← numberValue text
    return (v, rest.drop text.length)

/-- `Parser::lit` followed by the value it stands for. -/
def literal (input : List Char) (word : String) (v : Json)
    (rest : List Char) : Result (Json × List Char) :=
  match stripPrefixChars word.toList rest with
  | some rest' => .ok (v, rest')
  | none => err input rest "invalid token"

mutual

/-- `Parser::value`.  The first argument bounds the recursion. -/
def value [F64Ops] (input : List Char) :
    Nat → List Char → Result (Json × List Char)
  | 0, rest => err input rest "nesting too deep"
  | fuel + 1, rest =>
      match rest with
      | [] => err input [] "unexpected end of input"
      | '{' :: tail =>
          match ws tail with
          | '}' :: rest' => .ok (.obj [], rest')
          | _ => do
              let (members, rest') ← objectLoop input fuel (ws tail)
              return (.obj members, rest')
      | '[' :: tail =>
          match ws tail with
          | ']' :: rest' => .ok (.arr [], rest')
          | _ => do
              let (items, rest') ← arrayLoop input fuel (ws tail)
              return (.arr items, rest')
      | '"' :: _ => do
          let (s, rest') ← string input rest
          return (.str s, rest')
      | 't' :: _ => literal input "true" (.bool true) rest
      | 'f' :: _ => literal input "false" (.bool false) rest
      | 'n' :: _ => literal input "null" .null rest
      | _ => number input rest

/-- The loop of `Parser::object`. -/
def objectLoop [F64Ops] (input : List Char) :
    Nat → List Char → Result (List (String × Json) × List Char)
  | 0, rest => err input rest "nesting too deep"
  | fuel + 1, rest =>
      match ws rest with
      | '"' :: tail => do
          let (key, afterKey) ← string input ('"' :: tail)
          match ws afterKey with
          | ':' :: afterColon => do
              let (v, afterValue) ← value input fuel (ws afterColon)
              match ws afterValue with
              | ',' :: rest' => do
                  let (members, rest'') ← objectLoop input fuel rest'
                  return ((key, v) :: members, rest'')
              | '}' :: rest' => .ok ([(key, v)], rest')
              | other => err input other "expected ',' or '\x7d'"
          | other => err input other "expected ':'"
      | other => err input other "expected object key"

/-- The loop of `Parser::array`. -/
def arrayLoop [F64Ops] (input : List Char) :
    Nat → List Char → Result (List Json × List Char)
  | 0, rest => err input rest "nesting too deep"
  | fuel + 1, rest => do
      let (v, afterValue) ← value input fuel (ws rest)
      match ws afterValue with
      | ',' :: rest' => do
          let (items, rest'') ← arrayLoop input fuel rest'
          return (v :: items, rest'')
      | ']' :: rest' => .ok ([v], rest')
      | other => err input other "expected ',' or ']'"

end

end JsonParser

/-- `json::parse`. -/
def parseJson [F64Ops] (text : String) : Result Json := do
  let input := text.toList
  let (v, rest) ←
    JsonParser.value input (2 * input.length + 2) (JsonParser.ws input)
  match JsonParser.ws rest with
  | [] => return v
  | trailing =>
      .error (.parse ("trailing data at byte offset " ++
        toString (utf8Len input - utf8Len trailing)))

end Myrun
