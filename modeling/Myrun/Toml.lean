import Myrun.Json

namespace Myrun

/-!
# The TOML reader

`src/util/toml.rs` lowers a small subset of TOML into the JSON value tree.  Its
scanners walk over the bytes of a line and cut the line at the offsets they
find; its counters are fixed-width integers.  A run can therefore end in three
ways: with a value, with an error, or in a panic, and all three are results
here.  Slices and counters are checked as the source language checks them.
-/

namespace Toml

/-- Why a run does not come back. -/
inductive Panic where
  /-- A slice outside the text or off a character boundary. -/
  | slice
  /-- An integer out of its range. -/
  | overflow
  /-- A loop that goes on for longer than it is followed. -/
  | endless
  deriving Repr, DecidableEq

/-- How a run fails: with an error, or in a panic. -/
inductive Fault where
  | refused (e : Error)
  | panicked (p : Panic)
  deriving Repr, DecidableEq

/-- A run of the reader. -/
abbrev Guarded := Except Fault

/-- `return Err(Error::parse(..))`. -/
def refuse {α : Type} (message : String) : Guarded α :=
  .error (.refused (.parse message))

/-- A panic. -/
def crash {α : Type} (p : Panic) : Guarded α :=
  .error (.panicked p)

/-! ## Bytes and slices -/

/-- `str::as_bytes`. -/
def asBytes (s : List Char) : List UInt8 :=
  s.flatMap String.utf8EncodeChar

/-- `&s[start..]`. -/
def sliceFrom (s : List Char) (start : Nat) : Guarded (List Char) :=
  match JsonParser.takeBytes start s with
  | some (_, rest) => .ok rest
  | none => crash .slice

/-- `&s[start..stop]`. -/
def slice (s : List Char) (start stop : Nat) : Guarded (List Char) :=
  if stop < start then crash .slice
  else do
    let rest ← sliceFrom s start
    match JsonParser.takeBytes (stop - start) rest with
    | some (middle, _) => .ok middle
    | none => crash .slice

/-- `str::find` for one character: a byte offset. -/
def findChar (wanted : Char) : List Char → Option Nat
  | [] => none
  | c :: rest =>
      if c = wanted then some 0
      else (findChar wanted rest).map (c.utf8Size + ·)

/-- An `i32` sum. -/
def addI32 (a b : Int) : Guarded Int :=
  if -2 ^ 31 ≤ a + b ∧ a + b < 2 ^ 31 then .ok (a + b)
  else crash .overflow

/-- An `i64` product. -/
def mulI64 (a b : Int64) : Guarded Int64 :=
  if -2 ^ 63 ≤ a.toInt * b.toInt ∧ a.toInt * b.toInt < 2 ^ 63 then .ok (a * b)
  else crash .overflow

/-! ## Scanning outside quotes -/

/-- The pair `in_basic`, `in_literal`, which are never both set. -/
inductive Quote where
  | outside
  | basic
  | literal
  deriving Repr, DecidableEq

/-- The code of an ASCII character. -/
def byteOf (c : Char) : UInt8 :=
  .ofNat c.toNat

/-- The quoting after a byte that is not escaped. -/
def Quote.next (q : Quote) (b : UInt8) : Quote :=
  match q with
  | .outside =>
      if b = byteOf '"' then .basic
      else if b = byteOf '\'' then .literal
      else .outside
  | .basic => if b = byteOf '"' then .outside else .basic
  | .literal => if b = byteOf '\'' then .outside else .literal

/--
The loop that `bracket_depth`, `strip_comment` and `split_top_level` share: the
bytes that are neither quotes nor quoted, with their offsets.  In a basic
string a backslash takes the next byte with it.
-/
def unquoted : Quote → Nat → List UInt8 → List (Nat × UInt8)
  | _, _, [] => []
  | q, i, b :: rest =>
      if q = .basic ∧ b = byteOf '\\' then
        match rest with
        | [] => []
        | _ :: rest => unquoted q (i + 2) rest
      else if q.next b ≠ q then unquoted (q.next b) (i + 1) rest
      else if q = .outside then (i, b) :: unquoted q (i + 1) rest
      else unquoted q (i + 1) rest

/-- One byte of `bracket_depth`. -/
def depthStep (depth : Int) (b : UInt8) : Guarded Int :=
  if b = byteOf '[' then addI32 depth 1
  else if b = byteOf ']' then addI32 depth (-1)
  else .ok depth

/-- `bracket_depth`. -/
def bracketDepth (s : List Char) : Guarded Int :=
  (unquoted .outside 0 (asBytes s)).foldlM
    (fun depth found => depthStep depth found.2) 0

/-- `strip_comment`. -/
def stripComment (line : List Char) : Guarded (List Char) :=
  match (unquoted .outside 0 (asBytes line)).find?
      fun found => found.2 = byteOf '#' with
  | some (i, _) => slice line 0 i
  | none => .ok line

/-- The variables of `split_top_level`. -/
structure Splitting where
  start : Nat
  depth : Int
  parts : List (List Char)

/-- One byte of `split_top_level`. -/
def splitStep (s : List Char) (now : Splitting) (found : Nat × UInt8) :
    Guarded Splitting := do
  if found.2 = byteOf ',' ∧ now.depth = 0 then
    let part ← slice s now.start found.1
    return {
      start := found.1 + 1
      depth := now.depth
      parts := now.parts ++ [part] }
  else
    let depth ← depthStep now.depth found.2
    return { now with depth }

/-- `split_top_level`. -/
def splitTopLevel (s : List Char) : Guarded (List (List Char)) := do
  let done ← (unquoted .outside 0 (asBytes s)).foldlM (splitStep s)
    { start := 0, depth := 0, parts := [] }
  let last ← sliceFrom s done.start
  return done.parts ++ [last]

/-! ## Logical lines -/

/-- An array that is continued on the next line: its first line number and
the text so far. -/
structure Pending where
  start : Nat
  joined : List Char
  deriving Repr, DecidableEq

/-- Emit a line whose brackets are closed, wait for more otherwise. -/
def close (joined : Pending) :
    Guarded (Option Pending × List (Nat × List Char)) := do
  let depth ← bracketDepth joined.joined
  if 0 < depth then return (some joined, [])
  else return (none, [(joined.start, joined.joined)])

/-- One physical line of `logical_lines`. -/
def foldLine (pending : Option Pending) (i : Nat) (line : List Char) :
    Guarded (Option Pending × List (Nat × List Char)) := do
  let text ← stripComment line
  let text := trimChars text
  match pending with
  | none =>
      if text.isEmpty then return (none, [])
      else if text.head? = some '[' ∧ '=' ∉ text then
        return (none, [(i, text)])
      else close ⟨i, text⟩
  | some p =>
      if text.isEmpty then return (some p, [])
      else close { p with joined := p.joined ++ ' ' :: text }

/-- The loop of `logical_lines`. -/
def foldLines :
    Option Pending → Nat → List (List Char) → Guarded (List (Nat × List Char))
  | none, _, [] => .ok []
  | some p, _, [] =>
      refuse ("unterminated array starting on line " ++ toString (p.start + 1))
  | pending, i, line :: rest => do
      let (pending, out) ← foldLine pending i line
      let more ← foldLines pending (i + 1) rest
      return out ++ more

/-- `logical_lines`. -/
def logicalLines (input : List Char) : Guarded (List (Nat × List Char)) :=
  foldLines none 0 (linesFrom [] input)

/-! ## Keys -/

/-- Does the text stand between two of the given quotes? -/
def quotedBy (quote : Char) (k : List Char) : Bool :=
  2 ≤ utf8Len k && k.head? = some quote && k.getLast? = some quote

/-- `unquote_key`. -/
def unquoteKey (k : List Char) : Guarded String :=
  if quotedBy '"' k then (slice k 1 (utf8Len k - 1)).map String.ofList
  else if quotedBy '\'' k then (slice k 1 (utf8Len k - 1)).map String.ofList
  else if k.isEmpty then refuse "empty key"
  else .ok (String.ofList k)

/-- One segment of `split_key_path`. -/
def keySegment (part : List Char) : Guarded String :=
  if (trimChars part).isEmpty then
    refuse "empty key segment in table header"
  else unquoteKey (trimChars part)

/-- `split_key_path`. -/
def splitKeyPath (s : List Char) : Guarded (List String) :=
  (splitChars '.' s).mapM keySegment

/-! ## Tables -/

/-- Does the value have members? -/
def isTable : Json → Bool
  | .obj _ => true
  | _ => false

/-- The message for a path that runs into something else than a table. -/
def notATable (seg : String) : String :=
  "`" ++ seg ++ "` is not a table"

/-- The segment of a path that `table_at` makes sure of. -/
def withTable (node : Json) (seg : String) : Json :=
  match node.get seg with
  | none => node.set seg (.obj [])
  | some _ => node

/-- `table_at`, followed by a change of the table it finds: the new root. -/
def updateAt (change : Json → Except String Json) :
    Json → List String → Except String Json
  | node, [] => change node
  | node, seg :: path =>
      let node := withTable node seg
      match node.get seg with
      | none => .error (notATable seg)
      | some (.arr items) =>
          match items.getLast? with
          | none => .error ("array of tables `" ++ seg ++ "` is empty")
          | some last =>
              if isTable last then do
                let last ← updateAt change last path
                return node.set seg (.arr (items.dropLast ++ [last]))
              else .error (notATable seg)
      | some child =>
          if isTable child then do
            let child ← updateAt change child path
            return node.set seg child
          else .error (notATable seg)

/-- `ensure_table`. -/
def ensureTable (root : Json) (path : List String) : Except String Json :=
  updateAt .ok root path

/-- The change that `push_array_table` makes to the parent table. -/
def pushElement (last : String) (parent : Json) : Except String Json :=
  let parent :=
    match parent.get last with
    | none => parent.set last (.arr [])
    | some _ => parent
  match parent.get last with
  | some (.arr items) => .ok (parent.set last (.arr (items ++ [.obj []])))
  | _ => .error ("`" ++ last ++ "` is not an array of tables")

/-- `push_array_table`. -/
def pushArrayTable (root : Json) (path : List String) : Except String Json :=
  match path.getLast? with
  | none => .error "empty table path"
  | some last => updateAt (pushElement last) root path.dropLast

/-- `table_at` and `set`. -/
def setIn (root : Json) (path : List String) (key : String) (value : Json) :
    Except String Json :=
  updateAt (fun table => .ok (table.set key value)) root path

/-! ## Basic strings -/

/-- The escapes of one character. -/
def simpleEscape (b : UInt8) : Option Char :=
  if b = byteOf 'n' then some '\n'
  else if b = byteOf 't' then some '\t'
  else if b = byteOf 'r' then some '\r'
  else if b = byteOf '"' then some '"'
  else if b = byteOf '\\' then some '\\'
  else if b = byteOf '0' then some '\x00'
  else none

/-- The loop of `parse_basic_string`, at byte `i`. -/
def basicLoop (s : List Char) : Nat → Nat → List Char → Guarded (List Char)
  | 0, _, _ => crash .endless
  | fuel + 1, i, out =>
      match (asBytes s)[i]? with
      | none => refuse "unterminated string"
      | some b =>
          if b = byteOf '"' then
            if i + 1 ≠ utf8Len s then refuse "trailing data after string value"
            else .ok out
          else if b = byteOf '\\' then
            match (asBytes s)[i + 1]? with
            | none => refuse "unterminated escape"
            | some e =>
                match simpleEscape e with
                | some c => basicLoop s fuel (i + 2) (out ++ [c])
                | none =>
                    if e = byteOf 'u' then
                      if utf8Len s < i + 6 then refuse "truncated \\u escape"
                      else do
                        let hex ← slice s (i + 2) (i + 6)
                        match JsonParser.fromHex hex with
                        | none => refuse "bad \\u escape"
                        | some cp =>
                            basicLoop s fuel (i + 6)
                              (out ++ [JsonParser.charOrReplacement cp])
                    else
                      refuse ("unknown escape \\" ++
                        String.singleton (Char.ofNat e.toNat))
          else
            match JsonParser.takeBytes i s with
            | some (_, c :: _) => basicLoop s fuel (i + c.utf8Size) (out ++ [c])
            | _ => basicLoop s fuel (i + 1) out

/-- `parse_basic_string`. -/
def parseBasicString (s : List Char) : Guarded String :=
  if utf8Len s < 2 ∨ (asBytes s)[0]? ≠ some (byteOf '"') then
    refuse "unterminated string"
  else (basicLoop s (utf8Len s + 1) 1 []).map String.ofList

/-! ## Numbers -/

/-- The error of an integer parser. -/
inductive IntError where
  | empty
  | invalidDigit
  | posOverflow
  | negOverflow
  deriving Repr, DecidableEq

/-- Its text. -/
def IntError.display : IntError → String
  | empty => "cannot parse integer from empty string"
  | invalidDigit => "invalid digit found in string"
  | posOverflow => "number too large to fit in target type"
  | negOverflow => "number too small to fit in target type"

/-- `char::to_digit`, for a radix up to 16. -/
def toDigit (radix : Nat) (c : Char) : Option Nat :=
  (JsonParser.hexDigit c).filter (· < radix)

/-- The digits of `i64::from_str_radix`, with the value so far. -/
def radixLoop (radix : Nat) (negative : Bool) :
    List Char → Int → Except IntError Int
  | [], value => .ok value
  | c :: rest, value =>
      match toDigit radix c with
      | none => .error .invalidDigit
      | some d =>
          if negative then
            if value * radix - d < -2 ^ 63 then .error .negOverflow
            else radixLoop radix negative rest (value * radix - d)
          else if 2 ^ 63 ≤ value * radix + d then .error .posOverflow
          else radixLoop radix negative rest (value * radix + d)

/-- `i64::from_str_radix`. -/
def fromStrRadix (radix : Nat) (cs : List Char) : Except IntError Int64 :=
  match cs with
  | [] => .error .empty
  | ['+'] => .error .invalidDigit
  | ['-'] => .error .invalidDigit
  | '+' :: rest => (radixLoop radix false rest 0).map Int64.ofInt
  | '-' :: rest => (radixLoop radix true rest 0).map Int64.ofInt
  | _ => (radixLoop radix false cs 0).map Int64.ofInt

/-- The sign and the body of a number. -/
def splitSign (cleaned : List Char) : Int64 × List Char :=
  match cleaned with
  | '-' :: rest => (-1, rest)
  | '+' :: rest => (1, rest)
  | _ => (1, cleaned)

/-- The radix that the beginning of a body stands for, and its digits. -/
def radixOf (body : List Char) : Option (Nat × List Char) :=
  match body with
  | '0' :: 'x' :: digits => some (16, digits)
  | '0' :: 'o' :: digits => some (8, digits)
  | '0' :: 'b' :: digits => some (2, digits)
  | _ => none

/-- `parse_number`. -/
def parseNumber [F64Ops] (s : List Char) : Guarded Json :=
  let cleaned := s.filter (· ≠ '_')
  let (sign, body) := splitSign cleaned
  match radixOf body with
  | some (radix, digits) =>
      match fromStrRadix radix digits with
      | .ok v => (mulI64 sign v).map Json.int
      | .error e =>
          refuse ("bad integer " ++ debugStr (String.ofList s) ++ ": " ++
            e.display)
  | none =>
      match parseI64Chars cleaned with
      | some i => .ok (.int i)
      | none =>
          match F64Ops.parse cleaned with
          | some f => .ok (.float f)
          | none =>
              refuse ("unrecognised value " ++ debugStr (String.ofList s) ++
                " (strings must be quoted)")

/-! ## Values -/

/-- `parse_value`.  The first argument bounds the recursion. -/
def parseValue [F64Ops] : Nat → List Char → Guarded Json
  | 0, _ => crash .endless
  | fuel + 1, s =>
      if s.isEmpty then refuse "missing value"
      else if "\"\"\"".toList <+: s ∨ "'''".toList <+: s then
        refuse "multi-line strings are not supported"
      else if s.head? = some '{' then
        refuse "inline tables are not supported"
      else if s.head? = some '"' then (parseBasicString s).map Json.str
      else if s.head? = some '\'' then
        if s.getLast? ≠ some '\'' ∨ utf8Len s < 2 then
          refuse "unterminated literal string"
        else
          (slice s 1 (utf8Len s - 1)).map fun inner =>
            Json.str (String.ofList inner)
      else if s.head? = some '[' then
        if s.getLast? ≠ some ']' then
          refuse "unterminated array: the brackets do not balance"
        else do
          let inner ← slice s 1 (utf8Len s - 1)
          let items ← splitTopLevel inner
          let values ←
            ((items.map trimChars).filter fun t => !t.isEmpty).mapM
              (parseValue fuel)
          return Json.arr values
      else if s = "true".toList then .ok (.bool true)
      else if s = "false".toList then .ok (.bool false)
      else parseNumber s

/-! ## Documents -/

/-- The `err` closure of `parse`. -/
def located (lineno : Nat) (message : String) : Error :=
  .parse (message ++ " (line " ++ toString (lineno + 1) ++ ")")

/-- `map_err(err)` of a run. -/
def locate {α : Type} (lineno : Nat) : Guarded α → Guarded α
  | .error (.refused e) => .error (.refused (located lineno e.display))
  | other => other

/-- `map_err(err)` of a change to the tables. -/
def locateChange {α : Type} (lineno : Nat) : Except String α → Guarded α
  | .ok value => .ok value
  | .error message => .error (.refused (located lineno message))

/-- The document so far and the path of the table that assignments go to. -/
structure Document where
  root : Json
  cur : List String

/-- One logical line of `parse`. -/
def readLine [F64Ops] (doc : Document) (lineno : Nat) (line : List Char) :
    Guarded Document := do
  if "[[".toList <+: line then
    if ¬ "]]".toList <:+ line then
      .error (.refused (located lineno
        "unterminated [[array of tables]] header"))
    else
      let inner ← slice line 2 (utf8Len line - 2)
      let path ← splitKeyPath inner
      let root ← locateChange lineno (pushArrayTable doc.root path)
      return ⟨root, path⟩
  else if line.head? = some '[' then
    if line.getLast? ≠ some ']' then
      .error (.refused (located lineno "unterminated [table] header"))
    else
      let inner ← slice line 1 (utf8Len line - 1)
      let path ← splitKeyPath inner
      let root ← locateChange lineno (ensureTable doc.root path)
      return ⟨root, path⟩
  else
    match findChar '=' line with
    | none =>
        .error (.refused (located lineno ("expected `key = value`, got " ++
          debugStr (String.ofList line))))
    | some eq =>
        let before ← slice line 0 eq
        let key ← unquoteKey (trimChars before)
        let after ← sliceFrom line (eq + 1)
        let text := trimChars after
        let value ← locate lineno (parseValue (text.length + 1) text)
        let root ← locateChange lineno (setIn doc.root doc.cur key value)
        return ⟨root, doc.cur⟩

/-- The loop of `parse`. -/
def readLines [F64Ops] (doc : Document) :
    List (Nat × List Char) → Guarded Document
  | [] => .ok doc
  | (lineno, line) :: rest => do
      let doc ← readLine doc lineno line
      readLines doc rest

/-- `parse`. -/
def parse [F64Ops] (input : List Char) : Guarded Json := do
  let lines ← logicalLines input
  let doc ← readLines ⟨.obj [], []⟩ lines
  return doc.root

end Toml

end Myrun
