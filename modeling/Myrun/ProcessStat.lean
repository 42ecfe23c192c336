import Myrun.Address
import Myrun.JsonRoundTrip
import Myrun.TomlScan
import Myrun.Words

namespace Myrun

/-!
# `/proc/<pid>/stat`

`src/sys/process.rs` reads the state of a process from one line of text.  The
second field is the name that the process gave itself, in parentheses and
otherwise as it is, so the line is cut at the first opening and at the last
closing parenthesis.

The name is a run of bytes, which the kernel cuts after fifteen, also inside a
character.  A line that is not UTF-8 for that reason is not read at all.
-/

namespace Process

open Toml (Guarded refuse crash findChar slice sliceFrom)

/-- `ProcStat`. -/
structure ProcStat where
  pid : Int32
  comm : String
  state : Char
  ppid : Int32
  startTime : UInt64
  utime : UInt64
  stime : UInt64
  numThreads : Int64
  deriving Repr, DecidableEq

/-- `str::rfind` for one character: a byte offset. -/
def rfindChar (wanted : Char) : List Char → Option Nat
  | [] => none
  | c :: rest =>
      match rfindChar wanted rest with
      | some offset => some (c.utf8Size + offset)
      | none => if c = wanted then some 0 else none

/-- The closure `get` of `parse_proc_stat`: field `n` of the line. -/
def getField (rest : List String) (n : Nat) : UInt64 :=
  ((rest[n - 3]?).bind parseU64).getD 0

/-- `parse_proc_stat`. -/
def parseProcStat (text : String) : Guarded ProcStat :=
  match findChar '(' text.toList with
  | none => refuse "malformed /proc/<pid>/stat"
  | some opened =>
      match rfindChar ')' text.toList with
      | none => refuse "malformed /proc/<pid>/stat"
      | some closed => do
          let front ← slice text.toList 0 opened
          let comm ← slice text.toList (opened + 1) closed
          let tail ← sliceFrom text.toList (closed + 1)
          let rest := words tail
          return {
            pid := (parseI32 (trim (String.ofList front))).getD (-1)
            comm := String.ofList comm
            state := (rest.head?.bind fun s => s.toList.head?).getD '?'
            ppid := (getField rest 4).toUInt32.toInt32
            utime := getField rest 14
            stime := getField rest 15
            numThreads := (getField rest 20).toInt64
            startTime := getField rest 22 }

/-- `fs::read_to_string` of a file with these bytes. -/
def readToString (file : Except String ByteArray) : Except String String :=
  match file with
  | .error e => .error e
  | .ok bytes =>
      match String.fromUTF8? bytes with
      | some text => .ok text
      | none => .error "stream did not contain valid UTF-8"

/-- `read_proc_stat`. -/
def readProcStat (pid : Int32) (file : Except String ByteArray) :
    Guarded ProcStat :=
  match readToString file with
  | .error e =>
      .error (.refused (.notFound ("/proc/" ++ toString pid ++ "/stat: " ++ e)))
  | .ok text => parseProcStat text

/-- `process_alive`. -/
def processAlive (pid : Int32) (file : Except String ByteArray)
    (start : Option UInt64) : Guarded Bool :=
  match readProcStat pid file with
  | .ok st =>
      if st.state = 'Z' then .ok false
      else
        match start with
        | some t => .ok (decide (st.startTime = t))
        | none => .ok true
  | .error (.refused _) => .ok false
  | .error (.panicked p) => crash p

/-! ## What the kernel writes -/

/-- The decimal text of a number. -/
def numberText (n : Int) : List Char :=
  if n < 0 then '-' :: Nat.toDigits 10 n.natAbs
  else Nat.toDigits 10 n.natAbs

/-- The fields of one process; the name is any bytes, and the numbers are those
from field 4 on. -/
structure StatLine where
  pid : Int32
  comm : ByteArray
  state : Char
  numbers : List Int

/-- Field `n`, for `n` from 4 on. -/
def StatLine.field (l : StatLine) (n : Nat) : Int :=
  l.numbers.getD (n - 4) 0

/-- The line before the name. -/
def StatLine.front (l : StatLine) : List Char :=
  numberText l.pid.toInt ++ " (".toList

/-- The line behind the name. -/
def StatLine.tail (l : StatLine) : List Char :=
  ") ".toList ++ [l.state] ++ spaced (l.numbers.map numberText) ++ ['\n']

/-- The line as the kernel writes it. -/
def StatLine.render (l : StatLine) : ByteArray :=
  (String.ofList l.front).toUTF8 ++ l.comm ++ (String.ofList l.tail).toUTF8

/-- A line with a state letter and all fields that are read, each within its
type. -/
structure StatLine.Complete (l : StatLine) : Prop where
  letter : isWhitespace l.state = false ∧ l.state ≠ ')'
  fields : 19 ≤ l.numbers.length
  ppid : 0 ≤ l.field 4 ∧ l.field 4 < 2 ^ 31
  utime : 0 ≤ l.field 14 ∧ l.field 14 < 2 ^ 64
  stime : 0 ≤ l.field 15 ∧ l.field 15 < 2 ^ 64
  threads : 0 ≤ l.field 20 ∧ l.field 20 < 2 ^ 63
  start : 0 ≤ l.field 22 ∧ l.field 22 < 2 ^ 64

/-! ## Numbers -/

private theorem mem_numberText
    {n : Int}
    {c : Char}
    (member : c ∈ numberText n) :
    c.isDigit = true ∨ c = '-' := by
  unfold numberText at member
  split at member
  · rcases List.mem_cons.mp member with sign | digit
    · exact .inr sign
    · exact .inl (List.all_eq_true.mp (toDigits_all_isDigit _) c digit)
  · exact .inl (List.all_eq_true.mp (toDigits_all_isDigit _) c member)

private theorem isWhitespace_of_mem_numberText
    {n : Int}
    {c : Char}
    (member : c ∈ numberText n) :
    isWhitespace c = false := by
  rcases mem_numberText member with digit | rfl
  · exact isWhitespace_of_isDigit digit
  · decide

private theorem numberText_ne_nil (n : Int) : numberText n ≠ [] := by
  unfold numberText
  split
  · exact List.cons_ne_nil _ _
  · exact Nat.toDigits_ne_nil

theorem isWord_numberText (n : Int) : IsWord (numberText n) where
  nonempty := numberText_ne_nil n
  solid := fun _ member => isWhitespace_of_mem_numberText member

private theorem not_mem_numberText
    {c : Char}
    (notDigit : c.isDigit = false)
    (notSign : c ≠ '-')
    (n : Int) :
    c ∉ numberText n := by
  intro member
  rcases mem_numberText member with digit | sign
  · rw [notDigit] at digit
    cases digit
  · exact notSign sign

private theorem parseU64_numberText
    {n : Int}
    (range : 0 ≤ n ∧ n < 2 ^ 64) :
    parseU64 (String.ofList (numberText n)) = some (UInt64.ofNat n.toNat) := by
  have natural : n.natAbs = n.toNat := by
    omega
  have bound : n.toNat ≤ 2 ^ 64 - 1 := by
    omega
  rw [numberText, if_neg (by omega), natural, parseU64, String.toList_ofList,
    parseUnsigned_toDigits bound]
  rfl

private theorem parseI64Chars_numberText
    {n : Int}
    (range : -2 ^ 63 ≤ n ∧ n < 2 ^ 63) :
    parseI64Chars (numberText n) = some (Int64.ofInt n) := by
  have value : (Int64.ofInt n).toInt = n :=
    Int64.toInt_ofInt_of_le range.1 range.2
  have same : numberText n = Json.intText (Int64.ofInt n) := by
    rw [numberText, Json.intText, value]
  rw [same, JsonParser.parseI64Chars_intText]

theorem parseI32_numberText (pid : Int32) :
    parseI32 (String.ofList (numberText pid.toInt)) = some pid := by
  have lower := pid.le_toInt
  have upper := pid.toInt_lt
  have read := @parseI64Chars_numberText pid.toInt (by omega)
  have value : (Int64.ofInt pid.toInt).toInt = pid.toInt :=
    Int64.toInt_ofInt_of_le (by omega) (by omega)
  have inRange : -2147483648 ≤ Int64.ofInt pid.toInt ∧
      Int64.ofInt pid.toInt ≤ 2147483647 := by
    rw [Int64.le_iff_toInt_le, Int64.le_iff_toInt_le, value]
    exact ⟨lower, Int.le_of_lt_add_one upper⟩
  rw [parseI32, String.toList_ofList, read]
  simp only [inRange, and_self, ↓reduceIte, value, Int32.ofInt_toInt]

/-! ## Cutting the line -/

private theorem findChar_append
    {wanted : Char}
    {front : List Char}
    (free : wanted ∉ front)
    (rest : List Char) :
    findChar wanted (front ++ wanted :: rest) = some (utf8Len front) := by
  rw [Toml.findChar_eq, splitOnceChars_append free]
  rfl

private theorem rfindChar_eq_none
    {wanted : Char}
    {rest : List Char}
    (free : wanted ∉ rest) :
    rfindChar wanted rest = none := by
  induction rest with
  | nil =>
      rfl
  | cons c rest inductionHypothesis =>
      rw [List.mem_cons, not_or] at free
      rw [rfindChar, inductionHypothesis free.2]
      exact if_neg (Ne.symm free.1)

private theorem rfindChar_append
    {wanted : Char}
    {rest : List Char}
    (free : wanted ∉ rest)
    (front : List Char) :
    rfindChar wanted (front ++ wanted :: rest) = some (utf8Len front) := by
  induction front with
  | nil =>
      simp [rfindChar, rfindChar_eq_none free]
  | cons c front inductionHypothesis =>
      simp [rfindChar, inductionHypothesis]

/-- What `parse_proc_stat` cuts out of a line: the text before the name, the
name, and the text behind it. -/
theorem parseProcStat_cut
    {front comm tail : List Char}
    (opens : '(' ∉ front)
    (closes : ')' ∉ tail) :
    parseProcStat (String.ofList (front ++ '(' :: (comm ++ ')' :: tail))) = .ok {
      pid := (parseI32 (trim (String.ofList front))).getD (-1)
      comm := String.ofList comm
      state := ((words tail).head?.bind fun s => s.toList.head?).getD '?'
      ppid := (getField (words tail) 4).toUInt32.toInt32
      utime := getField (words tail) 14
      stime := getField (words tail) 15
      numThreads := (getField (words tail) 20).toInt64
      startTime := getField (words tail) 22 } := by
  have opened := findChar_append opens (comm ++ ')' :: tail)
  have closed := rfindChar_append closes (front ++ '(' :: comm)
  have size : utf8Len (front ++ '(' :: comm) =
      utf8Len (front ++ ['(']) + utf8Len comm := by
    simp [Nat.add_assoc]
  have next : utf8Len front + 1 = utf8Len (front ++ ['(']) := by
    simp
    rfl
  have last : utf8Len (front ++ ['(']) + utf8Len comm + 1 =
      utf8Len (front ++ ['('] ++ comm ++ [')']) := by
    simp [Nat.add_assoc]
    rfl
  rw [List.append_assoc, List.cons_append, size] at closed
  have head : slice (front ++ '(' :: (comm ++ ')' :: tail)) 0 (utf8Len front) =
      .ok front := by
    simpa using Toml.slice_append [] front ('(' :: (comm ++ ')' :: tail))
  have name : slice (front ++ '(' :: (comm ++ ')' :: tail))
      (utf8Len (front ++ ['('])) (utf8Len (front ++ ['(']) + utf8Len comm) =
        .ok comm := by
    simpa using Toml.slice_append (front ++ ['(']) comm (')' :: tail)
  have behind : sliceFrom (front ++ '(' :: (comm ++ ')' :: tail))
      (utf8Len (front ++ ['(']) + utf8Len comm + 1) = .ok tail := by
    rw [last]
    simpa using Toml.sliceFrom_append (front ++ ['('] ++ comm ++ [')']) tail
  rw [parseProcStat, String.toList_ofList, opened, closed]
  simp only [head, next, name, behind]
  rfl

private theorem getField_eq
    {l : StatLine}
    {first : List Char}
    {n : Nat}
    (present : 4 ≤ n ∧ n - 4 < l.numbers.length)
    (range : 0 ≤ l.field n ∧ l.field n < 2 ^ 64) :
    getField ((first :: l.numbers.map numberText).map String.ofList) n =
      UInt64.ofNat (l.field n).toNat := by
  obtain ⟨k, rfl⟩ : ∃ k, n = k + 4 := ⟨n - 4, by omega⟩
  have inside : k < l.numbers.length := by
    omega
  have isField : l.numbers[k] = l.field (k + 4) := by
    simp [StatLine.field, inside]
  rw [← isField] at range ⊢
  simp [getField, inside, parseU64_numberText range]

private theorem trimChars_word_space
    {cs : List Char}
    (word : IsWord cs) :
    trimChars (cs ++ [' ']) = cs := by
  have stays : cs.reverse.dropWhile isWhitespace = cs.reverse := by
    cases shape : cs.reverse with
    | nil =>
        rfl
    | cons c rest =>
        have member : c ∈ cs := by
          rw [← List.mem_reverse, shape]
          exact List.mem_cons_self
        simp [word.solid c member]
  have front : (cs ++ [' ']).dropWhile isWhitespace = cs ++ [' '] := by
    cases cs with
    | nil =>
        exact (word.nonempty rfl).elim
    | cons c rest =>
        simp [word.solid c List.mem_cons_self]
  have space : isWhitespace ' ' = true := by
    decide
  rw [trimChars, front, List.reverse_append, List.reverse_singleton,
    List.singleton_append, List.dropWhile_cons, if_pos space, stays,
    List.reverse_reverse]

/-- The words behind the name. -/
theorem words_fields
    {l : StatLine}
    (letter : isWhitespace l.state = false) :
    words (' ' :: l.state :: (spaced (l.numbers.map numberText) ++ ['\n'])) =
      ([l.state] :: l.numbers.map numberText).map String.ofList := by
  have areWords : ∀ token ∈ [l.state] :: l.numbers.map numberText,
      IsWord token := by
    intro token member
    rcases List.mem_cons.mp member with rfl | number
    · exact ⟨List.cons_ne_nil _ _, fun c member => by
        rw [List.mem_singleton.mp member]
        exact letter⟩
    · obtain ⟨n, -, rfl⟩ := List.mem_map.mp number
      exact isWord_numberText n
  have newline : ∀ c ∈ ['\n'], isWhitespace c = true := by
    intro c member
    rw [List.mem_singleton.mp member]
    rfl
  have read := @words_spaced _ areWords ['\n'] fun c first =>
    newline c (List.mem_of_mem_head? first)
  rw [words_blank newline, List.append_nil, spaced_cons] at read
  exact read

/-- What is read of the line of a process. -/
structure StatLine.ReadAs (l : StatLine) (st : ProcStat) : Prop where
  pid : st.pid = l.pid
  comm : st.comm.toUTF8 = l.comm
  state : st.state = l.state
  ppid : st.ppid.toInt = l.field 4
  utime : (st.utime.toNat : Int) = l.field 14
  stime : (st.stime.toNat : Int) = l.field 15
  threads : st.numThreads.toInt = l.field 20
  start : (st.startTime.toNat : Int) = l.field 22

private theorem toNat_ofNat_field
    {n : Int}
    (range : 0 ≤ n ∧ n < 2 ^ 64) :
    ((UInt64.ofNat n.toNat).toNat : Int) = n := by
  have small : n.toNat < UInt64.size := by
    have : UInt64.size = 2 ^ 64 := rfl
    omega
  rw [UInt64.toNat_ofNat_of_lt' small]
  omega

private theorem toInt_ppid
    {n : Int}
    (range : 0 ≤ n ∧ n < 2 ^ 31) :
    (UInt64.ofNat n.toNat).toUInt32.toInt32.toInt = n := by
  have wide := @toNat_ofNat_field n (by omega)
  have narrow : (UInt64.ofNat n.toNat).toUInt32.toNat = n.toNat := by
    rw [UInt64.toNat_toUInt32]
    omega
  have value : (UInt64.ofNat n.toNat).toUInt32.toInt32.toInt =
      ((UInt64.ofNat n.toNat).toUInt32.toNat : Int) :=
    BitVec.toInt_eq_toNat_of_lt (by
      change 2 * (UInt64.ofNat n.toNat).toUInt32.toNat < 2 ^ 32
      omega)
  rw [value, narrow]
  omega

private theorem toInt_threads
    {n : Int}
    (range : 0 ≤ n ∧ n < 2 ^ 63) :
    (UInt64.ofNat n.toNat).toInt64.toInt = n := by
  have wide := @toNat_ofNat_field n (by omega)
  have value : (UInt64.ofNat n.toNat).toInt64.toInt =
      ((UInt64.ofNat n.toNat).toNat : Int) :=
    BitVec.toInt_eq_toNat_of_lt (by
      change 2 * (UInt64.ofNat n.toNat).toNat < 2 ^ 64
      omega)
  rw [value, wide]

/-- A line whose name is a text is decoded exactly. -/
theorem parseProcStat_render
    {l : StatLine}
    (complete : l.Complete)
    {name : String}
    (isName : name.toUTF8 = l.comm) :
    ∃ st,
      parseProcStat (String.ofList (l.front ++ name.toList ++ l.tail)) = .ok st ∧
        l.ReadAs st := by
  obtain ⟨⟨solid, notClose⟩, fields, ppid, utime, stime, threads, start⟩ :=
    complete
  have opens : '(' ∉ numberText l.pid.toInt ++ [' '] := by
    have number : '(' ∉ numberText l.pid.toInt :=
      not_mem_numberText (by decide) (by decide) _
    simp [number]
  have closes : ')' ∉
      ' ' :: l.state :: (spaced (l.numbers.map numberText) ++ ['\n']) := by
    have numbers : ∀ n, ')' ∉ numberText n :=
      not_mem_numberText (by decide) (by decide)
    simp [spaced, numbers, Ne.symm notClose]
  have shape : l.front ++ name.toList ++ l.tail =
      (numberText l.pid.toInt ++ [' ']) ++ '(' :: (name.toList ++ ')' ::
        ' ' :: l.state :: (spaced (l.numbers.map numberText) ++ ['\n'])) := by
    simp [StatLine.front, StatLine.tail]
  have pidText : trim (String.ofList (numberText l.pid.toInt ++ [' '])) =
      String.ofList (numberText l.pid.toInt) := by
    rw [trim, String.toList_ofList, trimChars_word_space (isWord_numberText _)]
  have field (n : Nat) := @getField_eq l [l.state] n
  rw [shape, parseProcStat_cut opens closes, words_fields solid, pidText,
    parseI32_numberText, field 4 ⟨by omega, by omega⟩ ⟨by omega, by omega⟩,
    field 14 ⟨by omega, by omega⟩ utime, field 15 ⟨by omega, by omega⟩ stime,
    field 20 ⟨by omega, by omega⟩ ⟨by omega, by omega⟩,
    field 22 ⟨by omega, by omega⟩ start]
  exact ⟨_, rfl, {
    pid := rfl
    comm := by rw [String.ofList_toList, isName]
    state := by simp
    ppid := toInt_ppid ppid
    utime := toNat_ofNat_field utime
    stime := toNat_ofNat_field stime
    threads := toInt_threads threads
    start := toNat_ofNat_field start }⟩

/-! ## Bytes that are a text -/

/-- What stands before UTF-8 is UTF-8 when the whole is. -/
theorem isValidUTF8_append_iff
    {front tail : ByteArray}
    (valid : tail.IsValidUTF8) :
    (front ++ tail).IsValidUTF8 ↔ front.IsValidUTF8 := by
  constructor
  · intro whole
    let text : String := ⟨front ++ tail, whole⟩
    have behind : text.toByteArray.extract front.size text.utf8ByteSize = tail :=
      ByteArray.extract_append_eq_right rfl ByteArray.size_append
    have before : text.toByteArray.extract 0 front.size = front :=
      ByteArray.extract_append_eq_left rfl
    have inside : (⟨front.size⟩ : String.Pos.Raw) ≤ text.rawEndPos := by
      change front.size ≤ (front ++ tail).size
      rw [ByteArray.size_append]
      exact Nat.le_add_right _ _
    have boundary : (⟨front.size⟩ : String.Pos.Raw).IsValid text :=
      String.Pos.Raw.isValid_iff_isValidUTF8_extract_utf8ByteSize.mpr
        ⟨inside, behind.symm ▸ valid⟩
    exact before ▸ boundary.isValidUTF8_extract_zero
  · intro front
    exact front.append valid

/-- What stands behind a text is UTF-8 when the whole is. -/
theorem isValidUTF8_utf8Encode_append_iff
    (front : List Char)
    (tail : ByteArray) :
    (front.utf8Encode ++ tail).IsValidUTF8 ↔ tail.IsValidUTF8 := by
  induction front with
  | nil =>
      simp
  | cons c front inductionHypothesis =>
      rw [List.utf8Encode_cons, ByteArray.append_assoc,
        ByteArray.isValidUTF8_utf8Encode_singleton_append_iff,
        inductionHypothesis]

/-- A line is UTF-8 exactly when the name in it is. -/
theorem StatLine.isValidUTF8_render_iff (l : StatLine) :
    l.render.IsValidUTF8 ↔ l.comm.IsValidUTF8 := by
  have tail : (String.ofList l.tail).toUTF8.IsValidUTF8 :=
    (String.ofList l.tail).isValidUTF8
  rw [StatLine.render, isValidUTF8_append_iff tail]
  exact isValidUTF8_utf8Encode_append_iff l.front l.comm

/-! ## Reading the file -/

/-- A text is read back from its bytes. -/
theorem readToString_toUTF8 (text : String) :
    readToString (.ok text.toUTF8) = .ok text := by
  have decoded : String.fromUTF8? text.toUTF8 = some text := by
    have valid : text.toUTF8.IsValidUTF8 := text.isValidUTF8
    rw [String.fromUTF8?, dif_pos valid]
    rfl
  simp only [readToString, decoded]

/-- Bytes that are no text are not read. -/
theorem readToString_of_not_isValidUTF8
    {bytes : ByteArray}
    (undecodable : ¬ bytes.IsValidUTF8) :
    readToString (.ok bytes) =
      .error "stream did not contain valid UTF-8" := by
  have undecoded : String.fromUTF8? bytes = none := by
    rw [String.fromUTF8?, dif_neg undecodable]
  simp only [readToString, undecoded]

/-- What the operations of the runtime see of a process. -/
def ProcStat.seen (st : ProcStat) : Myrun.ProcStat where
  zombie := st.state = 'Z'
  startTime := st.startTime

/-- A process that is no zombie and has the start time that was asked for. -/
theorem processAlive_of_read
    {pid : Int32}
    {file : Except String ByteArray}
    {st : ProcStat}
    (read : readProcStat pid file = .ok st)
    (start : Option UInt64) :
    processAlive pid file start =
      .ok (!st.seen.zombie && start.all (· = st.seen.startTime)) := by
  rw [processAlive, read]
  by_cases zombie : st.state = 'Z'
  · simp [ProcStat.seen, zombie]
  · cases start with
    | none =>
        simp [ProcStat.seen, zombie]
    | some t =>
        simp [ProcStat.seen, zombie, eq_comm]

/-- A process whose line is no text does not count as alive. -/
theorem processAlive_of_not_isValidUTF8
    {bytes : ByteArray}
    (undecodable : ¬ bytes.IsValidUTF8)
    (pid : Int32)
    (start : Option UInt64) :
    processAlive pid (.ok bytes) start = .ok false := by
  simp only [processAlive, readProcStat,
    readToString_of_not_isValidUTF8 undecodable]

/-- The line of a process is decoded exactly, and the process counts as alive
exactly when it is no zombie and has the start time that was asked for. -/
def StatLine.Decoded (l : StatLine) : Prop :=
  ∃ st, readProcStat l.pid (.ok l.render) = .ok st ∧ l.ReadAs st ∧
    ∀ start, processAlive l.pid (.ok l.render) start =
      .ok (decide (l.state ≠ 'Z') &&
        start.all fun t => (t.toNat : Int) = l.field 22)

/-- A line whose name is a text is decoded. -/
theorem StatLine.decoded_of_name
    {l : StatLine}
    (complete : l.Complete)
    {name : String}
    (isName : name.toUTF8 = l.comm) :
    l.Decoded := by
  have bytes : l.render =
      (String.ofList (l.front ++ name.toList ++ l.tail)).toUTF8 := by
    rw [StatLine.render, ← isName]
    simp [ByteArray.append_assoc]
  obtain ⟨st, parsed, readAs⟩ := parseProcStat_render complete isName
  have read : readProcStat l.pid (.ok l.render) = .ok st := by
    rw [readProcStat, bytes, readToString_toUTF8]
    exact parsed
  refine ⟨st, read, readAs, fun start => ?_⟩
  have same (t : UInt64) :
      (t = st.startTime) = ((t.toNat : Int) = st.startTime.toNat) := by
    rw [Int.ofNat_inj, UInt64.toNat_inj]
  rw [processAlive_of_read read, ← readAs.start]
  simp only [ProcStat.seen, readAs.state, same, decide_not]

/--
The line of a process is decoded, and its start time compared, exactly when the
bytes of its name are UTF-8; what text the name is does not matter.
-/
theorem proc_stat_exact_iff
    {l : StatLine}
    (complete : l.Complete) :
    l.Decoded ↔ l.comm.IsValidUTF8 := by
  constructor
  · rintro ⟨st, read, -, -⟩
    by_contra undecodable
    rw [← l.isValidUTF8_render_iff] at undecodable
    rw [readProcStat, readToString_of_not_isValidUTF8 undecodable] at read
    cases read
  · intro valid
    exact StatLine.decoded_of_name complete
      (show (⟨l.comm, valid⟩ : String).toUTF8 = l.comm from rfl)

/-- A sleeping process that calls itself `) Z 1 (x`. -/
def evilLine : StatLine where
  pid := 1234
  comm := ") Z 1 (x".toUTF8
  state := 'S'
  numbers := [1, 1234, 1234, 0, -1, 4194304, 100, 0, 0, 0, 11, 22, 0, 0, 20, 0,
    3, 0, 987654]

theorem evilLine_exact :
    evilLine.Complete ∧ evilLine.Decoded ∧
      processAlive 1234 (.ok evilLine.render) (some 987654) = .ok true := by
  have complete : evilLine.Complete :=
    ⟨by decide, by decide, by decide, by decide, by decide, by decide,
      by decide⟩
  have decoded : evilLine.Decoded :=
    (proc_stat_exact_iff complete).mpr (") Z 1 (x".isValidUTF8)
  refine ⟨complete, decoded, ?_⟩
  obtain ⟨st, -, -, alive⟩ := decoded
  exact alive (some 987654)

/-- The same process, which calls itself `worker-for-café`: the kernel keeps
fifteen bytes, the last of them the first half of the last letter. -/
def cutLine : StatLine where
  pid := 1234
  comm := "worker-for-café".toUTF8.extract 0 15
  state := 'S'
  numbers := evilLine.numbers

theorem cut_name_is_dead :
    cutLine.Complete ∧ ¬ cutLine.Decoded ∧
      processAlive 1234 (.ok cutLine.render) (some 987654) = .ok false := by
  have complete : cutLine.Complete :=
    ⟨by decide, by decide, by decide, by decide, by decide, by decide,
      by decide⟩
  have undecodable : ¬ cutLine.render.IsValidUTF8 := by
    rw [StatLine.isValidUTF8_render_iff]
    decide +kernel
  have dead := processAlive_of_not_isValidUTF8 undecodable 1234 (some 987654)
  refine ⟨complete, ?_, dead⟩
  rintro ⟨st, -, -, alive⟩
  have claimed := alive (some 987654)
  have wanted : (decide (cutLine.state ≠ 'Z') &&
      (some (987654 : UInt64)).all fun t =>
        (t.toNat : Int) = cutLine.field 22) = true := by
    decide
  rw [wanted, show cutLine.pid = 1234 from rfl, dead] at claimed
  cases claimed

end Process

end Myrun
