import Myrun.CgroupLimits
import Myrun.JsonNumerals
import Myrun.SizeText
import Myrun.StateFile
import Myrun.Toml

namespace Myrun

/-!
# A limit from the document to the cgroup

The `resources` of a configuration document become optional numbers, pass
through `config.json` and `state.json`, and end as texts in the files of a
cgroup. What a value asks for is stated on the document, for a number on the
numeral that it was read from; the theorem at the end says for which values the
file gets it.
-/

/-! ## What a document asks for -/

/-- The limits that are written as they are given. -/
inductive Limit where
  | memory
  | memorySwap
  | cpuWeight
  | pids
  deriving Repr, DecidableEq

namespace Limit

/-- The key of a limit in the document. -/
def key : Limit → String
  | memory => "memory"
  | memorySwap => "memory_swap"
  | cpuWeight => "cpu_weight"
  | pids => "pids"

/-- The file of a limit in the cgroup. -/
def file : Limit → String
  | memory => "memory.max"
  | memorySwap => "memory.swap.max"
  | cpuWeight => "cpu.weight"
  | pids => "pids.max"

/-- The limit in a configuration. -/
def of (r : Resources) : Limit → Option UInt64
  | memory => r.memory
  | memorySwap => r.memorySwap
  | cpuWeight => r.cpuWeight
  | pids => r.pids

/-- A limit that can be given as a size. -/
def isSize : Limit → Bool
  | memory => true
  | memorySwap => true
  | cpuWeight => false
  | pids => false

end Limit

namespace Json

/-- One of the spellings of "no limit". -/
def isUnlimited : Json → Bool
  | str s => Myrun.isUnlimited s
  | _ => false

/-- The number a value asks for. An integer is read as it is written, any other
number is rounded, so what it asks for is its numeral; a size is a text. -/
def asked (digits : List Char) : Json → Option Nat
  | int i => if 0 ≤ i then some i.toInt.toNat else none
  | float _ => numeralAsked digits
  | str s => sizeAsked s
  | _ => none

/-- The limit a section gives, if it gives one. -/
def given (section_ : Json) (l : Limit) : Option Json :=
  (section_.get l.key).filter fun v => !v.isNull && !v.isUnlimited

end Json

/-- The numeral in a document that is read as a binary64 number. In TOML its
digits may be separated by underscores. -/
inductive WrittenAs [F64Ops] (f : F64) : List Char → Prop where
  | json
      {numeral : List Char}
      (read : JsonParser.numberValue numeral = .ok (.float f)) :
      WrittenAs f numeral
  | toml
      {numeral : List Char}
      (read : Toml.parseNumber numeral = .ok (.float f)) :
      WrittenAs f (numeral.filter (· ≠ '_'))

/-- The numerals of the limits in a document. -/
abbrev Numerals :=
  Limit → List Char

/-- A section has these numerals. -/
def Json.HasNumerals [F64Ops] (section_ : Json) (numerals : Numerals) : Prop :=
  ∀ l f, section_.given l = some (.float f) → WrittenAs f (numerals l)

/-- The number that belongs in the file. For the swap it is what exceeds the
memory. -/
def fileAsked (section_ : Json) (numerals : Numerals) : Limit → Option Nat
  | .memorySwap => do
      let total ←
        (section_.given .memorySwap).bind (Json.asked (numerals .memorySwap))
      match section_.given .memory with
      | some v => do
          let memory ← v.asked (numerals .memory)
          if memory ≤ total then some (total - memory) else none
      | none => some total
  | l => (section_.given l).bind (Json.asked (numerals l))

/-- A cgroup that is created has what the section asks for in its files. -/
def Enforced [F64Ops] (section_ : Json) (numerals : Numerals) (id : String)
    (res : Resources) : Prop :=
  ∀ trace cg, (Cgroup.create id res).run.Performs trace (.ok cg) →
    Enforcing trace →
    ∀ l, (section_.given l).isSome = true →
      ∃ n, fileAsked section_ numerals l = some n ∧
        (joinPath cg.path l.file, toString n) ∈ written trace

/-- The values that reach the file, without and with a file on the way. -/
def Plain (persisted : Bool) (l : Limit) (digits : List Char) : Json → Prop
  | .int i => 0 ≤ i
  | .float _ =>
      ∃ n, numeralAsked digits = some n ∧ Computable n ∧
        (persisted = true → n < 2 ^ 63)
  | .str s =>
      l.isSize = true ∧ ∃ n, sizeAsked s = some n ∧ Computable n ∧
        (persisted = true → n < 2 ^ 63)
  | _ => False

/-! ## Reading the document -/

/-- A limit is what its value asks for. -/
def Faithful (limit : Option UInt64) (digits : List Char) (v : Json) : Prop :=
  ∃ n, v.asked digits = some n ∧ limit.map UInt64.toNat = some n

private theorem WrittenAs.parsed [F64Ops]
    {f : F64}
    {digits : List Char}
    (written : WrittenAs f digits) :
    F64Ops.parse digits = some f := by
  cases written with
  | json read =>
      unfold JsonParser.numberValue at read
      grind
  | @toml numeral read =>
      simp only [Toml.parseNumber] at read
      split at read
      · split at read
        · rename_i v _
          cases product : Toml.mulI64
              (Toml.splitSign (numeral.filter (· ≠ '_'))).1 v with
          | ok i =>
              rw [product] at read
              cases read
          | error e =>
              rw [product] at read
              cases read
        · cases read
      · split at read
        · cases read
        · split at read
          · rename_i parsed
            cases read
            exact parsed
          · cases read

/-- What `as_u64` makes of a number. -/
theorem faithful_asU64_iff [F64Ops]
    {v : Json}
    {digits : List Char}
    (notText : v.asStr = none)
    (written : ∀ f, v = .float f → WrittenAs f digits ∧ NumeralReads digits)
    (l : Limit) :
    Faithful v.asU64 digits v ↔ Plain false l digits v := by
  cases v with
  | null | bool | arr | obj =>
      simp [Faithful, Json.asked, Plain]
  | str s =>
      cases notText
  | int i =>
      simp only [Faithful, Json.asked, Json.asU64, Plain]
      by_cases sign : 0 ≤ i
      · have value : i.toUInt64.toNat = i.toInt.toNat := by
          have nonneg : 0 ≤ i.toInt := by
            simpa [Int64.le_iff_toInt_le] using sign
          rw [Int64.toNat_toUInt64_of_le sign]
          rfl
        simp [sign, value]
      · simp [sign]
  | float f =>
      obtain ⟨isWritten, reads⟩ := written f rfl
      simp only [Plain, Bool.false_eq_true, false_implies, and_true]
      constructor
      · rintro ⟨n, asked, same⟩
        exact ⟨n, asked,
          (numeral_exact_iff reads isWritten.parsed asked).mp same⟩
      · rintro ⟨n, asked, computable⟩
        exact ⟨n, asked,
          (numeral_exact_iff reads isWritten.parsed asked).mpr computable⟩

/-- What `num_or_size` makes of a size. -/
theorem faithful_size_iff [F64Ops]
    {s : String}
    {limit : Option UInt64}
    (parsed : parseSize s = .ok limit)
    (limited : isUnlimited s = false)
    (reads : SizeReads s)
    (digits : List Char) :
    Faithful limit digits (.str s) ↔
      ∃ n, sizeAsked s = some n ∧ Computable n := by
  cases limit with
  | none =>
      unfold parseSize at parsed
      simp only [limited] at parsed
      split at parsed
      · cases parsed
      simp only [Bool.false_eq_true, if_false] at parsed
      split at parsed
      · cases parsed
      · split at parsed <;> cases parsed
  | some x =>
      simp only [Faithful, Json.asked, Option.map_some, Option.some.injEq]
      constructor
      · rintro ⟨n, asked, same⟩
        exact ⟨n, asked, (parseSize_exact_iff reads parsed asked).mp same⟩
      · rintro ⟨n, asked, computable⟩
        exact ⟨n, asked, (parseSize_exact_iff reads parsed asked).mpr
          computable⟩

/-- How a section becomes limits. -/
structure ReadsLimits [F64Ops] (section_ : Json) (numerals : Numerals)
    (r : Resources) : Prop where
  given : ∀ l v, section_.given l = some v →
    (Faithful (l.of r) (numerals l) v ↔ Plain false l (numerals l) v)
  absent : ∀ l, section_.given l = none → l.of r = none

/-- The sizes of a section are computed as the language promises. -/
def SizesRead [F64Ops] (section_ : Json) : Prop :=
  ∀ l s, section_.given l = some (.str s) → l.isSize = true → SizeReads s

/-- The numerals of a section are read as the language promises. -/
def NumeralsRead [F64Ops] (section_ : Json) (numerals : Numerals) : Prop :=
  ∀ l f, section_.given l = some (.float f) → NumeralReads (numerals l)

/-- A limit read by `num_or_size`. -/
theorem readsLimit_size [F64Ops]
    {section_ : Json}
    {l : Limit}
    {limit : Option UInt64}
    (size : l.isSize = true)
    (read : Resources.numOrSize section_ l.key = .ok limit)
    (reads : ∀ s, section_.given l = some (.str s) → SizeReads s)
    {digits : List Char}
    (written : ∀ f, section_.given l = some (.float f) →
      WrittenAs f digits ∧ NumeralReads digits) :
    (∀ v, section_.given l = some v →
        (Faithful limit digits v ↔ Plain false l digits v)) ∧
      (section_.given l = none → limit = none) := by
  unfold Json.given at *
  unfold Resources.numOrSize at read
  cases member : section_.get l.key with
  | none =>
      rw [member] at read
      cases read
      exact ⟨fun _ present => (nomatch present), fun _ => rfl⟩
  | some value =>
      rw [member] at read reads written
      cases value with
      | null =>
          cases read
          exact ⟨fun _ present => (nomatch present), fun _ => rfl⟩
      | str s =>
          cases limited : isUnlimited s with
          | true =>
              have none_ : limit = none := by
                unfold parseSize at read
                simp only [limited] at read
                split at read
                · cases read
                · exact (Except.ok.inj read).symm
              constructor
              · intro v present
                simp [Option.filter, Json.isUnlimited, limited] at present
              · exact fun _ => none_
          | false =>
              have shown : (some (Json.str s)).filter
                  (fun v => !v.isNull && !v.isUnlimited) = some (.str s) := by
                simp [Option.filter, Json.isUnlimited, limited, Json.isNull]
              rw [shown] at reads ⊢
              constructor
              · intro v present
                cases present
                rw [faithful_size_iff read limited (reads s rfl) digits]
                simp [Plain, size]
              · intro absent
                cases absent
      | bool | int | float | arr | obj =>
          cases read
          constructor
          · intro v present
            cases present
            exact faithful_asU64_iff rfl
              (fun f same => written f (congrArg some same)) l
          · intro absent
            cases absent

/-- A limit read by `as_u64`. -/
theorem readsLimit_number [F64Ops]
    {section_ : Json}
    {l : Limit}
    (number : l.isSize = false)
    {digits : List Char}
    (written : ∀ f, section_.given l = some (.float f) →
      WrittenAs f digits ∧ NumeralReads digits) :
    (∀ v, section_.given l = some v →
        (Faithful (section_.u64Field l.key) digits v ↔
          Plain false l digits v)) ∧
      (section_.given l = none → section_.u64Field l.key = none) := by
  unfold Json.given at *
  unfold Json.u64Field
  cases member : section_.get l.key with
  | none =>
      exact ⟨fun _ present => (nomatch present), fun _ => rfl⟩
  | some value =>
      rw [member] at written
      cases value with
      | null =>
          exact ⟨fun _ present => (nomatch present), fun _ => rfl⟩
      | str s =>
          constructor
          · intro v present
            have same := (Option.filter_eq_some_iff.mp present).1
            cases same
            simp [Faithful, Json.asU64, Plain, number]
          · exact fun _ => rfl
      | bool | int | float | arr | obj =>
          constructor
          · intro v present
            cases present
            exact faithful_asU64_iff rfl
              (fun f same => written f (congrArg some same)) l
          · intro absent
            cases absent

/-- How `Resources::from_json` reads a section. -/
theorem readsLimits_of_fromJson [F64Ops]
    {section_ : Json}
    {r : Resources}
    (read : Resources.fromJson section_ = .ok r)
    (sizes : SizesRead section_)
    {numerals : Numerals}
    (written : section_.HasNumerals numerals)
    (numbers : NumeralsRead section_ numerals) :
    ReadsLimits section_ numerals r := by
  unfold Resources.fromJson at read
  obtain ⟨memory, readMemory, rest⟩ := Result.bind_eq_ok.mp read
  obtain ⟨swap, readSwap, rest⟩ := Result.bind_eq_ok.mp rest
  cases rest
  have read : ∀ l f, section_.given l = some (.float f) →
      WrittenAs f (numerals l) ∧ NumeralReads (numerals l) :=
    fun l f present => ⟨written l f present, numbers l f present⟩
  have onMemory := readsLimit_size (l := .memory) rfl readMemory
    (fun s present => sizes .memory s present rfl) (read .memory)
  have onSwap := readsLimit_size (l := .memorySwap) rfl readSwap
    (fun s present => sizes .memorySwap s present rfl) (read .memorySwap)
  have onWeight := readsLimit_number (l := .cpuWeight) rfl (read .cpuWeight)
  have onPids := readsLimit_number (l := .pids) rfl (read .pids)
  constructor
  · intro l v present
    cases l with
    | memory => exact onMemory.1 v present
    | memorySwap => exact onSwap.1 v present
    | cpuWeight => exact onWeight.1 v present
    | pids => exact onPids.1 v present
  · intro l none_
    cases l with
    | memory => exact onMemory.2 none_
    | memorySwap => exact onSwap.2 none_
    | cpuWeight => exact onWeight.2 none_
    | pids => exact onPids.2 none_

/-! ## Files on the way -/

/-- A configuration that has gone through `config.json` and `state.json`, and
whether it has gone through any of them. -/
inductive Stored [F64Ops] (c : ContainerConfig) :
    Bool → ContainerConfig → Prop where
  | fresh : Stored c false c
  | configFile
      {before : Bool}
      {c' c'' : ContainerConfig}
      (stored : Stored c before c')
      (read : handOver c' = .ok c'') :
      Stored c true c''
  | stateFile
      {before : Bool}
      {st st' : ContainerState}
      (stored : Stored c before st.config)
      (read : ContainerState.ofText st.toJson.toStringPretty = .ok st') :
      Stored c true st'.config

/-- The first member with a key, after printing and parsing. -/
theorem findMember_asRead [F64Ops]
    (key : String)
    (members : List (String × Json)) :
    Json.findMember key
        (Json.rereadMembers (Json.printableMembers members)) =
      (Json.findMember key members).map Json.asRead := by
  induction members with
  | nil =>
      rfl
  | cons member rest inductionHypothesis =>
      obtain ⟨k, v⟩ := member
      simp only [Json.printableMembers, Json.rereadMembers, Json.findMember]
      split
      · rfl
      · exact inductionHypothesis

/-- The limits in a configuration that is read. -/
theorem resources_of_fromJson [F64Ops]
    {doc : Json}
    {c : ContainerConfig}
    (read : ContainerConfig.fromJson doc = .ok c) :
    Resources.fromJson ((doc.get "resources").getD .null) =
      .ok c.resources := by
  unfold ContainerConfig.fromJson at read
  obtain ⟨mounts, _, rest⟩ := Result.bind_eq_ok.mp read
  obtain ⟨resources, readResources, rest⟩ := Result.bind_eq_ok.mp rest
  obtain ⟨network, _, rest⟩ := Result.bind_eq_ok.mp rest
  obtain ⟨security, _, rest⟩ := Result.bind_eq_ok.mp rest
  cases rest
  cases member : doc.get "resources" with
  | none =>
      rw [member] at readResources
      cases readResources
      rfl
  | some section_ =>
      rw [member] at readResources
      exact readResources

/-- Finite numbers have a text. -/
theorem printable_resources
    {r : Resources}
    (finite : ∀ f ∈ r.cpus, f.isFinite = true) :
    r.toJson.printable = r.toJson := by
  have number : ∀ v : Option UInt64,
      (Json.ofOption Json.ofU64 v).printable = Json.ofOption Json.ofU64 v :=
    fun v => (Resources.ofOption_ofU64_floatFree v).printable
  have cpus : (Json.ofOption Json.float r.cpus).printable =
      Json.ofOption Json.float r.cpus := by
    cases shape : r.cpus with
    | none =>
        rfl
    | some f =>
        simp [Json.ofOption, Json.printable, finite f shape]
  rw [Resources.toJson_eq]
  simp only [Json.printable, Json.printableMembers, number, cpus]

/-- What a file keeps of the limits. -/
theorem resources_of_asRead [F64Ops]
    {c c' : ContainerConfig}
    (cpus : ∀ f ∈ c.resources.cpus, f.isFinite = true ∧ ParsesBack f)
    (read : ContainerConfig.fromJson c.toJson.asRead = .ok c') :
    c'.resources = c.resources.kept := by
  have section_ : (c.toJson.asRead.get "resources").getD .null =
      c.resources.toJson.reread := by
    have same := printable_resources fun f member => (cpus f member).1
    rw [ContainerConfig.toJson_eq]
    simp only [Json.asRead, Json.printable, Json.reread, Json.get_obj,
      findMember_asRead]
    simp [Json.findMember, Json.asRead, same]
  have again := resources_of_fromJson read
  rw [section_, Resources.fromJson_reread fun f member => (cpus f member).2]
    at again
  exact (Except.ok.inj again).symm

/-- The configuration in a state that is read. -/
theorem config_of_ofText [F64Ops]
    (numerals : ∀ f, f.isFinite = true → Json.Readable f)
    {st st' : ContainerState}
    (read : ContainerState.ofText st.toJson.toStringPretty = .ok st') :
    ContainerConfig.fromJson st.config.toJson.asRead = .ok st'.config := by
  rw [ContainerState.ofText, parseJson_printed numerals, Result.ok_bind,
    ContainerState.fromJson, ContainerState.asRead_toJson] at read
  obtain ⟨part, found, rest⟩ := Result.bind_eq_ok.mp read
  obtain ⟨config, readConfig, rest⟩ := Result.bind_eq_ok.mp rest
  obtain ⟨id, _, rest⟩ := Result.bind_eq_ok.mp rest
  obtain ⟨status, _, rest⟩ := Result.bind_eq_ok.mp rest
  cases rest
  have same : part = st.config.toJson.asRead := by
    simp only [Json.get_obj, Json.findMember, String.reduceEq, if_false,
      if_true] at found
    exact (Except.ok.inj found).symm
  exact same ▸ readConfig

/-- The files keep the limits below `2^63`. -/
theorem resources_of_stored [F64Ops]
    (numerals : ∀ f, f.isFinite = true → Json.Readable f)
    {c c' : ContainerConfig}
    {persisted : Bool}
    (cpus : ∀ f ∈ c.resources.cpus, f.isFinite = true ∧ ParsesBack f)
    (stored : Stored c persisted c') :
    c'.resources =
      if persisted then c.resources.kept else c.resources := by
  have again : ∀ r : Resources, r.kept.kept = r.kept := by
    intro r
    simp [Resources.kept, keepSmall, Option.filter_filter]
  have once : ∀ {before : Bool} {c' c'' : ContainerConfig},
      c'.resources = (if before then c.resources.kept else c.resources) →
      ContainerConfig.fromJson c'.toJson.asRead = .ok c'' →
      c''.resources = c.resources.kept := by
    intro before c' c'' reached read
    have sameCpus : c'.resources.cpus = c.resources.cpus := by
      rw [reached]
      cases before <;> rfl
    rw [resources_of_asRead (by rwa [sameCpus]) read, reached]
    cases before with
    | false => rfl
    | true => exact again c.resources
  induction stored with
  | fresh =>
      rfl
  | configFile stored read inductionHypothesis =>
      rw [handOver, parseJson_printed numerals, Result.ok_bind] at read
      exact once inductionHypothesis read
  | stateFile stored read inductionHypothesis =>
      exact once inductionHypothesis (config_of_ofText numerals read)

/-! ## The whole way -/

/-- Below `2^63` a value is plain with a file on the way too. -/
theorem plain_persisted_iff
    {l : Limit}
    {digits : List Char}
    {v : Json} :
    Plain true l digits v ↔
      Plain false l digits v ∧ ∀ n ∈ v.asked digits, n < 2 ^ 63 := by
  have both : ∀ asked : Option Nat,
      (∃ n, asked = some n ∧ Computable n ∧ n < 2 ^ 63) ↔
        (∃ n, asked = some n ∧ Computable n) ∧ ∀ n ∈ asked, n < 2 ^ 63 := by
    intro asked
    constructor
    · rintro ⟨n, rfl, computable, small⟩
      refine ⟨⟨n, rfl, computable⟩, ?_⟩
      rintro m ⟨⟩
      exact small
    · rintro ⟨⟨n, rfl, computable⟩, small⟩
      exact ⟨n, rfl, computable, small n rfl⟩
  cases v with
  | null | bool | arr | obj =>
      simp [Plain]
  | int i =>
      have bound := i.toInt_lt
      simp only [Plain, Json.asked]
      constructor
      · intro sign
        rw [if_pos sign]
        refine ⟨sign, ?_⟩
        rintro n ⟨⟩
        omega
      · exact fun plain => plain.1
  | float f =>
      simpa only [Plain, Json.asked, true_implies, Bool.false_eq_true,
        false_implies, and_true] using both (numeralAsked digits)
  | str s =>
      simp only [Plain, Json.asked, true_implies, Bool.false_eq_true,
        false_implies, and_true, both, and_assoc]

private theorem faithful_keepSmall_iff
    {limit : Option UInt64}
    {digits : List Char}
    {v : Json} :
    Faithful (keepSmall limit) digits v ↔
      Faithful limit digits v ∧ ∀ n ∈ v.asked digits, n < 2 ^ 63 := by
  unfold Faithful
  cases limit with
  | none =>
      simp [keepSmall]
  | some x =>
      by_cases small : x.toNat < 2 ^ 63
      · have kept : keepSmall (some x) = some x :=
          (keepSmall_eq_self_iff _).mpr (by rintro n ⟨⟩; exact small)
        rw [kept]
        constructor
        · rintro ⟨n, asked, same⟩
          refine ⟨⟨n, asked, same⟩, ?_⟩
          rw [asked]
          rintro m ⟨⟩
          rw [Option.map_some, Option.some.injEq] at same
          omega
        · exact fun both => both.1
      · have dropped : keepSmall (some x) = none := by
          simp only [keepSmall, Option.filter, small, decide_false,
            Bool.false_eq_true, if_false]
        rw [dropped]
        constructor
        · rintro ⟨n, _, same⟩
          cases same
        · rintro ⟨⟨n, asked, same⟩, bound⟩
          rw [Option.map_some, Option.some.injEq] at same
          exact absurd (same ▸ bound n asked) small

/-- The number `apply` writes for a limit. -/
def Limit.toWrite (r : Resources) : Limit → Option UInt64
  | .memorySwap => Cgroup.swapOnly r
  | l => l.of r

private theorem Limit.row_mem [F64Ops]
    (r : Resources)
    (l : Limit) :
    ∃ row ∈ Cgroup.limitTexts r, row.file = l.file ∧
      row.text = (l.toWrite r).map Resources.numberText := by
  cases l <;> simp [Cgroup.limitTexts, Limit.file, Limit.toWrite, Limit.of]

private theorem Limit.text_of_row [F64Ops]
    {r : Resources}
    {l : Limit}
    {row : Cgroup.LimitText}
    (member : row ∈ Cgroup.limitTexts r)
    (file : row.file = l.file) :
    row.text = (l.toWrite r).map Resources.numberText := by
  simp only [Cgroup.limitTexts, List.mem_cons, List.not_mem_nil, or_false]
    at member
  rcases member with rfl | rfl | rfl | rfl | rfl <;> cases l <;>
    simp_all [Limit.file, Limit.toWrite, Limit.of]

/-- The limit is written with the number that belongs in its file. -/
def InFile (section_ : Json) (numerals : Numerals) (r : Resources)
    (l : Limit) : Prop :=
  ∃ n, fileAsked section_ numerals l = some n ∧
    (l.toWrite r).map UInt64.toNat = some n

private theorem map_numberText_iff
    {limit : Option UInt64}
    {n : Nat} :
    limit.map Resources.numberText = some (toString n) ↔
      limit.map UInt64.toNat = some n := by
  cases limit with
  | none =>
      simp
  | some x =>
      rw [Option.map_some, Option.map_some, Option.some.injEq,
        Option.some.injEq]
      exact Nat.repr_inj

private theorem enforced_iff_inFile [F64Ops]
    {section_ : Json}
    {numerals : Numerals}
    {r : Resources}
    (id : String) :
    Enforced section_ numerals id r ↔
      ∀ l, (section_.given l).isSome = true → InFile section_ numerals r l := by
  constructor
  · intro enforced l present
    obtain ⟨cg, trace, performed, enforcing, texts⟩ := Cgroup.can_create id r
    obtain ⟨n, asked, member⟩ := enforced trace cg performed enforcing l present
    rw [texts] at member
    obtain ⟨row, isRow, file, text⟩ := Cgroup.mem_filesWritten_iff.mp member
    rw [Limit.text_of_row isRow file] at text
    exact ⟨n, asked, map_numberText_iff.mp text⟩
  · intro inFile trace cg performed enforcing l present
    obtain ⟨n, asked, number⟩ := inFile l present
    obtain ⟨row, isRow, file, text⟩ := l.row_mem r
    refine ⟨n, asked, ?_⟩
    rw [← file]
    refine Cgroup.create_writes performed enforcing row isRow _ ?_
    rw [text]
    exact map_numberText_iff.mpr number

/-- The swap is what exceeds a memory limit that is faithful. -/
theorem inFile_swap_iff
    {section_ : Json}
    {numerals : Numerals}
    {r : Resources}
    {v : Json}
    (isGiven : section_.given .memorySwap = some v)
    (memory : ∀ m, section_.given .memory = some m →
      Faithful r.memory (numerals .memory) m)
    (absent : section_.given .memory = none → r.memory = none)
    (ordered : ∀ s ∈ r.memorySwap, ∀ m ∈ r.memory, m ≤ s) :
    InFile section_ numerals r .memorySwap ↔
      Faithful r.memorySwap (numerals .memorySwap) v := by
  unfold InFile Faithful fileAsked Limit.toWrite Cgroup.swapOnly
  rw [isGiven, Option.bind_some]
  cases given : section_.given .memory with
  | none =>
      rw [absent given]
      cases total : v.asked (numerals .memorySwap) with
      | none =>
          simp
      | some t =>
          cases r.memorySwap with
          | none => simp
          | some s => simp
  | some m =>
      obtain ⟨asked, meant, value⟩ := memory m given
      obtain ⟨limit, set, rfl⟩ := Option.map_eq_some_iff.mp value
      cases total : v.asked (numerals .memorySwap) with
      | none =>
          simp
      | some t =>
          cases swap : r.memorySwap with
          | none =>
              simp
          | some s =>
              have atMost := ordered s swap limit set
              have notLess : ¬ s < limit := UInt64.not_lt.mpr atMost
              have number := UInt64.toNat_sub_of_le s limit atMost
              rw [UInt64.le_iff_toNat_le] at atMost
              simp only [set, meant, Option.bind_eq_bind, Option.bind_some,
                Option.map_some, notLess, if_false, number]
              by_cases enough : limit.toNat ≤ t
              · simp only [enough, if_true, Option.some.injEq,
                  exists_eq_left']
                omega
              · simp only [enough, if_false, reduceCtorEq, false_and,
                  exists_false, Option.some.injEq, exists_eq_left',
                  false_iff]
                omega

/-- Limits that are faithful are exactly those that are enforced. -/
theorem enforced_iff_faithful [F64Ops]
    {section_ : Json}
    {numerals : Numerals}
    {r : Resources}
    (absent : ∀ l, section_.given l = none → l.of r = none)
    (ordered : ∀ s ∈ r.memorySwap, ∀ m ∈ r.memory, m ≤ s)
    (id : String) :
    Enforced section_ numerals id r ↔
      ∀ l v, section_.given l = some v →
        Faithful (l.of r) (numerals l) v := by
  have alone : ∀ {l v}, l ≠ .memorySwap → section_.given l = some v →
      (InFile section_ numerals r l ↔
        Faithful (l.of r) (numerals l) v) := by
    intro l v other isGiven
    have asked : fileAsked section_ numerals l =
        (section_.given l).bind (Json.asked (numerals l)) := by
      cases l with
      | memorySwap => exact absurd rfl other
      | memory | cpuWeight | pids => rfl
    have number : l.toWrite r = l.of r := by
      cases l with
      | memorySwap => exact absurd rfl other
      | memory | cpuWeight | pids => rfl
    rw [InFile, asked, number, isGiven]
    rfl
  have swap : ∀ {v},
      (∀ m, section_.given .memory = some m →
        Faithful r.memory (numerals .memory) m) →
      section_.given .memorySwap = some v →
      (InFile section_ numerals r .memorySwap ↔
        Faithful r.memorySwap (numerals .memorySwap) v) :=
    fun memory isGiven => inFile_swap_iff isGiven memory (absent .memory)
      ordered
  rw [enforced_iff_inFile]
  constructor
  · intro inFile
    have memory : ∀ m, section_.given .memory = some m →
        Faithful r.memory (numerals .memory) m :=
      fun m isGiven => (alone (by decide) isGiven).mp
        (inFile .memory (by rw [isGiven]; rfl))
    intro l v isGiven
    have present := inFile l (by rw [isGiven]; rfl)
    by_cases isSwap : l = .memorySwap
    · subst isSwap
      exact (swap memory isGiven).mp present
    · exact (alone isSwap isGiven).mp present
  · intro faithful l present
    obtain ⟨v, isGiven⟩ := Option.isSome_iff_exists.mp present
    by_cases isSwap : l = .memorySwap
    · subst isSwap
      exact (swap (faithful .memory) isGiven).mpr (faithful _ v isGiven)
    · exact (alone isSwap isGiven).mpr (faithful l v isGiven)

/-- The `resources` section of a document. -/
def resourcesSection (doc : Json) : Json :=
  (doc.get "resources").getD .null

/-- A document that the parser returns has its numerals. -/
theorem exists_numerals [F64Ops]
    {text : String}
    {doc : Json}
    (parsed : parseJson text = .ok doc) :
    ∃ numerals, (resourcesSection doc).HasNumerals numerals := by
  have read : ∀ l : Limit, ∃ digits, ∀ f,
      (resourcesSection doc).given l = some (.float f) → WrittenAs f digits := by
    intro l
    cases given : (resourcesSection doc).given l with
    | none =>
        exact ⟨[], fun _ never => (nomatch never)⟩
    | some v =>
        by_cases float : ∃ f, v = .float f
        · obtain ⟨f, rfl⟩ := float
          have found := (Option.filter_eq_some_iff.mp given).1
          have here : f ∈ (resourcesSection doc).floats :=
            Json.mem_floats_of_get found (by simp [Json.floats])
          have member : f ∈ doc.floats := by
            unfold resourcesSection at here
            cases part : doc.get "resources" with
            | none =>
                simp [part, Json.floats] at here
            | some section_ =>
                rw [part] at here
                exact Json.mem_floats_of_get part here
          obtain ⟨digits, value⟩ := isRead_of_parseJson parsed member
          refine ⟨digits, ?_⟩
          rintro g ⟨⟩
          exact .json value
        · exact ⟨[], fun f same => (float ⟨f, Option.some.inj same⟩).elim⟩
  choose numerals written using read
  exact ⟨numerals, written⟩

/--
Of a document that is loaded and validated, every limit that is given ends up
in the file of its cgroup exactly if every value given is plain: an integer
that is not negative, or a numeral or, for a memory limit, a size of a natural
number in range that binary64 arithmetic gets right.
-/
theorem limits_enforced_iff [F64Ops]
    (readable : ∀ f, f.isFinite = true → Json.Readable f)
    {doc : Json}
    {numerals : Numerals}
    {loaded c c' : ContainerConfig}
    {host : ConfigHost}
    {requireRootfs persisted : Bool}
    (written : (resourcesSection doc).HasNumerals numerals)
    (load : ContainerConfig.fromJson doc = .ok loaded)
    (accepted : loaded.finalizeAndValidate host requireRootfs = .ok c)
    (stored : Stored c persisted c')
    (cpus : ∀ f ∈ loaded.resources.cpus, ParsesBack f)
    (sizes : SizesRead (resourcesSection doc))
    (numbers : NumeralsRead (resourcesSection doc) numerals)
    (id : String) :
    Enforced (resourcesSection doc) numerals id c'.resources ↔
      ∀ l v, (resourcesSection doc).given l = some v →
        Plain persisted l (numerals l) v := by
  have validated := finalizeAndValidate_ok accepted
  have reads := readsLimits_of_fromJson (resources_of_fromJson load) sizes
    written numbers
  have same := resources_of_stored readable
    (fun f member => ⟨(validated.limits.cpusFinite f member).1,
      cpus f (validated.resources ▸ member)⟩) stored
  have limits := validated.limits
  rw [validated.resources] at same limits
  have kept : ∀ l : Limit, l.of c'.resources =
      if persisted then keepSmall (l.of loaded.resources)
      else l.of loaded.resources := by
    intro l
    rw [same]
    cases persisted <;> cases l <;> rfl
  have small : ∀ {x : Option UInt64} {n : UInt64}, n ∈ keepSmall x → n ∈ x :=
    fun member => (Option.filter_eq_some_iff.mp member).1
  rw [enforced_iff_faithful]
  · refine forall_congr' fun l => forall_congr' fun v =>
      imp_congr_right fun isGiven => ?_
    rw [kept l]
    cases persisted with
    | false =>
        exact reads.given l v isGiven
    | true =>
        rw [if_pos rfl, faithful_keepSmall_iff, plain_persisted_iff,
          reads.given l v isGiven]
  · intro l none_
    rw [kept l, reads.absent l none_]
    cases persisted <;> rfl
  · have swap := kept .memorySwap
    have memory := kept .memory
    simp only [Limit.of] at swap memory
    rw [swap, memory]
    cases persisted with
    | false =>
        exact limits.swap
    | true =>
        exact fun s isSwap m isMemory => limits.swap s (small isSwap) m
          (small isMemory)

/-- A document with the given limits. -/
def limitedDoc (limits : List (String × Json)) : Json :=
  .obj [("id", .str "web"), ("rootfs", .str "/srv/web"),
    ("command", .arr [.str "/bin/httpd"]), ("resources", .obj limits)]

/-- The sample operations with one more numeral. -/
@[reducible] def moreOps : F64Ops :=
  { unitOps with
    parse := fun cs =>
      if cs = "64.0".toList then some ⟨0x4050000000000000⟩
      else unitOps.parse cs }

private theorem moreOps_readable :
    let _ := moreOps
    ∀ f, f.isFinite = true → Json.Readable f := by
  intro _ f finite
  have text : F64Ops.display f = Json.intText 1 := by
    change ['1'] = Json.intText 1
    decide +kernel
  exact readable_of_display finite text

private theorem nearest_of_eq
    {q : ℚ}
    {f : F64}
    (finite : f.isFinite = true)
    (nonNegative : f.nonNegative = true)
    (value : f.magnitude = q) :
    Nearest q f := by
  refine ⟨finite, nonNegative, fun g _ _ => ?_⟩
  rw [value, sub_self, abs_zero]
  exact abs_nonneg _

/-- The size `1` is read exactly. -/
theorem sizeReads_one : @SizeReads moreOps "1" := by
  let _ := moreOps
  have value : F64.one.magnitude = 1 := by
    have significand : F64.one.significand = 2 ^ 52 := by decide
    have scale : F64.one.scale = 1023 := by decide
    rw [F64.magnitude, significand, scale]
    norm_num
  have split :
      splitSize (toAsciiLowercase (trim "1")) sizeSuffixes = ("1", 1) := by
    decide +kernel
  have meant : decimalValue ['1'] = some 1 := by
    decide +kernel
  unfold SizeReads
  rw [split]
  constructor
  · rintro f q parsed asked _ _
    cases parsed
    rw [show trimChars "1".toList = ['1'] by decide, meant] at asked
    cases asked
    exact nearest_of_eq (by decide) (by decide) value
  · rintro f parsed finite nonNegative _
    refine ⟨finite, nonNegative, ?_⟩
    exact (mul_one f.magnitude).symm.trans (by rw [← Nat.cast_one]; rfl)

/-- The numeral `64.0` is read exactly. -/
theorem numeralReads_sixtyFour : @NumeralReads moreOps "64.0".toList := by
  let _ := moreOps
  have value : (⟨0x4050000000000000⟩ : F64).magnitude = 64 := by
    have significand :
        (⟨0x4050000000000000⟩ : F64).significand = 2 ^ 52 := by decide
    have scale : (⟨0x4050000000000000⟩ : F64).scale = 1029 := by decide
    rw [F64.magnitude, significand, scale]
    norm_num
  have meant :
      decimalValue ("64.0".toList.map asciiLower) = some 64 := by
    decide +kernel
  rintro f q parsed asked _ _
  cases parsed
  rw [meant] at asked
  cases asked
  exact nearest_of_eq (by decide) (by decide) value

/-- Limits given as a size, an integer and another number. -/
def webDoc : Json :=
  limitedDoc [("memory_swap", .str "1"), ("cpu_weight", .int 200),
    ("pids", .float ⟨0x4050000000000000⟩)]

/-- The numeral in the document. -/
def webNumerals : Numerals
  | .pids => "64.0".toList
  | _ => []

/-- The only number of the document with a fraction. -/
private theorem webDoc_floats
    {l : Limit}
    {f : F64}
    (isGiven : (resourcesSection webDoc).given l = some (.float f)) :
    l = .pids ∧ f = ⟨0x4050000000000000⟩ := by
  cases l with
  | memory =>
      exact absurd isGiven.symm (Option.some_ne_none _)
  | memorySwap | cpuWeight =>
      exact absurd (Option.some.inj isGiven.symm) (by simp)
  | pids =>
      exact ⟨rfl, Json.float.inj (Option.some.inj isGiven.symm)⟩

private theorem webDoc_written :
    @Json.HasNumerals moreOps (resourcesSection webDoc) webNumerals := by
  let _ := moreOps
  intro l f isGiven
  obtain ⟨rfl, rfl⟩ := webDoc_floats isGiven
  have isFloat : JsonParser.looksFloat "64.0".toList = true := by
    decide +kernel
  have parsed : F64Ops.parse "64.0".toList = some ⟨0x4050000000000000⟩ :=
    if_pos rfl
  refine .json ?_
  change JsonParser.numberValue "64.0".toList = _
  simp only [JsonParser.numberValue, isFloat, parsed, if_true]

private theorem webDoc_numbers :
    @NumeralsRead moreOps (resourcesSection webDoc) webNumerals := by
  let _ := moreOps
  intro l f isGiven
  obtain ⟨rfl, rfl⟩ := webDoc_floats isGiven
  exact numeralReads_sixtyFour

private theorem webDoc_sizes :
    @SizesRead moreOps (resourcesSection webDoc) := by
  let _ := moreOps
  intro l s isGiven size
  cases l with
  | memory =>
      exact absurd isGiven.symm (Option.some_ne_none _)
  | memorySwap =>
      obtain rfl : "1" = s := Json.str.inj (Option.some.inj isGiven)
      exact sizeReads_one
  | cpuWeight | pids =>
      cases size

/-- Every limit of the document is plain. -/
private theorem webDoc_plain
    {l : Limit}
    {v : Json}
    (isGiven : (resourcesSection webDoc).given l = some v) :
    Plain false l (webNumerals l) v := by
  cases l with
  | memory =>
      exact absurd isGiven.symm (Option.some_ne_none _)
  | memorySwap =>
      obtain rfl : Json.str "1" = v := Option.some.inj isGiven
      have asked : sizeAsked "1" = some 1 := by decide +kernel
      exact ⟨rfl, 1, asked, ⟨by decide, .inl (fewBits_of_lt (by decide))⟩,
        by decide⟩
  | cpuWeight =>
      obtain rfl : Json.int 200 = v := Option.some.inj isGiven
      show (0 : Int64) ≤ 200
      decide
  | pids =>
      obtain rfl : Json.float ⟨0x4050000000000000⟩ = v :=
        Option.some.inj isGiven
      have asked : numeralAsked "64.0".toList = some 64 := by decide +kernel
      exact ⟨64, asked, ⟨by decide, .inl (fewBits_of_lt (by decide))⟩,
        by decide⟩

theorem webDoc_enforced :
    ∃ loaded c, @ContainerConfig.fromJson moreOps webDoc = .ok loaded ∧
      loaded.finalizeAndValidate plainHost true = .ok c ∧
      @Enforced moreOps (resourcesSection webDoc) webNumerals "web"
        c.resources := by
  let _ := moreOps
  have loads : (ContainerConfig.fromJson webDoc).toBool = true := by
    decide +kernel
  obtain ⟨loaded, load⟩ := Result.exists_ok loads
  have passes :
      ((ContainerConfig.fromJson webDoc).bind fun loaded =>
        loaded.finalizeAndValidate plainHost true).toBool = true := by
    decide +kernel
  rw [load] at passes
  obtain ⟨c, accepted⟩ := Result.exists_ok passes
  have noCpus :
      (ContainerConfig.fromJson webDoc).map (fun c => c.resources.cpus) =
        .ok none := by
    decide +kernel
  rw [load] at noCpus
  have none_ : loaded.resources.cpus = none := Except.ok.inj noCpus
  have cpus : ∀ f ∈ loaded.resources.cpus, ParsesBack f := by
    rw [none_]
    rintro f ⟨⟩
  exact ⟨loaded, c, load, accepted,
    (limits_enforced_iff moreOps_readable webDoc_written load accepted .fresh
      cpus webDoc_sizes webDoc_numbers "web").mpr fun _ _ => webDoc_plain⟩

/-- A negative number of processes. -/
def negativeDoc : Json :=
  limitedDoc [("pids", .int (-5))]

/-- A limit that makes no sense is dropped. -/
theorem negative_limit_dropped :
    ∃ loaded c, @ContainerConfig.fromJson unitOps negativeDoc = .ok loaded ∧
      loaded.finalizeAndValidate plainHost true = .ok c ∧
      ∀ numerals, ¬ @Enforced unitOps (resourcesSection negativeDoc) numerals
        "web" c.resources := by
  let _ := unitOps
  have loads : (ContainerConfig.fromJson negativeDoc).toBool = true := by
    decide +kernel
  obtain ⟨loaded, load⟩ := Result.exists_ok loads
  have passes :
      ((ContainerConfig.fromJson negativeDoc).bind fun loaded =>
        loaded.finalizeAndValidate plainHost true).toBool = true := by
    decide +kernel
  rw [load] at passes
  obtain ⟨c, accepted⟩ := Result.exists_ok passes
  refine ⟨loaded, c, load, accepted, fun numerals enforced => ?_⟩
  obtain ⟨n, asked, _⟩ := (enforced_iff_inFile "web").mp enforced .pids rfl
  have nothing :
      fileAsked (resourcesSection negativeDoc) numerals .pids = none := rfl
  rw [nothing] at asked
  cases asked

end Myrun
