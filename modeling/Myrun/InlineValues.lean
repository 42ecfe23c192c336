import Myrun.StrictOptions

namespace Myrun

/-!
# Values after an equals sign

`split_flag` of `src/cli.rs` cuts `--flag=value` before the arms of the parser
see the token. An option with a value takes it from there; an option without
one need not look. What it would mean to give such an option a truth value is
stated next to what the parser does.
-/

namespace Cli

/-! ## Cutting a token -/

private theorem splitFlag_inline
    {f : String}
    (leading : startsWithChar '-' f = true)
    (free : '=' ∉ f.toList)
    (v : String) :
    splitFlag (f ++ "=" ++ v) = (f, some v) := by
  have cut : splitOnce '=' (f ++ "=" ++ v) = some (f, v) := by
    have chars : (f ++ "=" ++ v).toList = f.toList ++ '=' :: v.toList := by
      simp
    rw [splitOnce, chars, splitOnceChars_append free]
    simp
  rw [splitFlag, cut]
  exact if_pos leading

private theorem splitFlag_bare
    {f : String}
    (free : '=' ∉ f.toList) :
    splitFlag f = (f, none) := by
  have uncut : splitOnce '=' f = none := by
    have none_ : splitOnceChars '=' f.toList = none := by
      cases cut : splitOnceChars '=' f.toList with
      | none =>
          rfl
      | some parts =>
          rw [splitOnceChars_shape cut] at free
          simp at free
    rw [splitOnce, none_]
    rfl
  rw [splitFlag, uncut]

/-- A name that can be cut off a token. -/
structure OptionName (f : String) : Prop where
  leading : startsWithChar '-' f = true
  free : '=' ∉ f.toList

/-- The token is looked at as an option. -/
theorem OptionName.not_positional
    {f : String}
    (name : OptionName f)
    (v : String) :
    isPositional false (f ++ "=" ++ v) = false := by
  have leading : startsWithChar '-' (f ++ "=" ++ v) = true := by
    rw [← startsWithChar_splitFlag, splitFlag_inline name.leading name.free]
    exact name.leading
  have longer : f ++ "=" ++ v ≠ "-" := by
    intro same
    have chars := congrArg (fun s : String => '=' ∈ s.toList) same
    simp at chars
  simp only [isPositional, leading, longer]
  rfl

/-! ## Sub-parsers with a table -/

/-- The sub-parser where an option is set between two lists of tokens. -/
def Subparser.parseGiven {σ : Type} (p : Subparser σ) (front : List String)
    (set : σ → σ) (rest : List String) : Result Command := do
  let s ← p.options.loop front p.initial
  let s ← p.options.loop rest (set s)
  p.finish s

/-- Complete options and operands can be followed by more. -/
theorem Options.loop_append
    {σ : Type}
    {o : Options σ}
    {front : List String}
    (more : List String)
    {s middle : σ}
    (read : o.loop front s = .ok middle) :
    o.loop (front ++ more) s = o.loop more middle := by
  fun_induction o.loop front s with
  | case1 s =>
      cases read
      rfl
  | case2 raw rest s set selected inductionHypothesis =>
      rw [List.cons_append, Options.loop.eq_def]
      simp only [selected]
      exact inductionHypothesis read
  | case3 raw s decode selected v rest inline inductionHypothesis =>
      obtain ⟨set, decoded, continued⟩ := Result.bind_eq_ok.mp read
      rw [List.cons_append, Options.loop.eq_def]
      simp only [selected, inline, decoded, Result.ok_bind]
      exact inductionHypothesis set continued
  | case4 =>
      cases read
  | case5 raw s decode selected v rest inline inductionHypothesis =>
      obtain ⟨set, decoded, continued⟩ := Result.bind_eq_ok.mp read
      rw [List.cons_append, List.cons_append, Options.loop.eq_def]
      simp only [selected, inline, decoded, Result.ok_bind]
      exact inductionHypothesis set continued
  | case6 =>
      cases read
  | case7 =>
      cases read
  | case8 raw rest s selected push takes plain inductionHypothesis =>
      rw [List.cons_append, Options.loop.eq_def]
      simp only [selected, takes, plain, if_false, Bool.false_eq_true]
      exact inductionHypothesis read

section Table

variable {σ : Type} {p : Subparser σ} {front rest : List String} {f : String}

private theorem Subparser.parse_append
    {s : σ}
    (read : p.options.loop front p.initial = .ok s)
    (more : List String) :
    p.parse (front ++ more) = (do
      let s ← p.options.loop more s
      p.finish s) := by
  rw [Subparser.parse, Options.loop_append more read]

/-- An option with a value takes it from either place. -/
theorem Subparser.valued_inline
    (position : ∃ s, p.options.loop front p.initial = .ok s)
    (name : OptionName f)
    {decode : String → Result (σ → σ)}
    (arm : p.options.arm f = some (.valued decode))
    (v : String) :
    p.parse (front ++ (f ++ "=" ++ v) :: rest) =
      p.parse (front ++ f :: v :: rest) := by
  obtain ⟨s, read⟩ := position
  have inline := splitFlag_inline name.leading name.free v
  have bare := splitFlag_bare name.free
  rw [Subparser.parse_append read, Subparser.parse_append read]
  congr 1
  rw [Options.loop.eq_def, Options.loop.eq_def p.options (f :: v :: rest)]
  simp only [inline, bare, arm]

/-- An option without a value does not look at the text. -/
theorem Subparser.switch_inline
    (position : ∃ s, p.options.loop front p.initial = .ok s)
    (name : OptionName f)
    {set : σ → σ}
    (arm : p.options.arm f = some (.switch set))
    (v : String) :
    p.parse (front ++ (f ++ "=" ++ v) :: rest) =
      p.parseGiven front set rest := by
  obtain ⟨s, read⟩ := position
  have inline := splitFlag_inline name.leading name.free v
  rw [Subparser.parse_append read, Subparser.parseGiven, read]
  rw [Options.loop.eq_def]
  simp only [inline, arm, Result.ok_bind]

end Table

/-! ## `run` and `create` -/

section Run

variable [F64Ops] {run : Bool} {front rest : List String} {f : String}

/-- A pass where an option is set between two lists of tokens. -/
def parseRunPassGiven (run : Bool) (base : ContainerConfig)
    (front : List String) (set : PassState → PassState) (rest : List String) :
    Result (RunArgs × Option String) := do
  let s ← passLoop run front { cfg := base }
  let s ← passLoop run rest (set s)
  return ({ config := { takePositional s with detach := s.detach },
            detach := s.detach }, s.configPath)

/-- Both passes of `run` or `create` with such an option. -/
def parseRunGiven (files : ConfigFiles) (run : Bool) (front : List String)
    (set : PassState → PassState) (rest : List String) : Result RunArgs := do
  let (_, configPath) ← parseRunPassGiven run {} front set rest
  let base ← baseConfig files configPath
  let (parsed, _) ← parseRunPassGiven run base front set rest
  return parsed

/-- An option can stand after these tokens. -/
def RunPosition (run : Bool) (front : List String) : Prop :=
  ∃ s, passLoop run front { cfg := {} } = .ok s ∧ s.endOfFlags = false ∧
    s.positional.length ≤ 1

/-- Tokens that leave room for the command can be followed by more. -/
theorem Pass.passLoop_followed
    {s middle : PassState}
    (pass : Pass run front s middle)
    (room : middle.positional.length ≤ 1)
    (tail : List String) :
    passLoop run (front ++ tail) s = passLoop run tail middle := by
  induction pass with
  | done s =>
      rfl
  | operand positional first _ inductionHypothesis =>
      rw [List.cons_append, passLoop_operand positional first]
      exact inductionHypothesis room
  | command positional later =>
      have some_ := List.length_pos_of_ne_nil later
      simp only [List.length_append, List.length_cons] at room
      omega
  | option isOption read _ inductionHypothesis =>
      rw [List.cons_append, passLoop_option isOption,
        (readOption_ok read).2.2 tail]
      exact inductionHypothesis room

/-- The place of an option does not depend on the file. -/
theorem RunPosition.at_base
    (position : RunPosition run front)
    (base : ContainerConfig) :
    ∃ s, passLoop run front { cfg := base } = .ok s ∧ s.endOfFlags = false ∧
      ∀ tail, passLoop run (front ++ tail) { cfg := base } =
        passLoop run tail s := by
  obtain ⟨probe, probed, reading, room⟩ := position
  have start : SameLine { cfg := {} } { cfg := base } := {
    configPath := rfl
    detach := rfl
    positional := rfl
    endOfFlags := rfl
    rootfs := Classical.em (base.rootfs = "") }
  obtain ⟨s, pass, same⟩ := (pass_of_passLoop _ probed).sameLine start
  refine ⟨s, pass.passLoop_eq, same.endOfFlags.trans reading, fun tail => ?_⟩
  exact Pass.passLoop_followed pass (by rw [same.positional]; exact room) tail

/-- What holds of every pass holds of both. -/
theorem parseRun_eq_given
    {files : ConfigFiles}
    {tokens : List String}
    {set : PassState → PassState}
    (same : ∀ base, passLoop run tokens { cfg := base } = (do
      let s ← passLoop run front { cfg := base }
      passLoop run rest (set s))) :
    parseRun files run tokens = parseRunGiven files run front set rest := by
  have pass : ∀ base, parseRunPass run base tokens =
      parseRunPassGiven run base front set rest := by
    intro base
    rw [parseRunPass, same, parseRunPassGiven]
    cases passLoop run front { cfg := base } with
    | error e =>
        rfl
    | ok s =>
        rfl
  simp only [parseRun, parseRunGiven, pass]

/-- What holds of every pass holds of both. -/
theorem parseRun_congr
    {files : ConfigFiles}
    {tokens tokens' : List String}
    (same : ∀ base, passLoop run tokens { cfg := base } =
      passLoop run tokens' { cfg := base }) :
    parseRun files run tokens = parseRun files run tokens' := by
  simp only [parseRun, parseRunPass, same]

/-- Reading an option without a value. -/
theorem readOption_plain
    {raw : String}
    {inline : Option String}
    (cut : splitFlag raw = (f, inline))
    {decode : Option String → Result Update}
    (action : flagAction run f = .plain decode)
    (rest : List String) :
    readOption run raw rest = (do
      let update ← decode inline
      return (update, rest)) := by
  unfold readOption
  rw [cut, action]

/-- Reading an option with a value after `=`. -/
theorem readOption_valued
    {raw v : String}
    (cut : splitFlag raw = (f, some v))
    {decode : String → Result Update}
    (action : flagAction run f = .valued decode)
    (rest : List String) :
    readOption run raw rest = (do
      let update ← decode v
      return (update, rest)) := by
  unfold readOption
  rw [cut, action]

/-- Reading an option with a value in the next token. -/
theorem readOption_bare
    {raw v : String}
    (cut : splitFlag raw = (f, none))
    {decode : String → Result Update}
    (action : flagAction run f = .valued decode)
    (rest : List String) :
    readOption run raw (v :: rest) = (do
      let update ← decode v
      return (update, rest)) := by
  unfold readOption
  rw [cut, action]

/-- A pass up to an option with text after `=`. -/
theorem passLoop_inline
    (position : RunPosition run front)
    (name : OptionName f)
    (v : String)
    (rest : List String)
    (base : ContainerConfig) :
    ∃ s, passLoop run front { cfg := base } = .ok s ∧
      passLoop run (front ++ (f ++ "=" ++ v) :: rest) { cfg := base } = (do
        let read ← readOption run (f ++ "=" ++ v) rest
        passLoop run read.2 (read.1.apply s)) := by
  obtain ⟨s, passed, reading, followed⟩ := position.at_base base
  refine ⟨s, passed, ?_⟩
  rw [followed]
  exact passLoop_option (by rw [reading]; exact name.not_positional v)

/-- An option with a value takes it from either place. -/
theorem run_valued_inline
    {files : ConfigFiles}
    (position : RunPosition run front)
    (name : OptionName f)
    (looks : isPositional false f = false)
    {decode : String → Result Update}
    (action : flagAction run f = .valued decode)
    (v : String) :
    parseRun files run (front ++ (f ++ "=" ++ v) :: rest) =
      parseRun files run (front ++ f :: v :: rest) := by
  refine parseRun_congr fun base => ?_
  obtain ⟨s, passed, reading, followed⟩ := position.at_base base
  have inline := splitFlag_inline name.leading name.free v
  have bare := splitFlag_bare name.free
  rw [followed, followed,
    passLoop_option (by rw [reading]; exact name.not_positional v),
    passLoop_option (by rw [reading]; exact looks)]
  rw [readOption_valued inline action, readOption_bare bare action]

/-- An option without a value, where the text is read. -/
theorem run_plain_inline
    {files : ConfigFiles}
    (position : RunPosition run front)
    (name : OptionName f)
    {decode : Option String → Result Update}
    (action : flagAction run f = .plain decode)
    {v : String}
    {update : Update}
    (decoded : decode (some v) = .ok update) :
    parseRun files run (front ++ (f ++ "=" ++ v) :: rest) =
      parseRunGiven files run front update.apply rest := by
  refine parseRun_eq_given fun base => ?_
  obtain ⟨s, passed, after⟩ := passLoop_inline position name v rest base
  have inline := splitFlag_inline name.leading name.free v
  rw [after, passed, readOption_plain inline action, decoded]
  rfl

/-- An option without a value, where the text is refused. -/
theorem run_plain_refused
    {files : ConfigFiles}
    (position : RunPosition run front)
    (name : OptionName f)
    {decode : Option String → Result Update}
    (action : flagAction run f = .plain decode)
    {v : String}
    {e : Error}
    (decoded : decode (some v) = .error e) :
    parseRun files run (front ++ (f ++ "=" ++ v) :: rest) = .error e := by
  obtain ⟨s, passed, after⟩ := passLoop_inline position name v rest {}
  have inline := splitFlag_inline name.leading name.free v
  rw [parseRun, parseRunPass, after, readOption_plain inline action, decoded]
  rfl

end Run

/-! ## What options without a value mean -/

/-- Options that can be set to a truth value. -/
abbrev Switches (σ : Type) := List (List String × (Bool → σ → σ))

/-- Set an option to a truth value. -/
def Switches.set {σ : Type} (table : Switches σ) (f : String) (b : Bool) :
    σ → σ :=
  match table.find? fun row => f ∈ row.1 with
  | some row => row.2 b
  | none => id

/-- The switches of `start`. -/
def startSwitches : Switches StartState :=
  [(["-a", "--attach"], fun b s => { s with attach := b })]

/-- The switches of `rm`. -/
def deleteSwitches : Switches DeleteState :=
  [(["-f", "--force"], fun b s => { s with force := b })]

/-- The switches of `ls`. -/
def listSwitches : Switches ListState :=
  [(["-a", "--all"], fun b s => { s with all := b }),
    (["--json"], fun b s => { s with json := b }),
    (["-q", "--quiet"], fun b s => { s with quiet := b })]

/-- The switches of `stats`. -/
def statsSwitches : Switches StatsState :=
  [(["--json"], fun b s => { s with json := b }),
    (["-f", "--follow"], fun b s => { s with follow := b })]

/-- The switches of `logs`. -/
def logsSwitches : Switches LogsState :=
  [(["-f", "--follow"], fun b s => { s with follow := b })]

/-- Change the configuration of a pass. -/
def onConfig (change : ContainerConfig → ContainerConfig) (s : PassState) :
    PassState :=
  { s with cfg := change s.cfg }

/-- The switches of `run` and `create`. -/
def runSwitches : Switches PassState :=
  [(["-d", "--detach"], fun b s => { s with detach := b }),
    (["--rm"], fun b => onConfig fun c => { c with autoRemove := b }),
    (["--read-only"], fun b => onConfig fun c => { c with readOnly := b }),
    (["--no-nat"], fun b =>
      onConfig fun c => { c with network := { c.network with nat := !b } }),
    (["--privileged"], fun b =>
      onConfig fun c =>
        { c with security := { c.security with privileged := b } }),
    (["--no-new-privs"], fun b =>
      onConfig fun c =>
        { c with security := { c.security with noNewPrivs := b } }),
    (["--no-pid-ns"], fun b =>
      onConfig fun c =>
        { c with namespaces := { c.namespaces with pid := !b } }),
    (["--no-ipc-ns"], fun b =>
      onConfig fun c =>
        { c with namespaces := { c.namespaces with ipc := !b } }),
    (["--no-uts-ns"], fun b =>
      onConfig fun c =>
        { c with namespaces := { c.namespaces with uts := !b } }),
    (["--no-cgroup-ns"], fun b =>
      onConfig fun c =>
        { c with namespaces := { c.namespaces with cgroup := !b } })]

/-- The arms without a value are those of the table, set to true. -/
def Options.SetBy {σ : Type} (o : Options σ) (table : Switches σ) : Prop :=
  ∃ others : List (List String × Arm σ),
    o.arms =
        table.map (fun row => (row.1, Arm.switch (row.2 true))) ++ others ∧
      ∀ row ∈ others, row.2.takesValue = true

/-- A sub-parser sets its switches to true. -/
theorem Switches.set_true
    {σ : Type}
    {o : Options σ}
    {table : Switches σ}
    (setBy : o.SetBy table)
    {f : String}
    {set : σ → σ}
    (selected : o.arm f = some (.switch set)) :
    table.set f true = set := by
  obtain ⟨others, arms, valued⟩ := setBy
  rw [Options.arm, arms, List.find?_append, List.find?_map] at selected
  simp only [Function.comp_def] at selected
  unfold Switches.set
  cases found : table.find? fun row => f ∈ row.1 with
  | some row =>
      rw [found] at selected
      simpa using selected
  | none =>
      rw [found] at selected
      obtain ⟨row, other, same⟩ := Option.map_eq_some_iff.mp selected
      have takes := valued row (List.mem_of_find?_eq_some other)
      rw [same] at takes
      cases takes

private theorem startParser_setBy : startParser.options.SetBy startSwitches :=
  ⟨[], rfl, fun _ member => nomatch member⟩

private theorem deleteParser_setBy : deleteParser.options.SetBy deleteSwitches :=
  ⟨[], rfl, fun _ member => nomatch member⟩

private theorem listParser_setBy : listParser.options.SetBy listSwitches :=
  ⟨[], rfl, fun _ member => nomatch member⟩

private theorem statsParser_setBy [F64Ops] :
    statsParser.options.SetBy statsSwitches :=
  ⟨statsParser.options.arms.drop 2, rfl, by simp [statsParser, valuedBy,
    Arm.takesValue]⟩

private theorem logsParser_setBy : logsParser.options.SetBy logsSwitches :=
  ⟨logsParser.options.arms.drop 1, rfl, by simp [logsParser, valuedBy,
    Arm.takesValue]⟩

/-- Every option of a sub-parser takes a value. -/
theorem arity_ne_false
    {σ : Type}
    {o : Options σ}
    (valued : ∀ row ∈ o.arms, row.2.takesValue = true)
    (f : String) :
    o.arity f ≠ some false := by
  intro alone
  obtain ⟨arm, selected, kind⟩ := Option.map_eq_some_iff.mp alone
  obtain ⟨row, found, same⟩ := Option.map_eq_some_iff.mp selected
  have takes := valued row (List.mem_of_find?_eq_some found)
  rw [same, kind] at takes
  cases takes

private theorem stopParser_valued (f : String) :
    stopParser.options.arity f ≠ some false :=
  arity_ne_false (by simp [stopParser, valuedBy, Arm.takesValue]) f

private theorem killParser_valued (f : String) :
    killParser.options.arity f ≠ some false :=
  arity_ne_false (by simp [killParser, valuedBy, Arm.takesValue]) f

private theorem waitParser_valued (f : String) :
    waitParser.options.arity f ≠ some false :=
  arity_ne_false (by simp [waitParser, valuedBy, Arm.takesValue]) f

/-- A switch of a sub-parser is in its table. -/
theorem Subparser.mem_switches
    {σ : Type}
    {p : Subparser σ}
    {table : Switches σ}
    (setBy : p.options.SetBy table)
    {f : String}
    (alone : p.options.arity f = some false) :
    ∃ row ∈ table, f ∈ row.1 := by
  obtain ⟨others, arms, valued⟩ := setBy
  obtain ⟨arm, selected, kind⟩ := Option.map_eq_some_iff.mp alone
  obtain ⟨row, found, same⟩ := Option.map_eq_some_iff.mp selected
  have named : f ∈ row.1 := by
    simpa using List.find?_some found
  have member := List.mem_of_find?_eq_some found
  rw [arms, List.mem_append, List.mem_map] at member
  rcases member with ⟨row', inTable, rfl⟩ | other
  · exact ⟨row', inTable, named⟩
  · have takes := valued row other
    rw [same, kind] at takes
    cases takes

/-- `run` and `create` set their switches to true. -/
theorem runSwitches_set_true [F64Ops]
    {f : String}
    {flag : Flag}
    (found : flagReading f = some (.switch flag)) :
    runSwitches.set f true = flag.update.apply := by
  have rows : ∀ row ∈ flagRows, ∀ flag, row.2 = .switch flag →
      ∀ name ∈ row.1, runSwitches.set name true = flag.update.apply := by
    simp only [flagRows, List.forall_mem_cons, List.not_mem_nil,
      false_implies, implies_true, and_true, reduceCtorEq,
      FlagReading.switch.injEq, forall_eq', true_and]
    repeat' apply And.intro
    all_goals rfl
  obtain ⟨row, first, same⟩ := Option.map_eq_some_iff.mp found
  exact rows row (List.mem_of_find?_eq_some first) flag same f
    (by simpa using List.find?_some first)

/-! ## Global options -/

/-- Global options can be followed by more. -/
theorem globalLoop_append
    {lead : List String}
    {env env' : Environment}
    (read : globalLoop lead env = (env', .ok .nothing))
    (more : List String) :
    globalLoop (lead ++ more) env = globalLoop more env' := by
  fun_induction globalLoop lead env with
  | case1 env =>
      cases read
      rfl
  | case4 raw rest env set selected inductionHypothesis =>
      rw [List.cons_append, globalLoop.eq_def]
      simp only [selected]
      exact inductionHypothesis read
  | case5 raw env decode selected v rest inline set decoded
      inductionHypothesis =>
      rw [List.cons_append, globalLoop.eq_def]
      simp only [selected, inline, decoded]
      exact inductionHypothesis read
  | case8 raw env decode selected v rest inline set decoded
      inductionHypothesis =>
      rw [List.cons_append, List.cons_append, globalLoop.eq_def]
      simp only [selected, inline, decoded]
      exact inductionHypothesis read
  | case2 | case3 | case6 | case7 | case9 | case10 | case11 =>
      cases read

/-- A subcommand's name ends the global options. -/
theorem globalLoop_name
    {name : String}
    {sub : Subcommand}
    (named : subcommand name = some sub)
    (args : List String)
    (env : Environment) :
    globalLoop (name :: args) env = (env, .ok (.subcommand name args)) := by
  have plain : startsWithChar '-' name = false := by
    have names : ∀ row ∈ subcommands, ∀ name ∈ row.1,
        startsWithChar '-' name = false := by
      simp [subcommands, startsWithChar]
    obtain ⟨row, found, _⟩ := Option.map_eq_some_iff.mp named
    exact names row (List.mem_of_find?_eq_some found) name
      (by simpa using List.find?_some found)
  have noArm : globalArm (splitFlag name).1 = none := by
    cases selected : globalArm (splitFlag name).1 with
    | none =>
        rfl
    | some arm =>
        have leading := (Bool.and_eq_true_iff.mp (globalArm_looks selected).1).1
        rw [plain] at leading
        cases leading
  rw [globalLoop.eq_def]
  simp only [noArm, startsWithChar_splitFlag, plain, Bool.false_eq_true,
    if_false]

/-! ## Every subcommand -/

/-- The names of the options of a table can be cut off a token. -/
def Options.Named {σ : Type} (o : Options σ) : Prop :=
  ∀ row ∈ o.arms, ∀ name ∈ row.1, OptionName name

private theorem optionName_iff (f : String) :
    OptionName f ↔ startsWithChar '-' f = true ∧ '=' ∉ f.toList :=
  ⟨fun name => ⟨name.leading, name.free⟩, fun ⟨leading, free⟩ =>
    ⟨leading, free⟩⟩

private theorem startParser_names : startParser.options.Named := by
  simp [Options.Named, startParser, optionName_iff, startsWithChar]

private theorem stopParser_names : stopParser.options.Named := by
  simp [Options.Named, stopParser, optionName_iff, startsWithChar]

private theorem killParser_names : killParser.options.Named := by
  simp [Options.Named, killParser, optionName_iff, startsWithChar]

private theorem deleteParser_names : deleteParser.options.Named := by
  simp [Options.Named, deleteParser, optionName_iff, startsWithChar]

private theorem listParser_names : listParser.options.Named := by
  simp [Options.Named, listParser, optionName_iff, startsWithChar]

private theorem statsParser_names [F64Ops] : statsParser.options.Named := by
  simp [Options.Named, statsParser, optionName_iff, startsWithChar]

private theorem logsParser_names : logsParser.options.Named := by
  simp [Options.Named, logsParser, optionName_iff, startsWithChar]

private theorem waitParser_names : waitParser.options.Named := by
  simp [Options.Named, waitParser, optionName_iff, startsWithChar]

/-- The names of a sub-parser's options can be cut off a token. -/
theorem optionName_of_arm
    {σ : Type}
    {o : Options σ}
    (names : o.Named)
    {f : String}
    {arm : Arm σ}
    (selected : o.arm f = some arm) :
    OptionName f := by
  obtain ⟨row, found, _⟩ := Option.map_eq_some_iff.mp selected
  exact names row (List.mem_of_find?_eq_some found) f
    (by simpa using List.find?_some found)

/-- A sub-parser's options with a value. -/
theorem Subparser.parse_valued
    {σ : Type}
    {p : Subparser σ}
    (names : p.options.Named)
    {front : List String}
    (position : ∃ s, p.options.loop front p.initial = .ok s)
    {f : String}
    (takes : p.options.arity f = some true)
    (v : String)
    (rest : List String) :
    p.parse (front ++ (f ++ "=" ++ v) :: rest) =
      p.parse (front ++ f :: v :: rest) := by
  obtain ⟨arm, selected, kind⟩ := Option.map_eq_some_iff.mp takes
  cases arm with
  | switch set =>
      cases kind
  | valued decode =>
      exact Subparser.valued_inline position (optionName_of_arm names selected)
        selected v

/-- A sub-parser's options without a value. -/
theorem Subparser.parse_switch
    {σ : Type}
    {p : Subparser σ}
    (names : p.options.Named)
    {table : Switches σ}
    (setBy : p.options.SetBy table)
    {front : List String}
    (position : ∃ s, p.options.loop front p.initial = .ok s)
    {f : String}
    (alone : p.options.arity f = some false)
    (v : String)
    (rest : List String) :
    p.parse (front ++ (f ++ "=" ++ v) :: rest) =
      p.parseGiven front (table.set f true) rest := by
  obtain ⟨arm, selected, kind⟩ := Option.map_eq_some_iff.mp alone
  cases arm with
  | switch set =>
      rw [Switches.set_true setBy selected]
      exact Subparser.switch_inline position (optionName_of_arm names selected)
        selected v
  | valued decode =>
      cases kind

/-- Every subcommand has a name. -/
theorem Subcommand.exists_name (sub : Subcommand) :
    ∃ name, subcommand name = some sub := by
  have rows : ∀ row ∈ subcommands, ∃ name ∈ row.1,
      subcommand name = some row.2 := by
    decide +kernel
  have all : sub ∈ subcommands.map Prod.snd := by
    cases sub <;> decide
  obtain ⟨row, member, rfl⟩ := List.mem_map.mp all
  obtain ⟨name, _, named⟩ := rows row member
  exact ⟨name, named⟩

section Subcommands

variable [F64Ops]

/-- The names of the options of `run` and `create` can be cut off a token. -/
theorem optionName_of_runArity
    {f : String}
    (defined_ : (runArity f).isSome = true) :
    OptionName f ∧ isPositional false f = false := by
  have rows : ∀ row ∈ flagRows, ∀ name ∈ row.1,
      startsWithChar '-' name = true ∧ '=' ∉ name.toList ∧ name ≠ "-" := by
    simp [flagRows, startsWithChar]
  have others : ∀ name ∈ ["-h", "--help", "--config", "-c"],
      startsWithChar '-' name = true ∧ '=' ∉ name.toList ∧ name ≠ "-" := by
    simp [startsWithChar]
  have looks :
      startsWithChar '-' f = true ∧ '=' ∉ f.toList ∧ f ≠ "-" := by
    unfold runArity at defined_
    split at defined_
    · rename_i help
      exact others f (List.mem_append_left ["--config", "-c"] help)
    · split at defined_
      · rename_i config
        exact others f (List.mem_append_right ["-h", "--help"] config)
      · rw [Option.isSome_map] at defined_
        obtain ⟨reading, read⟩ := Option.isSome_iff_exists.mp defined_
        obtain ⟨row, found, _⟩ := Option.map_eq_some_iff.mp read
        exact rows row (List.mem_of_find?_eq_some found) f
          (by simpa using List.find?_some found)
  refine ⟨⟨looks.1, looks.2.1⟩, ?_⟩
  simp [isPositional, looks.1, looks.2.2]

/-- What a subcommand makes of tokens around a switch that is set. -/
def Subcommand.parseGiven (files : ConfigFiles) (front : List String)
    (f : String) (b : Bool) (rest : List String) :
    Subcommand → Result Command
  | run => do
      let parsed ← parseRunGiven files true front (runSwitches.set f b) rest
      return .run parsed
  | create => do
      let parsed ← parseRunGiven files false front (runSwitches.set f b) rest
      return .create parsed
  | start => startParser.parseGiven front (startSwitches.set f b) rest
  | delete => deleteParser.parseGiven front (deleteSwitches.set f b) rest
  | list => listParser.parseGiven front (listSwitches.set f b) rest
  | stats => statsParser.parseGiven front (statsSwitches.set f b) rest
  | logs => logsParser.parseGiven front (logsSwitches.set f b) rest
  | sub => sub.parse files (front ++ rest)

/-- An option of the subcommand can stand after these tokens. -/
def Subcommand.Position (front : List String) : Subcommand → Prop
  | run => RunPosition true front
  | create => RunPosition false front
  | start => ∃ s, startParser.options.loop front startParser.initial = .ok s
  | stop => ∃ s, stopParser.options.loop front stopParser.initial = .ok s
  | kill => ∃ s, killParser.options.loop front killParser.initial = .ok s
  | delete =>
      ∃ s, deleteParser.options.loop front deleteParser.initial = .ok s
  | list => ∃ s, listParser.options.loop front listParser.initial = .ok s
  | stats => ∃ s, statsParser.options.loop front statsParser.initial = .ok s
  | logs => ∃ s, logsParser.options.loop front logsParser.initial = .ok s
  | wait => ∃ s, waitParser.options.loop front waitParser.initial = .ok s
  | _ => True

/-- The options with a value of `run` and `create`. -/
theorem parseRun_valued
    {files : ConfigFiles}
    {run : Bool}
    {front : List String}
    (position : RunPosition run front)
    {f : String}
    (takes : runArity f = some true)
    (v : String)
    (rest : List String) :
    parseRun files run (front ++ (f ++ "=" ++ v) :: rest) =
      parseRun files run (front ++ f :: v :: rest) := by
  obtain ⟨name, looks⟩ := optionName_of_runArity (by rw [takes]; rfl)
  have notEnd : f ≠ "--" := by
    rintro rfl
    cases takes
  cases armOf run notEnd with
  | plain decode action arity _ =>
      rw [takes] at arity
      cases arity
  | valued decode action _ _ =>
      exact run_valued_inline position name looks action v
  | refused message action arity =>
      exact absurd takes arity

/-- An option with a value takes it from either place. -/
theorem Subcommand.parse_valued
    {files : ConfigFiles}
    {sub : Subcommand}
    {front : List String}
    (position : sub.Position front)
    {f : String}
    (takes : sub.arity f = some true)
    (v : String)
    (rest : List String) :
    sub.parse files (front ++ (f ++ "=" ++ v) :: rest) =
      sub.parse files (front ++ f :: v :: rest) := by
  cases sub with
  | run =>
      simp only [Subcommand.parse, parseRun_valued position takes]
  | create =>
      simp only [Subcommand.parse, parseRun_valued position takes]
  | start =>
      exact Subparser.parse_valued startParser_names position takes v rest
  | stop =>
      exact Subparser.parse_valued stopParser_names position takes v rest
  | kill =>
      exact Subparser.parse_valued killParser_names position takes v rest
  | delete =>
      exact Subparser.parse_valued deleteParser_names position takes v rest
  | list =>
      exact Subparser.parse_valued listParser_names position takes v rest
  | stats =>
      exact Subparser.parse_valued statsParser_names position takes v rest
  | logs =>
      exact Subparser.parse_valued logsParser_names position takes v rest
  | wait =>
      exact Subparser.parse_valued waitParser_names position takes v rest
  | inspect | pause | unpause | gc | info | help | version | init | shim =>
      cases takes

/-- The options of `run` and `create` that do not look at the text. -/
theorem flagReading_switch
    {f : String}
    (alone : runArity f = some false)
    (ordinary : f ∉ ["--no-new-privs", "-h", "--help"]) :
    ∃ flag, flagReading f = some (.switch flag) := by
  have rows : ∀ row ∈ flagRows, row.2.needsValue = false →
      (∃ flag, row.2 = .switch flag) ∨ row.1 = ["--no-new-privs"] := by
    simp [flagRows, FlagReading.needsValue]
  simp only [List.mem_cons, List.not_mem_nil, or_false, not_or] at ordinary
  unfold runArity at alone
  rw [if_neg (by simp [ordinary.2.1, ordinary.2.2])] at alone
  split at alone
  · cases alone
  · obtain ⟨reading, read, needs⟩ := Option.map_eq_some_iff.mp alone
    obtain ⟨row, found, same⟩ := Option.map_eq_some_iff.mp read
    have named : f ∈ row.1 := by
      simpa using List.find?_some found
    rw [← same] at needs
    rcases rows row (List.mem_of_find?_eq_some found) needs with
      ⟨flag, isSwitch⟩ | privs
    · exact ⟨flag, by rw [read, ← same, isSwitch]⟩
    · rw [privs] at named
      exact absurd (List.mem_singleton.mp named) ordinary.1

/-- Such an option is set to true, whatever the text. -/
theorem parseRun_switch
    {files : ConfigFiles}
    {run : Bool}
    {front : List String}
    (position : RunPosition run front)
    {f : String}
    (alone : runArity f = some false)
    (ordinary : f ∉ ["--no-new-privs", "-h", "--help"])
    (v : String)
    (rest : List String) :
    parseRun files run (front ++ (f ++ "=" ++ v) :: rest) =
      parseRunGiven files run front (runSwitches.set f true) rest := by
  obtain ⟨name, _⟩ := optionName_of_runArity (by rw [alone]; rfl)
  obtain ⟨flag, found⟩ := flagReading_switch alone ordinary
  have notEnd : f ∉ ["--", "--config", "-c"] := by
    intro member
    simp only [List.mem_cons, List.not_mem_nil, or_false] at member
    rcases member with rfl | rfl | rfl <;> cases alone
  rw [runSwitches_set_true found]
  rcases RunOption.flagAction_of_ordinary run notEnd with
    ⟨reading, same, action⟩ | ⟨unknown, _⟩
  · rw [found, Option.some.injEq] at same
    subst same
    exact run_plain_inline position name action rfl
  · rw [found] at unknown
    cases unknown

/-- `--no-new-privs` is set to what the text says, or refuses it. -/
theorem parseRun_noNewPrivs
    {files : ConfigFiles}
    {run : Bool}
    {front : List String}
    (position : RunPosition run front)
    (v : String)
    (rest : List String) :
    (∃ e, parseRun files run (front ++ ("--no-new-privs" ++ "=" ++ v) :: rest) =
      .error e) ∨
    ∃ b, parseBool "--no-new-privs" v = .ok b ∧
      parseRun files run (front ++ ("--no-new-privs" ++ "=" ++ v) :: rest) =
        parseRunGiven files run front
          (runSwitches.set "--no-new-privs" b) rest := by
  have name : OptionName "--no-new-privs" :=
    (optionName_of_runArity rfl).1
  have action :
      flagAction run "--no-new-privs" =
        looking (decodeOr true (parseBool "--no-new-privs")) fun v =>
          .security fun s => { s with noNewPrivs := v } :=
    rfl
  cases said : parseBool "--no-new-privs" v with
  | error e =>
      refine .inl ⟨e, run_plain_refused position name action ?_⟩
      simp [decodeOr, said]
  | ok b =>
      have set :
          runSwitches.set "--no-new-privs" b =
            (Update.security fun s => { s with noNewPrivs := b }).apply :=
        rfl
      refine .inr ⟨b, rfl, ?_⟩
      rw [set]
      refine run_plain_inline position name action ?_
      simp only [decodeOr, said]
      rfl

/-- The help options refuse the line. -/
theorem parseRun_help
    {files : ConfigFiles}
    {run : Bool}
    {front : List String}
    (position : RunPosition run front)
    {f : String}
    (help : f ∈ ["-h", "--help"])
    (v : String)
    (rest : List String) :
    ∃ e, parseRun files run (front ++ (f ++ "=" ++ v) :: rest) = .error e := by
  have alone : runArity f = some false := if_pos help
  obtain ⟨name, _⟩ := optionName_of_runArity (by rw [alone]; rfl)
  have action : flagAction run f = refused runHelp := by
    simp only [List.mem_cons, List.not_mem_nil, or_false] at help
    rcases help with rfl | rfl <;> rfl
  exact ⟨_, run_plain_refused position name action rfl⟩

/-- An option without a value is set to true, whatever the text. -/
theorem Subcommand.parse_switch
    {files : ConfigFiles}
    {sub : Subcommand}
    {front : List String}
    (position : sub.Position front)
    {f : String}
    (alone : sub.arity f = some false)
    (ordinary : f ∉ ["--no-new-privs", "-h", "--help"])
    (v : String)
    (rest : List String) :
    sub.parse files (front ++ (f ++ "=" ++ v) :: rest) =
      sub.parseGiven files front f true rest := by
  cases sub with
  | run =>
      simp only [Subcommand.parse, Subcommand.parseGiven,
        parseRun_switch position alone ordinary]
  | create =>
      simp only [Subcommand.parse, Subcommand.parseGiven,
        parseRun_switch position alone ordinary]
  | start =>
      exact Subparser.parse_switch startParser_names startParser_setBy position
        alone v rest
  | delete =>
      exact Subparser.parse_switch deleteParser_names deleteParser_setBy position
        alone v rest
  | list =>
      exact Subparser.parse_switch listParser_names listParser_setBy position
        alone v rest
  | stats =>
      exact Subparser.parse_switch statsParser_names statsParser_setBy position
        alone v rest
  | logs =>
      exact Subparser.parse_switch logsParser_names logsParser_setBy position
        alone v rest
  | stop =>
      exact absurd alone (stopParser_valued f)
  | kill =>
      exact absurd alone (killParser_valued f)
  | wait =>
      exact absurd alone (waitParser_valued f)
  | inspect | pause | unpause | gc | info | help | version | init | shim =>
      cases alone

/-- The options that look at the text fail, or are set to what it says. -/
theorem Subcommand.parse_special
    {files : ConfigFiles}
    {sub : Subcommand}
    {front : List String}
    (position : sub.Position front)
    {f : String}
    (alone : sub.arity f = some false)
    (special : f ∈ ["--no-new-privs", "-h", "--help"])
    (v : String)
    (rest : List String) :
    (∃ e, sub.parse files (front ++ (f ++ "=" ++ v) :: rest) = .error e) ∨
    ∃ b, parseBool f v = .ok b ∧
      sub.parse files (front ++ (f ++ "=" ++ v) :: rest) =
        sub.parseGiven files front f b rest := by
  have either : ∀ {run : Bool}, RunPosition run front →
      (∃ e, parseRun files run (front ++ (f ++ "=" ++ v) :: rest) =
        .error e) ∨
      ∃ b, parseBool f v = .ok b ∧
        parseRun files run (front ++ (f ++ "=" ++ v) :: rest) =
          parseRunGiven files run front (runSwitches.set f b) rest := by
    intro run position
    rcases List.mem_cons.mp special with rfl | help
    · exact parseRun_noNewPrivs position v rest
    · exact .inl (parseRun_help position help v rest)
  have foreign : ∀ {σ : Type} {o : Options σ},
      (∀ name ∈ ["--no-new-privs", "-h", "--help"], o.arity name = none) →
        o.arity f ≠ some false := by
    intro σ o none_
    rw [none_ f special]
    simp
  cases sub with
  | run =>
      rcases either position with ⟨e, failed⟩ | ⟨b, meant, same⟩
      · exact .inl ⟨e, by rw [Subcommand.parse, failed, Result.error_bind]⟩
      · exact .inr ⟨b, meant, by
          rw [Subcommand.parse, Subcommand.parseGiven, same]⟩
  | create =>
      rcases either position with ⟨e, failed⟩ | ⟨b, meant, same⟩
      · exact .inl ⟨e, by rw [Subcommand.parse, failed, Result.error_bind]⟩
      · exact .inr ⟨b, meant, by
          rw [Subcommand.parse, Subcommand.parseGiven, same]⟩
  | start =>
      exact absurd alone (foreign (by decide))
  | delete =>
      exact absurd alone (foreign (by decide))
  | list =>
      exact absurd alone (foreign (by decide))
  | stats =>
      exact absurd alone (foreign (by
        simp [Options.arity, Options.arm, statsParser]))
  | logs =>
      exact absurd alone (foreign (by decide))
  | stop =>
      exact absurd alone (stopParser_valued f)
  | kill =>
      exact absurd alone (killParser_valued f)
  | wait =>
      exact absurd alone (waitParser_valued f)
  | inspect | pause | unpause | gc | info | help | version | init | shim =>
      cases alone

/-! ## Short command lines -/

/-- Tokens that complete a command line of the subcommand. -/
def Subcommand.short : Subcommand → List String
  | run => ["/r", "/c"]
  | create => ["/r", "/c"]
  | start => ["c"]
  | delete => ["c"]
  | logs => ["c"]
  | _ => []

/-- The names of the switches of `run` and `create`. -/
def runSwitchNames : List String :=
  ["-d", "--detach", "--rm", "--read-only", "--no-nat", "--privileged",
    "--no-pid-ns", "--no-ipc-ns", "--no-uts-ns", "--no-cgroup-ns"]

private theorem mem_runSwitchNames
    {f : String}
    {flag : Flag}
    (found : flagReading f = some (.switch flag)) :
    f ∈ runSwitchNames := by
  have rows : ∀ row ∈ flagRows, ∀ flag, row.2 = .switch flag →
      ∀ name ∈ row.1, name ∈ runSwitchNames := by
    simp [flagRows, runSwitchNames]
  obtain ⟨row, first, same⟩ := Option.map_eq_some_iff.mp found
  exact rows row (List.mem_of_find?_eq_some first) flag same f
    (by simpa using List.find?_some first)

/-- What the short line of `run` asks for. -/
def shortArgs (s : PassState) : RunArgs where
  config :=
    { takePositional { s with positional := ["/r", "/c"] } with
      detach := s.detach }
  detach := s.detach

/-- A short line with a switch is accepted, and its value shows. -/
theorem parseRunGiven_short
    {files : ConfigFiles}
    {run : Bool}
    {f : String}
    (named : f ∈ runSwitchNames) :
    (∀ b, parseRunGiven files run [] (runSwitches.set f b) ["/r", "/c"] =
      .ok (shortArgs (runSwitches.set f b { cfg := {} }))) ∧
    shortArgs (runSwitches.set f true { cfg := {} }) ≠
      shortArgs (runSwitches.set f false { cfg := {} }) := by
  have kept : ∀ f ∈ runSwitchNames, ∀ b,
      (runSwitches.set f b { cfg := {} }).positional = [] ∧
        (runSwitches.set f b { cfg := {} }).configPath = none := by
    decide +kernel
  have differs : ∀ f ∈ runSwitchNames,
      shortArgs (runSwitches.set f true { cfg := {} }) ≠
        shortArgs (runSwitches.set f false { cfg := {} }) := by
    decide +kernel
  refine ⟨fun b => ?_, differs f named⟩
  obtain ⟨nothing, noPath⟩ := kept f named b
  have pass :
      parseRunPassGiven run {} [] (runSwitches.set f b) ["/r", "/c"] =
        .ok (shortArgs (runSwitches.set f b { cfg := {} }), none) := by
    have tail :=
      @passLoop_tail _ run ["/r", "/c"] (by decide) _ nothing
    have start : passLoop run [] { cfg := {} } = .ok { cfg := {} } :=
      rfl
    rw [parseRunPassGiven, start, Result.ok_bind, tail]
    simp only [Result.ok_bind, Result.pure_eq_ok, shortArgs, noPath]
  have loaded : baseConfig files none = .ok {} :=
    rfl
  simp only [parseRunGiven, pass, Result.ok_bind, loaded, Result.pure_eq_ok]

/-- A short line with a switch is accepted, and its value shows. -/
theorem Subcommand.short_differs
    (files : ConfigFiles)
    {sub : Subcommand}
    {f : String}
    (alone : sub.arity f = some false)
    (ordinary : f ∉ ["--no-new-privs", "-h", "--help"]) :
    ∃ shown : Bool → Command,
      (∀ b, sub.parseGiven files [] f b sub.short = .ok (shown b)) ∧
        shown true ≠ shown false := by
  cases sub with
  | run =>
      obtain ⟨flag, found⟩ := flagReading_switch alone ordinary
      obtain ⟨parsed, differs⟩ :=
        @parseRunGiven_short _ files true _ (mem_runSwitchNames found)
      refine ⟨fun b => .run (shortArgs (runSwitches.set f b { cfg := {} })),
        fun b => ?_, fun same => differs (Command.run.inj same)⟩
      simp only [parseGiven, short, parsed, Result.ok_bind, Result.pure_eq_ok]
  | create =>
      obtain ⟨flag, found⟩ := flagReading_switch alone ordinary
      obtain ⟨parsed, differs⟩ :=
        @parseRunGiven_short _ files false _ (mem_runSwitchNames found)
      refine ⟨fun b => .create (shortArgs (runSwitches.set f b { cfg := {} })),
        fun b => ?_, fun same => differs (Command.create.inj same)⟩
      simp only [parseGiven, short, parsed, Result.ok_bind, Result.pure_eq_ok]
  | start =>
      have named := Subparser.mem_switches startParser_setBy alone
      simp only [startSwitches, List.mem_cons, List.not_mem_nil, or_false,
        exists_eq_left] at named
      refine ⟨fun b => .start "c" b, ?_, by decide⟩
      rcases named with rfl | rfl
      · exact fun b => rfl
      · exact fun b => rfl
  | delete =>
      have named := Subparser.mem_switches deleteParser_setBy alone
      simp only [deleteSwitches, List.mem_cons, List.not_mem_nil, or_false,
        exists_eq_left] at named
      refine ⟨fun b => .delete ["c"] b, ?_, by decide⟩
      rcases named with rfl | rfl
      · exact fun b => rfl
      · exact fun b => rfl
  | logs =>
      have named := Subparser.mem_switches logsParser_setBy alone
      simp only [logsSwitches, List.mem_cons, List.not_mem_nil, or_false,
        exists_eq_left] at named
      refine ⟨fun b => .logs "c" b none, ?_, by decide⟩
      rcases named with rfl | rfl
      · exact fun b => rfl
      · exact fun b => rfl
  | list =>
      have named := Subparser.mem_switches listParser_setBy alone
      simp only [listSwitches, List.mem_cons, List.not_mem_nil, or_false,
        exists_eq_or_imp, exists_eq_left] at named
      rcases named with (rfl | rfl) | rfl | rfl | rfl
      · exact ⟨fun b => .list b false false, fun b => rfl, by decide⟩
      · exact ⟨fun b => .list b false false, fun b => rfl, by decide⟩
      · exact ⟨fun b => .list false b false, fun b => rfl, by decide⟩
      · exact ⟨fun b => .list false false b, fun b => rfl, by decide⟩
      · exact ⟨fun b => .list false false b, fun b => rfl, by decide⟩
  | stats =>
      have named := Subparser.mem_switches statsParser_setBy alone
      simp only [statsSwitches, List.mem_cons, List.not_mem_nil, or_false,
        exists_eq_or_imp, exists_eq_left] at named
      rcases named with rfl | rfl | rfl
      · exact ⟨fun b => .stats [] b false 1000, fun b => rfl, by decide⟩
      · exact ⟨fun b => .stats [] false b 1000, fun b => rfl, by decide⟩
      · exact ⟨fun b => .stats [] false b 1000, fun b => rfl, by decide⟩
  | stop =>
      exact absurd alone (stopParser_valued f)
  | kill =>
      exact absurd alone (killParser_valued f)
  | wait =>
      exact absurd alone (waitParser_valued f)
  | inspect | pause | unpause | gc | info | help | version | init | shim =>
      cases alone

/-- Nothing has to stand before an option. -/
theorem Subcommand.position_nil (sub : Subcommand) :
    sub.Position [] := by
  cases sub with
  | run | create =>
      exact ⟨_, rfl, rfl, Nat.zero_le 1⟩
  | start | stop | kill | delete | list | stats | logs | wait =>
      exact ⟨_, rfl⟩
  | inspect | pause | unpause | gc | info | help | version | init | shim =>
      trivial

/-! ## The command line as a whole -/

/-- A command line in which an option of the subcommand can stand. -/
structure Context (sub : Subcommand) where
  /-- the global options -/
  lead : List String
  name : String
  front : List String
  rest : List String
  leads : ∀ env, ∃ env', globalLoop lead env = (env', .ok .nothing)
  named : subcommand name = some sub
  position : sub.Position front

/-- The command line with some tokens there. -/
def Context.line {sub : Subcommand} (c : Context sub)
    (tokens : List String) : List String :=
  c.lead ++ c.name :: (c.front ++ tokens ++ c.rest)

/-- The command line is parsed by the subcommand. -/
theorem Context.parse_line
    {sub : Subcommand}
    (c : Context sub)
    (files : ConfigFiles)
    (env : Environment) :
    ∃ env', ∀ tokens,
      parse files (c.line tokens) env =
        (env', sub.parse files (c.front ++ tokens ++ c.rest)) := by
  obtain ⟨env', read⟩ := c.leads env
  refine ⟨env', fun tokens => ?_⟩
  rw [parse, line, globalLoop_append read, globalLoop_name c.named]
  simp only [dispatch, c.named]

/--
A token `f=v` makes the command line fail, or `f` takes a value and `v` is
taken for it, or `f` takes none, `v` is a truth value and `f` is set to it.
-/
inductive Honoured (files : ConfigFiles) (env : Environment)
    {sub : Subcommand} (c : Context sub) (f v : String) : Prop where
  | fails
      (e : Error)
      (failed : (parse files (c.line [f ++ "=" ++ v]) env).2 = .error e)
  | valued
      (takes : sub.arity f = some true)
      (same :
        parse files (c.line [f ++ "=" ++ v]) env =
          parse files (c.line [f, v]) env)
  | switched
      (alone : sub.arity f = some false)
      (b : Bool)
      (meant : parseBool f v = .ok b)
      (same :
        (parse files (c.line [f ++ "=" ++ v]) env).2 =
          sub.parseGiven files c.front f b c.rest)

/--
An option that a subcommand defines honours a value after `=` on every command
line exactly if it takes a value, or is one of the few that look at the text,
or the text says true.
-/
theorem inline_value_honoured_iff
    {sub : Subcommand}
    {f : String}
    (defined_ : (sub.arity f).isSome = true)
    (v : String) :
    (∀ files env (c : Context sub), Honoured files env c f v) ↔
      sub.arity f = some true ∨
        f ∈ ["--no-new-privs", "-h", "--help"] ∨ parseBool f v = .ok true := by
  constructor
  · intro honoured
    obtain ⟨takes, arity⟩ := Option.isSome_iff_exists.mp defined_
    cases takes with
    | true =>
        exact .inl arity
    | false =>
        by_cases special : f ∈ ["--no-new-privs", "-h", "--help"]
        · exact .inr (.inl special)
        refine .inr (.inr ?_)
        obtain ⟨shown, parsed, differs⟩ :=
          sub.short_differs noFiles arity special
        obtain ⟨name, named⟩ := sub.exists_name
        let c : Context sub :=
          { lead := []
            name
            front := []
            rest := sub.short
            leads := fun env => ⟨env, rfl⟩
            named
            position := sub.position_nil }
        have outcome :
            (parse noFiles (c.line [f ++ "=" ++ v]) ⟨none, none⟩).2 =
              .ok (shown true) := by
          obtain ⟨env', line⟩ := c.parse_line noFiles ⟨none, none⟩
          rw [line, ← parsed true,
            ← Subcommand.parse_switch sub.position_nil arity special v]
          rfl
        cases honoured noFiles ⟨none, none⟩ c with
        | fails e failed =>
            rw [outcome] at failed
            cases failed
        | valued takes _ =>
            rw [arity] at takes
            cases takes
        | switched alone b meant same =>
            have given : sub.parseGiven noFiles c.front f b c.rest =
                .ok (shown b) :=
              parsed b
            rw [outcome, given, Except.ok.injEq] at same
            cases b with
            | true =>
                exact meant
            | false =>
                exact absurd same differs
  · intro condition files env c
    obtain ⟨env', line⟩ := c.parse_line files env
    have tokens : ∀ raw : String,
        c.front ++ [raw] ++ c.rest = c.front ++ raw :: c.rest := by
      simp
    obtain ⟨takes, arity⟩ := Option.isSome_iff_exists.mp defined_
    cases takes with
    | true =>
        refine .valued arity ?_
        rw [line, line, tokens, Subcommand.parse_valued c.position arity]
        simp
    | false =>
        by_cases special : f ∈ ["--no-new-privs", "-h", "--help"]
        · rcases Subcommand.parse_special c.position arity special v c.rest
            with ⟨e, failed⟩ | ⟨b, meant, same⟩
          · refine .fails e ?_
            rw [line, tokens, failed]
          · refine .switched arity b meant ?_
            rw [line, tokens, same]
        · have meant : parseBool f v = .ok true := by
            rcases condition with takes | among | meant
            · rw [arity] at takes
              cases takes
            · exact absurd among special
            · exact meant
          refine .switched arity true meant ?_
          rw [line, tokens, Subcommand.parse_switch c.position arity special]

end Subcommands

/-- The privileges a command line asks for. -/
def Command.privileged : Command → Option Bool
  | .run args => some args.config.security.privileged
  | .create args => some args.config.security.privileged
  | _ => none

/-- `myrun run … /r /bin/sh` and where an option can stand. -/
def shellContext : @Context unitOps .run :=
  let _ := unitOps
  { lead := []
    name := "run"
    front := []
    rest := ["/r", "/bin/sh"]
    leads := fun env => ⟨env, rfl⟩
    named := by decide +kernel
    position := Subcommand.position_nil .run }

/-- `myrun run --name=web /r /bin/sh` is `myrun run --name web /r /bin/sh`. -/
theorem name_value_honoured :
    @Honoured unitOps noFiles ⟨none, none⟩ .run shellContext "--name"
      "web" := by
  let _ := unitOps
  exact (@inline_value_honoured_iff _ .run "--name" rfl "web").mpr (.inl rfl)
    noFiles ⟨none, none⟩ shellContext

/-- The text after an option that takes no value is not looked at. -/
theorem denied_privileges_are_granted :
    (@parse unitOps noFiles ["run", "--privileged=false", "/r", "/bin/sh"]
        ⟨none, none⟩).2 =
      (@parse unitOps noFiles ["run", "--privileged", "/r", "/bin/sh"]
        ⟨none, none⟩).2 ∧
    ¬ ∀ (sub : Subcommand) (f v : String),
        (@Subcommand.arity unitOps sub f).isSome = true →
        ∀ files env (c : @Context unitOps sub),
          @Honoured unitOps files env sub c f v := by
  let _ := unitOps
  have granted :
      (parse noFiles (shellContext.line ["--privileged=false"])
        ⟨none, none⟩).2.map Command.privileged = .ok (some true) := by
    decide +kernel
  have denied :
      (Subcommand.run.parseGiven noFiles [] "--privileged" false
        ["/r", "/bin/sh"]).map Command.privileged = .ok (some false) := by
    decide +kernel
  refine ⟨by decide +kernel, fun honoured => ?_⟩
  cases honoured .run "--privileged" "false" rfl noFiles ⟨none, none⟩
    shellContext with
  | fails e failed =>
      have refused := congrArg (Except.map Command.privileged) failed
      rw [show "--privileged" ++ "=" ++ "false" = "--privileged=false" from rfl,
        granted] at refused
      cases refused
  | valued takes _ =>
      cases takes
  | switched _ b meant same =>
      have no : b = false := by
        cases meant
        rfl
      have shown := congrArg (Except.map Command.privileged) same
      rw [no, show "--privileged" ++ "=" ++ "false" = "--privileged=false" from
        rfl, granted] at shown
      rw [show shellContext.front = [] from rfl,
        show shellContext.rest = ["/r", "/bin/sh"] from rfl, denied]
        at shown
      cases shown

end Cli

end Myrun
