import Myrun.Subcommands

namespace Myrun

/-!
# Which tokens are options

A token that starts with a dash is an option unless it is a single dash, stands
after the end of the options or is the value of the option before it. The
command line is strict if every such token is an option of its subcommand.
-/

namespace Cli

/-- Is a name that of an option, and does the option take a value? -/
abbrev Arity := String → Option Bool

/-- The token looks like an option. -/
def dashed (raw : String) : Bool :=
  startsWithChar '-' raw && raw ≠ "-"

/--
The tokens that stand where an option can stand and look like one. Options end
at `--` or, where a number of operands is given, at the last of these.
-/
def optionTokens (arity : Arity) :
    List String → Option Nat → List String
  | [], _ => []
  | raw :: rest, operands =>
      if raw = "--" then []
      else if dashed raw then
        raw ::
          (if arity (splitFlag raw).1 = some true ∧
              (splitFlag raw).2 = none then
            match rest with
            | [] => []
            | _ :: rest => optionTokens arity rest operands
          else optionTokens arity rest operands)
      else if operands = some 1 then []
      else optionTokens arity rest (operands.map Nat.pred)

/-- Every token that looks like an option is one. -/
def Defined (arity : Arity) (tokens : List String)
    (operands : Option Nat) : Prop :=
  ∀ raw ∈ optionTokens arity tokens operands,
    (arity (splitFlag raw).1).isSome = true

/-! ## One token -/

/-- A token looks like an option if the text before `=` does. -/
theorem startsWithChar_splitFlag (raw : String) :
    startsWithChar '-' (splitFlag raw).1 = startsWithChar '-' raw := by
  unfold splitFlag
  split
  · rename_i flag value found
    split
    · rename_i leading
      obtain ⟨⟨before, after⟩, cut, same⟩ :=
        Option.map_eq_some_iff.mp found
      obtain ⟨rfl, rfl⟩ := Prod.mk.inj same
      simp only [startsWithChar, splitOnceChars_shape cut,
        String.toList_ofList] at leading ⊢
      cases before with
      | nil => simp at leading
      | cons c before => rfl
    · rfl
  · rfl

private theorem looks_like_option
    {raw : String}
    (looks : dashed (splitFlag raw).1 = true)
    (notEnd : (splitFlag raw).1 ≠ "--") :
    dashed raw = true ∧ raw ≠ "--" := by
  simp only [dashed, Bool.and_eq_true, decide_eq_true_eq] at looks ⊢
  rw [startsWithChar_splitFlag] at looks
  refine ⟨⟨looks.1, ?_⟩, ?_⟩
  · rintro rfl
    exact looks.2 (by decide +kernel)
  · rintro rfl
    exact notEnd (by decide +kernel)

section Tokens

variable {options : Arity} {raw v : String} {rest : List String}
  {operands : Option Nat}

/-- After `--` nothing is an option. -/
theorem optionTokens_end :
    optionTokens options ("--" :: rest) operands = [] := by
  rw [optionTokens.eq_def]
  rfl

private theorem mem_optionTokens
    (looks : dashed raw = true ∧ raw ≠ "--") :
    raw ∈ optionTokens options (raw :: rest) operands := by
  rw [optionTokens.eq_def]
  simp only [looks.1, looks.2, if_false, if_true]
  exact List.mem_cons_self

/-- An option that leaves the next token alone. -/
theorem optionTokens_alone
    (looks : dashed raw = true ∧ raw ≠ "--")
    (alone :
      options (splitFlag raw).1 ≠ some true ∨ (splitFlag raw).2 ≠ none) :
    optionTokens options (raw :: rest) operands =
      raw :: optionTokens options rest operands := by
  have stays :
      ¬ (options (splitFlag raw).1 = some true ∧
        (splitFlag raw).2 = none) := by
    rintro ⟨takes, bare⟩
    exact alone.elim (· takes) (· bare)
  rw [optionTokens.eq_def]
  simp only [looks.1, looks.2, if_false, if_true, stays]

/-- An option and its value. -/
theorem optionTokens_valued
    (looks : dashed raw = true ∧ raw ≠ "--")
    (takes : options (splitFlag raw).1 = some true)
    (bare : (splitFlag raw).2 = none) :
    optionTokens options (raw :: v :: rest) operands =
      raw :: optionTokens options rest operands := by
  rw [optionTokens.eq_def]
  simp only [looks.1, looks.2, if_false, if_true, takes, bare, and_self]

/-- An operand: the options end there, or go on after it. -/
theorem optionTokens_operand
    (plain : dashed raw = false) :
    optionTokens options (raw :: rest) operands =
      if operands = some 1 then []
      else optionTokens options rest (operands.map Nat.pred) := by
  have notEnd : raw ≠ "--" := by
    rintro rfl
    exact absurd plain (by decide)
  rw [optionTokens.eq_def]
  simp only [plain, notEnd, if_false, Bool.false_eq_true]

private theorem defined_of_eq_cons
    {after tokens : List String}
    (same :
      optionTokens options tokens operands =
        raw :: optionTokens options after operands)
    (known : (options (splitFlag raw).1).isSome = true)
    (others : Defined options after operands) :
    Defined options tokens operands := by
  rw [Defined, same, List.forall_mem_cons]
  exact ⟨known, others⟩

end Tokens

private theorem optionTokens_none (args : List String) :
    optionTokens (fun _ => none) args none =
      (args.takeWhile (· ≠ "--")).filter dashed := by
  induction args with
  | nil =>
      rfl
  | cons raw rest inductionHypothesis =>
      by_cases stop : raw = "--"
      · subst stop
        rw [optionTokens_end]
        rfl
      · rw [List.takeWhile_cons_of_pos (by simpa using stop)]
        cases looks : dashed raw with
        | true =>
            rw [optionTokens_alone ⟨looks, stop⟩ (.inl (by simp)),
              List.filter_cons_of_pos looks, inductionHypothesis]
        | false =>
            rw [optionTokens_operand looks, if_neg (by simp),
              List.filter_cons_of_neg (by simp [looks])]
            exact inductionHypothesis

/-- Without options, nothing may look like one. -/
theorem defined_none_iff (args : List String) :
    Defined (fun _ => none) args none ↔
      ∀ raw ∈ args.takeWhile (· ≠ "--"), dashed raw = false := by
  rw [Defined, optionTokens_none]
  simp only [List.mem_filter, Option.isSome_none, Bool.false_eq_true]
  constructor
  · intro nothing raw member
    by_contra looks
    exact nothing raw ⟨member, by simpa using looks⟩
  · rintro nothing raw ⟨member, looks⟩
    rw [nothing raw member] at looks
    cases looks

/-- `--` is not an option. -/
theorem Defined.unmarked
    {options : Arity}
    {tokens : List String}
    {operands : Option Nat}
    (undefined : options "--" = none)
    (defined_ : Defined options tokens operands) :
    ∀ raw ∈ optionTokens options tokens operands,
      (splitFlag raw).1 ≠ "--" := by
  intro raw member same
  have known := defined_ raw member
  rw [same, undefined] at known
  cases known

/-! ## The loops -/

/-- Does the arm take a value? -/
def Arm.takesValue {σ : Type} : Arm σ → Bool
  | .switch _ => false
  | .valued _ => true

/-- The options of a sub-parser. -/
def Options.arity {σ : Type} (o : Options σ) : Arity :=
  fun flag => (o.arm flag).map Arm.takesValue

/-- The names of the options all look like options. -/
def Options.Dashed {σ : Type} (o : Options σ) : Prop :=
  ∀ row ∈ o.arms, ∀ name ∈ row.1, dashed name = true ∧ name ≠ "--"

private theorem Options.Dashed.looks
    {σ : Type}
    {o : Options σ}
    (names : o.Dashed)
    {raw : String}
    {arm : Arm σ}
    (selected : o.arm (splitFlag raw).1 = some arm) :
    dashed raw = true ∧ raw ≠ "--" := by
  obtain ⟨row, found, _⟩ := Option.map_eq_some_iff.mp selected
  have named := List.find?_some found
  obtain ⟨looks, notEnd⟩ :=
    names row (List.mem_of_find?_eq_some found) _ (by simpa using named)
  exact looks_like_option looks notEnd

/-- What a sub-parser accepts has no unknown option. -/
theorem Options.loop_defined
    {σ : Type}
    {o : Options σ}
    (names : o.Dashed)
    {tokens : List String}
    {s final : σ}
    (accepted : o.loop tokens s = .ok final) :
    Defined o.arity tokens none := by
  fun_induction o.loop tokens s with
  | case1 s =>
      exact fun _ member => nomatch member
  | case2 raw rest s set selected inductionHypothesis =>
      have arity : o.arity (splitFlag raw).1 = some false := by
        rw [Options.arity, selected]
        rfl
      refine defined_of_eq_cons (optionTokens_alone (names.looks selected) ?_)
        (by rw [arity]; rfl) (inductionHypothesis accepted)
      exact .inl (by simp [arity])
  | case3 raw s decode selected v rest inline inductionHypothesis =>
      have arity : o.arity (splitFlag raw).1 = some true := by
        rw [Options.arity, selected]
        rfl
      obtain ⟨set, _, continued⟩ := Result.bind_eq_ok.mp accepted
      refine defined_of_eq_cons (optionTokens_alone (names.looks selected) ?_)
        (by rw [arity]; rfl) (inductionHypothesis set continued)
      exact .inr (by simp [inline])
  | case4 =>
      cases accepted
  | case5 raw s decode selected v rest inline inductionHypothesis =>
      have arity : o.arity (splitFlag raw).1 = some true := by
        rw [Options.arity, selected]
        rfl
      obtain ⟨set, _, continued⟩ := Result.bind_eq_ok.mp accepted
      exact defined_of_eq_cons
        (optionTokens_valued (names.looks selected) arity inline)
        (by rw [arity]; rfl) (inductionHypothesis set continued)
  | case6 =>
      cases accepted
  | case7 =>
      cases accepted
  | case8 raw rest s selected push takes plain inductionHypothesis =>
      rw [startsWithChar_splitFlag] at plain
      have notOption : dashed raw = false := by
        simp [dashed, plain]
      rw [Defined, optionTokens_operand notOption]
      exact inductionHypothesis accepted

/-- A sub-parser with a table of options. -/
theorem Subparser.defined_iff
    {σ : Type}
    {p : Subparser σ}
    {args : List String}
    {command : Command}
    (names : p.options.Dashed)
    (accepted : p.parse args = .ok command) :
    Defined p.options.arity args none ↔
      ∀ raw ∈ optionTokens p.options.arity args none,
        (splitFlag raw).1 ≠ "--" := by
  obtain ⟨s, looped, _⟩ := Result.bind_eq_ok.mp accepted
  have undefined : p.options.arity "--" = none := by
    rw [Options.arity, Option.map_eq_none_iff]
    rw [Options.arm, Option.map_eq_none_iff, List.find?_eq_none]
    intro row member named
    exact (names row member _ (by simpa using named)).2 rfl
  have strict := Options.loop_defined names looped
  exact ⟨fun _ => strict.unmarked undefined, fun _ => strict⟩

/-! ## `run` and `create` -/

/-- The parser looks for options where the specification does. -/
theorem isPositional_false (raw : String) :
    isPositional false raw = !dashed raw := by
  simp [isPositional, dashed]

/-- An update that does not end the options. -/
def Continues (update : Update) : Prop :=
  ∀ s, (update.apply s).endOfFlags = s.endOfFlags

private theorem update_continues (flag : Flag) : Continues flag.update :=
  flag.update_endOfFlags

section Run

variable [F64Ops]

/-- The options of `run` and `create`; `--` is not one of them. -/
def runArity : Arity := fun flag =>
  if flag ∈ ["-h", "--help"] then some false
  else if flag ∈ ["--config", "-c"] then some true
  else (flagReading flag).map FlagReading.needsValue

/-- What the arm for a name is, and that only `--` ends the options. -/
inductive ArmOf (run : Bool) (flag : String) : Prop where
  | plain
      (decode : Option String → Result Update)
      (action : flagAction run flag = .plain decode)
      (arity : runArity flag = some false)
      (continues : ∀ inline update, decode inline = .ok update →
        Continues update)
  | valued
      (decode : String → Result Update)
      (action : flagAction run flag = .valued decode)
      (arity : runArity flag = some true)
      (continues : ∀ v update, decode v = .ok update → Continues update)
  | refused
      (message : String)
      (action : flagAction run flag = refused message)
      (arity : runArity flag ≠ some true)

theorem armOf
    (run : Bool)
    {flag : String}
    (notEnd : flag ≠ "--") :
    ArmOf run flag := by
  by_cases config : flag ∈ ["--config", "-c"]
  · have action : flagAction run flag = taking .configPath := by
      simp only [List.mem_cons, List.not_mem_nil, or_false] at config
      rcases config with rfl | rfl <;> rfl
    have arity : runArity flag = some true := by
      simp only [List.mem_cons, List.not_mem_nil, or_false] at config
      rcases config with rfl | rfl <;> rfl
    refine .valued _ action arity ?_
    intro v update decoded
    cases decoded
    exact fun _ => rfl
  have ordinary : flag ∉ ["--", "--config", "-c"] := by
    simp only [List.mem_cons, List.not_mem_nil, or_false, not_or] at config ⊢
    exact ⟨notEnd, config⟩
  by_cases help : flag ∈ ["-h", "--help"]
  · have arity : runArity flag = some false := if_pos help
    refine .refused runHelp ?_ (by simp [arity])
    simp only [List.mem_cons, List.not_mem_nil, or_false] at help
    rcases help with rfl | rfl <;> rfl
  rcases RunOption.flagAction_of_ordinary run ordinary with
    ⟨reading, found, action⟩ | ⟨unknown, message, action⟩
  · have arity : runArity flag = some reading.needsValue := by
      rw [runArity, if_neg help, if_neg config, found]
      rfl
    cases reading with
    | switch f =>
        refine .plain _ action arity ?_
        intro inline update decoded
        cases decoded
        exact update_continues f
    | text build =>
        refine .valued _ action arity ?_
        intro v update decoded
        cases decoded
        exact update_continues _
    | parsed parse build =>
        refine .valued _ action arity ?_
        intro v update decoded
        obtain ⟨a, _, built⟩ := Result.bind_eq_ok.mp decoded
        cases built
        exact update_continues _
    | optional parse build =>
        refine .plain _ action arity ?_
        intro inline update decoded
        obtain ⟨a, _, built⟩ := Result.bind_eq_ok.mp decoded
        cases built
        exact update_continues _
  · have arity : runArity flag = none := by
      rw [runArity, if_neg help, if_neg config, unknown]
      rfl
    exact .refused message action (by simp [arity])

/-- One option that was read, and the tokens it leaves. -/
theorem readOption_tokens
    {run : Bool}
    {raw : String}
    {rest after : List String}
    {update : Update}
    (operands : Option Nat)
    (looks : dashed raw = true ∧ raw ≠ "--")
    (notEnd : (splitFlag raw).1 ≠ "--")
    (read : readOption run raw rest = .ok (update, after)) :
    Continues update ∧
      (runArity (splitFlag raw).1).isSome = true ∧
      optionTokens runArity (raw :: rest) operands =
        raw :: optionTokens runArity after operands := by
  unfold readOption at read
  cases armOf run notEnd with
  | plain decode action arity continues =>
      rw [action] at read
      obtain ⟨decoded, accepted, same⟩ := Result.bind_eq_ok.mp read
      cases same
      exact ⟨continues _ _ accepted, by rw [arity]; rfl,
        optionTokens_alone looks (.inl (by simp [arity]))⟩
  | valued decode action arity continues =>
      rw [action] at read
      cases inline : (splitFlag raw).2 with
      | some v =>
          rw [inline] at read
          obtain ⟨decoded, accepted, same⟩ := Result.bind_eq_ok.mp read
          cases same
          exact ⟨continues _ _ accepted, by rw [arity]; rfl,
            optionTokens_alone looks (.inr (by simp [inline]))⟩
      | none =>
          rw [inline] at read
          cases rest with
          | nil =>
              cases read
          | cons v rest =>
              obtain ⟨decoded, accepted, same⟩ := Result.bind_eq_ok.mp read
              cases same
              exact ⟨continues _ _ accepted, by rw [arity]; rfl,
                optionTokens_valued looks arity inline⟩
  | refused message action _ =>
      rw [action] at read
      cases read

/-- What `run` accepts has no unknown option, unless there is a `--=`. -/
theorem pass_defined
    {run : Bool}
    {tokens : List String}
    {s final : PassState}
    (pass : Pass run tokens s final)
    (reading : s.endOfFlags = false)
    {operands : Nat}
    (positive : 0 < operands)
    (few : operands + s.positional.length ≤ 2)
    (unmarked : ∀ raw ∈ optionTokens runArity tokens (some operands),
      (splitFlag raw).1 ≠ "--") :
    Defined runArity tokens (some operands) := by
  induction pass generalizing operands with
  | done s =>
      exact fun _ member => nomatch member
  | operand positional first _ inductionHypothesis =>
      rw [reading, isPositional_false, Bool.not_eq_true'] at positional
      rw [first, List.length_nil] at few
      rw [Defined, optionTokens_operand positional]
      rw [optionTokens_operand positional] at unmarked
      split
      · exact fun _ member => nomatch member
      · rename_i more
        rw [if_neg more] at unmarked
        have notOne : operands ≠ 1 := fun one => more (by rw [one])
        have left : 0 < operands.pred ∧ operands.pred + 1 ≤ 2 := by
          rw [Nat.pred_eq_sub_one]
          omega
        exact inductionHypothesis reading left.1 left.2 unmarked
  | command positional later =>
      rw [reading, isPositional_false, Bool.not_eq_true'] at positional
      have some_ := List.length_pos_of_ne_nil later
      have one : operands = 1 := by omega
      rw [Defined, optionTokens_operand positional, if_pos (by rw [one])]
      exact fun _ member => nomatch member
  | @option raw rest after s final update isOption read _
      inductionHypothesis =>
      rw [reading, isPositional_false, Bool.not_eq_false'] at isOption
      by_cases stop : raw = "--"
      · subst stop
        rw [Defined, optionTokens_end]
        exact fun _ member => nomatch member
      · have looks : dashed raw = true ∧ raw ≠ "--" := ⟨isOption, stop⟩
        have notEnd := unmarked raw (mem_optionTokens looks)
        obtain ⟨continues, known, same⟩ :=
          readOption_tokens (some operands) looks notEnd read
        refine defined_of_eq_cons same known
          (inductionHypothesis ?_ positive ?_ ?_)
        · rw [continues s, reading]
        · rw [Update.apply_positional]
          exact few
        · intro token member
          exact unmarked token (same ▸ List.mem_cons_of_mem raw member)

end Run

/-! ## Every subcommand -/

section Commands

variable [F64Ops]

/-- The options a subcommand defines. -/
def Subcommand.arity : Subcommand → Arity
  | run => runArity
  | create => runArity
  | start => startParser.options.arity
  | stop => stopParser.options.arity
  | kill => killParser.options.arity
  | delete => deleteParser.options.arity
  | list => listParser.options.arity
  | stats => statsParser.options.arity
  | logs => logsParser.options.arity
  | wait => waitParser.options.arity
  | _ => fun _ => none

/--
How many operands end the options of a subcommand: for `run` and `create` those
up to the command name, `named` many.
-/
def Subcommand.operands (named : Nat) : Subcommand → Option Nat
  | run => some named
  | create => some named
  | _ => none

/-- The subcommands that are not help, version or internal. -/
def Subcommand.ordinary : Subcommand → Bool
  | help => false
  | version => false
  | init => false
  | shim => false
  | _ => true

/-- The subcommands that do not look at what starts with a dash. -/
def Subcommand.careless : Subcommand → Bool
  | inspect => true
  | pause => true
  | unpause => true
  | gc => true
  | info => true
  | _ => false

/-- The tokens with which a subcommand is strict. -/
def Subcommand.Careful (sub : Subcommand) (args : List String)
    (named : Nat) : Prop :=
  if sub.careless then
    ∀ raw ∈ args.takeWhile (· ≠ "--"), dashed raw = false
  else
    ∀ raw ∈ optionTokens sub.arity args (sub.operands named),
      (splitFlag raw).1 ≠ "--"

/-- `run` and `create`. -/
theorem parseRun_defined_iff
    {files : ConfigFiles}
    {run : Bool}
    {args : List String}
    {parsed : RunArgs}
    (accepted : parseRun files run args = .ok parsed)
    {named : Nat}
    (place : named = 1 ∨ named = 2) :
    Defined runArity args (some named) ↔
      ∀ raw ∈ optionTokens runArity args (some named),
        (splitFlag raw).1 ≠ "--" := by
  refine ⟨Defined.unmarked rfl, fun unmarked => ?_⟩
  obtain ⟨_, probed, _⟩ := Result.bind_eq_ok.mp accepted
  obtain ⟨s, looped, _⟩ := Result.bind_eq_ok.mp probed
  refine pass_defined (pass_of_passLoop _ looped) rfl ?_ ?_ unmarked
  · omega
  · simp only [List.length_nil]
    omega

/-- When what a subcommand accepts has no unknown option. -/
theorem Subcommand.defined_iff
    {files : ConfigFiles}
    {sub : Subcommand}
    {args : List String}
    {command : Command}
    (ordinary : sub.ordinary = true)
    (accepted : sub.parse files args = .ok command)
    {named : Nat}
    (place : named = 1 ∨ named = 2) :
    Defined sub.arity args (sub.operands named) ↔
      sub.Careful args named := by
  cases sub with
  | run =>
      obtain ⟨_, parsed, _⟩ := Result.bind_eq_ok.mp accepted
      exact parseRun_defined_iff parsed place
  | create =>
      obtain ⟨_, parsed, _⟩ := Result.bind_eq_ok.mp accepted
      exact parseRun_defined_iff parsed place
  | start =>
      refine Subparser.defined_iff ?_ accepted
      simp [Options.Dashed, startParser, dashed, startsWithChar]
  | stop =>
      refine Subparser.defined_iff ?_ accepted
      simp [Options.Dashed, stopParser, dashed, startsWithChar]
  | kill =>
      refine Subparser.defined_iff ?_ accepted
      simp [Options.Dashed, killParser, dashed, startsWithChar]
  | delete =>
      refine Subparser.defined_iff ?_ accepted
      simp [Options.Dashed, deleteParser, dashed, startsWithChar]
  | list =>
      refine Subparser.defined_iff ?_ accepted
      simp [Options.Dashed, listParser, dashed, startsWithChar]
  | stats =>
      refine Subparser.defined_iff ?_ accepted
      simp [Options.Dashed, statsParser, dashed, startsWithChar]
  | logs =>
      refine Subparser.defined_iff ?_ accepted
      simp [Options.Dashed, logsParser, dashed, startsWithChar]
  | wait =>
      refine Subparser.defined_iff ?_ accepted
      simp [Options.Dashed, waitParser, dashed, startsWithChar]
  | inspect | pause | unpause | gc | info =>
      exact defined_none_iff args
  | help | version | init | shim =>
      cases ordinary

/-- Which subcommand a result is of. -/
def Command.ordinary : Command → Bool
  | help _ => false
  | version => false
  | init _ => false
  | shim _ _ => false
  | _ => true

/-- A subcommand gives commands of its own kind. -/
theorem Subcommand.ordinary_of_parse
    {files : ConfigFiles}
    {sub : Subcommand}
    {args : List String}
    {command : Command}
    (accepted : sub.parse files args = .ok command) :
    command.ordinary = sub.ordinary := by
  cases sub with
  | list | stats =>
      obtain ⟨s, _, same⟩ := Result.bind_eq_ok.mp accepted
      cases same
      rfl
  | start | stop | kill | delete | logs | wait =>
      obtain ⟨s, _, finished⟩ := Result.bind_eq_ok.mp accepted
      obtain ⟨_, _, same⟩ := Result.bind_eq_ok.mp finished
      cases same
      rfl
  | run | create | inspect | pause | unpause | init =>
      obtain ⟨_, _, same⟩ := Result.bind_eq_ok.mp accepted
      cases same
      rfl
  | shim =>
      obtain ⟨_, _, rest⟩ := Result.bind_eq_ok.mp accepted
      obtain ⟨_, _, rest⟩ := Result.bind_eq_ok.mp rest
      obtain ⟨_, _, same⟩ := Result.bind_eq_ok.mp rest
      cases same
      rfl
  | gc | info | help | version =>
      cases accepted
      rfl

end Commands

/-! ## Global options -/

/-- Does the arm take a value? -/
def GlobalArm.takesValue : GlobalArm → Bool
  | .setting arm => arm.takesValue
  | _ => false

/-- The options before the subcommand. -/
def globalArity : Arity :=
  fun flag => (globalArm flag).map GlobalArm.takesValue

/-- The first token that is no option and no value, and what follows it. -/
def firstOperand (arity : Arity) : List String → Option (String × List String)
  | [] => none
  | raw :: rest =>
      if startsWithChar '-' raw then
        if arity (splitFlag raw).1 = some true ∧
            (splitFlag raw).2 = none then
          match rest with
          | [] => none
          | _ :: rest => firstOperand arity rest
        else firstOperand arity rest
      else some (raw, rest)

/-- A global option that leaves the next token alone. -/
theorem firstOperand_alone
    {arity : Arity}
    {raw : String}
    {rest : List String}
    (looks : dashed raw = true ∧ raw ≠ "--")
    (alone : arity (splitFlag raw).1 ≠ some true ∨ (splitFlag raw).2 ≠ none) :
    firstOperand arity (raw :: rest) = firstOperand arity rest := by
  have leading : startsWithChar '-' raw = true :=
    (Bool.and_eq_true_iff.mp looks.1).1
  have stays :
      ¬ (arity (splitFlag raw).1 = some true ∧ (splitFlag raw).2 = none) := by
    rintro ⟨takes, bare⟩
    exact alone.elim (· takes) (· bare)
  rw [firstOperand.eq_def]
  simp only [leading, if_true, stays, if_false]

/-- A global option and its value. -/
theorem firstOperand_valued
    {arity : Arity}
    {raw v : String}
    {rest : List String}
    (looks : dashed raw = true ∧ raw ≠ "--")
    (takes : arity (splitFlag raw).1 = some true)
    (bare : (splitFlag raw).2 = none) :
    firstOperand arity (raw :: v :: rest) = firstOperand arity rest := by
  have leading : startsWithChar '-' raw = true :=
    (Bool.and_eq_true_iff.mp looks.1).1
  rw [firstOperand.eq_def]
  simp only [leading, if_true, takes, bare, and_self]

theorem globalArm_looks
    {raw : String}
    {arm : GlobalArm}
    (selected : globalArm (splitFlag raw).1 = some arm) :
    dashed raw = true ∧ raw ≠ "--" := by
  have names : ∀ row ∈ globalArms, ∀ name ∈ row.1,
      dashed name = true ∧ name ≠ "--" := by
    simp [globalArms, dashed, startsWithChar]
  obtain ⟨row, found, _⟩ := Option.map_eq_some_iff.mp selected
  have named := List.find?_some found
  obtain ⟨looks, notEnd⟩ :=
    names row (List.mem_of_find?_eq_some found) _ (by simpa using named)
  exact looks_like_option looks notEnd

/-- The options that were read, and the subcommand after them. -/
theorem globalLoop_subcommand
    {argv args : List String}
    {env env' : Environment}
    {name : String}
    (reached : globalLoop argv env = (env', .ok (.subcommand name args))) :
    firstOperand globalArity argv = some (name, args) ∧
      Defined globalArity argv (some 1) := by
  fun_induction globalLoop argv env with
  | case1 | case2 | case3 | case6 | case7 | case9 | case10 =>
      cases reached
  | case4 raw rest env set selected inductionHypothesis =>
      have arity : globalArity (splitFlag raw).1 = some false := by
        rw [globalArity, selected]
        rfl
      have looks := globalArm_looks selected
      have alone :
          globalArity (splitFlag raw).1 ≠ some true ∨
            (splitFlag raw).2 ≠ none :=
        .inl (by simp [arity])
      obtain ⟨first, others⟩ := inductionHypothesis reached
      exact ⟨(firstOperand_alone looks alone).trans first,
        defined_of_eq_cons (optionTokens_alone looks alone)
          (by rw [arity]; rfl) others⟩
  | case5 raw env decode selected v rest inline set decoded
      inductionHypothesis =>
      have arity : globalArity (splitFlag raw).1 = some true := by
        rw [globalArity, selected]
        rfl
      have looks := globalArm_looks selected
      have alone :
          globalArity (splitFlag raw).1 ≠ some true ∨
            (splitFlag raw).2 ≠ none :=
        .inr (by simp [inline])
      obtain ⟨first, others⟩ := inductionHypothesis reached
      exact ⟨(firstOperand_alone looks alone).trans first,
        defined_of_eq_cons (optionTokens_alone looks alone)
          (by rw [arity]; rfl) others⟩
  | case8 raw env decode selected v rest inline set decoded
      inductionHypothesis =>
      have arity : globalArity (splitFlag raw).1 = some true := by
        rw [globalArity, selected]
        rfl
      have looks := globalArm_looks selected
      obtain ⟨first, others⟩ := inductionHypothesis reached
      exact ⟨(firstOperand_valued looks arity inline).trans first,
        defined_of_eq_cons (optionTokens_valued looks arity inline)
          (by rw [arity]; rfl) others⟩
  | case11 raw rest env selected plain =>
      rw [startsWithChar_splitFlag] at plain
      have notOption : dashed raw = false := by
        simp [dashed, plain]
      cases reached
      refine ⟨?_, ?_⟩
      · rw [firstOperand.eq_def]
        simp only [plain, if_false, Bool.false_eq_true]
      · rw [Defined, optionTokens_operand notOption, if_pos rfl]
        exact fun _ member => nomatch member

/-! ## The command line as a whole -/

section Whole

variable [F64Ops]

/-- The subcommand and the tokens after it. -/
def commandOf (argv : List String) : Option (Subcommand × List String) :=
  (firstOperand globalArity argv).bind fun found =>
    (subcommand found.1).map fun sub => (sub, found.2)

/--
Every token of the command line that looks like an option is a global option,
if it stands before the subcommand, or an option of the subcommand. The command
name of `run` and `create` is operand number `named`.
-/
def Strict (argv : List String) (named : Nat) : Prop :=
  Defined globalArity argv (some 1) ∧
    ∀ sub args, commandOf argv = some (sub, args) →
      Defined sub.arity args (sub.operands named)

/-- The tokens after the subcommand do not rely on its strictness. -/
def Careful (argv : List String) (named : Nat) : Prop :=
  ∀ sub args, commandOf argv = some (sub, args) → sub.Careful args named

/--
A command line that is accepted for a subcommand other than help, version and
the internal ones is strict exactly if nothing before a `--` looks like an
option of `inspect`, `pause`, `unpause`, `gc` or `info`, and no option of `run`
or `create` is a `--` with a value.
-/
theorem strict_iff_careful
    {files : ConfigFiles}
    {argv : List String}
    {env : Environment}
    {command : Command}
    (accepted : (parse files argv env).2 = .ok command)
    (ordinary : command.ordinary = true)
    {named : Nat}
    (place : named = 1 ∨ named = 2) :
    Strict argv named ↔ Careful argv named := by
  unfold parse at accepted
  cases reached : globalLoop argv env with
  | mk env' outcome =>
      rw [reached] at accepted
      cases outcome with
      | error e =>
          cases accepted
      | ok start =>
          cases start with
          | nothing | help | version =>
              cases accepted
              cases ordinary
          | subcommand name args =>
              obtain ⟨first, known⟩ := globalLoop_subcommand reached
              have found :
                  commandOf argv =
                    (subcommand name).map fun sub => (sub, args) := by
                rw [commandOf, first]
                rfl
              simp only [dispatch] at accepted
              cases named_ : subcommand name with
              | none =>
                  rw [named_] at accepted
                  cases accepted
              | some sub =>
                  rw [named_] at accepted found
                  have kind := sub.ordinary_of_parse accepted
                  have same :=
                    sub.defined_iff (kind ▸ ordinary) accepted place
                  simp only [Strict, Careful, found, Option.map_some,
                    Option.some.injEq, Prod.mk.injEq, known, true_and]
                  constructor
                  · rintro strict _ _ ⟨rfl, rfl⟩
                    exact same.mp (strict _ _ ⟨rfl, rfl⟩)
                  · rintro careful _ _ ⟨rfl, rfl⟩
                    exact same.mpr (careful _ _ ⟨rfl, rfl⟩)

end Whole

/-- `myrun inspect --bogus web`. -/
def bogusLine : List String := ["inspect", "--bogus", "web"]

/-- The unknown option of `inspect` is left out. -/
theorem bogusLine_accepted :
    (@parse unitOps noFiles bogusLine ⟨none, none⟩).2 =
      .ok (.inspect ["web"]) := by
  let _ := unitOps
  decide +kernel

/-- A command line that is accepted need not be strict. -/
theorem accepted_not_strict :
    ¬ ∀ (files : ConfigFiles) (argv : List String) (env : Environment)
        (command : Command),
      (@parse unitOps files argv env).2 = .ok command →
      command.ordinary = true →
      @Strict unitOps argv 2 := by
  let _ := unitOps
  intro strict
  have found : commandOf bogusLine = some (.inspect, ["--bogus", "web"]) := by
    decide +kernel
  have known :=
    (strict _ _ _ _ bogusLine_accepted rfl).2 _ _ found "--bogus"
      (by decide +kernel)
  cases known

/-- `myrun --debug run --name web /r /bin/sh -c ls`. -/
def nameLine : List String :=
  ["--debug", "run", "--name", "web", "/r", "/bin/sh", "-c", "ls"]

theorem nameLine_strict : @Strict unitOps nameLine 2 := by
  let _ := unitOps
  have accepted :
      (parse noFiles nameLine ⟨none, none⟩).2.toOption.map Command.ordinary =
        some true := by
    decide +kernel
  obtain ⟨command, parsed, ordinary⟩ := Option.map_eq_some_iff.mp accepted
  have ok : (parse noFiles nameLine ⟨none, none⟩).2 = .ok command := by
    generalize (parse noFiles nameLine ⟨none, none⟩).2 = outcome at parsed ⊢
    cases outcome with
    | error e =>
        cases parsed
    | ok found =>
        cases parsed
        rfl
  refine (strict_iff_careful ok ordinary (.inr rfl)).mpr ?_
  intro sub args found
  have place :
      commandOf nameLine =
        some (.run, ["--name", "web", "/r", "/bin/sh", "-c", "ls"]) := by
    decide +kernel
  rw [place] at found
  cases found
  show ∀ raw ∈ optionTokens runArity
      ["--name", "web", "/r", "/bin/sh", "-c", "ls"] (some 2),
    (splitFlag raw).1 ≠ "--"
  decide +kernel

end Cli

end Myrun
