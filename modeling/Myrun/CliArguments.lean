import Myrun.Cli
import Myrun.ConfigRoundTrip

namespace Myrun

/-!
# Arguments of the container's command

A `run` or `create` command line is a list of options, a root file system
operand unless the root is already known, a command name and the arguments of
that command.  The parser stops reading options at the second positional token.
With the operand that is the command name; without it, the first argument is
still read as an option if it looks like one.
-/

/-! ## Options -/

/-- What every option does to the configuration: the command stays. -/
structure ChangeLawful (change : ContainerConfig → ContainerConfig) : Prop where
  command : ∀ c, (change c).command = c.command
  rootfs :
    (∀ c, (change c).rootfs = c.rootfs) ∨ ∃ v, ∀ c, (change c).rootfs = v
  env : (∀ c, (change c).env = c.env) ∨ ∃ kv, ∀ c, change c = c.setEnv kv

/-- A lawful change, if the update is a change of the configuration. -/
def Update.Lawful : Update → Prop
  | .config change => ChangeLawful change
  | _ => True

/-- Every update an option can decode to is lawful. -/
def FlagAction.Lawful : FlagAction → Prop
  | .plain decode => ∀ inline update, decode inline = .ok update → update.Lawful
  | .valued decode => ∀ v update, decode v = .ok update → update.Lawful

private theorem setting_lawful
    {update : Update}
    (lawful : update.Lawful) :
    (setting update).Lawful := by
  intro inline other decoded
  cases decoded
  exact lawful

private theorem refused_lawful (message : String) : (refused message).Lawful := by
  intro inline other decoded
  cases decoded

private theorem taking_lawful
    {build : String → Update}
    (lawful : ∀ v, (build v).Lawful) :
    (taking build).Lawful := by
  intro v other decoded
  cases decoded
  exact lawful v

private theorem parsing_lawful
    {α : Type}
    {parse : String → Result α}
    {build : α → Update}
    (lawful : ∀ a, (build a).Lawful) :
    (parsing parse build).Lawful := by
  intro v other decoded
  obtain ⟨a, _, built⟩ := Result.bind_eq_ok.mp decoded
  cases built
  exact lawful a

private theorem looking_lawful
    {α : Type}
    {parse : Option String → Result α}
    {build : α → Update}
    (lawful : ∀ a, (build a).Lawful) :
    (looking parse build).Lawful := by
  intro inline other decoded
  obtain ⟨a, _, built⟩ := Result.bind_eq_ok.mp decoded
  cases built
  exact lawful a

private theorem config_lawful_of_kept
    {change : ContainerConfig → ContainerConfig}
    (same : ∀ c, (change c).command = c.command ∧
      (change c).rootfs = c.rootfs ∧ (change c).env = c.env) :
    (Update.config change).Lawful where
  command c := (same c).1
  rootfs := Or.inl fun c => (same c).2.1
  env := Or.inl fun c => (same c).2.2

private theorem rootfs_lawful (v : String) :
    (Update.config fun c => { c with rootfs := v }).Lawful :=
  ⟨fun _ => rfl, Or.inr ⟨v, fun _ => rfl⟩, Or.inl fun _ => rfl⟩

private theorem setEnv_lawful (v : String) :
    (Update.config fun c => c.setEnv v).Lawful :=
  ⟨fun _ => rfl, Or.inl fun _ => rfl, Or.inr ⟨v, fun _ => rfl⟩⟩

/-- Every row of the table of options is lawful. -/
theorem flagTable_lawful [F64Ops] :
    ∀ row ∈ flagTable, row.2.Lawful := by
  unfold flagTable
  simp only [List.forall_mem_cons, List.not_mem_nil, false_implies,
    implies_true, and_true]
  repeat' apply And.intro
  all_goals first
    | with_reducible exact refused_lawful _
    | with_reducible apply setting_lawful
    | with_reducible apply taking_lawful
    | with_reducible apply parsing_lawful
    | with_reducible apply looking_lawful
  all_goals try intro v
  all_goals first
    | trivial
    | with_reducible exact rootfs_lawful v
    | with_reducible exact setEnv_lawful v
    | exact config_lawful_of_kept fun _ => ⟨rfl, rfl, rfl⟩

private theorem flagAction_lawful [F64Ops]
    (run : Bool)
    (flag : String) :
    (flagAction run flag).Lawful := by
  unfold flagAction
  split
  · rename_i row found
    exact flagTable_lawful row (List.mem_of_find?_eq_some found)
  · exact refused_lawful _

/-! ## The loop as a relation -/

/-- One option: the update it decodes to and the tokens after it. -/
def readOption [F64Ops] (run : Bool) (raw : String) (rest : List String) :
    Result (Update × List String) :=
  match flagAction run (splitFlag raw).1, (splitFlag raw).2, rest with
  | .plain decode, inline, rest => do
      let update ← decode inline
      return (update, rest)
  | .valued decode, some v, rest => do
      let update ← decode v
      return (update, rest)
  | .valued _, none, [] =>
      .error (.usage ((splitFlag raw).1 ++ " requires a value"))
  | .valued decode, none, v :: rest => do
      let update ← decode v
      return (update, rest)

theorem passLoop_option [F64Ops]
    {run : Bool}
    {raw : String}
    {rest : List String}
    {s : PassState}
    (isOption : isPositional s.endOfFlags raw = false) :
    passLoop run (raw :: rest) s = (do
      let read ← readOption run raw rest
      passLoop run read.2 (read.1.apply s)) := by
  rw [passLoop.eq_def]
  simp only [isOption, Bool.false_eq_true, ↓reduceIte]
  unfold readOption
  cases flagAction run (splitFlag raw).1 with
  | plain decode =>
      cases decoded : decode (splitFlag raw).2 <;> simp [decoded]
  | valued decode =>
      cases (splitFlag raw).2 with
      | some v =>
          cases decoded : decode v <;> simp [decoded]
      | none =>
          cases rest with
          | nil =>
              simp
          | cons v rest =>
              cases decoded : decode v <;> simp [decoded]

/-- What a read option leaves: a lawful update and no more tokens than before. -/
theorem readOption_ok [F64Ops]
    {run : Bool}
    {raw : String}
    {rest after : List String}
    {update : Update}
    (read : readOption run raw rest = .ok (update, after)) :
    update.Lawful ∧ after.length ≤ rest.length ∧
      ∀ tail, readOption run raw (rest ++ tail) = .ok (update, after ++ tail) := by
  have lawful := flagAction_lawful run (splitFlag raw).1
  unfold readOption at read ⊢
  cases action : flagAction run (splitFlag raw).1 with
  | plain decode =>
      simp only [action] at read lawful ⊢
      obtain ⟨decoded, accepted, same⟩ := Result.bind_eq_ok.mp read
      cases same
      exact ⟨lawful _ _ accepted, Nat.le_refl _, by simp [accepted]⟩
  | valued decode =>
      cases inline : (splitFlag raw).2 with
      | some v =>
          simp only [action, inline] at read lawful ⊢
          obtain ⟨decoded, accepted, same⟩ := Result.bind_eq_ok.mp read
          cases same
          exact ⟨lawful _ _ accepted, Nat.le_refl _, by simp [accepted]⟩
      | none =>
          cases rest with
          | nil =>
              simp [action, inline] at read
          | cons v rest =>
              simp only [action, inline] at read lawful ⊢
              obtain ⟨decoded, accepted, same⟩ := Result.bind_eq_ok.mp read
              cases same
              exact ⟨lawful _ _ accepted, by simp, by simp [accepted]⟩

/-- A complete pass over a list of tokens. -/
inductive Pass [F64Ops] (run : Bool) :
    List String → PassState → PassState → Prop where
  | done (s : PassState) : Pass run [] s s
  | operand {raw : String} {rest : List String} {s final : PassState} :
      isPositional s.endOfFlags raw = true →
      s.positional = [] →
      Pass run rest { s with positional := [raw] } final →
      Pass run (raw :: rest) s final
  | command {raw : String} {rest : List String} {s : PassState} :
      isPositional s.endOfFlags raw = true →
      s.positional ≠ [] →
      Pass run (raw :: rest) s
        { s with positional := s.positional ++ raw :: rest }
  | option {raw : String} {rest after : List String} {s final : PassState}
      {update : Update} :
      isPositional s.endOfFlags raw = false →
      readOption run raw rest = .ok (update, after) →
      Pass run after (update.apply s) final →
      Pass run (raw :: rest) s final

theorem passLoop_operand [F64Ops]
    {run : Bool}
    {raw : String}
    {rest : List String}
    {s : PassState}
    (positional : isPositional s.endOfFlags raw = true)
    (first : s.positional = []) :
    passLoop run (raw :: rest) s =
      passLoop run rest { s with positional := [raw] } := by
  rw [passLoop.eq_def]
  simp [positional, first]

theorem passLoop_command [F64Ops]
    {run : Bool}
    {raw : String}
    {rest : List String}
    {s : PassState}
    (positional : isPositional s.endOfFlags raw = true)
    (later : s.positional ≠ []) :
    passLoop run (raw :: rest) s =
      .ok { s with positional := s.positional ++ raw :: rest } := by
  have enough : 1 ≤ s.positional.length := by
    rw [Nat.one_le_iff_ne_zero]
    simpa using later
  rw [passLoop.eq_def]
  simp [positional, enough]

theorem Pass.passLoop_eq [F64Ops]
    {run : Bool}
    {tokens : List String}
    {s final : PassState}
    (pass : Pass run tokens s final) :
    passLoop run tokens s = .ok final := by
  induction pass with
  | done s =>
      rfl
  | operand positional first _ inductionHypothesis =>
      rw [passLoop_operand positional first]
      exact inductionHypothesis
  | command positional later =>
      exact passLoop_command positional later
  | option isOption read _ inductionHypothesis =>
      rw [passLoop_option isOption, read]
      exact inductionHypothesis

/-- The loop succeeds exactly along a complete pass. -/
theorem pass_of_passLoop [F64Ops]
    {run : Bool}
    (tokens : List String)
    {s final : PassState}
    (accepted : passLoop run tokens s = .ok final) :
    Pass run tokens s final := by
  -- an option may consume two tokens, so the induction is on the length
  induction length : tokens.length using Nat.strong_induction_on
      generalizing tokens s with
  | _ n inductionHypothesis =>
    cases tokens with
    | nil =>
        cases accepted
        exact Pass.done _
    | cons raw rest =>
        cases positional : isPositional s.endOfFlags raw with
        | true =>
            by_cases first : s.positional = []
            · rw [passLoop_operand positional first] at accepted
              exact Pass.operand positional first
                (inductionHypothesis rest.length (by simp [← length]) rest
                  accepted rfl)
            · rw [passLoop_command positional first] at accepted
              cases accepted
              exact Pass.command positional first
        | false =>
            rw [passLoop_option positional] at accepted
            obtain ⟨⟨update, after⟩, read, continued⟩ :=
              Result.bind_eq_ok.mp accepted
            have shorter : after.length < n := by
              have bound := (readOption_ok read).2.1
              simp only [List.length_cons] at length
              omega
            exact Pass.option positional read
              (inductionHypothesis after.length shorter after continued rfl)

/-! ## What a pass preserves -/

private theorem Update.Lawful.command
    {update : Update}
    (lawful : update.Lawful)
    (s : PassState) :
    (update.apply s).cfg.command = s.cfg.command := by
  cases update with
  | config change =>
      exact ChangeLawful.command lawful s.cfg
  | _ =>
      rfl

theorem Update.apply_positional
    (update : Update)
    (s : PassState) :
    (update.apply s).positional = s.positional := by
  cases update <;> rfl

/-- The options of a pass never change the command. -/
theorem Pass.command_eq [F64Ops]
    {run : Bool}
    {tokens : List String}
    {s final : PassState}
    (pass : Pass run tokens s final) :
    final.cfg.command = s.cfg.command := by
  induction pass with
  | done s =>
      rfl
  | operand _ _ _ inductionHypothesis =>
      exact inductionHypothesis
  | command _ _ =>
      rfl
  | option _ read _ inductionHypothesis =>
      exact inductionHypothesis.trans ((readOption_ok read).1.command _)

/-- A pass collects at most its tokens, and drops nothing collected before. -/
theorem Pass.positional_length [F64Ops]
    {run : Bool}
    {tokens : List String}
    {s final : PassState}
    (pass : Pass run tokens s final) :
    s.positional.length ≤ final.positional.length ∧
      final.positional.length ≤ s.positional.length + tokens.length := by
  induction pass with
  | done s =>
      simp
  | operand _ first _ inductionHypothesis =>
      simp only [List.length_cons, List.length_nil, first] at inductionHypothesis ⊢
      omega
  | command _ _ =>
      simp
  | option _ read _ inductionHypothesis =>
      have bound := (readOption_ok read).2.1
      simp only [Update.apply_positional, List.length_cons] at inductionHypothesis ⊢
      omega

/-- A pass that collects nothing can be continued. -/
theorem Pass.passLoop_append [F64Ops]
    {run : Bool}
    {front : List String}
    {s middle : PassState}
    (pass : Pass run front s middle)
    (nothing : middle.positional = [])
    (tail : List String) :
    passLoop run (front ++ tail) s = passLoop run tail middle := by
  induction pass with
  | done s =>
      rfl
  | operand _ _ later _ =>
      have collected := later.positional_length.1
      simp [nothing] at collected
  | command _ _ =>
      simp at nothing
  | option isOption read _ inductionHypothesis =>
      rw [List.cons_append, passLoop_option isOption,
        (readOption_ok read).2.2 tail]
      exact inductionHypothesis nothing

private theorem Pass.append [F64Ops]
    {run : Bool}
    {front tail : List String}
    {s middle final : PassState}
    (pass : Pass run front s middle)
    (nothing : middle.positional = [])
    (continued : Pass run tail middle final) :
    Pass run (front ++ tail) s final := by
  apply pass_of_passLoop
  rw [pass.passLoop_append nothing]
  exact continued.passLoop_eq

/--
Two states of a pass that differ in the configuration only, such that the
second knows a root file system whenever the first does.
-/
structure SameLine (s t : PassState) : Prop where
  configPath : t.configPath = s.configPath
  detach : t.detach = s.detach
  positional : t.positional = s.positional
  endOfFlags : t.endOfFlags = s.endOfFlags
  rootfs : t.cfg.rootfs = s.cfg.rootfs ∨ t.cfg.rootfs ≠ ""

private theorem SameLine.apply
    {s t : PassState}
    (same : SameLine s t)
    {update : Update}
    (lawful : update.Lawful) :
    SameLine (update.apply s) (update.apply t) := by
  cases update with
  | endOfFlags =>
      exact { same with endOfFlags := rfl }
  | configPath path =>
      exact { same with configPath := rfl }
  | detach =>
      exact { same with detach := rfl }
  | config change =>
      refine { same with rootfs := ?_ }
      rcases ChangeLawful.rootfs lawful with kept | ⟨v, fixed⟩
      · simpa [Update.apply, kept] using same.rootfs
      · exact Or.inl (by simp [Update.apply, fixed])

private theorem SameLine.collect
    {s t : PassState}
    (same : SameLine s t)
    (positional : List String) :
    SameLine { s with positional } { t with positional } :=
  { same with positional := rfl }

/-- Whether a pass succeeds does not depend on the configuration. -/
theorem Pass.sameLine [F64Ops]
    {run : Bool}
    {tokens : List String}
    {s t final : PassState}
    (pass : Pass run tokens s final)
    (same : SameLine s t) :
    ∃ final', Pass run tokens t final' ∧ SameLine final final' := by
  induction pass generalizing t with
  | done s =>
      exact ⟨t, Pass.done t, same⟩
  | operand positional first _ inductionHypothesis =>
      obtain ⟨final', passed, sameFinal⟩ :=
        inductionHypothesis (same.collect _)
      exact ⟨final', Pass.operand (same.endOfFlags ▸ positional)
        (same.positional.trans first) passed, sameFinal⟩
  | command positional later =>
      refine ⟨_, Pass.command (same.endOfFlags ▸ positional)
        (fun empty => later (same.positional ▸ empty)), ?_⟩
      exact { same with positional := by simp [same.positional] }
  | option isOption read _ inductionHypothesis =>
      obtain ⟨final', passed, sameFinal⟩ :=
        inductionHypothesis (same.apply (readOption_ok read).1)
      exact ⟨final', Pass.option (same.endOfFlags ▸ isOption) read passed,
        sameFinal⟩

/-! ## Command lines -/

/-- The parts of a `run` or `create` command line. -/
structure CommandLine where
  options : List String
  operand : Option String
  command : String
  arguments : List String

namespace CommandLine

/-- Everything before the command name. -/
def front (line : CommandLine) : List String :=
  line.options ++ line.operand.toList

/-- All tokens of the line. -/
def tokens (line : CommandLine) : List String :=
  line.front ++ line.command :: line.arguments

/--
The line has the documented form: the options parse, an operand names the root
file system exactly when neither `--rootfs` nor the file does, and the command
name does not start with a dash.
-/
structure WellFormed [F64Ops] (files : ConfigFiles) (run : Bool)
    (line : CommandLine) : Prop where
  options :
    ∃ probe base s,
      passLoop run line.options { cfg := {} } = .ok probe ∧
        baseConfig files probe.configPath = .ok base ∧
        passLoop run line.options { cfg := base } = .ok s ∧
        s.positional = [] ∧
        (∀ r ∈ line.operand,
          s.cfg.rootfs = "" ∧ isPositional s.endOfFlags r = true) ∧
        (line.operand = none → s.cfg.rootfs ≠ "")
  command : startsWithChar '-' line.command = false

/--
The arguments become part of the command word for word and change nothing
else: neither another field of the result nor the configuration file that is
read.
-/
def Verbatim [F64Ops] (files : ConfigFiles) (run : Bool)
    (line : CommandLine) : Prop :=
  ∃ bare,
    parseRun files run (line.front ++ [line.command]) = .ok bare ∧
      bare.config.command = [line.command] ∧
      parseRun files run line.tokens =
        .ok { bare with
          config := { bare.config with
            command := line.command :: line.arguments } } ∧
      (parseRunPass run {} line.tokens).map Prod.snd =
        (parseRunPass run {} (line.front ++ [line.command])).map Prod.snd

/-- A `--` has ended the options. -/
def OptionsEnded [F64Ops] (run : Bool) (line : CommandLine) : Prop :=
  ∃ s, passLoop run line.options { cfg := {} } = .ok s ∧ s.endOfFlags = true

/-- The first argument, if there is one, does not look like an option. -/
def FirstPlain (line : CommandLine) : Prop :=
  ∀ a ∈ line.arguments.head?, isPositional false a = true

/-- When the arguments are safe. -/
def Separated [F64Ops] (run : Bool) (line : CommandLine) : Prop :=
  line.operand.isSome = true ∨ line.OptionsEnded run ∨ line.FirstPlain

end CommandLine

/-- The arguments after a command that is the first positional token. -/
theorem pass_arguments [F64Ops]
    {run : Bool}
    {arguments : List String}
    {s : PassState}
    {name : String}
    (collected : s.positional = [name])
    (plain : ∀ a ∈ arguments.head?, isPositional s.endOfFlags a = true) :
    Pass run arguments s { s with positional := name :: arguments } := by
  cases arguments with
  | nil =>
      have same : { s with positional := [name] } = s := by
        rw [← collected]
      rw [same]
      exact Pass.done s
  | cons a rest =>
      have last :
          Pass run (a :: rest) s
            { s with positional := s.positional ++ a :: rest } :=
        Pass.command (plain a (by simp)) (by simp [collected])
      simpa [collected] using last

/-- A separated line is collected as it stands. -/
theorem pass_tokens [F64Ops]
    {run : Bool}
    {line : CommandLine}
    {base : ContainerConfig}
    {s : PassState}
    (options : Pass run line.options { cfg := base } s)
    (nothing : s.positional = [])
    (operand : ∀ r ∈ line.operand, isPositional s.endOfFlags r = true)
    (command : startsWithChar '-' line.command = false)
    (separated :
      line.operand.isSome = true ∨ s.endOfFlags = true ∨ line.FirstPlain) :
    Pass run line.tokens { cfg := base }
      { s with
        positional :=
          line.operand.toList ++ line.command :: line.arguments } := by
  have isCommand : isPositional s.endOfFlags line.command = true := by
    simp [isPositional, command]
  rw [CommandLine.tokens, CommandLine.front, List.append_assoc]
  apply options.append nothing
  cases root : line.operand with
  | none =>
      rw [root] at separated
      have plain :
          ∀ a ∈ line.arguments.head?, isPositional s.endOfFlags a = true := by
        intro a first
        rcases separated with impossible | ended | firstPlain
        · cases impossible
        · simp [isPositional, ended]
        · have dashless := firstPlain a first
          cases s.endOfFlags with
          | true =>
              rfl
          | false =>
              exact dashless
      exact Pass.operand isCommand nothing (pass_arguments rfl plain)
  | some r =>
      have last :
          Pass run (line.command :: line.arguments)
            { s with positional := [r] }
            { s with positional := [r] ++ line.command :: line.arguments } :=
        Pass.command isCommand (by simp)
      exact Pass.operand (operand r root) nothing last

/-- The configuration of a separated line. -/
def lineConfig (line : CommandLine) (s : PassState) : ContainerConfig :=
  { s.cfg with
    rootfs := line.operand.getD s.cfg.rootfs
    command := line.command :: line.arguments
    detach := s.detach }

private theorem parseRunPass_of_pass [F64Ops]
    {run : Bool}
    {tokens : List String}
    {base : ContainerConfig}
    {s : PassState}
    (pass : Pass run tokens { cfg := base } s) :
    parseRunPass run base tokens =
      .ok ({ config := { takePositional s with detach := s.detach },
             detach := s.detach }, s.configPath) := by
  simp [parseRunPass, pass.passLoop_eq]

private theorem takePositional_line
    {line : CommandLine}
    {s : PassState}
    (operand : ∀ r ∈ line.operand, s.cfg.rootfs = "")
    (known : line.operand = none → s.cfg.rootfs ≠ "") :
    { takePositional { s with
        positional :=
          line.operand.toList ++ line.command :: line.arguments } with
      detach := s.detach } = lineConfig line s := by
  cases root : line.operand with
  | none =>
      have nonempty := known root
      simp [takePositional, lineConfig, root, nonempty]
  | some r =>
      have empty := operand r root
      simp [takePositional, lineConfig, root, empty]

namespace CommandLine

/-- The same line without arguments. -/
def bare (line : CommandLine) : CommandLine :=
  { line with arguments := [] }

/-- How the options of a well-formed line are read in the two passes. -/
structure OptionsRead [F64Ops] (files : ConfigFiles) (run : Bool)
    (line : CommandLine) (probe : PassState) (base : ContainerConfig)
    (s : PassState) : Prop where
  probed : Pass run line.options { cfg := {} } probe
  loaded : baseConfig files probe.configPath = .ok base
  passed : Pass run line.options { cfg := base } s
  sameLine : SameLine probe s
  nothing : s.positional = []
  operand :
    ∀ r ∈ line.operand,
      s.cfg.rootfs = "" ∧ isPositional s.endOfFlags r = true
  known : line.operand = none → s.cfg.rootfs ≠ ""

/-- Both passes over the options agree on everything but the configuration. -/
theorem sameLine_of_passes [F64Ops]
    {run : Bool}
    {options : List String}
    {base : ContainerConfig}
    {probe s : PassState}
    (probed : Pass run options { cfg := {} } probe)
    (passed : Pass run options { cfg := base } s) :
    SameLine probe s := by
  have start : SameLine { cfg := {} } { cfg := base } := {
    configPath := rfl
    detach := rfl
    positional := rfl
    endOfFlags := rfl
    rootfs := Classical.em (base.rootfs = "") }
  obtain ⟨final, passedFinal, same⟩ := probed.sameLine start
  have unique := passedFinal.passLoop_eq.symm.trans passed.passLoop_eq
  cases unique
  exact same

private theorem WellFormed.optionsRead [F64Ops]
    {files : ConfigFiles}
    {run : Bool}
    {line : CommandLine}
    (wellFormed : line.WellFormed files run) :
    ∃ probe base s, line.OptionsRead files run probe base s := by
  obtain ⟨probe, base, s, probed, loaded, passed, nothing, operand, known⟩ :=
    wellFormed.options
  have probedPass := pass_of_passLoop _ probed
  have passedPass := pass_of_passLoop _ passed
  exact ⟨probe, base, s, probedPass, loaded, passedPass,
    sameLine_of_passes probedPass passedPass, nothing, operand, known⟩

/-- What a well-formed, separated line parses to. -/
theorem OptionsRead.parse [F64Ops]
    {files : ConfigFiles}
    {run : Bool}
    {line : CommandLine}
    {probe s : PassState}
    {base : ContainerConfig}
    (read : line.OptionsRead files run probe base s)
    (command : startsWithChar '-' line.command = false)
    (separated :
      line.operand.isSome = true ∨ s.endOfFlags = true ∨ line.FirstPlain) :
    parseRun files run line.tokens =
        .ok { config := lineConfig line s, detach := s.detach } ∧
      (parseRunPass run {} line.tokens).map Prod.snd = .ok probe.configPath := by
  have sameEnd := read.sameLine.endOfFlags
  have probeNothing : probe.positional = [] :=
    read.sameLine.positional.symm.trans read.nothing
  have probeTokens :=
    pass_tokens read.probed probeNothing
      (fun r isOperand => sameEnd ▸ (read.operand r isOperand).2) command
      (sameEnd ▸ separated)
  have tokens :=
    pass_tokens read.passed read.nothing
      (fun r isOperand => (read.operand r isOperand).2) command separated
  have config :=
    takePositional_line (fun r isOperand => (read.operand r isOperand).1)
      read.known
  refine ⟨?_, ?_⟩
  · rw [parseRun, parseRunPass_of_pass probeTokens]
    simp only [Result.ok_bind, read.loaded, parseRunPass_of_pass tokens,
      config, Result.pure_eq_ok]
  · rw [parseRunPass_of_pass probeTokens]
    rfl

private theorem OptionsRead.bare [F64Ops]
    {files : ConfigFiles}
    {run : Bool}
    {line : CommandLine}
    {probe s : PassState}
    {base : ContainerConfig}
    (read : line.OptionsRead files run probe base s) :
    line.bare.OptionsRead files run probe base s :=
  ⟨read.probed, read.loaded, read.passed, read.sameLine, read.nothing,
    read.operand, read.known⟩

/-- A separated line keeps its arguments word for word. -/
theorem WellFormed.verbatim [F64Ops]
    {files : ConfigFiles}
    {run : Bool}
    {line : CommandLine}
    (wellFormed : line.WellFormed files run)
    (separated : line.Separated run) :
    line.Verbatim files run := by
  obtain ⟨probe, base, s, read⟩ := wellFormed.optionsRead
  have ended :
      line.operand.isSome = true ∨ s.endOfFlags = true ∨ line.FirstPlain := by
    rcases separated with given | ⟨other, passed, ended⟩ | plain
    · exact Or.inl given
    · have unique := passed.symm.trans read.probed.passLoop_eq
      cases unique
      exact Or.inr (Or.inl (read.sameLine.endOfFlags.trans ended))
    · exact Or.inr (Or.inr plain)
  have whole := read.parse wellFormed.command ended
  have alone :=
    read.bare.parse wellFormed.command
      (Or.inr (Or.inr (by simp [FirstPlain, CommandLine.bare])))
  refine ⟨_, alone.1, rfl, whole.1, whole.2.trans alone.2.symm⟩

/-! ## An argument read as an option -/

private theorem command_takePositional_length (s : PassState) :
    (takePositional s).command.length ≤
      max s.cfg.command.length s.positional.length := by
  unfold takePositional
  split
  · exact Nat.le_max_left _ _
  · rename_i first rest collected
    rw [collected]
    split
    · split
      · exact Nat.le_max_left _ _
      · simp only [List.length_cons]
        omega
    · exact Nat.le_max_right _ _

/-- After the command, an argument that looks like an option is lost. -/
theorem command_length_lt [F64Ops]
    {run : Bool}
    {line : CommandLine}
    {base : ContainerConfig}
    {s final : PassState}
    {a : String}
    {rest : List String}
    (options : Pass run line.options { cfg := base } s)
    (nothing : s.positional = [])
    (noOperand : line.operand = none)
    (arguments : line.arguments = a :: rest)
    (command : startsWithChar '-' line.command = false)
    (isOption : isPositional s.endOfFlags a = false)
    (noCommand : base.command = [])
    (passed : Pass run line.tokens { cfg := base } final) :
    (takePositional final).command.length < line.arguments.length + 1 := by
  have isCommand : isPositional s.endOfFlags line.command = true := by
    simp [isPositional, command]
  have keeps : final.cfg.command = [] := passed.command_eq.trans noCommand
  have consumed : final.positional.length ≤ rest.length + 1 := by
    have accepted := passed.passLoop_eq
    have stillOption :
        isPositional
          { s with positional := [line.command] : PassState }.endOfFlags a =
            false :=
      isOption
    rw [tokens, front, noOperand, arguments, Option.toList_none,
      List.append_nil, options.passLoop_append nothing,
      passLoop_operand isCommand nothing,
      passLoop_option stillOption] at accepted
    obtain ⟨⟨update, after⟩, read, continued⟩ :=
      Result.bind_eq_ok.mp accepted
    have collected := (pass_of_passLoop _ continued).positional_length.2
    have fewer := (readOption_ok read).2.1
    simp only [Update.apply_positional, List.length_cons,
      List.length_nil] at collected
    omega
  have bound := command_takePositional_length final
  rw [keeps] at bound
  simp only [List.length_nil, Nat.zero_max] at bound
  rw [arguments, List.length_cons]
  omega

end CommandLine

/-- A file that holds the text of an object is that object's configuration. -/
theorem ContainerConfig.fromFile_of_toText [F64Ops]
    {files : ConfigFiles}
    {path : String}
    {members : List (String × Json)}
    (read : files.read path = .ok (Json.toText (.obj members)))
    (free : (Json.obj members).FloatFree) :
    ContainerConfig.fromFile files path =
      ContainerConfig.fromJson (.obj members) := by
  have parsed := parseJson_toText free.reread.1
  rw [free.reread.2] at parsed
  have brace :
      ((Json.toText (.obj members)).toList.dropWhile isWhitespace).head? =
        some '{' := by
    cases members <;> simp [Json.toText, Json.write, isWhitespace]
  simp [ContainerConfig.fromFile, parseDocument, read, brace, parsed]

/-- Files that all hold the one-line document with a root file system. -/
def rootfsFiles [F64Ops] : ConfigFiles where
  read := fun _ => .ok (Json.toText (.obj [("rootfs", .str "/r")]))
  toml := fun _ => .error (.parse "no document")

/-- The configuration in these files. -/
def rootfsConfig : ContainerConfig :=
  { rootfs := "/r" }

private theorem fromFile_rootfsFiles [F64Ops] (path : String) :
    ContainerConfig.fromFile rootfsFiles path = .ok rootfsConfig :=
  have free : (Json.obj [("rootfs", .str "/r")]).FloatFree :=
    ⟨trivial, trivial⟩
  ContainerConfig.fromFile_of_toText rfl free

/-- The line stays well formed when its file holds another root. -/
theorem CommandLine.OptionsRead.withRootfsFiles [F64Ops]
    {files : ConfigFiles}
    {run : Bool}
    {line : CommandLine}
    {probe s : PassState}
    {base : ContainerConfig}
    (read : line.OptionsRead files run probe base s)
    (noOperand : line.operand = none) :
    ∃ base' s',
      line.OptionsRead rootfsFiles run probe base' s' ∧ base'.command = [] := by
  cases path : probe.configPath with
  | none =>
      have sameBase : base = {} := by
        have loaded := read.loaded
        rw [path] at loaded
        exact (Except.ok.inj loaded).symm
      refine ⟨base, s, { read with loaded := ?_ }, by rw [sameBase]⟩
      rw [path, sameBase]
      rfl
  | some p =>
      have start : SameLine { cfg := base } { cfg := rootfsConfig } := {
        configPath := rfl
        detach := rfl
        positional := rfl
        endOfFlags := rfl
        rootfs := Or.inr (by decide) }
      obtain ⟨s', passed, same⟩ := read.passed.sameLine start
      refine ⟨rootfsConfig, s', ?_, rfl⟩
      exact {
        probed := read.probed
        loaded := by
          rw [path]
          exact fromFile_rootfsFiles p
        passed
        sameLine := CommandLine.sameLine_of_passes read.probed passed
        nothing := same.positional.trans read.nothing
        operand := by simp [noOperand]
        known := by
          intro _
          rcases same.rootfs with kept | nonempty
          · rw [kept]
            exact read.known noOperand
          · exact nonempty }

private theorem CommandLine.OptionsRead.wellFormed [F64Ops]
    {files : ConfigFiles}
    {run : Bool}
    {line : CommandLine}
    {probe s : PassState}
    {base : ContainerConfig}
    (read : line.OptionsRead files run probe base s)
    (command : startsWithChar '-' line.command = false) :
    line.WellFormed files run :=
  ⟨⟨probe, base, s, read.probed.passLoop_eq, read.loaded,
    read.passed.passLoop_eq, read.nothing, read.operand, read.known⟩, command⟩

/-- The two passes behind a successful `parse_run`. -/
theorem parseRun_ok [F64Ops]
    {files : ConfigFiles}
    {run : Bool}
    {tokens : List String}
    {parsed : RunArgs}
    (accepted : parseRun files run tokens = .ok parsed) :
    ∃ path base final,
      (parseRunPass run {} tokens).map Prod.snd = .ok path ∧
        baseConfig files path = .ok base ∧
        Pass run tokens { cfg := base } final ∧
        parsed.config = { takePositional final with detach := final.detach } := by
  obtain ⟨⟨first, path⟩, probed, rest⟩ := Result.bind_eq_ok.mp accepted
  obtain ⟨base, loaded, rest⟩ := Result.bind_eq_ok.mp rest
  obtain ⟨⟨second, other⟩, passed, same⟩ := Result.bind_eq_ok.mp rest
  obtain ⟨final, passedLoop, result⟩ := Result.bind_eq_ok.mp passed
  cases result
  cases same
  exact ⟨path, base, final, by rw [probed]; rfl, loaded,
    pass_of_passLoop _ passedLoop, rfl⟩

/--
For a `run` or `create` line, the arguments of the command are kept word for
word whatever the configuration file holds, exactly when a root operand was
given, the options were ended by `--`, or the first argument does not look like
an option.
-/
theorem arguments_verbatim_iff [F64Ops]
    {run : Bool}
    {line : CommandLine}
    (wellFormed : ∃ files, line.WellFormed files run) :
    (∀ files, line.WellFormed files run → line.Verbatim files run) ↔
      line.Separated run := by
  constructor
  · intro verbatim
    by_contra mixed
    obtain ⟨files, given⟩ := wellFormed
    obtain ⟨probe, base, s, read⟩ := given.optionsRead
    have noOperand : line.operand = none := by
      rw [← Option.not_isSome_iff_eq_none]
      exact fun isSome => mixed (Or.inl isSome)
    -- the file may hold a root and nothing else
    obtain ⟨base', s', read', noCommand⟩ := read.withRootfsFiles noOperand
    obtain ⟨alone, parsedAlone, _, parsed, sameFile⟩ :=
      verbatim rootfsFiles (read'.wellFormed given.command)
    have notEnded : s'.endOfFlags = false := by
      rw [← Bool.not_eq_true]
      intro ended
      exact mixed (Or.inr (Or.inl ⟨probe, read'.probed.passLoop_eq,
        read'.sameLine.endOfFlags.symm.trans ended⟩))
    obtain ⟨a, rest, arguments, dashed⟩ :
        ∃ a rest, line.arguments = a :: rest ∧
          isPositional false a = false := by
      cases arguments : line.arguments with
      | nil =>
          exact (mixed (Or.inr (Or.inr (by
            simp [CommandLine.FirstPlain, arguments])))).elim
      | cons a rest =>
          refine ⟨a, rest, rfl, ?_⟩
          rw [← Bool.not_eq_true]
          intro plain
          exact mixed (Or.inr (Or.inr (by
            simpa [CommandLine.FirstPlain, arguments] using plain)))
    obtain ⟨path, loadedBase, final, probedPath, loaded, passed, config⟩ :=
      parseRun_ok parsed
    have samePath : path = probe.configPath := by
      have alonePath :=
        (read'.bare.parse given.command (Or.inr (Or.inr (by
          simp [CommandLine.FirstPlain, CommandLine.bare])))).2
      have both := probedPath.symm.trans (sameFile.trans alonePath)
      exact Except.ok.inj both
    have sameBase : loadedBase = base' := by
      rw [samePath, read'.loaded] at loaded
      exact (Except.ok.inj loaded).symm
    subst sameBase
    have shorter :=
      CommandLine.command_length_lt read'.passed read'.nothing noOperand
        arguments given.command (notEnded ▸ dashed) noCommand passed
    have whole := congrArg (fun c => c.command.length) config
    simp only [List.length_cons] at whole
    omega
  · intro separated files given
    exact given.verbatim separated

/-- No configuration file is readable. -/
def noFiles : ConfigFiles where
  read := fun path => .error (.io path)
  toml := fun _ => .error (.parse "no document")

/-- `run -d --rootfs /r -- /bin/echo -c --privileged`. -/
def echoLine : CommandLine where
  options := ["-d", "--rootfs", "/r", "--"]
  operand := none
  command := "/bin/echo"
  arguments := ["-c", "--privileged"]

private theorem wellFormed_of_evaluated [F64Ops]
    {run : Bool}
    {line : CommandLine}
    {s : PassState}
    (passed : passLoop run line.options { cfg := {} } = .ok s)
    (noPath : s.configPath = none)
    (nothing : s.positional = [])
    (noOperand : line.operand = none)
    (known : s.cfg.rootfs ≠ "")
    (command : startsWithChar '-' line.command = false) :
    line.WellFormed noFiles run := by
  refine ⟨⟨s, {}, s, passed, ?_, passed, nothing, ?_, fun _ => known⟩, command⟩
  · rw [noPath]
    rfl
  · simp [noOperand]

theorem echoLine_verbatim :
    @CommandLine.Verbatim unitOps noFiles true echoLine := by
  let _ := unitOps
  have passed :
      passLoop true echoLine.options { cfg := {} } =
        .ok { cfg := { rootfs := "/r" }, detach := true,
              endOfFlags := true } := by
    decide +kernel
  have wellFormed : echoLine.WellFormed noFiles true :=
    wellFormed_of_evaluated passed rfl rfl rfl (by decide) (by decide)
  exact (arguments_verbatim_iff ⟨noFiles, wellFormed⟩).mpr
    (Or.inr (Or.inl ⟨_, passed, rfl⟩)) noFiles wellFormed

/-- `run --rootfs /r /bin/sh -d`. -/
def shellLine : CommandLine where
  options := ["--rootfs", "/r"]
  operand := none
  command := "/bin/sh"
  arguments := ["-d"]

theorem shellLine_not_verbatim :
    @CommandLine.WellFormed unitOps noFiles true shellLine ∧
      ¬ @CommandLine.Verbatim unitOps noFiles true shellLine := by
  let _ := unitOps
  have passed :
      passLoop true shellLine.options { cfg := {} } =
        .ok { cfg := { rootfs := "/r" } } := by
    decide +kernel
  refine ⟨wellFormed_of_evaluated passed rfl rfl rfl (by decide) (by decide), ?_⟩
  rintro ⟨alone, parsedAlone, _, parsed, _⟩
  have detached :
      (parseRun noFiles true shellLine.tokens).map RunArgs.detach =
        .ok true := by
    decide +kernel
  have attached :
      (parseRun noFiles true (shellLine.front ++ [shellLine.command])).map
        RunArgs.detach = .ok false := by
    decide +kernel
  rw [parsed] at detached
  rw [parsedAlone] at attached
  have both : alone.detach = true ∧ alone.detach = false :=
    ⟨Except.ok.inj detached, Except.ok.inj attached⟩
  simp [both.1] at both

/-! ## Parsed configurations -/

private theorem Pass.built [F64Ops]
    {run : Bool}
    {tokens : List String}
    {s final : PassState}
    (pass : Pass run tokens s final)
    (built : Built s.cfg) :
    Built final.cfg := by
  induction pass with
  | done s =>
      exact built
  | operand _ _ _ inductionHypothesis =>
      exact inductionHypothesis built
  | command _ _ =>
      exact built
  | @option _ _ _ s _ update _ read _ inductionHypothesis =>
      apply inductionHypothesis
      have lawful := (readOption_ok read).1
      cases update with
      | config change =>
          rcases ChangeLawful.env lawful with kept | ⟨kv, sets⟩
          · exact Built.flag built (kept s.cfg)
          · rw [Update.apply, sets]
            exact Built.setting kv built
      | _ =>
          exact built

/-- Whatever the command line parser returns was built as documented. -/
theorem parseRun_built [F64Ops]
    {files : ConfigFiles}
    {run : Bool}
    {tokens : List String}
    {parsed : RunArgs}
    (accepted : parseRun files run tokens = .ok parsed) :
    Built parsed.config := by
  obtain ⟨path, base, final, _, loaded, passed, config⟩ :=
    parseRun_ok accepted
  have baseBuilt : Built base := by
    cases path with
    | none =>
        rw [← Except.ok.inj loaded]
        exact Built.initial
    | some p =>
        obtain ⟨_, _, rest⟩ := Result.bind_eq_ok.mp loaded
        obtain ⟨_, _, decoded⟩ := Result.bind_eq_ok.mp rest
        exact Built.document decoded
  refine Built.flag (passed.built baseBuilt) ?_
  rw [config]
  unfold takePositional
  split
  · rfl
  · split
    · split <;> rfl
    · rfl

/-- What the shim reads of the configuration of a command line. -/
theorem handOver_of_parseRun [F64Ops]
    {files : ConfigFiles}
    {run : Bool}
    {tokens : List String}
    {parsed : RunArgs}
    (accepted : parseRun files run tokens = .ok parsed)
    {host : ConfigHost}
    {requireRootfs : Bool}
    {c : ContainerConfig}
    (validated :
      parsed.config.finalizeAndValidate host requireRootfs = .ok c)
    (cpus : ∀ f ∈ c.resources.cpus, ParsesBack f) :
    handOver c = .ok c.kept :=
  handOver_of_built (parseRun_built accepted) validated cpus

end Myrun
