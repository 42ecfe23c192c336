import Mathlib.Data.List.Count
import Myrun.PrintedLines

namespace Myrun

namespace PacketFilter

/-!
# The packet filter is restored

Whatever bridges were set up, ports published and containers cleaned up, one
after another, `teardown_base` should leave the packet filter as it was before
the first of these calls.  The invariant says that the rule list is the original
one with rules of the runtime's own mixed in: rules in its three chains, and at
most one copy of each jump and of the guard.

The search for tagged rules goes by the printed text.  A rule without any comment
is deleted too when the text of some other argument looks like a comment with the
tag, so the original rules are left exactly when no printed line misleads the
search.
-/

/-! ## Calls, one after another -/

/-- `iptables` reports a failure only when it refuses the command. -/
def Truthful (w : World) : (op : HostOp) → HostAns op → Prop
  | .iptables command, .error _ => w.runIptables command = none
  | .iptablesDump _, .error _ => False
  | _, _ => True

/-- One operation on a host with a truthful `iptables`. -/
def truthfulStep (w : World) (op : HostOp) (answer : HostAns op) (w' : World) :
    Prop :=
  w.hostAnswer op answer = some w' ∧ Truthful w op answer

/-- The functions that change the packet filter. -/
inductive Call where
  | setupBridge (bridge subnet : String) (nat : Bool)
  | publish (id bridge : String) (ip : Ipv4) (m : PortMapping)
  | cleanup (id : String)
  deriving Repr

/-- What a call runs. -/
def Call.body : Call → HostAct Unit
  | .setupBridge bridge subnet nat => PacketFilter.setupBridge bridge subnet nat
  | .publish id bridge ip m => PacketFilter.publish id bridge ip m
  | .cleanup id => do
      let _ ← PacketFilter.cleanup id
      return ()

/-- No text that a call puts into a rule has a line break. -/
def Call.OneLine : Call → Prop
  | .setupBridge bridge subnet _ =>
      '\n' ∉ bridge.toList ∧ '\n' ∉ subnet.toList
  | .publish id bridge _ m =>
      '\n' ∉ id.toList ∧ '\n' ∉ bridge.toList ∧ '\n' ∉ m.protocol.toList
  | .cleanup _ => True

/-- The id a call cleans up. -/
def Call.cleaned : Call → List String
  | .cleanup id => [id]
  | _ => []

/-- Calls one after another, whether or not they succeed. -/
def callEach : List Call → HostAct Unit
  | [] => return ()
  | call :: rest => do
      let _ ← call.body.attempt
      callEach rest

/-- Calls and a final `teardown_base`. -/
def callsThenTeardown (calls : List Call) : HostAct Unit := do
  callEach calls
  teardownBase

/-! ## The runtime's own rules -/

/-- The rules of the runtime outside its own chains. -/
def hooks : List Rule :=
  guardRule :: jumps

/-- A rule in one of the runtime's chains, or one of its hooks. -/
def ours (r : Rule) : Bool :=
  decide ((r.table, r.chain) ∈ ownChains) || decide (r ∈ hooks)

/-- A packet filter the runtime has not touched: no chain named `MYRUN-*` and no
comment that starts with `myrun:`.  Rules are in chains that exist, and jump to
chains that exist. -/
structure Untouched (w : World) : Prop where
  noChain : ∀ table chain, startsWith "MYRUN-" chain = true →
    (table, chain) ∉ w.chains
  noComment : ∀ r ∈ w.rules, ∀ text, ["--comment", text] <:+: r.args →
    startsWith "myrun:" text = false
  placed : ∀ r ∈ w.rules, w.hasChain r.table r.chain = true
  targets : ∀ r ∈ w.rules, ∀ chain, startsWith "MYRUN-" chain = true →
    r.refersTo chain = true → (r.table, chain) ∈ w.chains

/-- The rules that `cleanup` tries to delete. -/
def searched (w : World) (id : String) : List Rule :=
  (taggedArgs id fun table => some (w.dump table)).map fun found =>
    Rule.ofArgs found.1 found.2

/-- No printed line that `tagged_rules` keeps for one of the ids is cut into the
arguments of a rule that is there. -/
def Spared (w : World) (ids : List String) : Prop :=
  ∀ id ∈ ids, ∀ r ∈ searched w id, r ∉ w.rules

instance (w : World) (ids : List String) : Decidable (Spared w ids) :=
  inferInstanceAs (Decidable (∀ id ∈ ids, ∀ r ∈ searched w id, r ∉ w.rules))

/-- The packet filter is the original one with rules of the runtime mixed in. -/
structure Layered (original w : World) : Prop where
  chains : w.chains.filter (fun c => decide (c ∉ ownChains)) = original.chains
  rules : w.rules.filter (fun r => !ours r) = original.rules
  oneLine : ∀ r ∈ w.rules, ours r = true → '\n' ∉ r.printed
  once : ∀ r ∈ hooks, w.rules.count r ≤ 1
  refers : ∀ r ∈ w.rules, ∀ c ∈ ownChains, r.table = c.1 →
    r.refersTo c.2 = true → r ∈ jumps
  placed : ∀ r ∈ w.rules, (r.table, r.chain) ∈ ownChains →
    (r.table, r.chain) ∈ w.chains

private theorem ownChains_named
    {c : Table × String}
    (own : c ∈ ownChains) :
    startsWith "MYRUN-" c.2 = true ∧ c.2 ∉ c.1.builtinChains := by
  simp only [ownChains, List.mem_cons, List.not_mem_nil, or_false] at own
  rcases own with rfl | rfl | rfl
  all_goals decide +kernel

private theorem guard_commented :
    ["--comment", "myrun:base"] <:+: guardRule.args ∧
      startsWith "myrun:" "myrun:base" = true := by
  decide +kernel

private theorem jumps_refer :
    ∀ r ∈ jumps, ∃ c ∈ ownChains, r.table = c.1 ∧ r.refersTo c.2 = true := by
  decide +kernel

private theorem hooks_outside :
    ∀ h ∈ hooks, (h.table, h.chain) ∉ ownChains := by
  decide +kernel

private theorem hooks_refer :
    ∀ h ∈ hooks, ∀ c ∈ ownChains, h.refersTo c.2 = true → h ∈ jumps := by
  decide +kernel

private theorem hooks_oneLine :
    ∀ h ∈ hooks, '\n' ∉ h.printed := by
  decide +kernel

/-- An untouched packet filter has no rule of the runtime. -/
theorem Untouched.not_ours
    {w : World}
    (clean : Untouched w)
    {r : Rule}
    (member : r ∈ w.rules) :
    ours r = false := by
  rw [Bool.eq_false_iff]
  intro isOurs
  simp only [ours, Bool.or_eq_true, decide_eq_true_eq] at isOurs
  rcases isOurs with inOwn | isHook
  · obtain ⟨named, notBuiltin⟩ := ownChains_named inOwn
    have placed := clean.placed r member
    simp only [World.hasChain, Bool.or_eq_true, decide_eq_true_eq] at placed
    rcases placed with builtin | inChains
    · exact notBuiltin builtin
    · exact clean.noChain _ _ named inChains
  · rcases List.mem_cons.mp isHook with rfl | isJump
    · have silent := clean.noComment _ member _ guard_commented.1
      rw [guard_commented.2] at silent
      cases silent
    · obtain ⟨c, own, sameTable, refers⟩ := jumps_refer r isJump
      obtain ⟨named, -⟩ := ownChains_named own
      exact clean.noChain _ _ named
        (clean.targets r member c.2 named refers)

private theorem Untouched.layered
    {w : World}
    (clean : Untouched w) :
    Layered w w where
  chains := by
    rw [List.filter_eq_self]
    intro c member
    rw [decide_eq_true_eq]
    intro own
    exact clean.noChain c.1 c.2 (ownChains_named own).1 member
  rules := by
    rw [List.filter_eq_self]
    intro r member
    simp [clean.not_ours member]
  oneLine := by
    intro r member isOurs
    rw [clean.not_ours member] at isOurs
    cases isOurs
  once := by
    intro r isHook
    have absent : r ∉ w.rules := by
      intro member
      have notOurs := clean.not_ours member
      simp [ours, isHook] at notOurs
    simp [List.count_eq_zero.mpr absent]
  refers := by
    intro r member c own sameTable refers
    obtain ⟨named, -⟩ := ownChains_named own
    exact absurd (clean.targets r member c.2 named refers)
      (clean.noChain _ _ named)
  placed := by
    intro r member own
    have notOurs := clean.not_ours member
    simp [ours, own] at notOurs

/-! ## The search -/

/-- What is searched is a line of a rule that is there. -/
theorem mem_searched
    {w : World}
    {id : String}
    {r : Rule} :
    r ∈ searched w id ↔
      ∃ present ∈ w.rules, ∃ line ∈ shown present, ∃ args,
        taggedLine? id line = some args ∧
          Rule.ofArgs present.table args = r := by
  have tables : ∀ table, table ∈ [Table.nat, Table.filter] := by
    rintro (_ | _)
    all_goals simp
  simp only [searched, taggedArgs, taggedInText, List.mem_map,
    List.mem_flatMap, List.mem_filterMap, lines_dump, List.mem_filter,
    decide_eq_true_eq]
  constructor
  · rintro ⟨_, ⟨table, -, args, ⟨line, ⟨present, ⟨member, rfl⟩, shown⟩,
      isTagged⟩, rfl⟩, rfl⟩
    exact ⟨present, member, line, shown, args, isTagged, rfl⟩
  · rintro ⟨present, member, line, shown, args, isTagged, rfl⟩
    exact ⟨_, ⟨present.table, tables _, args,
      ⟨line, ⟨present, ⟨member, rfl⟩, shown⟩, isTagged⟩, rfl⟩, rfl⟩

private theorem ownChains_plain
    {c : Table × String}
    (own : c ∈ ownChains) :
    c.2.toList ≠ [] ∧ c.2.toList.getLast? ≠ some '\r' ∧
      ∀ d ∈ c.2.toList, isWhitespace d = false ∧ d ≠ '"' := by
  simp only [ownChains, List.mem_cons, List.not_mem_nil, or_false] at own
  rcases own with rfl | rfl | rfl
  all_goals
    simp [chainPre, chainPost, chainFwd, isWhitespace]

private theorem hooks_ended :
    ∀ h ∈ hooks, h.printed.getLast? ≠ some '\r' := by
  decide +kernel

private theorem hooks_split :
    ∀ h ∈ hooks,
      (splitRuleFrom [] false (h.printed.drop 3)).map String.toList =
        (h.chain :: h.args).map String.toList := by
  decide +kernel

/-- What is read of a rule of the runtime is again a rule of the runtime. -/
theorem ours_of_searched
    {r : Rule}
    (isOurs : ours r = true)
    (oneLine : '\n' ∉ r.printed)
    {id line : String}
    (isShown : line ∈ shown r)
    {args : List String}
    (isTagged : taggedLine? id line = some args) :
    ours (Rule.ofArgs r.table args) = true := by
  obtain rfl := args_of_taggedLine isTagged
  simp only [ours, Bool.or_eq_true, decide_eq_true_eq] at isOurs ⊢
  rcases isOurs with own | isHook
  · -- the chain comes first, so it is the chain again
    refine .inl ?_
    obtain ⟨nonempty, notReturn, plain⟩ := ownChains_plain own
    obtain ⟨tail, printed, ends⟩ := line_chain r
    obtain ⟨text, isText, whole⟩ := shown_of_oneLine oneLine
    rw [isText, List.mem_singleton] at isShown
    subst isShown
    obtain ⟨rest, isRest, restEnds⟩ : ∃ rest,
        text = ['-', 'A', ' '] ++ (r.chain.toList ++ rest) ∧
          (rest = [] ∨ ∃ more, rest = ' ' :: more) := by
      rcases whole with same | short
      · exact ⟨tail, same.trans printed, ends⟩
      · rw [printed] at short
        rcases List.eq_nil_or_concat' tail with rfl | ⟨rest, last, rfl⟩
        · rw [List.append_nil] at short
          have ended := congrArg List.getLast? short
          rw [List.getLast?_append_of_ne_nil _ nonempty,
            List.getLast?_concat] at ended
          exact absurd ended.symm notReturn
        · rw [← List.append_assoc, ← List.append_assoc] at short
          obtain ⟨front, isLast⟩ := List.append_inj' short rfl
          refine ⟨rest, by rw [front, List.append_assoc], ?_⟩
          cases rest with
          | nil =>
              exact .inl rfl
          | cons c rest =>
              rcases ends with empty | ⟨more, isMore⟩
              · cases empty
              · exact .inr ⟨rest, by
                  rw [(List.cons.inj isMore).1]⟩
    have isChain : (splitRule (String.ofList
        ((String.ofList text).toList.drop 3))).headD "" = r.chain := by
      rw [String.toList_ofList, isRest]
      exact (splitRule_head nonempty plain restEnds).trans String.ofList_toList
    rw [Rule.ofArgs]
    simp only [isChain]
    exact own
  · obtain ⟨text, isText, whole⟩ := shown_of_oneLine oneLine
    have isLine : text = r.printed := by
      refine whole.resolve_right fun short => hooks_ended r isHook ?_
      rw [← short, List.getLast?_concat]
    rw [isText, List.mem_singleton, isLine] at isShown
    subst isShown
    have sameArgs := (List.map_inj_right fun _ _ => String.toList_inj.mp).mp
      (hooks_split r isHook)
    rw [String.toList_ofList, splitRule, String.toList_ofList, sameArgs]
    exact .inr isHook

/-! ## Deleting a list of rules -/

section Diff

variable {α : Type} [DecidableEq α]

private theorem filter_diff
    (keep : α → Bool)
    (present deleted : List α) :
    (present.diff deleted).filter keep = (present.filter keep).diff deleted := by
  induction deleted generalizing present with
  | nil =>
      rfl
  | cons a deleted inductionHypothesis =>
      rw [List.diff_cons, List.diff_cons, inductionHypothesis,
        List.erase_filter]

/-- Nothing is deleted exactly when nothing that is deleted was there. -/
theorem diff_eq_self_iff
    {present deleted : List α} :
    present.diff deleted = present ↔ ∀ a ∈ deleted, a ∉ present := by
  constructor
  · intro same a isDeleted
    have counted := List.count_diff a present deleted
    have positive := List.count_pos_iff.mpr isDeleted
    rw [same] at counted
    rw [← List.count_eq_zero]
    omega
  · intro apart
    induction deleted with
    | nil =>
        rfl
    | cons a deleted inductionHypothesis =>
        rw [List.diff_cons, List.erase_of_not_mem (apart a List.mem_cons_self)]
        exact inductionHypothesis fun b member =>
          apart b (List.mem_cons_of_mem a member)

end Diff

/-! ## One command -/

section Steps

variable {original w w' : World}

/-- A rule the runtime may append: it is in one of its chains, jumps to none of
them and is printed on one line. -/
structure Appendable (r : Rule) : Prop where
  own : (r.table, r.chain) ∈ ownChains
  noJump : ∀ c ∈ ownChains, r.refersTo c.2 = false
  oneLine : '\n' ∉ r.printed

private theorem Appendable.not_hook
    {r : Rule}
    (appendable : Appendable r) :
    r ∉ hooks :=
  fun isHook => hooks_outside r isHook appendable.own

private theorem Layered.append
    (layered : Layered original w)
    {r : Rule}
    (appendable : Appendable r)
    (ran : w.runIptables (.append r) = some w') :
    Layered original w' := by
  simp only [World.runIptables, Option.ite_none_right_eq_some,
    Option.some.injEq] at ran
  obtain ⟨exists_, rfl⟩ := ran
  have isOurs : ours r = true := by
    simp [ours, appendable.own]
  refine ⟨layered.chains, ?_, ?_, ?_, ?_, ?_⟩
  · simp [isOurs, layered.rules]
  · intro other member otherOurs
    rcases List.mem_append.mp member with old | new
    · exact layered.oneLine other old otherOurs
    · exact List.mem_singleton.mp new ▸ appendable.oneLine
  · intro h isHook
    have differs : h ≠ r := fun same => appendable.not_hook (same ▸ isHook)
    simpa [List.count_append, List.count_singleton, differs.symm] using
      layered.once h isHook
  · intro other member c own sameTable refers
    rcases List.mem_append.mp member with old | new
    · exact layered.refers other old c own sameTable refers
    · obtain rfl := List.mem_singleton.mp new
      rw [appendable.noJump c own] at refers
      cases refers
  · intro other member own
    rcases List.mem_append.mp member with old | new
    · exact layered.placed other old own
    · obtain rfl := List.mem_singleton.mp new
      simp only [World.hasChain, Bool.or_eq_true, decide_eq_true_eq] at exists_
      exact exists_.resolve_left (ownChains_named own).2

private theorem Layered.insert
    (layered : Layered original w)
    {r : Rule}
    (isHook : r ∈ hooks)
    (absent : r ∉ w.rules)
    (ran : w.runIptables (.insert r) = some w') :
    Layered original w' := by
  simp only [World.runIptables, Option.ite_none_right_eq_some,
    Option.some.injEq] at ran
  obtain ⟨-, rfl⟩ := ran
  have isOurs : ours r = true := by
    simp [ours, isHook]
  refine ⟨layered.chains, ?_, ?_, ?_, ?_, ?_⟩
  · simp [isOurs, layered.rules]
  · intro other member otherOurs
    rcases List.mem_cons.mp member with rfl | old
    · exact hooks_oneLine other isHook
    · exact layered.oneLine other old otherOurs
  · intro h hook
    by_cases same : h = r
    · subst same
      simp [List.count_eq_zero.mpr absent]
    · rw [List.count_cons_of_ne (Ne.symm same)]
      exact layered.once h hook
  · intro other member c own sameTable refers
    rcases List.mem_cons.mp member with rfl | old
    · exact hooks_refer other isHook c own refers
    · exact layered.refers other old c own sameTable refers
  · intro other member own
    rcases List.mem_cons.mp member with rfl | old
    · exact absurd own (hooks_outside other isHook)
    · exact layered.placed other old own

/-- Rules are taken away. -/
theorem Layered.remove
    (layered : Layered original w)
    {rules : List Rule}
    (fewer : rules.Sublist w.rules) :
    Layered { original with rules := rules.filter fun r => !ours r }
      { w with rules := rules } where
  chains := layered.chains
  rules := rfl
  oneLine := fun r member => layered.oneLine r (fewer.subset member)
  once := fun r isHook => (fewer.count_le r).trans (layered.once r isHook)
  refers := fun r member => layered.refers r (fewer.subset member)
  placed := fun r member => layered.placed r (fewer.subset member)

/-- Rules are taken away that are not original ones. -/
theorem Layered.removeOwn
    (layered : Layered original w)
    {rules : List Rule}
    (fewer : rules.Sublist w.rules)
    (kept : rules.filter (fun r => !ours r) = original.rules) :
    Layered original { w with rules := rules } := by
  have left := layered.remove fewer
  rw [kept] at left
  exact left

private theorem Layered.newChain
    (layered : Layered original w)
    {c : Table × String}
    (own : c ∈ ownChains) :
    Layered original { w with chains := w.chains ++ [c] } where
  chains := by
    rw [List.filter_append, layered.chains]
    simp [own]
  rules := layered.rules
  oneLine := layered.oneLine
  once := layered.once
  refers := layered.refers
  placed := fun r member own =>
    List.mem_append_left _ (layered.placed r member own)

/-- The packet filter alone matters. -/
theorem Layered.congr
    (layered : Layered original w)
    (sameRules : w'.rules = w.rules)
    (sameChains : w'.chains = w.chains) :
    Layered original w' := by
  obtain ⟨chains, rules, oneLine, once, refers, placed⟩ := layered
  rw [← sameRules] at rules oneLine once refers placed
  rw [← sameChains] at chains placed
  exact ⟨chains, rules, oneLine, once, refers, placed⟩

end Steps

/-! ## Whole functions -/

section Functions

variable {original : World} {α : Type}

/-- The program keeps the invariant, whether it succeeds or not. -/
def Keeps (original : World) (p : HostAct α) : Prop :=
  ∀ w, Layered original w →
    p.wp (.ofStep truthfulStep) w (fun _ => Layered original)
      fun _ => Layered original

private theorem Keeps.pure
    (value : α) :
    Keeps original (pure value : HostAct α) :=
  fun _ layered => layered

private theorem Keeps.bind
    {β : Type}
    {p : HostAct α}
    {f : α → HostAct β}
    (first : Keeps original p)
    (second : ∀ value, Keeps original (f value)) :
    Keeps original (p >>= f) := by
  intro w layered
  rw [Fallible.wp_bind]
  refine Fallible.wp_consequence ?_ (fun _ _ kept => kept) (first w layered)
  exact fun value w' kept => second value w' kept

private theorem Keeps.attempt
    {p : HostAct α}
    (keeps : Keeps original p) :
    Keeps original p.attempt := by
  intro w layered
  rw [Fallible.wp_attempt]
  exact keeps w layered

private theorem Keeps.mapErr
    {p : HostAct α}
    (keeps : Keeps original p)
    (f : Error → Error) :
    Keeps original (p.mapErr f) := by
  intro w layered
  rw [Fallible.wp_mapErr]
  exact keeps w layered

/-- A command that is run: what it does when it is accepted, and that nothing
happens when it is refused. -/
theorem wp_run
    {command : Iptables}
    {w : World}
    {ok : Unit → World → Prop}
    {err : Error → World → Prop}
    (accepted : ∀ w', w.runIptables command = some w' → ok () w')
    (refused : w.runIptables command = none → ∀ e, err e w) :
    (run command).wp (.ofStep truthfulStep) w ok err := by
  rintro (e | _) w' ⟨answered, truthful⟩
  · obtain rfl : w = w' := Option.some.inj answered
    exact refused truthful e
  · exact accepted w' answered

private theorem wp_runOk
    {command : Iptables}
    {w : World}
    {ok : Bool → World → Prop}
    {err : Error → World → Prop}
    (accepted : ∀ w', w.runIptables command = some w' → ok true w')
    (refused : w.runIptables command = none → ok false w) :
    (runOk command).wp (.ofStep truthfulStep) w ok err := by
  rw [runOk, Fallible.wp_bind, Fallible.wp_attempt]
  exact wp_run accepted fun no _ => refused no

private theorem runIptables_check
    {w w' : World}
    {r : Rule} :
    w.runIptables (.check r) = some w' ↔ r ∈ w.rules ∧ w = w' := by
  simp [World.runIptables, World.provided]

/-- `append_unique` and `insert_unique` differ in where the rule goes. -/
theorem keeps_unique
    {r : Rule}
    {command : Iptables}
    (adds : ∀ w w', Layered original w → r ∉ w.rules →
      w.runIptables command = some w' → Layered original w') :
    Keeps original (do
      if ← runOk (.check r) then return ()
      run command) := by
  intro w layered
  rw [Fallible.wp_bind]
  refine wp_runOk ?_ ?_
  · intro w' checked
    obtain ⟨-, rfl⟩ := runIptables_check.mp checked
    exact layered
  · intro checked
    have absent : r ∉ w.rules := by
      intro member
      rw [runIptables_check.mpr ⟨member, rfl⟩] at checked
      cases checked
    exact wp_run (fun w' ran => adds w w' layered absent ran)
      fun _ _ => layered

private theorem keeps_appendEach
    {rules : List Rule}
    (appendable : ∀ r ∈ rules, Appendable r) :
    Keeps original (appendEach rules) := by
  induction rules with
  | nil =>
      exact .pure ()
  | cons r rules inductionHypothesis =>
      have first : Keeps original (appendUnique r) :=
        keeps_unique fun w w' layered _ ran =>
          layered.append (appendable r List.mem_cons_self) ran
      exact first.bind fun _ => inductionHypothesis fun other member =>
        appendable other (List.mem_cons_of_mem r member)

private theorem keeps_insertEach
    {rules : List Rule}
    (areHooks : ∀ r ∈ rules, r ∈ hooks) :
    Keeps original (insertEach rules) := by
  induction rules with
  | nil =>
      exact .pure ()
  | cons r rules inductionHypothesis =>
      have first : Keeps original (insertUnique r) :=
        keeps_unique fun w w' layered absent ran =>
          layered.insert (areHooks r List.mem_cons_self) absent ran
      exact first.bind fun _ => inductionHypothesis fun other member =>
        areHooks other (List.mem_cons_of_mem r member)

private theorem keeps_createChains
    {chains : List (Table × String)}
    (own : ∀ c ∈ chains, c ∈ ownChains) :
    Keeps original (createChains chains) := by
  induction chains with
  | nil =>
      exact .pure ()
  | cons c chains inductionHypothesis =>
      have others : Keeps original (createChains chains) :=
        inductionHypothesis fun other member =>
          own other (List.mem_cons_of_mem c member)
      intro w layered
      rw [createChains, Fallible.wp_bind]
      refine wp_runOk ?_ ?_
      · intro w' listed
        simp only [World.runIptables, World.provided,
          Option.ite_none_right_eq_some, Option.some.injEq] at listed
        obtain ⟨-, rfl⟩ := listed
        exact others w layered
      · intro _
        rw [if_neg Bool.false_ne_true, Fallible.wp_bind]
        refine wp_run ?_ fun _ _ => layered
        intro w' made
        simp only [World.runIptables, Option.ite_none_left_eq_some,
          Option.some.injEq] at made
        obtain ⟨-, rfl⟩ := made
        exact others _ (layered.newChain (own c List.mem_cons_self))

private theorem keeps_ensureChains :
    Keeps original ensureChains := by
  refine (keeps_createChains fun c own => own).bind fun _ => ?_
  refine keeps_insertEach ?_
  decide +kernel

private theorem keeps_fault
    (point : String) :
    Keeps original (Fault.check point) := by
  rintro w layered (e | _) w' ⟨answered, -⟩
  all_goals
    obtain rfl : w = w' := Option.some.inj answered
    exact layered

private theorem keeps_enableSetting
    (path what : String) :
    Keeps original (enableSetting path what) := by
  have reads : Keeps original (readTrimmed path) := by
    refine Keeps.bind ?_ fun _ => .pure _
    rintro w layered (e | text) w' ⟨answered, -⟩
    all_goals
      obtain rfl : w = w' := Option.some.inj answered
      exact layered
  have writes : Keeps original (writeFile path "1") := by
    rintro w layered (e | _) w' ⟨answered, -⟩
    · obtain rfl : w = w' := Option.some.inj answered
      exact layered
    · obtain rfl := Option.some.inj answered
      exact layered.congr rfl rfl
  refine reads.attempt.bind fun outcome => ?_
  split
  · exact .pure ()
  · exact writes.mapErr _

private theorem appendable_baseRules
    {bridge subnet : String}
    {nat : Bool}
    (oneLine : (Call.setupBridge bridge subnet nat).OneLine) :
    ∀ r ∈ baseRules bridge subnet nat, Appendable r := by
  obtain ⟨bridgeLine, subnetLine⟩ := oneLine
  intro r member
  have known : r = masqueradeRule bridge subnet ∨ r ∈ bridgeRules bridge := by
    cases nat with
    | true =>
        simpa [baseRules] using member
    | false =>
        exact .inr (by simpa [baseRules] using member)
  simp only [bridgeRules, List.mem_cons, List.not_mem_nil, or_false] at known
  rcases known with rfl | rfl | rfl | rfl | rfl
  all_goals
    refine ⟨by simp [masqueradeRule, ownChains], ?_, ?_⟩
    · intro c own
      simp only [ownChains, List.mem_cons, List.not_mem_nil, or_false] at own
      rcases own with rfl | rfl | rfl
      all_goals
        simp [Rule.refersTo, masqueradeRule, comment, List.infix_cons_iff,
          List.cons_prefix_cons, chainPre, chainPost, chainFwd]
    · refine oneLine_of_args ?_ ?_
      · simp [masqueradeRule, chainPost, chainFwd]
      · simp [masqueradeRule, comment, tag, bridgeLine, subnetLine]

private theorem appendable_publishRules
    {id bridge : String}
    {ip : Ipv4}
    {m : PortMapping}
    (oneLine : (Call.publish id bridge ip m).OneLine) :
    ∀ r ∈ publishRules id bridge ip m, Appendable r := by
  obtain ⟨idLine, bridgeLine, protocolLine⟩ := oneLine
  intro r member
  simp only [publishRules, List.mem_cons, List.not_mem_nil, or_false] at member
  rcases member with rfl | rfl | rfl
  all_goals
    refine ⟨by simp [ownChains], ?_, ?_⟩
    · intro c own
      simp only [ownChains, List.mem_cons, List.not_mem_nil, or_false] at own
      rcases own with rfl | rfl | rfl
      all_goals
        simp [Rule.refersTo, comment, List.infix_cons_iff,
          List.cons_prefix_cons, chainPre, chainPost, chainFwd]
    · refine oneLine_of_args ?_ ?_
      · simp [chainPre, chainPost, chainFwd]
      · simp [comment, tag, idLine, bridgeLine, protocolLine,
          newline_not_mem_portText, newline_not_mem_formatIpv4]

private theorem keeps_setupBridge
    {bridge subnet : String}
    {nat : Bool}
    (oneLine : (Call.setupBridge bridge subnet nat).OneLine) :
    Keeps original (setupBridge bridge subnet nat) := by
  refine (keeps_enableSetting _ _).bind fun _ => ?_
  refine (keeps_enableSetting _ _).attempt.bind fun _ => ?_
  refine keeps_ensureChains.bind fun _ => ?_
  refine (keeps_appendEach (appendable_baseRules oneLine)).bind fun _ => ?_
  exact keeps_fault _

private theorem keeps_publish
    {id bridge : String}
    {ip : Ipv4}
    {m : PortMapping}
    (oneLine : (Call.publish id bridge ip m).OneLine) :
    Keeps original (publish id bridge ip m) :=
  keeps_ensureChains.bind fun _ =>
    keeps_appendEach (appendable_publishRules oneLine)

private theorem wp_deleteEach
    {rules : List Rule}
    {w : World}
    {ok : Nat → World → Prop}
    {err : Error → World → Prop}
    (holds : ∀ count, ok count { w with rules := w.rules.diff rules }) :
    (deleteEach rules).wp (.ofStep truthfulStep) w ok err := by
  induction rules generalizing w ok with
  | nil =>
      exact holds 0
  | cons r rules inductionHypothesis =>
      have others : ∀ gone : Bool,
          (do let others ← deleteEach rules
              return if gone = true then others + 1 else others :
            HostAct Nat).wp (.ofStep truthfulStep)
              { w with rules := w.rules.erase r } ok err := by
        intro gone
        rw [Fallible.wp_bind]
        refine inductionHypothesis fun count => ?_
        rw [← List.diff_cons]
        exact holds _
      rw [deleteEach, Fallible.wp_bind]
      refine wp_runOk ?_ ?_
      · intro w' deleted
        simp only [World.runIptables, Option.ite_none_right_eq_some,
          Option.some.injEq] at deleted
        obtain ⟨-, rfl⟩ := deleted
        exact others true
      · intro refused
        have notThere : r ∉ w.rules := by
          intro member
          simp [World.runIptables, member] at refused
        have same := others false
        rw [List.erase_of_not_mem notThere] at same
        exact same

/-- A deletion of any rules takes them from the original ones. -/
theorem Layered.diff
    {w : World}
    (layered : Layered original w)
    (deleted : List Rule) :
    Layered { original with rules := original.rules.diff deleted }
      { w with rules := w.rules.diff deleted } := by
  have fewer := layered.remove (List.diff_sublist w.rules deleted)
  rw [filter_diff, layered.rules] at fewer
  exact fewer

private theorem wp_taggedIn
    {id : String}
    {table : Table}
    {w : World}
    {ok : List (Table × List String) → World → Prop}
    {err : Error → World → Prop}
    (holds : ok (taggedInText id table (w.dump table)) w) :
    (taggedIn id table).wp (.ofStep truthfulStep) w ok err := by
  rw [taggedIn, Fallible.wp_bind, Fallible.wp_attempt]
  rintro (e | text) w' ⟨answered, truthful⟩
  · exact False.elim truthful
  · simp only [World.hostAnswer, World.provided, Option.ite_none_right_eq_some,
      Option.some.injEq] at answered
    obtain ⟨rfl, rfl⟩ := answered
    exact holds

private theorem wp_taggedRules
    {id : String}
    {w : World}
    {ok : List (Table × List String) → World → Prop}
    {err : Error → World → Prop}
    (holds : ok (taggedArgs id fun table => some (w.dump table)) w) :
    (taggedRules id).wp (.ofStep truthfulStep) w ok err := by
  have joined : taggedInText id .nat (w.dump .nat) ++
      taggedInText id .filter (w.dump .filter) =
        taggedArgs id fun table => some (w.dump table) := by
    simp only [taggedArgs, List.flatMap_cons, List.flatMap_nil, List.append_nil]
  rw [taggedRules, Fallible.wp_bind]
  refine wp_taggedIn ?_
  rw [Fallible.wp_bind]
  refine wp_taggedIn ?_
  rw [Fallible.wp_pure, joined]
  exact holds

/-- What is searched and is there is an original rule or one of the runtime. -/
theorem Layered.searched_iff
    {w : World}
    (layered : Layered original w)
    (id : String) :
    (∀ r ∈ searched w id, r ∉ original.rules) ↔ Spared original [id] := by
  have notOurs : ∀ {r}, r ∈ original.rules → ours r = false := by
    intro r member
    rw [← layered.rules] at member
    simpa using (List.mem_filter.mp member).2
  simp only [Spared, List.mem_singleton, forall_eq, mem_searched]
  constructor
  · rintro apart r ⟨present, old, rest⟩
    have member : present ∈ w.rules := by
      rw [← layered.rules] at old
      exact (List.mem_filter.mp old).1
    exact apart r ⟨present, member, rest⟩
  · rintro apart r ⟨present, member, line, isShown, args, isTagged, rfl⟩ old
    by_cases isOurs : ours present = true
    · have again := ours_of_searched isOurs
        (layered.oneLine present member isOurs) isShown isTagged
      rw [notOurs old] at again
      cases again
    · refine apart _ ⟨present, ?_, line, isShown, args, isTagged, rfl⟩ old
      rw [← layered.rules]
      exact List.mem_filter.mpr ⟨member, by simpa using isOurs⟩

/-- Some of the original rules are left, and all of them exactly when the search
for the ids spares them. -/
def Leaves (original : World) (ids : List String) (w : World) : Prop :=
  ∃ rules, rules.Sublist original.rules ∧
    Layered { original with rules := rules } w ∧
    (rules = original.rules ↔ Spared original ids)

private theorem Layered.leaves
    {w : World}
    (layered : Layered original w) :
    Leaves original [] w :=
  ⟨original.rules, List.Sublist.refl _, layered, by simp [Spared]⟩

private theorem spared_append
    {w : World}
    {ids more : List String} :
    Spared w (ids ++ more) ↔ Spared w ids ∧ Spared w more := by
  simp only [Spared, List.mem_append, or_imp, forall_and]

/-- What is left of what was left is everything exactly if all the ids spare it. -/
theorem spared_trans
    {ids more : List String}
    {rules rest : List Rule}
    (fewer : rules.Sublist original.rules)
    (spared : rules = original.rules ↔ Spared original ids)
    (restFewer : rest.Sublist rules)
    (restSpared : rest = rules ↔ Spared { original with rules := rules } more) :
    rest = original.rules ↔ Spared original (ids ++ more) := by
  rw [spared_append, ← spared]
  constructor
  · rintro rfl
    have same : rules = original.rules := fewer.antisymm restFewer
    subst same
    exact ⟨rfl, restSpared.mp rfl⟩
  · rintro ⟨rfl, others⟩
    exact restSpared.mpr others

/-- What was left is left in part. -/
theorem Leaves.trans
    {ids more : List String}
    {rules : List Rule}
    (fewer : rules.Sublist original.rules)
    (spared : rules = original.rules ↔ Spared original ids)
    {w : World}
    (leaves : Leaves { original with rules := rules } more w) :
    Leaves original (ids ++ more) w := by
  obtain ⟨rest, restFewer, layered, restSpared⟩ := leaves
  exact ⟨rest, restFewer.trans fewer, layered,
    spared_trans fewer spared restFewer restSpared⟩

private theorem wp_cleanup
    (id : String)
    {w : World}
    (layered : Layered original w)
    {err : Error → World → Prop} :
    (cleanup id).wp (.ofStep truthfulStep) w (fun _ => Leaves original [id])
      err := by
  have deletes : ∀ found, found = searched w id →
      (deleteEach found).wp (.ofStep truthfulStep) w
        (fun _ => Leaves original [id]) err := by
    intro found isFound
    refine wp_deleteEach fun _ => ?_
    rw [isFound]
    exact ⟨_, List.diff_sublist _ _, layered.diff (searched w id),
      diff_eq_self_iff.trans (layered.searched_iff id)⟩
  rw [cleanup, Fallible.wp_bind]
  refine wp_taggedRules ?_
  generalize isFound : (taggedArgs id fun table => some (w.dump table)) = found
  refine deletes _ ?_
  rw [← isFound, searched]

private theorem wp_callEach
    (calls : List Call)
    (oneLine : ∀ call ∈ calls, call.OneLine)
    {w : World}
    (layered : Layered original w)
    {err : Error → World → Prop} :
    (callEach calls).wp (.ofStep truthfulStep) w
      (fun _ => Leaves original (calls.flatMap Call.cleaned)) err := by
  induction calls generalizing original w with
  | nil =>
      exact layered.leaves
  | cons call calls inductionHypothesis =>
      have callLine := oneLine call List.mem_cons_self
      have others : ∀ w', Leaves original call.cleaned w' →
          (callEach calls).wp (.ofStep truthfulStep) w'
            (fun _ => Leaves original ((call :: calls).flatMap Call.cleaned))
            err := by
        rintro w' ⟨rules, fewer, layered', spared⟩
        refine Fallible.wp_consequence ?_ (fun _ _ holds => holds)
          (inductionHypothesis
            (fun other member => oneLine other (List.mem_cons_of_mem call member))
            layered')
        exact fun _ _ leaves => leaves.trans fewer spared
      have kept : Keeps original call.body → call.cleaned = [] →
          call.body.wp (.ofStep truthfulStep) w
            (fun _ => Leaves original call.cleaned)
            fun _ => Leaves original call.cleaned := by
        intro keeps none
        rw [none]
        exact Fallible.wp_consequence (fun _ _ layered' => layered'.leaves)
          (fun _ _ layered' => layered'.leaves) (keeps w layered)
      have body : call.body.wp (.ofStep truthfulStep) w
          (fun _ => Leaves original call.cleaned)
          fun _ => Leaves original call.cleaned := by
        cases call with
        | setupBridge bridge subnet nat =>
            exact kept (keeps_setupBridge callLine) rfl
        | publish id bridge ip m =>
            exact kept (keeps_publish callLine) rfl
        | cleanup id =>
            rw [Call.body, Fallible.wp_bind]
            exact wp_cleanup id layered
      rw [callEach, Fallible.wp_bind, Fallible.wp_attempt]
      exact Fallible.wp_consequence (fun _ => others) (fun _ => others) body

/-! ## Teardown -/

/-- The hooks are deleted, and no original rule with them. -/
theorem wp_deleteHooks
    {w : World}
    (layered : Layered original w)
    {err : Error → World → Prop} :
    (deleteEach hooks).wp (.ofStep truthfulStep) w
      (fun _ w' => Layered original w' ∧ ∀ r ∈ hooks, r ∉ w'.rules) err := by
  refine wp_deleteEach fun _ => ⟨?_, ?_⟩
  · have kept : original.rules.diff hooks = original.rules := by
      refine diff_eq_self_iff.mpr fun r isHook member => ?_
      rw [← layered.rules] at member
      have notOurs := (List.mem_filter.mp member).2
      simp [ours, isHook] at notOurs
    have fewer := layered.diff hooks
    rw [kept] at fewer
    exact fewer
  · intro r isHook
    -- there was only one copy
    have once := layered.once r isHook
    have listed := List.count_pos_iff.mpr isHook
    have left : (w.rules.diff hooks).count r = 0 := by
      rw [List.count_diff]
      omega
    exact List.count_eq_zero.mp left

/-- The hooks are gone, and so are the chains in a list with their rules. -/
structure Unhooked (original : World) (dropped : List (Table × String))
    (w : World) : Prop where
  layered : Layered original w
  noHook : ∀ r ∈ hooks, r ∉ w.rules
  noChain : ∀ c ∈ dropped, c ∉ w.chains
  noRule : ∀ r ∈ w.rules, (r.table, r.chain) ∉ dropped

private theorem Unhooked.flush
    {dropped : List (Table × String)}
    {w : World}
    (unhooked : Unhooked original dropped w)
    {c : Table × String}
    (own : c ∈ ownChains) :
    Unhooked original dropped
      { w with rules :=
          w.rules.filter fun r => ¬ (r.table = c.1 ∧ r.chain = c.2) } where
  layered := by
    refine unhooked.layered.removeOwn List.filter_sublist ?_
    rw [List.filter_filter, ← unhooked.layered.rules]
    refine List.filter_congr fun r _ => ?_
    by_cases isOurs : ours r = true
    · simp [isOurs]
    · have elsewhere : ¬ (r.table = c.1 ∧ r.chain = c.2) := by
        rintro ⟨sameTable, sameChain⟩
        refine isOurs ?_
        simp [ours, sameTable, sameChain, own]
      simp [isOurs, elsewhere]
  noHook := fun r isHook member =>
    unhooked.noHook r isHook (List.mem_of_mem_filter member)
  noChain := unhooked.noChain
  noRule := fun r member => unhooked.noRule r (List.mem_of_mem_filter member)

/-- Without its jumps nothing keeps an empty chain of the runtime. -/
theorem Unhooked.not_busy
    {dropped : List (Table × String)}
    {w : World}
    (unhooked : Unhooked original dropped w)
    {c : Table × String}
    (own : c ∈ ownChains)
    (empty : ∀ r ∈ w.rules, ¬ (r.table = c.1 ∧ r.chain = c.2)) :
    w.chainBusy c.1 c.2 = false := by
  rw [World.chainBusy, List.any_eq_false]
  intro r member busy
  simp only [Bool.and_eq_true, decide_eq_true_eq, Bool.or_eq_true] at busy
  obtain ⟨sameTable, sameChain | refers⟩ := busy
  · exact empty r member ⟨sameTable, sameChain⟩
  · have isJump := unhooked.layered.refers r member c own sameTable refers
    exact unhooked.noHook r (List.mem_cons_of_mem _ isJump) member

private theorem Unhooked.drop
    {dropped : List (Table × String)}
    {w : World}
    (unhooked : Unhooked original dropped w)
    {c : Table × String}
    (own : c ∈ ownChains)
    (empty : ∀ r ∈ w.rules, ¬ (r.table = c.1 ∧ r.chain = c.2)) :
    Unhooked original (dropped ++ [c])
      { w with chains := w.chains.filter (· ≠ c) } where
  layered :=
    { chains := by
        rw [List.filter_filter, ← unhooked.layered.chains]
        refine List.filter_congr fun other _ => ?_
        by_cases same : other = c
        · simp [same, own]
        · simp [same]
      rules := unhooked.layered.rules
      oneLine := unhooked.layered.oneLine
      once := unhooked.layered.once
      refers := unhooked.layered.refers
      placed := by
        intro r member ownChain
        refine List.mem_filter.mpr
          ⟨unhooked.layered.placed r member ownChain, ?_⟩
        rw [decide_eq_true_eq]
        rintro rfl
        exact empty r member ⟨rfl, rfl⟩ }
  noHook := unhooked.noHook
  noChain := by
    intro other isDropped
    rcases List.mem_append.mp isDropped with old | new
    · exact fun still => unhooked.noChain other old (List.mem_of_mem_filter still)
    · obtain rfl := List.mem_singleton.mp new
      simp
  noRule := by
    intro r member isDropped
    rcases List.mem_append.mp isDropped with old | new
    · exact unhooked.noRule r member old
    · obtain rfl := List.mem_singleton.mp new
      exact empty r member ⟨rfl, rfl⟩

private theorem wp_dropChains
    {chains : List (Table × String)}
    (dropped : List (Table × String))
    (own : ∀ c ∈ chains, c ∈ ownChains)
    {w : World}
    (unhooked : Unhooked original dropped w)
    {err : Error → World → Prop} :
    (dropChains chains).wp (.ofStep truthfulStep) w
      (fun _ => Unhooked original (dropped ++ chains)) err := by
  induction chains generalizing w dropped with
  | nil =>
      rw [List.append_nil]
      exact unhooked
  | cons c chains inductionHypothesis =>
      have isOwn := own c List.mem_cons_self
      have notBuiltin := (ownChains_named isOwn).2
      have others : ∀ w', Unhooked original (dropped ++ [c]) w' →
          (dropChains chains).wp (.ofStep truthfulStep) w'
            (fun _ => Unhooked original (dropped ++ c :: chains)) err := by
        intro w' unhooked'
        have split : dropped ++ c :: chains = dropped ++ [c] ++ chains := by
          simp
        rw [split]
        exact inductionHypothesis (dropped ++ [c])
          (fun other member => own other (List.mem_cons_of_mem c member))
          unhooked'
      rw [dropChains, Fallible.wp_bind]
      refine wp_runOk ?_ ?_
      · intro w' flushed
        simp only [World.runIptables, World.hasChain, notBuiltin,
          decide_false, Bool.false_or, decide_eq_true_eq,
          Option.ite_none_right_eq_some, Option.some.injEq] at flushed
        obtain ⟨existed, rfl⟩ := flushed
        have flushedState := unhooked.flush isOwn
        have empty : ∀ r ∈ w.rules.filter
            (fun r => ¬ (r.table = c.1 ∧ r.chain = c.2)),
            ¬ (r.table = c.1 ∧ r.chain = c.2) := by
          intro r member
          exact of_decide_eq_true (List.mem_filter.mp member).2
        have idle := flushedState.not_busy isOwn empty
        rw [Fallible.wp_bind]
        refine wp_runOk ?_ ?_
        · intro w'' deleted
          simp only [World.runIptables, Option.ite_none_right_eq_some,
            Option.some.injEq] at deleted
          obtain ⟨-, rfl⟩ := deleted
          exact others _ (flushedState.drop isOwn empty)
        · intro refused
          simp only [World.runIptables, existed, idle, and_self,
            ↓reduceIte] at refused
          cases refused
      · intro refused
        have missing : c ∉ w.chains := by
          intro existed
          simp [World.runIptables, World.hasChain, existed] at refused
        have empty : ∀ r ∈ w.rules, ¬ (r.table = c.1 ∧ r.chain = c.2) := by
          rintro r member ⟨sameTable, sameChain⟩
          refine missing ?_
          have placed := unhooked.layered.placed r member
          rw [sameTable, sameChain] at placed
          exact placed isOwn
        have same : w.chains.filter (· ≠ c) = w.chains := by
          rw [List.filter_eq_self]
          intro other member
          simpa using fun same : other = c => missing (same ▸ member)
        have droppedState := unhooked.drop isOwn empty
        rw [same] at droppedState
        rw [Fallible.wp_bind]
        refine wp_runOk ?_ fun _ => others w droppedState
        intro w' deleted
        simp [World.runIptables, missing] at deleted

/-- With every chain and hook gone the original rules are left. -/
theorem Unhooked.restored
    {w : World}
    (unhooked : Unhooked original ownChains w) :
    w.rules = original.rules ∧ w.chains = original.chains := by
  constructor
  · rw [← unhooked.layered.rules, eq_comm, List.filter_eq_self]
    intro r member
    have notHook : r ∉ hooks := fun isHook =>
      unhooked.noHook r isHook member
    simp [ours, unhooked.noRule r member, notHook]
  · rw [← unhooked.layered.chains, eq_comm, List.filter_eq_self]
    intro c member
    rw [decide_eq_true_eq]
    exact fun own => unhooked.noChain c own member

private theorem wp_teardownBase
    {w : World}
    (layered : Layered original w)
    {err : Error → World → Prop} :
    teardownBase.wp (.ofStep truthfulStep) w
      (fun _ w' => w'.rules.Sublist original.rules ∧
        w'.chains = original.chains ∧
          (w'.rules = original.rules ↔ Spared original ["base"])) err := by
  rw [teardownBase, Fallible.wp_bind]
  refine Fallible.wp_consequence ?_ (fun _ _ holds => holds)
    (wp_cleanup "base" layered)
  rintro _ w' ⟨rules, fewer, layered', spared⟩
  rw [Fallible.wp_bind]
  refine Fallible.wp_consequence ?_ (fun _ _ holds => holds)
    (wp_deleteHooks layered')
  rintro _ w'' ⟨layered'', noHook⟩
  refine Fallible.wp_consequence ?_ (fun _ _ holds => holds)
    (wp_dropChains [] (fun c own => own)
      ⟨layered'', noHook, by simp, by simp⟩)
  intro _ last unhooked
  obtain ⟨sameRules, sameChains⟩ := unhooked.restored
  exact ⟨sameRules ▸ fewer, sameChains, sameRules ▸ spared⟩

/-- The ids that the calls and the final `teardown_base` clean up. -/
def cleanedIds (calls : List Call) : List String :=
  calls.flatMap Call.cleaned ++ ["base"]

private theorem wp_callsThenTeardown
    {w : World}
    (clean : Untouched w)
    {calls : List Call}
    (oneLine : ∀ call ∈ calls, call.OneLine) :
    (callsThenTeardown calls).wp (.ofStep truthfulStep) w
      (fun _ w' => w'.chains = w.chains ∧
        (w'.rules = w.rules ↔ Spared w (cleanedIds calls)))
      fun _ _ => False := by
  rw [callsThenTeardown, Fallible.wp_bind]
  refine Fallible.wp_consequence ?_ (fun _ _ impossible => impossible)
    (wp_callEach calls oneLine clean.layered)
  rintro _ w' ⟨rules, fewer, layered, spared⟩
  refine Fallible.wp_consequence ?_ (fun _ _ impossible => impossible)
    (wp_teardownBase layered)
  rintro _ w'' ⟨restFewer, sameChains, restSpared⟩
  exact ⟨sameChains, spared_trans fewer spared restFewer restSpared⟩

end Functions

/-- Every operation has an answer. -/
theorem exists_truthfulStep
    (w : World)
    (op : HostOp) :
    ∃ answer w', truthfulStep w op answer w' := by
  cases op with
  | iptables command =>
      cases ran : w.runIptables command with
      | none =>
          exact ⟨.error (.container ""), w, rfl, ran⟩
      | some w' =>
          exact ⟨.ok (), w', ran, trivial⟩
  | iptablesDump table =>
      exact ⟨.ok (w.dump table), w,
        by simp [World.hostAnswer, World.provided], trivial⟩
  | now => exact ⟨(0 : UInt64), w, rfl, trivial⟩
  | deadlinePassed => exact ⟨true, w, rfl, trivial⟩
  | sleep => exact ⟨(), w, rfl, trivial⟩
  | poll pid => exact ⟨Poll.timeout, w, rfl, trivial⟩
  | cgroupMount =>
      exact ⟨w.mount, w, by simp [World.hostAnswer, World.provided], trivial⟩
  | allowMissingControllers =>
      exact ⟨w.allowMissing, w, by simp [World.hostAnswer, World.provided],
        trivial⟩
  | dirExists path =>
      exact ⟨decide (path ∈ w.dirs), w,
        by simp [World.hostAnswer, World.provided], trivial⟩
  | fileExists path => exact ⟨true, w, rfl, trivial⟩
  | removeEmptyDir path => exact ⟨Rmdir.busy, w, rfl, trivial⟩
  | _ => exact ⟨.error (.io ""), w, rfl, trivial⟩

/-- Every program runs to its end. -/
theorem exists_exec
    {α : Type}
    (p : Prog HostOp HostAns α)
    (w : World) :
    ∃ value w', p.Exec truthfulStep w value w' := by
  induction p generalizing w with
  | ret value =>
      exact ⟨value, w, .ret value w⟩
  | call op next inductionHypothesis =>
      obtain ⟨answer, w', stepped⟩ := exists_truthfulStep w op
      obtain ⟨value, w'', rest⟩ := inductionHypothesis answer w'
      exact ⟨value, w'', .call stepped rest⟩

/--
After any calls `teardown_base` succeeds, the chains are those that were there
before the first call, and the rules are the same, in their order, exactly when
no printed line misleads the search for the tags that are cleaned up.
-/
theorem packet_filter_restored_iff
    (w : World)
    (clean : Untouched w)
    (calls : List Call)
    (oneLine : ∀ call ∈ calls, call.OneLine) :
    (∃ w', (callsThenTeardown calls).run.Exec truthfulStep w (.ok ()) w') ∧
      ∀ result w', (callsThenTeardown calls).run.Exec truthfulStep w result w' →
        (w'.rules = w.rules ∧ w'.chains = w.chains ↔
          Spared w (cleanedIds calls)) := by
  have each : ∀ result w',
      (callsThenTeardown calls).run.Exec truthfulStep w result w' →
        result = .ok () ∧ w'.chains = w.chains ∧
          (w'.rules = w.rules ↔ Spared w (cleanedIds calls)) := by
    intro result w' execution
    have holds := execution.of_wp (wp_callsThenTeardown clean oneLine)
    cases result with
    | ok value => exact ⟨rfl, holds⟩
    | error e => exact holds.elim
  constructor
  · obtain ⟨result, w', execution⟩ := exists_exec (callsThenTeardown calls).run w
    obtain ⟨rfl, -⟩ := each result w' execution
    exact ⟨w', execution⟩
  · intro result w' execution
    obtain ⟨-, sameChains, restored⟩ := each result w' execution
    rw [← restored]
    exact ⟨And.left, fun sameRules => ⟨sameRules, sameChains⟩⟩

/-- A rule of another tool. -/
def sshRule : Rule where
  table := .filter
  chain := "INPUT"
  args := ["-p", "tcp", "-j", "ACCEPT", "-m", "comment", "--comment", "ssh"]

/-- A rule of another tool whose comment names a tag. -/
def hintRule : Rule where
  table := .filter
  chain := "DOCKER-USER"
  args := ["-s", "10.87.0.2/32", "-m", "comment", "--comment", "see myrun:web",
    "-j", "ACCEPT"]

/-- A host with these rules. -/
def guardedHost : World where
  chains := [(.filter, "DOCKER-USER")]
  rules := [sshRule, hintRule]

/-- A container comes and goes. -/
def webCalls : List Call :=
  [.setupBridge "myrun0" "10.87.0.0/24" true,
    .publish "web" "myrun0" ⟨10, 87, 0, 2⟩
      { hostPort := 8080, containerPort := 80, protocol := "tcp" },
    .cleanup "web"]

theorem guardedHost_restored :
    Untouched guardedHost ∧ Spared guardedHost (cleanedIds webCalls) ∧
      ∃ w', (callsThenTeardown webCalls).run.Exec truthfulStep guardedHost
          (.ok ()) w' ∧
        w'.rules = guardedHost.rules ∧ w'.chains = guardedHost.chains := by
  have clean : Untouched guardedHost := by
    refine ⟨?_, ?_, by decide +kernel, ?_⟩
    · intro table chain named member
      obtain ⟨-, rfl⟩ : table = .filter ∧ chain = "DOCKER-USER" := by
        simpa [guardedHost] using member
      revert named
      decide +kernel
    · intro r member text isComment
      simp only [guardedHost, List.mem_cons, List.not_mem_nil, or_false] at member
      rcases member with rfl | rfl
      · obtain rfl : text = "ssh" := by
          simpa [sshRule, List.infix_cons_iff, List.cons_prefix_cons] using
            isComment
        decide +kernel
      · obtain rfl : text = "see myrun:web" := by
          simpa [hintRule, List.infix_cons_iff, List.cons_prefix_cons] using
            isComment
        decide +kernel
    · intro r member chain named refers
      have target : chain = "ACCEPT" := by
        simp only [guardedHost, List.mem_cons, List.not_mem_nil,
          or_false] at member
        rcases member with rfl | rfl
        all_goals
          simpa [Rule.refersTo, sshRule, hintRule, List.infix_cons_iff,
            List.cons_prefix_cons] using refers
      have other : startsWith "MYRUN-" "ACCEPT" = false := by
        decide +kernel
      rw [target, other] at named
      cases named
  have oneLine : ∀ call ∈ webCalls, call.OneLine := by
    intro call member
    simp only [webCalls, List.mem_cons, List.not_mem_nil, or_false] at member
    rcases member with rfl | rfl | rfl
    all_goals
      simp [Call.OneLine]
  have spared : Spared guardedHost (cleanedIds webCalls) := by
    decide +kernel
  obtain ⟨⟨w', execution⟩, restored⟩ :=
    packet_filter_restored_iff guardedHost clean webCalls oneLine
  exact ⟨clean, spared, w', execution,
    (restored _ w' execution).mpr spared⟩

/-- A rule of another tool that searches packets for a text.  It has no
comment. -/
def stringRule : Rule where
  table := .filter
  chain := "INPUT"
  args := ["-m", "string", "--string", "--comment myrun:base", "--algo", "bm",
    "--to", "65535", "-j", "DROP"]

/-- A host with that rule. -/
def searchingHost : World where
  rules := [stringRule]

/-- The rule is taken for one of the shared rules and deleted. -/
theorem stringRule_deleted :
    Untouched searchingHost ∧
      ∃ w', (callsThenTeardown
          [.setupBridge "myrun0" "10.87.0.0/24" true]).run.Exec truthfulStep
            searchingHost (.ok ()) w' ∧
        w'.rules ≠ searchingHost.rules := by
  have clean : Untouched searchingHost := by
    refine ⟨by simp [searchingHost], ?_, by decide +kernel, ?_⟩
    · intro r member text isComment
      obtain rfl := List.mem_singleton.mp member
      simp [stringRule, List.infix_cons_iff, List.cons_prefix_cons] at isComment
    · intro r member chain named refers
      obtain rfl := List.mem_singleton.mp member
      have target : chain = "DROP" := by
        simpa [Rule.refersTo, stringRule, List.infix_cons_iff,
          List.cons_prefix_cons] using refers
      subst target
      revert named
      decide +kernel
  have oneLine : ∀ call ∈ [Call.setupBridge "myrun0" "10.87.0.0/24" true],
      call.OneLine := by
    simp [Call.OneLine]
  have misled : ¬ Spared searchingHost
      (cleanedIds [.setupBridge "myrun0" "10.87.0.0/24" true]) := by
    decide +kernel
  refine ⟨clean, ?_⟩
  obtain ⟨result, w', execution⟩ := exists_exec (callsThenTeardown
    [.setupBridge "myrun0" "10.87.0.0/24" true]).run searchingHost
  have holds := execution.of_wp (wp_callsThenTeardown clean oneLine)
  cases result with
  | ok _ => exact ⟨w', execution, fun same => misled (holds.2.mp same)⟩
  | error e => exact holds.elim

end PacketFilter

end Myrun
