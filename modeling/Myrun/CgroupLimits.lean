import Myrun.Cgroup

namespace Myrun

/-!
# The limits a new cgroup gets

`Cgroup::create` as a sequence of operations: which texts it has written when it
succeeds, and that it can succeed with writing nothing else.
-/

/-- The text an operation wrote, with its file. -/
def textWritten : (op : HostOp) × HostAns op → Option (String × String)
  | ⟨.writeText path text, .ok _⟩ => some (path, text)
  | _ => none

/-- The texts written, in order. -/
def written (trace : List ((op : HostOp) × HostAns op)) :
    List (String × String) :=
  trace.filterMap textWritten

private theorem written_append (front back : List ((op : HostOp) × HostAns op)) :
    written (front ++ back) = written front ++ written back :=
  List.filterMap_append

/-- The host does not allow missing controllers. -/
def Enforcing (trace : List ((op : HostOp) × HostAns op)) : Prop :=
  (⟨.allowMissingControllers, true⟩ : (op : HostOp) × HostAns op) ∉ trace

private theorem enforcing_append
    {front back : List ((op : HostOp) × HostAns op)} :
    Enforcing (front ++ back) ↔ Enforcing front ∧ Enforcing back := by
  simp [Enforcing, not_or]

private theorem joinPath_injective
    {dir a b : String}
    (same : joinPath dir a = joinPath dir b) :
    a = b := by
  have chars := congrArg String.toList same
  simp only [joinPath, String.toList_append, List.append_assoc,
    List.append_cancel_left_eq] at chars
  exact String.ext_iff.mpr chars

namespace Cgroup

/-! ## What is written -/

/-- `memory_swap` counts memory too. -/
def swapOnly (res : Resources) : Option UInt64 :=
  res.memorySwap.map fun s =>
    match res.memory with
    | some m => if s < m then 0 else s - m
    | none => s

/-- A limit: the controller, the file and the text if it is set. -/
structure LimitText where
  controller : String
  file : String
  text : Option String

/-- The limits in the order of `apply`. -/
def limitTexts [F64Ops] (res : Resources) : List LimitText :=
  [⟨"memory", "memory.max", res.memory.map Resources.numberText⟩,
    ⟨"memory", "memory.swap.max", (swapOnly res).map Resources.numberText⟩,
    ⟨"cpu", "cpu.max", res.cpuMaxValue⟩,
    ⟨"cpu", "cpu.weight", res.cpuWeight.map Resources.numberText⟩,
    ⟨"pids", "pids.max", res.pids.map Resources.numberText⟩]

/-- A limit that is set needs its controller. -/
theorem controller_required [F64Ops]
    {res : Resources}
    {row : LimitText}
    (member : row ∈ limitTexts res)
    (set : row.text.isSome = true) :
    row.controller ∈ requiredFor res := by
  simp only [limitTexts, List.mem_cons, List.not_mem_nil, or_false] at member
  rcases member with rfl | rfl | rfl | rfl | rfl <;>
    simp_all [requiredFor, swapOnly, Resources.cpuMaxValue]

/-- The files written, with their texts. -/
def filesWritten [F64Ops] (cg : Cgroup) (res : Resources) :
    List (String × String) :=
  (limitTexts res).filterMap fun row =>
    row.text.map fun text => (joinPath cg.path row.file, text)

theorem mem_filesWritten_iff [F64Ops]
    {cg : Cgroup}
    {res : Resources}
    {file text : String} :
    (joinPath cg.path file, text) ∈ filesWritten cg res ↔
      ∃ row ∈ limitTexts res, row.file = file ∧ row.text = some text := by
  simp only [filesWritten, List.mem_filterMap, Option.map_eq_some_iff,
    Prod.mk.injEq]
  constructor
  · rintro ⟨row, member, value, set, path, rfl⟩
    exact ⟨row, member, joinPath_injective path, set⟩
  · rintro ⟨row, member, rfl, set⟩
    exact ⟨row, member, text, set, rfl, rfl⟩

private theorem write_performs
    {cg : Cgroup}
    {file value : String}
    {trace : List ((op : HostOp) × HostAns op)} :
    (cg.write file value).run.Performs trace (.ok ()) ↔
      trace = [⟨.writeText (joinPath cg.path file) value, .ok ()⟩] := by
  rw [write, Fallible.performs_mapErr]
  exact Prog.performs_perform_iff

/-- An unset limit is skipped, a set one is written. -/
theorem applyLimit_writes
    {cg : Cgroup}
    {controller file : String}
    {limit : Option String}
    {trace : List ((op : HostOp) × HostAns op)}
    (performed :
      (cg.applyLimit controller file limit).run.Performs trace (.ok ()))
    (has : limit.isSome = true → cg.has controller = true) :
    ∀ text ∈ limit, (joinPath cg.path file, text) ∈ written trace := by
  rintro text rfl
  rw [applyLimit, writeIf, has rfl] at performed
  rw [write_performs.mp performed]
  exact List.mem_singleton.mpr rfl

private theorem applySwap_writes
    {cg : Cgroup}
    {res : Resources}
    {trace : List ((op : HostOp) × HostAns op)}
    (performed : (cg.applySwap res).run.Performs trace (.ok ()))
    (has : res.memorySwap.isSome = true → cg.has "memory" = true) :
    ∀ text ∈ (swapOnly res).map Resources.numberText,
      (joinPath cg.path "memory.swap.max", text) ∈ written trace := by
  intro text set
  unfold applySwap at performed
  unfold swapOnly at set
  cases total : res.memorySwap with
  | none =>
      rw [total] at set
      cases set
  | some s =>
      rw [total] at performed set has
      rw [← Option.some.inj set]
      exact @applyLimit_writes _ _ _ (some _) _ performed has _ rfl

/-- `apply` writes every limit that is set. -/
theorem apply_writes [F64Ops]
    {cg : Cgroup}
    {res : Resources}
    {trace : List ((op : HostOp) × HostAns op)}
    (performed : (cg.apply res).run.Performs trace (.ok ()))
    (has : ∀ controller ∈ requiredFor res, cg.has controller = true) :
    ∀ row ∈ limitTexts res, ∀ text ∈ row.text,
      (joinPath cg.path row.file, text) ∈ written trace := by
  have needed : ∀ row ∈ limitTexts res, row.text.isSome = true →
      cg.has row.controller = true :=
    fun row member set => has _ (controller_required member set)
  unfold apply at performed
  simp only [Fallible.performs_bind_ok] at performed
  obtain ⟨memory, _, rest, rfl, onMemory, swap, _, rest, rfl, onSwap, cpu, _,
    rest, rfl, onCpu, weight, _, pids, rfl, onWeight, onPids⟩ := performed
  simp only [limitTexts, List.forall_mem_cons, List.not_mem_nil,
    false_implies, implies_true, and_true, written_append, List.mem_append]
    at needed ⊢
  obtain ⟨memoryHas, swapHas, cpuHas, weightHas, pidsHas⟩ := needed
  refine ⟨fun text set => .inl ?_, fun text set => .inr (.inl ?_),
    fun text set => .inr (.inr (.inl ?_)),
    fun text set => .inr (.inr (.inr (.inl ?_))),
    fun text set => .inr (.inr (.inr (.inr ?_)))⟩
  · exact applyLimit_writes onMemory memoryHas text set
  · refine applySwap_writes onSwap (fun isSet => swapHas ?_) text set
    simpa [swapOnly] using isSet
  · exact applyLimit_writes onCpu cpuHas text set
  · exact applyLimit_writes onWeight weightHas text set
  · exact applyLimit_writes onPids pidsHas text set

private theorem requireControllers_ok
    {mount : String}
    {missing : List String}
    {trace : List ((op : HostOp) × HostAns op)}
    (performed :
      (requireControllers mount missing).run.Performs trace (.ok ()))
    (enforcing : Enforcing trace) :
    missing = [] := by
  unfold requireControllers at performed
  cases missing with
  | nil =>
      rfl
  | cons c rest =>
      simp only [List.isEmpty_cons, Bool.false_eq_true, if_false,
        Fallible.performs_bind_ok] at performed
      obtain ⟨_, available, later, rfl, _, asked, allowed, last, rfl, answered,
        refused⟩ := performed
      cases allowed with
      | false =>
          exact absurd refused Fallible.performs_error
      | true =>
          have asks := Prog.performs_perform_iff.mp
            (Fallible.performs_lift.mp answered)
          refine absurd ?_ enforcing
          rw [asks]
          simp

/-- A cgroup that was created has every controller its limits need, and the
limits were applied to it. -/
theorem create_applies [F64Ops]
    {id : String}
    {res : Resources}
    {cg : Cgroup}
    {trace : List ((op : HostOp) × HostAns op)}
    (performed : (create id res).run.Performs trace (.ok cg))
    (enforcing : Enforcing trace) :
    (∀ controller ∈ requiredFor res, cg.has controller = true) ∧
    ∃ front middle back, trace = front ++ middle ++ back ∧
      (cg.apply res).run.Performs middle (.ok ()) := by
  unfold create at performed
  simp only [Fallible.performs_bind_ok] at performed
  obtain ⟨t1, mount, _, rfl, _, t2, _, _, rfl, _, t3, _, _, rfl, _, t4, enabled,
    _, rfl, _, t5, _, _, rfl, required, t6, _, _, rfl, _, t7, _, _, rfl, _, t8,
    outcome, t9, rfl, finished, returned⟩ := performed
  simp only [enforcing_append] at enforcing
  have none_ := requireControllers_ok required enforcing.2.2.2.2.1
  cases outcome with
  | error e =>
      simp only [Fallible.performs_bind_ok] at returned
      obtain ⟨_, _, _, rfl, _, failed⟩ := returned
      exact absurd failed Fallible.performs_error
  | ok done =>
      obtain ⟨rfl, rfl⟩ := Fallible.performs_pure_ok.mp returned
      rw [Fallible.performs_attempt, finish] at finished
      simp only [Fallible.performs_bind_ok] at finished
      obtain ⟨u1, _, _, rfl, _, u2, _, u3, rfl, applied, _⟩ := finished
      constructor
      · intro controller needed
        by_contra lacks
        have among := List.filter_eq_nil_iff.mp none_ controller needed
        simp [has] at lacks
        simp [lacks] at among
      · exact ⟨t1 ++ (t2 ++ (t3 ++ (t4 ++ (t5 ++ (t6 ++ (t7 ++ u1)))))), u2,
          u3 ++ [], by simp [List.append_assoc], applied⟩

/-- A new cgroup has every limit that is set in its file. -/
theorem create_writes [F64Ops]
    {id : String}
    {res : Resources}
    {cg : Cgroup}
    {trace : List ((op : HostOp) × HostAns op)}
    (performed : (create id res).run.Performs trace (.ok cg))
    (enforcing : Enforcing trace) :
    ∀ row ∈ limitTexts res, ∀ text ∈ row.text,
      (joinPath cg.path row.file, text) ∈ written trace := by
  obtain ⟨has, front, middle, back, rfl, applied⟩ :=
    create_applies performed enforcing
  intro row member text set
  rw [written_append, written_append, List.mem_append, List.mem_append]
  exact .inl (.inr (apply_writes applied has row member text set))

/-! ## A host on which nothing else is written -/

/-- The program can return a value after writing exactly these texts, on a host
that allows no missing controllers. -/
def Can {α : Type} (p : HostAct α) (value : Result α)
    (texts : List (String × String)) : Prop :=
  ∃ trace, p.run.Performs trace value ∧ Enforcing trace ∧
    written trace = texts

section Can

variable {α β : Type}

private theorem Can.pure (value : α) :
    Can (Pure.pure value : HostAct α) (.ok value) [] :=
  ⟨[], .ret _, List.not_mem_nil, rfl⟩

private theorem Can.bind
    {p : HostAct α}
    {f : α → HostAct β}
    {a : α}
    {b : β}
    {front back : List (String × String)}
    (first : Can p (.ok a) front)
    (second : Can (f a) (.ok b) back) :
    Can (p >>= f) (.ok b) (front ++ back) := by
  obtain ⟨t, performed, enforcing, rfl⟩ := first
  obtain ⟨u, continued, enforcing', rfl⟩ := second
  exact ⟨t ++ u, Fallible.performs_bind_ok.mpr ⟨t, a, u, rfl, performed,
    continued⟩, enforcing_append.mpr ⟨enforcing, enforcing'⟩,
    written_append t u⟩

/-- The second part writes all of it. -/
theorem Can.bind_silent
    {p : HostAct α}
    {f : α → HostAct β}
    {a : α}
    {b : β}
    {texts : List (String × String)}
    (first : Can p (.ok a) [])
    (second : Can (f a) (.ok b) texts) :
    Can (p >>= f) (.ok b) texts :=
  first.bind second

/-- A question whose answer is no written text. -/
theorem can_ask
    (op : HostOp)
    (answer : HostAns op)
    (enforcing : Enforcing [⟨op, answer⟩])
    (silent : textWritten ⟨op, answer⟩ = none) :
    Can (Fallible.lift (askHost op)) (.ok answer) [] := by
  refine ⟨[⟨op, answer⟩], Fallible.performs_lift.mpr (.call (.ret _)),
    enforcing, ?_⟩
  rw [written, List.filterMap_cons, silent]
  rfl

private theorem Can.attempt
    {p : HostAct α}
    {result : Result α}
    {texts : List (String × String)}
    (can : Can p result texts) :
    Can p.attempt (.ok result) texts := by
  obtain ⟨t, performed, enforcing, same⟩ := can
  exact ⟨t, Fallible.performs_attempt.mpr performed, enforcing, same⟩

private theorem Can.mapErr
    {p : HostAct α}
    {f : Error → Error}
    {value : α}
    {texts : List (String × String)}
    (can : Can p (.ok value) texts) :
    Can (p.mapErr f) (.ok value) texts := by
  obtain ⟨t, performed, enforcing, same⟩ := can
  exact ⟨t, Fallible.performs_mapErr.mpr performed, enforcing, same⟩

/-- A controller file lists all controllers. -/
theorem can_readList (path : String) :
    Can (readList path) (.ok wanted) [] := by
  have read : Can (readTrimmed path) (.ok "memory cpu pids") [] :=
    ⟨[⟨.readText path, .ok "memory cpu pids"⟩], .call (.ret _),
      by simp [Enforcing], rfl⟩
  exact read.attempt.bind (.pure wanted)

private theorem can_enableSubtree (dir : String) :
    Can (enableSubtree dir wanted) (.ok wanted) [] :=
  (can_readList _).bind (.pure wanted)

private theorem can_write (cg : Cgroup) (file value : String) :
    Can (cg.write file value) (.ok ()) [(joinPath cg.path file, value)] :=
  ⟨_, write_performs.mpr rfl, by simp [Enforcing], rfl⟩

private theorem can_write_fails (cg : Cgroup) (file value : String) :
    ∃ e, Can (cg.write file value) (.error e) [] :=
  ⟨_, [⟨.writeText (joinPath cg.path file) value, .error (.io "")⟩],
    .call (.ret _), by simp [Enforcing], rfl⟩

private theorem can_applyLimit
    {cg : Cgroup}
    {controller : String}
    (has : cg.has controller = true)
    (file : String)
    (limit : Option String) :
    Can (cg.applyLimit controller file limit) (.ok ())
      (limit.map fun text => (joinPath cg.path file, text)).toList := by
  cases limit with
  | none =>
      exact .pure ()
  | some text =>
      rw [applyLimit, writeIf, has]
      exact can_write cg file text

/-- Without `memory_swap` the write of a zero may fail. -/
theorem can_applySwap
    {cg : Cgroup}
    (has : cg.has "memory" = true)
    (res : Resources) :
    Can (cg.applySwap res) (.ok ())
      (((swapOnly res).map Resources.numberText).map fun text =>
        (joinPath cg.path "memory.swap.max", text)).toList := by
  unfold applySwap swapOnly
  cases res.memorySwap with
  | some s =>
      exact can_applyLimit has "memory.swap.max" (some _)
  | none =>
      cases res.memory with
      | none =>
          exact .pure ()
      | some m =>
          obtain ⟨e, fails⟩ := can_write_fails cg "memory.swap.max" "0"
          have skipped : Can (cg.writeIf "memory" "memory.swap.max" "0").attempt
              (.ok (.error e)) [] := by
            rw [writeIf, has]
            exact fails.attempt
          exact skipped.bind_silent (.pure ())

private theorem can_apply [F64Ops]
    {cg : Cgroup}
    (has : ∀ controller ∈ wanted, cg.has controller = true)
    (res : Resources) :
    Can (cg.apply res) (.ok ()) (filesWritten cg res) := by
  have memory := has "memory" (by decide)
  have cpu := has "cpu" (by decide)
  have pids := has "pids" (by decide)
  have texts : filesWritten cg res =
      (limitTexts res).flatMap fun row =>
        (row.text.map fun text => (joinPath cg.path row.file, text)).toList :=
    List.filterMap_eq_flatMap_toList _ _
  rw [texts, limitTexts]
  simp only [List.flatMap_cons, List.flatMap_nil, List.append_nil]
  unfold apply
  refine (can_applyLimit memory "memory.max" _).bind ?_
  refine (can_applySwap memory res).bind ?_
  refine (can_applyLimit cpu "cpu.max" _).bind ?_
  refine (can_applyLimit cpu "cpu.weight" _).bind ?_
  exact can_applyLimit pids "pids.max" _

private theorem can_fault (point : String) : Can (Fault.check point) (.ok ()) [] :=
  ⟨[⟨.fault point, .ok ()⟩], .call (.ret _), by simp [Enforcing], rfl⟩

/-- A cgroup can be created with nothing written but its limits. -/
theorem can_create [F64Ops]
    (id : String)
    (res : Resources) :
    ∃ cg : Cgroup, Can (create id res) (.ok cg) (filesWritten cg res) := by
  let cg : Cgroup := ⟨joinPath (joinPath "/c" baseName) id, wanted⟩
  have exists_ : ∀ path, Can (Fallible.lift (askHost (.dirExists path)))
      (.ok true) [] :=
    fun path => can_ask (.dirExists path) true (by simp [Enforcing]) rfl
  have mounted : Can mountPoint (.ok "/c") [] :=
    (can_ask .cgroupMount (some "/c") (by simp [Enforcing]) rfl).bind (.pure "/c")
  have base : ∀ path, Can (ensureBase path) (.ok ()) [] :=
    fun path => (exists_ path).bind (.pure ())
  have nothingMissing :
      (requiredFor res).filter (fun c => !wanted.contains c) = [] := by
    refine List.filter_eq_nil_iff.mpr fun c needed => ?_
    simp only [requiredFor, List.mem_append] at needed
    rcases needed with (memory | cpu) | pids
    · split at memory <;> simp_all [wanted]
    · split at cpu <;> simp_all [wanted]
    · split at pids <;> simp_all [wanted]
  have leftover : ∀ path, Can (removeLeftover path) (.ok ()) [] := by
    intro path
    have removed : Can (Fallible.lift (askHost (.removeEmptyDir path)))
        (.ok .removed) [] :=
      can_ask (.removeEmptyDir path) .removed (by simp [Enforcing]) rfl
    exact (exists_ path).bind (removed.bind (.pure ()))
  have made : ∀ path, Can (makeDir path) (.ok ()) [] := by
    intro path
    refine Can.mapErr ?_
    exact ⟨[⟨.makeDir path, .ok ()⟩], .call (.ret _), by simp [Enforcing], rfl⟩
  have has : ∀ controller ∈ wanted, cg.has controller = true := by
    simp [cg, Cgroup.has]
  have finished : Can (cg.finish res) (.ok ()) (filesWritten cg res) := by
    unfold finish
    refine (can_fault _).bind_silent ?_
    rw [← List.append_nil (filesWritten cg res)]
    exact (can_apply has res).bind (can_fault _)
  refine ⟨cg, ?_⟩
  unfold create
  refine mounted.bind_silent ?_
  refine (can_enableSubtree _).bind_silent ?_
  refine (base _).bind_silent ?_
  refine (can_enableSubtree _).bind_silent ?_
  rw [nothingMissing]
  refine Can.bind_silent (a := ()) (.pure ()) ?_
  refine (leftover _).bind_silent ?_
  refine (made _).bind_silent ?_
  rw [← List.append_nil (filesWritten cg res)]
  exact finished.attempt.bind (.pure cg)

end Can

end Cgroup

end Myrun
