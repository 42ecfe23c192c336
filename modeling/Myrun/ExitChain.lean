import Myrun.Inheritance
import Myrun.Init
import Myrun.StateFile

namespace Myrun

/-!
# The exit status from the workload to the state file

`ExitStatus::from_raw` of `src/sys/process.rs`, and what becomes of its result:
init puts it into an exit frame and exits with its shell code; the supervisor
takes it from the frame, or from its own `waitpid` on init when there is no
frame; the record goes to `state.json` and is read again.
-/

/-! ## Wait statuses -/

/-- `wifexited`. -/
def wifexited (status : Int32) : Bool :=
  status &&& 0x7f = 0

/-- `wexitstatus`. -/
def wexitstatus (status : Int32) : Int32 :=
  (status >>> 8) &&& 0xff

/-- `wifsignaled`. -/
def wifsignaled (status : Int32) : Bool :=
  decide ((0 : Int32) < ((status &&& 0x7f) + 1) >>> (1 : Int32))

/-- `wtermsig`. -/
def wtermsig (status : Int32) : Int32 :=
  status &&& 0x7f

/-- `ExitStatus::from_raw`. -/
def ExitStatus.fromRaw (status : Int32) : ExitStatus :=
  if wifexited status then { code := some (wexitstatus status), signal := none }
  else if wifsignaled status then
    { code := none, signal := some (wtermsig status) }
  else { code := none, signal := none }

/-- `ContainerState::effective_exit_code`. -/
def ContainerState.effectiveExitCode (st : ContainerState) : Int32 :=
  st.exitStatus.exitCode

/-- The number of a signal. -/
structure Signal where
  number : Nat
  valid : 1 ≤ number ∧ number ≤ 64

/-- How a process terminates; a signal may leave a core dump. -/
inductive Termination where
  | exited (code : UInt8)
  | killed (signal : Signal) (core : Bool)

namespace Termination

/-- The wait status the kernel reports. -/
def raw : Termination → Int32
  | exited code => Int32.ofNat (256 * code.toNat)
  | killed signal core =>
      Int32.ofNat (signal.number + if core then 128 else 0)

/-- The exit code, or the signal. -/
def status : Termination → ExitStatus
  | exited code => { code := some (Int32.ofNat code.toNat), signal := none }
  | killed signal _ =>
      { code := none, signal := some (Int32.ofNat signal.number) }

/-- The exit code, or 128 plus the signal. -/
def shellCode : Termination → Nat
  | exited code => code.toNat
  | killed signal _ => 128 + signal.number

private theorem shellCode_lt (t : Termination) : t.shellCode < 256 := by
  cases t with
  | exited code => exact code.toNat_lt
  | killed signal core =>
      have valid := signal.valid
      simp only [shellCode]
      omega

private theorem fromRaw_exited :
    ∀ code < 256,
      ExitStatus.fromRaw (Int32.ofNat (256 * code)) =
        { code := some (Int32.ofNat code), signal := none } := by
  decide +kernel

private theorem fromRaw_killed :
    ∀ signal < 65, 1 ≤ signal → ∀ core : Bool,
      ExitStatus.fromRaw (Int32.ofNat (signal + if core then 128 else 0)) =
        { code := none, signal := some (Int32.ofNat signal) } := by
  decide +kernel

/-- `from_raw` decodes how the process terminated. -/
theorem fromRaw_raw (t : Termination) :
    ExitStatus.fromRaw t.raw = t.status := by
  cases t with
  | exited code => exact fromRaw_exited code.toNat code.toNat_lt
  | killed signal core =>
      exact fromRaw_killed signal.number (Nat.lt_succ_of_le signal.valid.2)
        signal.valid.1 core

/-- The shell code of the status is that of the termination. -/
theorem exitCode_status (t : Termination) :
    t.status.exitCode = Int32.ofNat t.shellCode := by
  cases t with
  | exited code => rfl
  | killed signal core =>
      have added :
          ∀ n < 65,
            128 + Int32.ofNat n = Int32.ofNat (128 + n) := by
        decide +kernel
      exact added signal.number (Nat.lt_succ_of_le signal.valid.2)

end Termination

/-! ## The frame of init -/

/-- What init reports of the workload. -/
def Init.report (status : ExitStatus) : Channel.Message :=
  Channel.exitMessage (status.code.getD (-1)) (status.signal.getD 0)

/-- The wait status of init after `_exit(code)`: the low eight bits count. -/
def Init.waitStatus (code : Int32) : Int32 :=
  (code &&& 0xff) <<< 8

/-- The frame of the report, as the supervisor distinguishes frames. -/
theorem Init.report_toFrame (status : ExitStatus) :
    (Init.report status).toFrame =
      .exit (some (status.code.getD (-1), status.signal.getD 0)) := by
  have tag : (Init.report status).tag = Channel.tagExit := rfl
  have payload := Channel.parseExit_exitMessage
    (status.code.getD (-1)) (status.signal.getD 0)
  unfold Init.report at tag ⊢
  unfold Channel.Message.toFrame
  rw [tag, payload]
  rfl

/-- After its run, init reports the status and exits with its shell code. -/
theorem Init.main_reports :
    Init.main =
      Init.run.run.bind fun
        | .ok status =>
            (Init.askInit (.send (Init.report status).toFrame)).bind fun _ =>
              Init.askInit (.exit status.exitCode)
        | .error e =>
            (Init.askInit (.send (.error e.display))).bind fun _ =>
              Init.askInit (.exit e.exitCode) := by
  unfold Init.main
  congr 1
  funext result
  cases result with
  | error e => rfl
  | ok status =>
      dsimp only
      rw [Init.report_toFrame]

/-! ## The record -/

/-- Concluding a record leaves its configuration as it was. -/
theorem concludedWith_config
    (st : ContainerState)
    (status : ExitStatus)
    (now : UInt64) :
    (st.concludedWith status now).config = st.config := by
  have finished (st : ContainerState) :
      (st.finishedBy now).config = st.config := by
    unfold ContainerState.finishedBy
    split <;> rfl
  have recorded : (st.recordExit status now).config = st.config :=
    finished _
  unfold ContainerState.concludedWith ContainerState.transition
  split
  · rename_i moved outcome
    split at outcome
    · rw [← Except.ok.inj outcome]
      exact recorded
    · split at outcome
      · rw [← Except.ok.inj outcome]
        exact (finished _).trans recorded
      · cases outcome
  · exact recorded

/-- A state document with its required parts is read. -/
theorem fromJson_parts [F64Ops]
    {j part : Json}
    {config : ContainerConfig}
    {id : String}
    {status : Status}
    (hasConfig : j.get "config" = some part)
    (read : ContainerConfig.fromJson part = .ok config)
    (hasId : j.strField "id" = some id)
    (hasStatus :
      Status.parse ((j.strField "status").getD "stopped") = .ok status) :
    ∃ loaded,
      ContainerState.fromJson j = .ok loaded ∧
        loaded.exitCode = (j.i64Field "exit_code").map Int64.toInt32 ∧
          loaded.exitSignal =
            (j.i64Field "exit_signal").map Int64.toInt32 := by
  unfold ContainerState.fromJson
  rw [hasConfig, hasId, hasStatus]
  simp only [ContainerState.requirePart, Result.ok_bind, read]
  exact ⟨_, rfl, rfl, rfl⟩

/-- A saved record whose configuration can be read is loaded with its exit. -/
theorem loaded_exitStatus [F64Ops]
    (numerals : ∀ f, f.isFinite = true → Json.Readable f)
    {st : ContainerState}
    {config : ContainerConfig}
    (handed : handOver st.config = .ok config) :
    ∃ loaded,
      ContainerState.ofText st.toJson.toStringPretty = .ok loaded ∧
        loaded.exitStatus = st.exitStatus := by
  have read :
      ContainerConfig.fromJson st.config.toJson.asRead = .ok config := by
    simpa [handOver, parseJson_printed numerals] using handed
  have member (key : String) (value : Json)
      (found : st.toJson.asRead.get key = some value) :
      st.toJson.asRead.strField key = value.asStr ∧
        st.toJson.asRead.i64Field key = value.asI64 := by
    simp [Json.strField, Json.i64Field, found]
  have document := ContainerState.asRead_toJson st
  have idPart := member "id" (.str st.id) (by rw [document]; rfl)
  have statusPart :=
    member "status" (.str st.status.asStr) (by rw [document]; rfl)
  have codePart :=
    member "exit_code" (Json.ofOption Json.ofI32 st.exitCode)
      (by rw [document]; rfl)
  have signalPart :=
    member "exit_signal" (Json.ofOption Json.ofI32 st.exitSignal)
      (by rw [document]; rfl)
  have hasConfig :
      st.toJson.asRead.get "config" = some st.config.toJson.asRead := by
    rw [document]
    rfl
  have hasStatus :
      Status.parse ((st.toJson.asRead.strField "status").getD "stopped") =
        .ok st.status := by
    rw [statusPart.1]
    exact Status.parse_asStr_status _
  obtain ⟨loaded, ok, code, signal⟩ :=
    fromJson_parts hasConfig read idPart.1 hasStatus
  refine ⟨loaded, ?_, ?_⟩
  · simpa [ContainerState.ofText, parseJson_printed numerals] using ok
  · rw [codePart.2, asI64_ofOption] at code
    rw [signalPart.2, asI64_ofOption] at signal
    unfold ContainerState.exitStatus
    rw [code, signal]

/-- `wait_for_exit` ends with a status and a record, however long it is let run. -/
def Surroundings.Ends (s : Surroundings) (st : ContainerState)
    (running : Running) (arrivals : List Channel.Arrival)
    (status : ExitStatus) (record : ContainerState) : Prop :=
  ∃ rounds, ∀ more,
    s.listen (Supervisor.waitForExit (rounds + more) st running).run arrivals =
      some (.ok (status, record))

section Waiting

variable (s : Surroundings) (st : ContainerState) (running : Running)

/-- Enough rounds for a result are enough for ever. -/
theorem Surroundings.ends_of_listen
    {s : Surroundings}
    {st record : ContainerState}
    {running : Running}
    {arrivals : List Channel.Arrival}
    {status : ExitStatus}
    {rounds : Nat}
    (done :
      s.listen (Supervisor.waitForExit rounds st running).run arrivals =
        some (.ok (status, record))) :
    s.Ends st running arrivals status record := by
  refine ⟨rounds, fun more => ?_⟩
  induction more with
  | zero => exact done
  | succ more inductionHypothesis =>
      rw [waitForExit_eq] at inductionHypothesis ⊢
      exact listen_more_rounds s running.pid _ _ _ _ inductionHypothesis

/-- The record and the status of a `wait_for_exit` that heard of `fromInit`. -/
theorem ends_with
    {arrivals : List Channel.Arrival}
    {fromInit : Option ExitStatus}
    {rounds : Nat}
    {rest : List Channel.Arrival}
    (heard :
      s.listen
          ((Supervisor.recvLoop running.pid st none rounds).run.bind
            (Supervisor.concluded running)) arrivals =
        s.listen (Supervisor.concluded running (.ok (st, fromInit))) rest)
    {status : ExitStatus}
    (known : fromInit.or s.waited = some status) :
    ∃ record,
      s.Ends st running arrivals status record ∧
        record.exitStatus = status ∧ record.config = st.config := by
  obtain ⟨oom, finished⟩ :=
    listen_finish_record s running st fromInit rest
  rw [known, Option.getD_some] at finished
  have done := heard.trans finished
  rw [← waitForExit_eq] at done
  exact ⟨_, Surroundings.ends_of_listen done, (concludedWith_record _ _ _).1,
    concludedWith_config _ _ _⟩

/-- The exit frame of init arrives, in whatever pieces. -/
theorem ends_with_frame
    (status : ExitStatus)
    (decoded :
      Supervisor.exitOfFrame (status.code.getD (-1)) (status.signal.getD 0) =
        status)
    {arrivals : List Channel.Arrival}
    (cut : Channel.Cut arrivals (Channel.frame (Init.report status))) :
    ∃ record,
      s.Ends st running arrivals status record ∧
        record.exitStatus = status ∧ record.config = st.config := by
  have framed : (Init.report status).Framed := by
    simp [Channel.Message.Framed, Init.report, Channel.exitMessage,
      Channel.toLeBytes, Channel.maxPayload]
  rw [← List.append_nil (Channel.frame _)] at cut
  obtain ⟨rest, received, restCut⟩ := Channel.recv_frame framed cut
  have noted :
      (Init.report status).noteExit none = some status ∧
        (Init.report status).noteError st = st := by
    unfold Channel.Message.noteExit Channel.Message.noteError
    rw [Init.report_toFrame]
    exact ⟨congrArg some decoded, rfl⟩
  have heard :
      s.listen
          ((Supervisor.recvLoop running.pid st none (0 + 1 + 1)).run.bind
            (Supervisor.concluded running)) arrivals =
        s.listen (Supervisor.concluded running (.ok (st, some status))) [] := by
    rw [listen_message s running.pid _ received, noted.1, noted.2]
    exact listen_end s running.pid _ (Channel.recv_closed restCut) (by simp)
      _ _ _
  exact ends_with s st running heard rfl

/-- No frame arrives: the channel is closed, cut short or broken. -/
theorem ends_without_frame
    {arrivals rest : List Channel.Arrival}
    {result : Result (Option Channel.Message)}
    (received : Channel.recv arrivals = (result, rest))
    (missing : ∀ m, result ≠ .ok (some m))
    {status : ExitStatus}
    (waited : s.waited = some status) :
    ∃ record,
      s.Ends st running arrivals status record ∧
        record.exitStatus = status ∧ record.config = st.config := by
  have heard :
      s.listen
          ((Supervisor.recvLoop running.pid st none (0 + 1)).run.bind
            (Supervisor.concluded running)) arrivals =
        s.listen (Supervisor.concluded running (.ok (st, none))) rest :=
    listen_end s running.pid _ received missing _ _ _
  exact ends_with s st running heard waited

end Waiting

/-- The frame keeps the status of every termination. -/
theorem exitOfFrame_status (t : Termination) :
    Supervisor.exitOfFrame (t.status.code.getD (-1))
        (t.status.signal.getD 0) = t.status := by
  cases t with
  | exited code =>
      have every :
          ∀ n < 256,
            Supervisor.exitOfFrame (Int32.ofNat n) 0 =
              { code := some (Int32.ofNat n), signal := none } := by
        decide +kernel
      exact every code.toNat code.toNat_lt
  | killed signal core =>
      have every :
          ∀ n < 65, 1 ≤ n →
            Supervisor.exitOfFrame (-1) (Int32.ofNat n) =
              { code := none, signal := some (Int32.ofNat n) } := by
        decide +kernel
      exact every signal.number (Nat.lt_succ_of_le signal.valid.2)
        signal.valid.1

/-- What `waitpid` tells of an init that exited with the shell code. -/
theorem fromRaw_waitStatus (t : Termination) :
    ExitStatus.fromRaw (Init.waitStatus t.status.exitCode) =
      { code := some (Int32.ofNat t.shellCode), signal := none } := by
  have every :
      ∀ n < 256,
        ExitStatus.fromRaw (Init.waitStatus (Int32.ofNat n)) =
          { code := some (Int32.ofNat n), signal := none } := by
    decide +kernel
  rw [t.exitCode_status]
  exact every t.shellCode t.shellCode_lt

/--
The exit status survives. From the exit frame of init, the supervisor records
what init decoded, and the state file keeps it; from `waitpid` on init, when no
frame arrives, the exit code it records is the same.
-/
theorem exit_status_survives [F64Ops]
    (numerals : ∀ f, f.isFinite = true → Json.Readable f)
    (t : Termination)
    (s : Surroundings)
    (st : ContainerState)
    (running : Running)
    {config : ContainerConfig}
    (handed : handOver st.config = .ok config) :
    (∀ arrivals,
      Channel.Cut arrivals
          (Channel.frame (Init.report (ExitStatus.fromRaw t.raw))) →
        ∃ record loaded,
          s.Ends st running arrivals (ExitStatus.fromRaw t.raw) record ∧
            ContainerState.ofText record.toJson.toStringPretty = .ok loaded ∧
              record.exitStatus = ExitStatus.fromRaw t.raw ∧
                loaded.exitStatus = ExitStatus.fromRaw t.raw ∧
                  loaded.effectiveExitCode = Int32.ofNat t.shellCode) ∧
    (s.waited =
        some (ExitStatus.fromRaw
          (Init.waitStatus (ExitStatus.fromRaw t.raw).exitCode)) →
      ∀ arrivals rest result,
        Channel.recv arrivals = (result, rest) →
          (∀ m, result ≠ .ok (some m)) →
            ∃ status record loaded,
              s.Ends st running arrivals status record ∧
                ContainerState.ofText record.toJson.toStringPretty =
                    .ok loaded ∧
                  record.effectiveExitCode = Int32.ofNat t.shellCode ∧
                    loaded.effectiveExitCode = Int32.ofNat t.shellCode) := by
  rw [t.fromRaw_raw]
  constructor
  · intro arrivals cut
    obtain ⟨record, ends, recorded, same⟩ :=
      ends_with_frame s st running t.status (exitOfFrame_status t) cut
    rw [← same] at handed
    obtain ⟨loaded, ok, kept⟩ := loaded_exitStatus numerals handed
    have exit := kept.trans recorded
    refine ⟨record, loaded, ends, ok, recorded, exit, ?_⟩
    rw [ContainerState.effectiveExitCode, exit, t.exitCode_status]
  · intro waited arrivals rest result received missing
    rw [fromRaw_waitStatus] at waited
    obtain ⟨record, ends, recorded, same⟩ :=
      ends_without_frame s st running received missing waited
    rw [← same] at handed
    obtain ⟨loaded, ok, kept⟩ := loaded_exitStatus numerals handed
    refine ⟨_, record, loaded, ends, ok, ?_, ?_⟩
    · rw [ContainerState.effectiveExitCode, recorded]
      rfl
    · rw [ContainerState.effectiveExitCode, kept, recorded]
      rfl

/--
A workload killed by `SIGTERM`: init's report arrives in two pieces around an
interrupted call, or init is waited for after it closed the channel.
-/
theorem terminated_web_survives :
    let _ := unitOps
    let s : Surroundings :=
      { waited := some { code := some 143, signal := none }
        host := quietHost }
    let running : Running := { pid := 4242, cgroup := none }
    let status : ExitStatus := { code := none, signal := some 15 }
    let report := Channel.frame (Init.report status)
    (∃ record loaded,
      s.Ends killedWeb running
          [.piece (report.take 3), .failed Channel.eintr, .piece (report.drop 3)]
          status record ∧
        ContainerState.ofText record.toJson.toStringPretty = .ok loaded ∧
          loaded.exitStatus = status ∧ loaded.effectiveExitCode = 143) ∧
    ∃ status record loaded,
      s.Ends killedWeb running [] status record ∧
        ContainerState.ofText record.toJson.toStringPretty = .ok loaded ∧
          record.effectiveExitCode = 143 ∧ loaded.effectiveExitCode = 143 := by
  intro _ s running status report
  have survives := exit_status_survives unitOps_readable
    (.killed ⟨15, by decide⟩ false) s killedWeb running webConfig_survives
  have cut :
      Channel.Cut
        [.piece (report.take 3), .failed Channel.eintr, .piece (report.drop 3)]
        (report.take 3 ++ (report.drop 3 ++ [])) :=
    .piece (by decide +kernel) (.interrupted (.piece (by decide +kernel) .closed))
  rw [List.append_nil, List.take_append_drop] at cut
  refine ⟨?_, survives.2 (by decide +kernel) [] [] (.ok none) rfl (by simp)⟩
  obtain ⟨record, loaded, ends, read, -, exit, code⟩ := survives.1 _ cut
  exact ⟨record, loaded, ends, read, exit, code⟩

end Myrun
