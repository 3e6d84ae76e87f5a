import ContainerCommand.CommandLine.Execute
import ContainerCommand.Proofs.Task.Running

/-! The codes of runs.

Compiling fails by nothing that an invoker reports, so a run says by its code what the invoker has
reported, or that it has not been asked (`run_eq`). An invoker that starts processes fails by a process,
or by what keeps one from being started (`Invocation.invokeWith_failsBy`). The main statement,
`run_asks_once`, is about the whole of a run, whoever the invoker is: how often it is asked, for what, and
which code comes of its report. -/
namespace ContainerCommand
open Host

/-- The causes of failures of a process, and those that keep it from being started. -/
def Cause.IsInvocation : Cause → Prop
  | .execution _ | .nulInArgument | .host _ => True
  | _ => False

/-! ### What the invoker reports -/

namespace Invocation

variable {start : Starter}

theorem spawn_failsBy {disk : Disk} {program : String} {args : List String}
    {log : Option Location} :
    Outcome.FailsBy Cause.IsInvocation (spawn start disk program args log) := by
  unfold spawn
  refine .during ?_ _
  split
  · exact Outcome.failsBy_ofHost fun _ => trivial
  · exact Outcome.failsBy_fail trivial

theorem makeLog_failsBy {path : String} {disk : Disk} :
    Outcome.FailsBy Cause.IsInvocation (makeLog path disk).1 := by
  have hfailed : ∀ fault action, Outcome.FailsBy Cause.IsInvocation
      ((Outcome.fail (.host fault) : Outcome (Option Location)).during action) := fun _ _ =>
    .during (Outcome.failsBy_fail trivial) _
  unfold makeLog
  dsimp only
  split
  · exact hfailed _ _
  · split
    · exact hfailed _ _
    · exact Outcome.failsBy_ok _

theorem judge_failsBy {exitCode : Option Int} {stdout stderr : Capture} {log : Option String} :
    Outcome.FailsBy Cause.IsInvocation (judge exitCode stdout stderr log) := by
  unfold judge
  split
  · exact Outcome.failsBy_ok _
  · exact Outcome.failsBy_fail trivial

/-- Starting a program fails as making the file for its output does, or as starting it. -/
theorem start_failsBy {disk : Disk} {program : String} {args : List String}
    {log : Outcome (Option Location)} (h : Outcome.FailsBy Cause.IsInvocation log) :
    Outcome.FailsBy Cause.IsInvocation
      (Outcome.during ("run " ++ program) (log.bind (spawn start disk program args))) :=
  .during (.bind h fun _ => spawn_failsBy) _

/-- A command that has a program never fails for want of one. -/
theorem invokeWith_failsBy {limit : Nat} {invocation : Invocation} {disk : Disk}
    (h : invocation.argv ≠ []) :
    Outcome.FailsBy Cause.IsInvocation (invokeWith start limit invocation disk).1 := by
  obtain ⟨argv, redirect⟩ := invocation
  cases argv with
  | nil => exact absurd rfl h
  | cons program args =>
    unfold invokeWith
    dsimp only
    split
    · rename_i failure hfailure
      rintro _ ⟨⟩
      cases redirect with
      | none => exact start_failsBy (Outcome.failsBy_ok _) failure hfailure
      | some path => exact start_failsBy makeLog_failsBy failure hfailure
    · exact judge_failsBy

end Invocation

namespace CommandLine

/-! ### Codes -/

namespace Answer

variable {outcome : Outcome Completion}

theorem code_ofRun_eq_zero_iff :
    (ofRun outcome).code = 0 ↔ ∃ completion, outcome = .ok completion := by
  rcases outcome with ⟨cause, context⟩ | completion
  · cases cause <;> simp [ofRun, broken, failed]
  · simp [ofRun, completed]

theorem code_ofRun_eq_three_iff :
    (ofRun outcome).code = 3 ↔
      ∃ failure process, outcome = .error failure ∧ failure.cause = .execution process := by
  rcases outcome with ⟨cause, context⟩ | completion
  · cases cause <;> simp [ofRun, broken, failed]
  · simp [ofRun, completed]

/-- What keeps a command from being compiled is nothing that a process has done. -/
theorem ofRun_of_isCompilation {failure : Failure} (h : failure.cause.IsCompilation) :
    ofRun (.error failure) = failed failure := by
  obtain ⟨cause, context⟩ := failure
  cases cause with
  | execution process => cases h
  | _ => rfl

theorem code_ofRun_mem : (ofRun outcome).code ∈ [0, 1, 3] := by
  rcases outcome with ⟨cause, context⟩ | completion
  · cases cause <;> simp [ofRun, broken, failed]
  · simp [ofRun, completed]

end Answer

/-! ### Runs -/

/-- The invoker is asked to run what both files say, and this is what it reports. -/
def Reports (invoker : Nat → Invoker Disk) (registry : Registry) (disk : Disk) (config path : String)
    (report : Outcome Completion) : Prop :=
  ∃ settings file compiled, Config.load disk config = .ok settings ∧
    TaskFile.load disk path = .ok file ∧
    file.compile settings registry (TaskFile.isOn disk) = .ok compiled ∧
    (invoker settings.outputLimit compiled.command.invocation disk).1 = report

/-- What a run does before it asks the invoker: it loads both files and compiles the command. -/
def prepare (registry : Registry) (disk : Disk) (config path : String) :
    Outcome (Config × CompiledTask) := do
  let settings ← Config.load disk config
  let file ← TaskFile.load disk path
  return (settings, ← file.compile settings registry (TaskFile.isOn disk))

variable {invoker : Nat → Invoker Disk} {registry : Registry} {disk : Disk} {config path : String}

theorem prepare_eq_ok_iff {settings : Config} {compiled : CompiledTask} :
    prepare registry disk config path = .ok (settings, compiled) ↔
      Config.load disk config = .ok settings ∧ ∃ file, TaskFile.load disk path = .ok file ∧
        file.compile settings registry (TaskFile.isOn disk) = .ok compiled := by
  simp only [prepare, bind_eq_ok_iff, pure_eq_ok_iff, Prod.mk.injEq]
  constructor
  · rintro ⟨_, hsettings, file, hfile, _, hcompiled, rfl, rfl⟩
    exact ⟨hsettings, file, hfile, hcompiled⟩
  · rintro ⟨hsettings, file, hfile, hcompiled⟩
    exact ⟨_, hsettings, file, hfile, _, hcompiled, rfl, rfl⟩

theorem not_reports_of_prepare {failure : Failure} {report : Outcome Completion}
    (h : prepare registry disk config path = .error failure) :
    ¬ Reports invoker registry disk config path report := by
  rintro ⟨settings, file, compiled, hsettings, hfile, hcompiled, _⟩
  rw [prepare_eq_ok_iff.mpr ⟨hsettings, file, hfile, hcompiled⟩] at h
  cases h

theorem reports_iff_of_prepare {prepared : Config × CompiledTask} {report : Outcome Completion}
    (h : prepare registry disk config path = .ok prepared) :
    Reports invoker registry disk config path report ↔
      (invoker prepared.1.outputLimit prepared.2.command.invocation disk).1 = report := by
  constructor
  · rintro ⟨settings, file, compiled, hsettings, hfile, hcompiled, hreport⟩
    rw [prepare_eq_ok_iff.mpr ⟨hsettings, file, hfile, hcompiled⟩] at h
    cases h
    exact hreport
  · intro hreport
    obtain ⟨hsettings, file, hfile, hcompiled⟩ := prepare_eq_ok_iff.mp h
    exact ⟨prepared.1, file, prepared.2, hsettings, hfile, hcompiled, hreport⟩

/-- A run answers what the invoker reports, or why the invoker has not been asked. -/
theorem run_eq :
    (run invoker registry config path disk).1 =
      match prepare registry disk config path with
      | .error failure => .failed failure
      | .ok (settings, compiled) =>
        .ofRun (invoker settings.outputLimit compiled.command.invocation disk).1 := by
  unfold run prepare
  cases Config.load disk config with
  | error failure => rfl
  | ok settings =>
    cases TaskFile.load disk path with
    | error failure => rfl
    | ok file =>
      simp only [bind, Except.bind, pure, Except.pure]
      cases hcompiled : file.compile settings registry (TaskFile.isOn disk) with
      | error failure =>
        rw [TaskFile.run_of_compile_eq_error _ disk hcompiled]
        exact Answer.ofRun_of_isCompilation (TaskFile.compile_failsBy failure hcompiled)
      | ok compiled =>
        rw [TaskFile.run_of_compile_eq_ok _ disk hcompiled]
        dsimp only
        cases (invoker settings.outputLimit compiled.command.invocation disk).1 with
        | error failure => rfl
        | ok completion => rfl

theorem code_run_eq_zero_iff :
    (run invoker registry config path disk).1.code = 0 ↔
      ∃ completion, Reports invoker registry disk config path (.ok completion) := by
  rw [run_eq]
  cases h : prepare registry disk config path with
  | error failure => simp [Answer.failed, not_reports_of_prepare h]
  | ok prepared => simp only [reports_iff_of_prepare h, Answer.code_ofRun_eq_zero_iff]

theorem code_run_eq_three_iff :
    (run invoker registry config path disk).1.code = 3 ↔
      ∃ failure process, Reports invoker registry disk config path (.error failure) ∧
        failure.cause = .execution process := by
  rw [run_eq]
  cases h : prepare registry disk config path with
  | error failure => simp [Answer.failed, not_reports_of_prepare h]
  | ok prepared => simp only [reports_iff_of_prepare h, Answer.code_ofRun_eq_three_iff]

theorem code_run_mem : (run invoker registry config path disk).1.code ∈ [0, 1, 3] := by
  rw [run_eq]
  split
  · simp [Answer.failed]
  · exact Answer.code_ofRun_mem

/-- **A run asks its invoker once, if there is a command, and its code is what the invoker
reports**, whoever the invoker is. It is asked for the program of the container runtime with its
arguments, so there is always a program, and its own answer is the run's. Of a run on a disk, 3 is the
code exactly if a process was run and failed, 0 exactly if it succeeded, and 1 is left for the rest. All
this is said of task files whose parameters fit behind those of the container runtime. -/
theorem run_asks_once (registry : Registry) :
    (∀ file : TaskFile, file.FitsBehind registry →
      ∀ (config : Config) (isOnHost : String → Bool) (σ : Type) (invoke : Invoker σ) (state : σ),
        (∀ (failure : Failure) (asked : List Invocation),
          file.compile config registry isOnHost = .error failure →
          file.run config registry isOnHost invoke.recording (state, asked) =
            (.error failure, state, asked)) ∧
        (∀ (compiled : CompiledTask) (asked : List Invocation),
          file.compile config registry isOnHost = .ok compiled →
          let invocation : Invocation := ⟨compiled.command.argv, compiled.command.redirectTarget⟩
          let answer := invoke invocation state
          (∃ args, compiled.command.argv = config.launcher.binary :: args) ∧
          file.run config registry isOnHost invoke.recording (state, asked) =
            (answer.1.map fun completion => (compiled, completion), answer.2,
              asked ++ [invocation])) ∧
        ((∀ invocation : Invocation, invocation.argv ≠ [] → ∀ state,
            Outcome.FailsBy (· ≠ .emptyCommand) (invoke invocation state).1) →
          Outcome.FailsBy (· ≠ .emptyCommand) (file.run config registry isOnHost invoke state).1)) ∧
    (∀ (start : Invocation.Starter) (limit : Nat) (invocation : Invocation), invocation.argv ≠ [] →
      ∀ disk, Outcome.FailsBy (· ≠ .emptyCommand)
        (Invocation.invokeWith start limit invocation disk).1) ∧
    (∀ (invoker : Nat → Invoker Disk) (config path : String) (disk : Disk),
      (∀ file, TaskFile.load disk path = .ok file → file.FitsBehind registry) →
      let code := (execute invoker registry ⟨config, .run path⟩ disk).1.code
      (code = 3 ↔ ∃ failure process,
        Reports invoker registry disk config path (.error failure) ∧
          failure.cause = .execution process) ∧
      (code = 0 ↔ ∃ completion, Reports invoker registry disk config path (.ok completion)) ∧
      code ∈ [0, 1, 3]) ∧
    ∀ invoker words request, read words = .ok request →
      answerWith invoker words = execute invoker .builtin request := by
  refine ⟨fun file _ config isOnHost σ invoke state => ⟨fun failure asked h => ?_,
    fun compiled asked h => ⟨?_, ?_⟩, ?_⟩, fun start limit invocation hprogram disk => ?_,
    fun invoker config path disk _ => ?_, fun invoker words request h => ?_⟩
  · exact TaskFile.run_of_compile_eq_error invoke.recording (state, asked) h
  · exact TaskFile.exists_argv_of_compile h
  · exact TaskFile.run_of_compile_eq_ok invoke.recording (state, asked) h
  · exact TaskFile.run_failsBy_ne_emptyCommand invoke state
  · refine (Invocation.invokeWith_failsBy hprogram).mono ?_
    rintro _ hcause rfl
    cases hcause
  · exact ⟨code_run_eq_three_iff, code_run_eq_zero_iff, code_run_mem⟩
  · simp only [answerWith, h]

/-- In the demonstration, the image is mandatory. What is run for the file on the disk ends with 7, and
without the file nothing is run. -/
theorem run_asks_once_demo :
    let file : TaskFile :=
      { task := some "demo"
        tool := none
        mounts := []
        inputs := .ofList [("container", .text "/images/tool.sif")] }
    let unfinished : TaskFile := { file with inputs := ∅ }
    let done : Completion := ⟨0, [], [], 0, 0, none⟩
    let invoke : Invoker Nat := fun _ count => (.ok done, count + 1)
    let isOnHost : String → Bool := fun _ => true
    let disk : Disk :=
      { entries := [(["t"], .file (Text.encode "task='demo'\n[inputs]\ncontainer='/t'"))] }
    let breaking : Nat → Invoker Disk :=
      fun _ _ disk => (Outcome.fail (.execution ⟨some 7, [], []⟩), disk)
    (∃ failure, unfinished.compile {} .builtin isOnHost = .error failure ∧
      unfinished.run {} .builtin isOnHost invoke.recording (0, []) = (.error failure, 0, [])) ∧
    (∃ compiled args, file.compile {} .builtin isOnHost = .ok compiled ∧
      compiled.command.argv = "singularity" :: args ∧
      file.run {} .builtin isOnHost invoke.recording (0, []) =
        (.ok (compiled, done), 1, [⟨"singularity" :: args, compiled.command.redirectTarget⟩])) ∧
    (answerWith breaking ["run", "t"] disk).1.code = 3 ∧
    (∃ failure process, Reports breaking .builtin disk "sifrun.toml" "t" (.error failure) ∧
      failure.cause = .execution process) ∧
    (answer ["run", "t"] {}).1.code = 1 ∧
    ∀ completion, ¬ Reports Invocation.invoke .builtin {} "sifrun.toml" "t" (.ok completion) := by
  intro file unfinished done invoke isOnHost disk breaking
  obtain ⟨hasks, -, hcodes, hwords⟩ := run_asks_once .builtin
  obtain ⟨failure, hfailure⟩ : ∃ failure, unfinished.compile {} .builtin isOnHost = .error failure :=
    exists_eq_error_of_isOk (by decide +kernel)
  obtain ⟨compiled, hcompiled⟩ : ∃ compiled, file.compile {} .builtin isOnHost = .ok compiled :=
    exists_eq_ok_of_isOk (by decide +kernel)
  obtain ⟨hfails, -, -⟩ := hasks unfinished (TaskFile.fitsBehind_builtin rfl) {} isOnHost Nat invoke 0
  obtain ⟨-, hruns, -⟩ := hasks file (TaskFile.fitsBehind_builtin rfl) {} isOnHost Nat invoke 0
  obtain ⟨⟨args, hargs⟩, hrun⟩ := hruns compiled [] hcompiled
  have hread : read ["run", "t"] = .ok ⟨"sifrun.toml", .run "t"⟩ := by decide +kernel
  have hloaded : ((TaskFile.load disk "t").map (·.tool.isNone)).toOption = some true := by
    decide +kernel
  have hmissing : (TaskFile.load {} "t").toOption.isNone = true := by decide +kernel
  obtain ⟨hthree, -⟩ := hcodes breaking "sifrun.toml" "t" disk fun file hfile => by
    rw [hfile] at hloaded
    exact TaskFile.fitsBehind_builtin (by simpa [Except.map, Except.toOption] using hloaded)
  obtain ⟨-, hzero, -⟩ := hcodes Invocation.invoke "sifrun.toml" "t" {} fun file hfile => by
    rw [hfile] at hmissing
    cases hmissing
  have hcode : (execute breaking .builtin ⟨"sifrun.toml", .run "t"⟩ disk).1.code = 3 := by
    decide +kernel
  have hcode' : (execute Invocation.invoke .builtin ⟨"sifrun.toml", .run "t"⟩ {}).1.code = 1 := by
    decide +kernel
  refine ⟨⟨failure, hfailure, hfails failure [] hfailure⟩,
    ⟨compiled, args, hcompiled, hargs, ?_⟩, ?_, hthree.mp hcode, ?_, fun completion hreports => ?_⟩
  · rw [hrun, hargs]
    rfl
  · rw [hwords breaking _ _ hread]
    exact hcode
  · rw [answer, hwords Invocation.invoke _ _ hread]
    exact hcode'
  · have hcode'' := hzero.mpr ⟨completion, hreports⟩
    rw [hcode'] at hcode''
    cases hcode''

end CommandLine

end ContainerCommand
