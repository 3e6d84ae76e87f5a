import ContainerCommand.Proofs.Task.Mounts

/-! Running task files.

A task file that cannot be compiled asks the invoker for nothing (`run_of_compile_eq_error`), and any
other asks once, for its command, and has the invoker's answer (`run_of_compile_eq_ok`). This holds of
every invoker, and so of one that keeps a list of what it is asked (`Invoker.recording`). The command
begins with the program of the container runtime (`exists_argv_of_compile`). -/
namespace ContainerCommand

/-- The invoker, with a list of what it has been asked to run. -/
def Invoker.recording {σ : Type} (invoke : Invoker σ) : Invoker (σ × List Invocation) :=
  fun invocation (state, asked) =>
    let answer := invoke invocation state
    (answer.1, answer.2, asked ++ [invocation])

/-- The causes of failures to compile. -/
def Cause.IsCompilation : Cause → Prop
  | .compile _ | .unknownTask _ | .taskOrTool => True
  | _ => False

/-- Whether the positions of the second schema are numbers of thirty-two bits still when they are moved
behind those of the first. They are when they are read (`Parameter.position?`), and moving them is exact
here. -/
def Schema.fitsBehind (base extension : Schema) : Bool :=
  extension.params.all fun p =>
    (p.shift base.maxLeading).position.all (Number.fitsSigned 32)

namespace TaskFile

/-- The parameters of the task, if there is one, fit behind those of the container runtime. -/
def FitsBehind (file : TaskFile) (registry : Registry) : Prop :=
  ∀ task, file.taskType registry = .ok task → registry.base.fitsBehind task.schema = true

/-- The task types that are built in fit. -/
theorem fitsBehind_builtin {file : TaskFile} (h : file.tool = none) : file.FitsBehind .builtin := by
  intro task htask
  unfold taskType at htask
  rw [h] at htask
  cases hname : file.task with
  | none =>
    rw [hname] at htask
    cases htask
  | some name =>
    rw [hname] at htask
    have hfits : ∀ task ∈ Registry.builtin.tasks,
        Registry.builtin.base.fitsBehind task.schema = true := by
      decide +kernel
    exact hfits task (List.mem_of_find?_eq_some (Outcome.ofOption_eq_ok_iff.mp htask))

variable {file : TaskFile} {config : Config} {registry : Registry} {isOnHost : String → Bool}

/-! ### Compiling -/

theorem taskType_failsBy : Outcome.FailsBy Cause.IsCompilation (file.taskType registry) := by
  unfold taskType
  split
  · exact Outcome.failsBy_ofOption trivial
  · exact ((Outcome.failsBy_ofCompile fun _ => trivial).during _).bind fun _ =>
      Outcome.failsBy_ok _
  · exact Outcome.failsBy_fail trivial

theorem mountRules_failsBy {site : List MountEntry} :
    Outcome.FailsBy Cause.IsCompilation (file.mountRules site) :=
  ((Outcome.failsBy_ofCompile fun _ => trivial).during _).bind fun _ =>
    ((Outcome.failsBy_ofCompile fun _ => trivial).during _).bind fun _ => Outcome.failsBy_ok _

/-- Compiling runs nothing, so it never fails as what has been run does. -/
theorem compile_failsBy :
    Outcome.FailsBy Cause.IsCompilation (file.compile config registry isOnHost) :=
  taskType_failsBy.bind fun _ => mountRules_failsBy.bind fun _ =>
    ((Outcome.failsBy_ofCompile fun _ => trivial).during _).bind fun _ => Outcome.failsBy_ok _

/-- Every command begins with the program of the container runtime. -/
theorem exists_argv_of_compile {compiled : CompiledTask}
    (h : file.compile config registry isOnHost = .ok compiled) :
    ∃ args, compiled.command.argv = config.launcher.binary :: args := by
  obtain ⟨task, rules, _, _, hcommand, _⟩ := compile_eq_ok_iff.mp h
  obtain ⟨merged, _, hcompile⟩ := bind_eq_ok_iff.mp hcommand
  obtain ⟨used, piece, hc⟩ := Schema.compile_eq_ok_iff.mp hcompile
  rw [Command.argv, hc.launch, Launcher.words, List.append_assoc, List.append_assoc]
  exact ⟨_, rfl⟩

/-! ### Invoking -/

section
variable {σ : Type} (invoke : Invoker σ) (state : σ)

theorem run_of_compile_eq_error {failure : Failure}
    (h : file.compile config registry isOnHost = .error failure) :
    file.run config registry isOnHost invoke state = (.error failure, state) := by
  simp only [run, h]
  rfl

theorem run_of_compile_eq_ok {compiled : CompiledTask}
    (h : file.compile config registry isOnHost = .ok compiled) :
    file.run config registry isOnHost invoke state =
      ((invoke compiled.command.invocation state).1.map fun completion => (compiled, completion),
        (invoke compiled.command.invocation state).2) := by
  simp only [run, h, bind, StateT.bind]
  rcases invoke compiled.command.invocation state with ⟨outcome, after⟩
  cases outcome with
  | error failure => rfl
  | ok completion => rfl

/-- Running fails as compiling does or as what is run. -/
theorem run_failsBy {causes : Cause → Prop} (hcompile : ∀ cause, cause.IsCompilation → causes cause)
    (hinvoke : ∀ compiled, file.compile config registry isOnHost = .ok compiled →
      Outcome.FailsBy causes (invoke compiled.command.invocation state).1) :
    Outcome.FailsBy causes (file.run config registry isOnHost invoke state).1 := by
  cases h : file.compile config registry isOnHost with
  | error refusal =>
    rw [run_of_compile_eq_error invoke state h]
    rintro _ ⟨⟩
    exact hcompile _ (compile_failsBy _ h)
  | ok compiled =>
    rw [run_of_compile_eq_ok invoke state h]
    exact (hinvoke compiled h).map _

theorem run_failsBy_ne_emptyCommand
    (hinvoke : ∀ invocation : Invocation, invocation.argv ≠ [] → ∀ state,
      Outcome.FailsBy (· ≠ .emptyCommand) (invoke invocation state).1) :
    Outcome.FailsBy (· ≠ .emptyCommand) (file.run config registry isOnHost invoke state).1 := by
  refine run_failsBy invoke state (fun cause hcause => ?_) fun compiled h => hinvoke _ ?_ state
  · rintro rfl
    cases hcause
  · obtain ⟨args, hargs⟩ := exists_argv_of_compile h
    simp [Command.invocation, hargs]

end

end TaskFile

end ContainerCommand
