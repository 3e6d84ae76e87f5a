import ContainerCommand.Config.Basic
import ContainerCommand.Parameter.Record
import ContainerCommand.Task.Basic

/-! Task files: what is to be run, with which inputs and mounts.

A task file names a task type or declares a tool of its own, not both. -/
namespace ContainerCommand

/-- A tool that a task file declares. -/
structure ToolDefinition where
  name : String
  summary : String
  /-- The command inside the container. -/
  command : Option String
  params : List Parameter

structure TaskFile where
  task : Option String
  tool : Option ToolDefinition
  /-- Mounts behind those of the configuration. -/
  mounts : List MountEntry
  inputs : Inputs

namespace ToolDefinition

open Document in
def ofDocument? (format : Format) (doc : Document) : Option ToolDefinition := do
  let field ← record? format ["name", "summary", "command", "params"] doc
  return {
    name := ← (field "name").bind text?
    summary := ← defaulted? text? "" (field "summary")
    command := ← optional? text? (field "command")
    params := ← (← (field "params").bind items?).mapM (Parameter.ofDocument? format) }

/-- The task type of the tool. -/
def taskType (tool : ToolDefinition) : Outcome TaskType := do
  let schema ← (Outcome.ofCompile (Schema.ofList tool.params)).during
    ("tool '" ++ tool.name ++ "' parameters")
  return { name := tool.name, summary := tool.summary, command := tool.command, schema }

end ToolDefinition

/-- The values of a table by name. -/
def Inputs.ofDocument? (doc : Document) : Option Inputs := do
  let entries ← (← doc.entries?).mapM fun (name, d) => return (name, ← Value.ofDocument? d)
  return Table.ofList entries

namespace TaskFile

open Document in
def ofDocument? (format : Format) (doc : Document) : Option TaskFile := do
  let field ← record? format ["task", "tool", "mounts", "inputs"] doc
  return {
    task := ← optional? text? (field "task")
    tool := ← optional? (ToolDefinition.ofDocument? format) (field "tool")
    mounts := ← defaulted? Config.mounts? [] (field "mounts")
    inputs := ← defaulted? Inputs.ofDocument? ∅ (field "inputs") }

/-- The task type that the file runs. -/
def taskType (file : TaskFile) (registry : Registry) : Outcome TaskType :=
  match file.task, file.tool with
  | some name, none => Outcome.ofOption (.unknownTask name) (registry.get? name)
  | none, some tool => tool.taskType
  | _, _ => Outcome.fail .taskOrTool

/-- The rules of the configuration's mounts and then of the file's own. -/
def mountRules (file : TaskFile) (site : List MountEntry) : Outcome (List MountRule) := do
  let configured ← (Outcome.ofCompile (MountEntry.toRules site)).during "configured mounts"
  let own ← (Outcome.ofCompile (MountEntry.toRules file.mounts)).during "task file mounts"
  return configured ++ own

end TaskFile

end ContainerCommand
