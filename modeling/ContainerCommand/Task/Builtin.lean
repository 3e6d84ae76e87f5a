import ContainerCommand.Task.Basic

/-! The built-in parameters of the container runtime and the built-in task type. -/
namespace ContainerCommand

namespace Template.Argument

/-- A template that shows a value alone. -/
def bare : Argument := ⟨"%s", .slotted [] "" .text "" [], false⟩

/-- A template that shows a value behind a word. -/
def option (word : String) : Argument :=
  ⟨word ++ " %s", .slotted [word] "" .text "" [], false⟩

end Template.Argument

open Template

/-! ### The container runtime -/

def debugParam : Parameter where
  name := debugName
  kind := .boolean
  description := "Run the container runtime in debug mode"

def mountsParam : Parameter where
  name := mountsName
  kind := .pathList
  argument := some ⟨"-B %s...", .slotted ["-B"] "" .text "" [], true⟩
  position := some 1
  description := "Directories to bind into the container (host:container)"

def imageParam : Parameter where
  name := "container"
  kind := .path
  argument := some .bare
  position := some 2
  isMandatory := true
  mustExist := true
  description := "Container image"

def commandParam : Parameter where
  name := commandName
  kind := .scalar
  argument := some .bare
  position := some 3
  description := "Command to run inside the container"

def logParam : Parameter where
  name := "log_file"
  kind := .path
  argument := some ⟨"> %s 2>&1", .slotted [">"] "" .text "" ["2>&1"], false⟩
  position := some (-1)
  description := "Host file receiving combined stdout and stderr"

/-- The parameters of the container runtime: mounts, image and command lead in this order, and the
redirection of the output comes last. -/
def baseParams : List Parameter := [debugParam, mountsParam, imageParam, commandParam, logParam]

def baseSchema : Schema := ⟨baseParams, by decide, by decide⟩

/-! ### The demonstration -/

/-- The parameters of the demonstration, one for each feature. -/
def demoParams : List Parameter := [
  { name := "myarg"
    kind := .scalar
    argument := some (.option "--myarg")
    description := "An argument" },
  { name := "dwiFile"
    kind := .path
    argument := some (.option "--dwiFile")
    isContainerPath := true
    mustExist := true
    description := "Input diffusion weighted (DWI) file" },
  { name := "returnParameterFile"
    kind := .boolean
    description := "Write a return parameter file" },
  { name := "returnParameterFileName"
    kind := .path
    argument := some (.option "--returnparameterfile")
    nameSource := some "dwiFile"
    nameTemplate := some ⟨"", "_params.txt"⟩
    requires := ["returnParameterFile"]
    isContainerPath := true
    description := "Filename to write simple return parameters to" },
  { name := "inputSubject"
    kind := .path
    argument := some .bare
    position := some 1
    isContainerPath := true
    description := "Whole-brain tractography as vtkPolyData (.vtk or .vtp)" }]

def demo : TaskType where
  name := "demo"
  summary := "Demo integration running mycmd with derived parameter files"
  command := some "mycmd"
  schema := ⟨demoParams, by decide, by decide⟩

namespace Registry

def builtin : Registry := ⟨baseSchema, [demo]⟩

end Registry

end ContainerCommand
