import ContainerCommand.Parameter.Kind
import ContainerCommand.Template.Placeholder
import ContainerCommand.Value

/-! Why a command cannot be compiled.

Each error is a cause with what it names; `CompileError.message` is the only place
where causes are put into words. -/
namespace ContainerCommand

/-- Why a text is no template. -/
inductive TemplateFault where
  | empty
  | manyPlaceholders
  | repeatedRedirection
  | repeatedWithoutPlaceholder
  | notOneName
deriving DecidableEq

/-- Why a value does not fit. -/
inductive ValueFault where
  | listAsText
  | notInteger (text : String)
  | notNumber (text : String)
  | unwritable (tag : Value.Tag) (conversion : Template.Conversion)
  | misfit (tag : Value.Tag) (kind : Kind)
  | underivable (tag : Value.Tag) (source : String)
  | notMounts (tag : Value.Tag)
  | notPath (tag : Value.Tag)
deriving DecidableEq

/-- Why a parameter contradicts itself. -/
inductive ParameterFault where
  | halfDerived
  | placeholderForbidden (kind : Kind) (template : String)
  | placeholderMissing (kind : Kind) (template : String)
  | repeatForbidden (template : String)
  | existenceForbidden
  | requiresItself
deriving DecidableEq

/-- Why parameters make no schema. -/
inductive SchemaFault where
  | unnamed
  | parameter (name : String) (fault : ParameterFault)
  | duplicate (name : String)
  | unknownRequirement (name required : String)
  | unknownSource (name source : String)
deriving DecidableEq

/-- Why a command cannot be compiled. -/
inductive CompileError where
  | missingMandatory (name : String)
  | malformedMount (entry : String)
  | hostPathNotFound (name path : String)
  | unknownParameter (name : String)
  | invalidValue (name : String) (fault : ValueFault)
  | invalidSchema (fault : SchemaFault)
  | invalidTemplate (template : String) (fault : TemplateFault)
  | derivationCycle (name : String)
deriving DecidableEq

namespace TemplateFault

def message : TemplateFault → String
  | .empty => "template is empty"
  | .manyPlaceholders => "more than one placeholder"
  | .repeatedRedirection => "redirection cannot repeat per element"
  | .repeatedWithoutPlaceholder => "repeated template needs a placeholder"
  | .notOneName => "name template needs exactly one %s"

end TemplateFault

namespace ValueFault

def message : ValueFault → String
  | .listAsText => "list cannot fill a %s placeholder"
  | .notInteger text => "'" ++ text ++ "' is not an integer"
  | .notNumber text => "'" ++ text ++ "' is not a number"
  | .unwritable tag conversion =>
    tag.label ++ " cannot fill " ++ String.ofList conversion.placeholder
  | .misfit tag kind => tag.label ++ " value does not fit " ++ kind.label ++ " parameter"
  | .underivable tag source =>
    "cannot derive a name from " ++ tag.label ++ " parameter " ++ source
  | .notMounts tag => tag.label ++ " value is not a mount list"
  | .notPath tag => tag.label ++ " value is not a path"

end ValueFault

namespace ParameterFault

def message : ParameterFault → String
  | .halfDerived => "name_source and name_template must be set together"
  | .placeholderForbidden kind template =>
    kind.label ++ " template '" ++ template ++ "' must not contain a placeholder"
  | .placeholderMissing kind template =>
    kind.label ++ " template '" ++ template ++ "' needs a placeholder"
  | .repeatForbidden template =>
    "only path-list templates may end with '...', got '" ++ template ++ "'"
  | .existenceForbidden => "exists_required applies to path kinds only"
  | .requiresItself => "parameter cannot require itself"

end ParameterFault

namespace SchemaFault

def message : SchemaFault → String
  | .unnamed => "parameter name must be non-empty"
  | .parameter name fault => "parameter " ++ name ++ ": " ++ fault.message
  | .duplicate name => "duplicate parameter " ++ name
  | .unknownRequirement name required =>
    "parameter " ++ name ++ " requires unknown parameter " ++ required
  | .unknownSource name source =>
    "parameter " ++ name ++ " derives from unknown parameter " ++ source

end SchemaFault

namespace CompileError

def message : CompileError → String
  | .missingMandatory name => "missing mandatory parameter: " ++ name
  | .malformedMount entry => "malformed mount rule '" ++ entry ++ "' (expected host:container)"
  | .hostPathNotFound name path => "parameter " ++ name ++ ": host path not found: " ++ path
  | .unknownParameter name => "unknown parameter: " ++ name
  | .invalidValue name fault => "parameter " ++ name ++ ": " ++ fault.message
  | .invalidSchema fault => "invalid schema: " ++ fault.message
  | .invalidTemplate template fault =>
    "invalid template '" ++ template ++ "': " ++ fault.message
  | .derivationCycle name => "derivation cycle through parameter " ++ name

end CompileError

end ContainerCommand
