import ContainerCommand.Proofs.Schema.Merging
import ContainerCommand.Proofs.TaskFile.Decoding
import ContainerCommand.Proofs.Template.Grammar
import ContainerCommand.Task.Builtin

/-! Written templates.

A template that a text writes is more than words around a placeholder: it has a word
(`Template.Argument.IsWritten.words_ne_nil`). The templates of the built-in parameters are written
(`isWritten_builtin`), those that a document declares are, and merging moves parameters only, so that
no others are ever compiled (`TaskFile.isWritten_of_merged`). -/
namespace ContainerCommand

/-! ### Templates -/

namespace Template.Argument

variable {t : Argument}

/-- The template is the one that its text writes. -/
def IsWritten (t : Argument) : Prop :=
  parse t.raw = .ok t

instance (t : Argument) : Decidable t.IsWritten :=
  inferInstanceAs (Decidable (_ = _))

theorem isWritten_of_parse {raw : String} (h : parse raw = .ok t) : t.IsWritten := by
  rwa [IsWritten, raw_of_parse h]

theorem isWritten_of_ofDocument? {doc : Document} (h : ofDocument? doc = some t) :
    t.IsWritten := by
  obtain ⟨raw, _, hraw⟩ := ofDocument?_eq_some_iff.mp h
  exact isWritten_of_parse hraw

/-- A written template has a word. -/
theorem IsWritten.words_ne_nil (h : t.IsWritten) : t.words ≠ [] := by
  obtain ⟨body, isRepeated, words, hreading⟩ := exists_reading t.raw
  obtain ⟨⟨hne, _⟩, ht⟩ := (parse_eq_ok_iff hreading).mp h
  have hwords : t.words.map String.toList = words := by
    rw [ht]
    exact map_toList_words words
  intro hnil
  rw [hnil] at hwords
  exact hne hwords.symm

end Template.Argument

/-! ### Parameters -/

namespace Parameter

variable {p : Parameter}

/-- The template of the parameter is written, if it has one. -/
def IsWritten (p : Parameter) : Prop :=
  ∀ t, p.argument = some t → t.IsWritten

instance (p : Parameter) : Decidable p.IsWritten :=
  inferInstanceAs (Decidable (∀ t, p.argument = some t → t.IsWritten))

theorem isWritten_of_ofDocument? {doc : Document} (h : ofDocument? .toml doc = some p) :
    p.IsWritten := by
  obtain ⟨field, _, hp⟩ := ofDocument?_eq_some_iff.mp h
  intro t ht
  have hargument := hp.argument
  rw [ht] at hargument
  obtain ⟨_, _, hread⟩ := Document.exists_of_optional?_eq_some hargument
  exact Template.Argument.isWritten_of_ofDocument? hread

end Parameter

/-! ### Schemas -/

namespace Schema

variable {base extension merged : Schema}

/-- The templates of the parameters are written. -/
def IsWritten (schema : Schema) : Prop :=
  ∀ p ∈ schema.params, p.IsWritten

instance (schema : Schema) : Decidable schema.IsWritten :=
  inferInstanceAs (Decidable (∀ p ∈ schema.params, p.IsWritten))

/-- Merging moves parameters and leaves their templates alone. -/
theorem IsWritten.merge (hbase : base.IsWritten) (hextension : extension.IsWritten)
    (h : base.merge extension = .ok merged) : merged.IsWritten := by
  intro p hp
  rw [params_merge h, List.mem_append, List.mem_map] at hp
  rcases hp with hp | ⟨q, hq, rfl⟩
  · exact hbase p hp
  · exact hextension q hq

end Schema

/-- The templates are written of the container runtime's parameters and of all task types. -/
structure Registry.IsWritten (registry : Registry) : Prop where
  base : registry.base.IsWritten
  schema : ∀ task ∈ registry.tasks, task.schema.IsWritten

theorem isWritten_builtin : Registry.builtin.IsWritten :=
  ⟨by decide +kernel, by decide +kernel⟩

/-! ### Task files -/

theorem ToolDefinition.isWritten_of_ofDocument? {tool : ToolDefinition} {doc : Document}
    (h : ofDocument? .toml doc = some tool) : ∀ p ∈ tool.params, p.IsWritten := by
  obtain ⟨field, _, htool⟩ := ofDocument?_eq_some_iff.mp h
  obtain ⟨_, docs, _, _, hparams⟩ := htool.params
  intro p hp
  obtain ⟨d, _, hd⟩ := exists_mem_of_forall₂ (mapM_eq_some_iff.mp hparams).flip hp
  exact Parameter.isWritten_of_ofDocument? hd

namespace TaskFile

variable {file : TaskFile} {doc : Document} {registry : Registry} {task : TaskType}

theorem isWritten_of_taskType (hregistry : registry.IsWritten)
    (hfile : ofDocument? .toml doc = some file) (h : file.taskType registry = .ok task) :
    task.schema.IsWritten := by
  unfold taskType at h
  split at h
  · have hmem : task ∈ registry.tasks :=
      List.mem_of_find?_eq_some (Outcome.ofOption_eq_ok_iff.mp h)
    exact hregistry.schema task hmem
  · rename_i tool _ hdeclared
    obtain ⟨schema, hschema, htask⟩ := bind_eq_ok_iff.mp h
    cases pure_eq_ok_iff.mp htask
    rw [Outcome.during_eq_ok_iff, Outcome.ofCompile_eq_ok_iff, Schema.ofList_eq_ok_iff] at hschema
    obtain ⟨field, _, hfield⟩ := ofDocument?_eq_some_iff.mp hfile
    have htool := hfield.tool
    rw [hdeclared] at htool
    obtain ⟨_, _, hread⟩ := Document.exists_of_optional?_eq_some htool
    intro p hp
    exact ToolDefinition.isWritten_of_ofDocument? hread p (hschema ▸ hp)
  · cases h

/-- **What a task file is compiled with has written templates only**, be they the container runtime's,
a task type's or the file's own. -/
theorem isWritten_of_merged {merged : Schema} (hregistry : registry.IsWritten)
    (hfile : ofDocument? .toml doc = some file) (htask : file.taskType registry = .ok task)
    (h : task.merged registry.base = .ok merged) : merged.IsWritten :=
  hregistry.base.merge (isWritten_of_taskType hregistry hfile htask) h

end TaskFile

end ContainerCommand
