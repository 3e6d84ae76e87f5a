import ContainerCommand.Proofs.Parameter.Decoding

/-! Reading tools and task files from documents.

A tree of the shape of a task file is read exactly if the parameters of its tool are
(`TaskFile.exists_ofDocument?_iff`), every entry of the file and of its tool is then found in what has
been read (`TaskFile.Holds`, `TaskFile.holds_of_ofDocument?`), and the file names a task or declares a
tool, not both (`TaskFile.isSome_task_ne_isSome_tool`). -/
namespace ContainerCommand

open Document

variable {doc : Document} {entries : List (String × Document)} {name : String}

/-- A record in a tree is a table that repeats no name. -/
theorem Shape.exists_table_of_record {required : List String} {fields : List (String × Shape)}
    (htree : doc.IsTree) (h : record required fields doc = true) :
    ∃ entries, doc = .table entries ∧ (entries.map Prod.fst).Nodup ∧
      ∀ entry ∈ entries, entry.2.IsTree := by
  cases htree with
  | @table entries hdistinct htrees => exact ⟨entries, rfl, hdistinct, htrees⟩
  | _ => cases h

namespace ToolDefinition

variable {tool : ToolDefinition}

/-- What a tool is read from, field by field. -/
structure ReadFrom (field : String → Option Document) (tool : ToolDefinition) : Prop where
  name : ∃ doc, field "name" = some doc ∧ doc.text? = some tool.name
  summary : defaulted? text? "" (field "summary") = some tool.summary
  command : optional? text? (field "command") = some tool.command
  params : ∃ doc docs, field "params" = some doc ∧ doc.items? = some docs ∧
    docs.mapM (Parameter.ofDocument? .toml) = some tool.params

theorem ofDocument?_eq_some_iff :
    ofDocument? .toml doc = some tool ↔
      ∃ field, record? .toml ["name", "summary", "command", "params"] doc = some field ∧
        tool.ReadFrom field := by
  simp only [ofDocument?, Option.bind_eq_bind, Option.bind_eq_some_iff, Option.pure_def,
    Option.some.injEq]
  constructor
  · rintro ⟨field, hfield, name, hname, summary, hsummary, command, hcommand, docs,
      ⟨doc, hdoc, hdocs⟩, params, hparams, rfl⟩
    exact ⟨field, hfield, hname, hsummary, hcommand, doc, docs, hdoc, hdocs, hparams⟩
  · rintro ⟨field, hfield, h⟩
    obtain ⟨doc, docs, hdoc, hdocs, hparams⟩ := h.params
    exact ⟨field, hfield, _, h.name, _, h.summary, _, h.command, docs, ⟨doc, hdoc, hdocs⟩, _,
      hparams, rfl⟩

/-! ### The parameters of a tool -/

section Params

variable {docs : List Document} {params : List Parameter}

/-- Parameters are read exactly if each of them is. -/
theorem exists_params_iff (htrees : ∀ d ∈ docs, d.IsTree)
    (hshape : ∀ d ∈ docs, TaskFile.parameterShape d = true) :
    (∃ params, docs.mapM (Parameter.ofDocument? .toml) = some params) ↔
      ∀ fields, Document.table fields ∈ docs → Parameter.Readable fields := by
  rw [exists_mapM_eq_some_iff]
  constructor
  · intro h fields hmem
    obtain ⟨_, heq, hdistinct, -⟩ :=
      Shape.exists_table_of_record (htrees _ hmem) (hshape _ hmem)
    cases heq
    exact (Parameter.exists_ofDocument?_iff hdistinct (hshape _ hmem)).mp (h _ hmem)
  · intro h d hd
    obtain ⟨fields, rfl, hdistinct, -⟩ := Shape.exists_table_of_record (htrees d hd) (hshape d hd)
    exact (Parameter.exists_ofDocument?_iff hdistinct (hshape _ hd)).mpr (h fields hd)

/-- Each parameter that has been read holds the entries of its table. -/
theorem forall₂_holds_of_params (htrees : ∀ d ∈ docs, d.IsTree)
    (hshape : ∀ d ∈ docs, TaskFile.parameterShape d = true)
    (h : docs.mapM (Parameter.ofDocument? .toml) = some params) :
    List.Forall₂ (fun d p => ∃ fields, d = .table fields ∧ ∀ field ∈ fields, p.Holds field.1 field.2)
      docs params := by
  refine ((List.forall₂_and_left _ _).mpr ⟨fun d hd => hd, mapM_eq_some_iff.mp h⟩).imp ?_
  rintro d p ⟨hd, hp⟩
  obtain ⟨fields, rfl, hdistinct, -⟩ := Shape.exists_table_of_record (htrees d hd) (hshape d hd)
  exact ⟨fields, rfl, fun field hfield =>
    Parameter.holds_of_ofDocument? hdistinct (hshape _ hd) hp hfield⟩

end Params

/-! ### The tool -/

/-- The entry for the parameters is a list of trees of the shape of a parameter. -/
theorem exists_docs_of_toolShape (htrees : ∀ entry ∈ entries, entry.2.IsTree)
    (hshape : TaskFile.toolShape (.table entries) = true) (hmem : ("params", doc) ∈ entries) :
    ∃ docs, doc = .list docs ∧ (∀ d ∈ docs, d.IsTree) ∧
      ∀ d ∈ docs, TaskFile.parameterShape d = true := by
  obtain ⟨docs, rfl, hdocs⟩ := Shape.listOf_iff.mp (Shape.of_record hshape rfl hmem)
  cases htrees _ hmem with
  | list hitems => exact ⟨docs, rfl, hitems, hdocs⟩

/-- The parameters that a tool declares are templates and positions that can be read. -/
def Readable (entries : List (String × Document)) : Prop :=
  ∀ docs, ("params", Document.list docs) ∈ entries →
    ∀ fields, Document.table fields ∈ docs → Parameter.Readable fields

/-- A tree of the shape of a tool is read exactly if its parameters are. -/
theorem exists_ofDocument?_iff (hdistinct : (entries.map Prod.fst).Nodup)
    (htrees : ∀ entry ∈ entries, entry.2.IsTree)
    (hshape : TaskFile.toolShape (.table entries) = true) :
    (∃ tool, ofDocument? .toml (.table entries) = some tool) ↔ Readable entries := by
  simp only [ofDocument?_eq_some_iff, record?_table hdistinct, Option.some.injEq, exists_eq_left']
  constructor
  · -- What has been read is the list under the one entry for parameters.
    rintro ⟨tool, htool⟩ docs hmem
    obtain ⟨_, heq, hdocs, hparams⟩ := exists_docs_of_toolShape htrees hshape hmem
    cases heq
    obtain ⟨_, _, hfind, hitems, hread⟩ := htool.params
    rw [(find?_eq_some_iff hdistinct).mpr hmem, Option.some.injEq] at hfind
    subst hfind
    cases hitems
    exact (exists_params_iff hdocs hparams).mp ⟨_, hread⟩
  · intro h
    obtain ⟨name, hname⟩ : ∃ s doc, find? entries "name" = some doc ∧ text? doc = some s :=
      Shape.exists_read_of_record hshape (by simp) rfl Shape.reads_nonEmptyText
    obtain ⟨summary, hsummary⟩ : ∃ s, defaulted? text? "" (find? entries "summary") = some s :=
      Shape.exists_defaulted?_of_record hshape rfl Shape.reads_text ""
    obtain ⟨command, hcommand⟩ : ∃ s, optional? text? (find? entries "command") = some s :=
      Shape.exists_optional?_of_record hshape (by decide) rfl Shape.reads_nonEmptyText
    obtain ⟨doc, hdoc⟩ : ∃ doc, find? entries "params" = some doc :=
      Shape.exists_find?_of_record hshape (by simp)
    obtain ⟨docs, rfl, hdocs, hparams⟩ :=
      exists_docs_of_toolShape htrees hshape (mem_of_find?_eq_some hdoc)
    obtain ⟨params, hread⟩ :=
      (exists_params_iff hdocs hparams).mpr (h docs (mem_of_find?_eq_some hdoc))
    exact ⟨⟨name, summary, command, params⟩, hname, hsummary, hcommand, _, docs, hdoc, rfl, hread⟩

/-- What a tool has been given under a name. -/
inductive Holds (tool : ToolDefinition) : String → Document → Prop
  | name : tool.Holds "name" (.text tool.name)
  | summary : tool.Holds "summary" (.text tool.summary)
  | command {s : String} : tool.command = some s → tool.Holds "command" (.text s)
  | params {docs : List Document} :
      List.Forall₂
        (fun d p => ∃ fields, d = .table fields ∧ ∀ field ∈ fields, p.Holds field.1 field.2)
        docs tool.params →
      tool.Holds "params" (.list docs)

/-- Every entry of a table that has been read is found in the tool. -/
theorem holds_of_ofDocument? (hdistinct : (entries.map Prod.fst).Nodup)
    (htrees : ∀ entry ∈ entries, entry.2.IsTree)
    (hshape : TaskFile.toolShape (.table entries) = true)
    (h : ofDocument? .toml (.table entries) = some tool) (hmem : (name, doc) ∈ entries) :
    tool.Holds name doc := by
  simp only [ofDocument?_eq_some_iff, record?_table hdistinct, Option.some.injEq,
    exists_eq_left'] at h
  have hfind : find? entries name = some doc := (find?_eq_some_iff hdistinct).mpr hmem
  obtain ⟨shape, hfield, -⟩ := Shape.mem_of_record hshape hmem
  simp only [List.mem_cons, Prod.mk.injEq, List.not_mem_nil, or_false] at hfield
  have hnull : doc ≠ .null := by
    rintro rfl
    exact Shape.ne_null_of_record hshape (by decide) hfind
  rcases hfield with ⟨rfl, rfl⟩ | ⟨rfl, rfl⟩ | ⟨rfl, rfl⟩ | ⟨rfl, rfl⟩
  · obtain ⟨_, hname, hread⟩ := h.name
    rw [hfind, Option.some.injEq] at hname
    rw [hname, text?_eq_some_iff.mp hread]
    exact .name
  · exact text?_eq_some_iff.mp (read_of_defaulted? h.summary hfind) ▸ .summary
  · obtain ⟨s, hs, hp⟩ := exists_of_optional? h.command hfind hnull
    rw [text?_eq_some_iff.mp hs]
    exact .command hp
  · obtain ⟨_, docs, hparams, hitems, hread⟩ := h.params
    rw [hfind, Option.some.injEq] at hparams
    subst hparams
    obtain ⟨_, rfl, hdocs, hparams⟩ := exists_docs_of_toolShape htrees hshape hmem
    cases hitems
    exact .params (forall₂_holds_of_params hdocs hparams hread)

end ToolDefinition

/-! ### Inputs and mounts -/

namespace Inputs

variable {inputs : Inputs}

theorem ofDocument?_eq_some_iff :
    ofDocument? (.table entries) = some inputs ↔
      ∃ values : List (String × Value),
        List.Forall₂ (fun entry value => entry.1 = value.1 ∧
          Value.ofDocument? entry.2 = some value.2) entries values ∧
        Table.ofList values = inputs := by
  have hentry : ∀ (entry : String × Document) (value : String × Value),
      (Value.ofDocument? entry.2).bind (fun v => some (entry.1, v)) = some value ↔
        entry.1 = value.1 ∧ Value.ofDocument? entry.2 = some value.2 := by
    rintro ⟨name, d⟩ ⟨name', v⟩
    simp [Option.bind_eq_some_iff, and_comm]
  simp only [ofDocument?, entries?, Option.bind_eq_bind, Option.bind_some, Option.bind_eq_some_iff,
    Option.pure_def, Option.some.injEq, mapM_eq_some_iff, hentry]

/-- A table of trees of the shape of values is read. -/
theorem exists_ofDocument? (htrees : ∀ entry ∈ entries, entry.2.IsTree)
    (hshape : Shape.tableOf TaskFile.valueShape (.table entries) = true) :
    ∃ inputs, ofDocument? (.table entries) = some inputs := by
  simp only [Shape.tableOf, entries?, Option.any_some, List.all_eq_true] at hshape
  have hread : ∀ entry ∈ entries, ∃ value : String × Value, entry.1 = value.1 ∧
      Value.ofDocument? entry.2 = some value.2 := by
    intro entry hentry
    obtain ⟨v, hv⟩ := TaskFile.exists_of_valueShape (htrees entry hentry) (hshape entry hentry)
    exact ⟨(entry.1, v), rfl, hv⟩
  obtain ⟨values, hvalues⟩ := exists_forall₂_iff.mpr hread
  exact ⟨_, ofDocument?_eq_some_iff.mpr ⟨values, hvalues, rfl⟩⟩

/-- Every input of a tree has the value that it is written from. -/
theorem exists_get?_of_ofDocument? (hdistinct : (entries.map Prod.fst).Nodup)
    (htrees : ∀ entry ∈ entries, entry.2.IsTree)
    (h : ofDocument? (.table entries) = some inputs) (hmem : (name, doc) ∈ entries) :
    ∃ v, inputs.get? name = some v ∧ doc = v.toDocument := by
  obtain ⟨values, hvalues, rfl⟩ := ofDocument?_eq_some_iff.mp h
  have hnames : entries.map Prod.fst = values.map Prod.fst :=
    forall₂_eq_iff_map_eq.mp (hvalues.imp fun _ _ hvalue => hvalue.1)
  obtain ⟨⟨_, v⟩, hv, rfl, hread⟩ := exists_mem_of_forall₂ hvalues hmem
  exact ⟨v, Table.get?_ofList_of_mem (hnames ▸ hdistinct) hv,
    TaskFile.eq_toDocument_of_value (htrees _ hmem) hread⟩

end Inputs

namespace TaskFile

variable {file : TaskFile}

/-- What a task file is read from, field by field. -/
structure ReadFrom (field : String → Option Document) (file : TaskFile) : Prop where
  task : optional? text? (field "task") = some file.task
  tool : optional? (ToolDefinition.ofDocument? .toml) (field "tool") = some file.tool
  mounts : defaulted? Config.mounts? [] (field "mounts") = some file.mounts
  inputs : defaulted? Inputs.ofDocument? ∅ (field "inputs") = some file.inputs

theorem ofDocument?_eq_some_iff :
    ofDocument? .toml doc = some file ↔
      ∃ field, record? .toml ["task", "tool", "mounts", "inputs"] doc = some field ∧
        file.ReadFrom field := by
  simp only [ofDocument?, Option.bind_eq_bind, Option.bind_eq_some_iff, Option.pure_def,
    Option.some.injEq]
  constructor
  · rintro ⟨field, hfield, task, htask, tool, htool, mounts, hmounts, inputs, hinputs, rfl⟩
    exact ⟨field, hfield, htask, htool, hmounts, hinputs⟩
  · rintro ⟨field, hfield, h⟩
    exact ⟨field, hfield, _, h.task, _, h.tool, _, h.mounts, _, h.inputs, rfl⟩

theorem shape_iff :
    shape doc = true ↔
      Shape.record [] [
        ("task", Shape.nonEmptyText),
        ("tool", toolShape),
        ("mounts", Shape.listOf mountShape),
        ("inputs", Shape.tableOf valueShape)] doc = true ∧
      Shape.has "task" doc ≠ Shape.has "tool" doc := by
  rw [shape, Bool.and_eq_true, bne_iff_ne]

/-- A task file declares a parameter by a table of fields. -/
def Declares (doc : Document) (fields : List (String × Document)) : Prop :=
  ∃ entries tool docs, doc = .table entries ∧ ("tool", Document.table tool) ∈ entries ∧
    ("params", Document.list docs) ∈ tool ∧ Document.table fields ∈ docs

/-- The entry for the tool is a tree of the shape of a tool. -/
theorem exists_table_of_tool {required : List String} {fields : List (String × Shape)}
    (htrees : ∀ entry ∈ entries, entry.2.IsTree)
    (hrecord : Shape.record required fields (.table entries) = true)
    (hfield : fields.lookup "tool" = some toolShape) (hmem : ("tool", doc) ∈ entries) :
    ∃ tool, doc = .table tool ∧ (tool.map Prod.fst).Nodup ∧ (∀ entry ∈ tool, entry.2.IsTree) ∧
      toolShape (.table tool) = true := by
  have hshape := Shape.of_record hrecord hfield hmem
  obtain ⟨tool, rfl, hdistinct, htrees⟩ := Shape.exists_table_of_record (htrees _ hmem) hshape
  exact ⟨tool, rfl, hdistinct, htrees, hshape⟩

/-- A tree of the shape of a task file is read exactly if the parameters that it declares are. -/
theorem exists_ofDocument?_iff (htree : doc.IsTree) (hshape : shape doc = true) :
    (∃ file, ofDocument? .toml doc = some file) ↔
      ∀ fields, Declares doc fields → Parameter.Readable fields := by
  obtain ⟨hrecord, -⟩ := shape_iff.mp hshape
  obtain ⟨entries, rfl, hdistinct, htrees⟩ := Shape.exists_table_of_record htree hrecord
  have hmem : ∀ {name doc}, find? entries name = some doc → (name, doc) ∈ entries :=
    mem_of_find?_eq_some
  have hnull : ∀ name, find? entries name ≠ some .null :=
    fun _ => Shape.ne_null_of_record hrecord (by decide)
  simp only [ofDocument?_eq_some_iff, record?_table hdistinct, Option.some.injEq, exists_eq_left']
  constructor
  · rintro ⟨file, hfile⟩ fields ⟨_, tool, docs, heq, htool, hdocs, hfields⟩
    cases heq
    obtain ⟨_, heq, hnames, htools, htoolShape⟩ := exists_table_of_tool htrees hrecord rfl htool
    cases heq
    have hread := (exists_optional?_iff (hnull "tool")).mp ⟨_, hfile.tool⟩ _
      ((find?_eq_some_iff hdistinct).mpr htool)
    exact (ToolDefinition.exists_ofDocument?_iff hnames htools htoolShape).mp hread docs hdocs
      fields hfields
  · intro h
    obtain ⟨task, htask⟩ : ∃ s, optional? text? (find? entries "task") = some s :=
      Shape.exists_optional?_of_record hrecord (by decide) rfl Shape.reads_nonEmptyText
    obtain ⟨tool, htool⟩ : ∃ t,
        optional? (ToolDefinition.ofDocument? .toml) (find? entries "tool") = some t := by
      refine (exists_optional?_iff (hnull _)).mpr fun doc hdoc => ?_
      obtain ⟨tool, rfl, hnames, htools, htoolShape⟩ :=
        exists_table_of_tool htrees hrecord rfl (hmem hdoc)
      exact (ToolDefinition.exists_ofDocument?_iff hnames htools htoolShape).mpr
        fun docs hdocs fields hfields => h fields ⟨_, tool, docs, rfl, hmem hdoc, hdocs, hfields⟩
    obtain ⟨mounts, hmounts⟩ : ∃ m, defaulted? Config.mounts? [] (find? entries "mounts") = some m :=
      Shape.exists_defaulted?_of_record hrecord rfl reads_mount.listOf []
    obtain ⟨inputs, hinputs⟩ : ∃ i,
        defaulted? Inputs.ofDocument? ∅ (find? entries "inputs") = some i := by
      refine exists_defaulted?_iff.mpr fun doc hdoc => ?_
      have hinputs := Shape.of_record hrecord rfl (hmem hdoc)
      cases htrees _ (hmem hdoc) with
      | table _ hvalues => exact Inputs.exists_ofDocument? hvalues hinputs
      | _ => cases hinputs
    exact ⟨⟨task, tool, mounts, inputs⟩, htask, htool, hmounts, hinputs⟩

/-- What a task file has been given under a name. -/
inductive Holds (file : TaskFile) : String → Document → Prop
  | task {s : String} : file.task = some s → file.Holds "task" (.text s)
  | tool {t : ToolDefinition} {entries : List (String × Document)} : file.tool = some t →
      (∀ entry ∈ entries, t.Holds entry.1 entry.2) → file.Holds "tool" (.table entries)
  | mounts : file.Holds "mounts" (.list (file.mounts.map MountEntry.toDocument))
  | inputs {entries : List (String × Document)} :
      (∀ entry ∈ entries, ∃ v, file.inputs.get? entry.1 = some v ∧ entry.2 = v.toDocument) →
      file.Holds "inputs" (.table entries)

/-- Every entry of a document that has been read is found in the task file. -/
theorem holds_of_ofDocument? (htree : doc.IsTree) (hshape : shape doc = true)
    (h : ofDocument? .toml doc = some file) :
    ∃ entries, doc = .table entries ∧ ∀ entry ∈ entries, file.Holds entry.1 entry.2 := by
  obtain ⟨hrecord, -⟩ := shape_iff.mp hshape
  obtain ⟨entries, rfl, hdistinct, htrees⟩ := Shape.exists_table_of_record htree hrecord
  refine ⟨entries, rfl, fun ⟨name, d⟩ hmem => ?_⟩
  simp only [ofDocument?_eq_some_iff, record?_table hdistinct, Option.some.injEq,
    exists_eq_left'] at h
  have hfind : find? entries name = some d := (find?_eq_some_iff hdistinct).mpr hmem
  have hnull : d ≠ .null := by
    rintro rfl
    exact Shape.ne_null_of_record hrecord (by decide) hfind
  obtain ⟨shape, hfield, hd⟩ := Shape.mem_of_record hrecord hmem
  simp only [List.mem_cons, Prod.mk.injEq, List.not_mem_nil, or_false] at hfield
  rcases hfield with ⟨rfl, rfl⟩ | ⟨rfl, rfl⟩ | ⟨rfl, rfl⟩ | ⟨rfl, rfl⟩
  · obtain ⟨s, hs, hfile⟩ := exists_of_optional? h.task hfind hnull
    exact text?_eq_some_iff.mp hs ▸ .task hfile
  · obtain ⟨t, ht, hfile⟩ := exists_of_optional? h.tool hfind hnull
    obtain ⟨tool, rfl, hnames, htools, htoolShape⟩ := exists_table_of_tool htrees hrecord rfl hmem
    exact .tool hfile fun entry hentry =>
      ToolDefinition.holds_of_ofDocument? hnames htools htoolShape ht hentry
  · obtain ⟨docs, hdocs, hread⟩ := Option.bind_eq_some_iff.mp (read_of_defaulted? h.mounts hfind)
    rw [items?_eq_some_iff.mp hdocs, mapM_mount_eq_some_iff.mp hread]
    exact .mounts
  · have hread := read_of_defaulted? h.inputs hfind
    cases htrees _ hmem with
    | table hnames hvalues =>
      exact .inputs fun entry hentry =>
        Inputs.exists_get?_of_ofDocument? hnames hvalues hread hentry
    | _ => cases hd

/-! ### A task or a tool -/

/-- What is read has a task or a tool, as the document has it. -/
theorem ReadFrom.isSome_task_ne_isSome_tool (h : file.ReadFrom (find? entries))
    (hnull : ∀ name ∈ ["task", "tool"], find? entries name ≠ some .null)
    (hone : Shape.has "task" (.table entries) ≠ Shape.has "tool" (.table entries)) :
    file.task.isSome ≠ file.tool.isSome := by
  rw [isSome_of_optional? (hnull "task" (by simp)) h.task,
    isSome_of_optional? (hnull "tool" (by simp)) h.tool]
  exact hone

theorem isSome_task_ne_isSome_tool (htree : doc.IsTree) (hshape : shape doc = true)
    (h : ofDocument? .toml doc = some file) : file.task.isSome ≠ file.tool.isSome := by
  obtain ⟨hrecord, hone⟩ := shape_iff.mp hshape
  obtain ⟨entries, rfl, hdistinct, -⟩ := Shape.exists_table_of_record htree hrecord
  simp only [ofDocument?_eq_some_iff, record?_table hdistinct, Option.some.injEq,
    exists_eq_left'] at h
  exact h.isSome_task_ne_isSome_tool
    (fun _ _ => Shape.ne_null_of_record hrecord (by decide)) hone

end TaskFile

end ContainerCommand
