import ContainerCommand.Proofs.Success
import ContainerCommand.Proofs.TaskFile.Decoding
import ContainerCommand.Proofs.TaskFile.JsonSchema
import ContainerCommand.TaskFile.Parse

/-! The schema of task files and the records that are read from them agree.

A text is checked against the schema as it looks without a type (`Document.untyped?`), which changes no
name at the top of a task file (`exists_table_of_untyped?`), and read as what it is. The main statement
is `reads_what_schema_accepts`. -/
namespace ContainerCommand

open Document

variable {doc seen : Document} {entries seenEntries : List (String × Document)} {name : String}

/-! ### Documents without a type -/

theorem entriesUntyped?_eq_some_iff :
    entriesUntyped? entries = some seenEntries ↔
      List.Forall₂ (fun entry seen => entry.1 = seen.1 ∧ entry.2.untyped? = some seen.2)
        entries seenEntries := by
  induction entries generalizing seenEntries with
  | nil =>
    rw [entriesUntyped?, List.forall₂_nil_left_iff]
    exact Option.some_inj.trans eq_comm
  | cons entry rest ih =>
    simp only [entriesUntyped?, Option.bind_eq_bind, Option.bind_eq_some_iff, Option.pure_def,
      Option.some.injEq, ih]
    constructor
    · rintro ⟨d, hd, rest', hrest, rfl⟩
      exact .cons ⟨rfl, hd⟩ hrest
    · rintro (_ | ⟨⟨hname, hd⟩, hrest⟩)
      exact ⟨_, hd, _, hrest, by rw [hname]⟩

/-- What is found in a table as it looks without a type is what is found in the table. -/
theorem find?_of_entriesUntyped? (h : entriesUntyped? entries = some seenEntries) (name : String) :
    find? seenEntries name = (find? entries name).bind Document.untyped? := by
  have hentries := entriesUntyped?_eq_some_iff.mp h
  clear h
  induction hentries with
  | nil => rfl
  | cons hentry _ ih =>
    unfold find? at ih ⊢
    rw [List.find?_cons, List.find?_cons, ← hentry.1]
    split
    · exact hentry.2.symm
    · exact ih

theorem has_of_entriesUntyped? (h : entriesUntyped? entries = some seenEntries) (name : String) :
    Shape.has name (.table seenEntries) = Shape.has name (.table entries) := by
  have hnames : entries.map Prod.fst = seenEntries.map Prod.fst :=
    forall₂_eq_iff_map_eq.mp
      ((entriesUntyped?_eq_some_iff.mp h).imp fun _ _ hentry => hentry.1)
  have hany : ∀ es : List (String × Document),
      Shape.has name (.table es) = (es.map Prod.fst).any (· == name) := by
    intro es
    rw [List.any_map]
    exact isSome_find?
  rw [hany, hany, hnames]

namespace TaskFile

variable {file : TaskFile} {registry : Registry} {contents : String}

/-- What has the shape of a task file without a type is a table whose entries have been seen. -/
theorem exists_table_of_untyped? (h : doc.untyped? = some seen) (hshape : shape seen = true) :
    ∃ entries seenEntries, doc = .table entries ∧ seen = .table seenEntries ∧
      entriesUntyped? entries = some seenEntries := by
  cases doc with
  | table entries =>
    rw [Document.untyped?] at h
    split at h
    · -- The table is a moment, which has a name that no task file has.
      simp only [Option.bind_eq_bind, Option.bind_eq_some_iff, Option.pure_def,
        Option.some.injEq] at h
      obtain ⟨_, _, _, _, rfl⟩ := h
      cases hshape
    · obtain ⟨seenEntries, hseen, rfl⟩ := Option.map_eq_some_iff.mp h
      exact ⟨entries, seenEntries, rfl, rfl, hseen⟩
  | list items =>
    obtain ⟨_, _, rfl⟩ := Option.map_eq_some_iff.mp h
    cases hshape
  | int n =>
    rw [Document.untyped?] at h
    split at h <;> cases h
    cases hshape
  | _ =>
    cases h
    cases hshape

theorem parse_eq_ok_iff :
    parse contents = .ok file ↔
      ∃ doc seen, documents? contents = some (doc, seen) ∧ shape seen = true ∧
        ofDocument? .toml doc = some file := by
  simp only [parse, bind_eq_ok_iff, Outcome.during_eq_ok_iff, Outcome.ofOption_eq_ok_iff,
    Prod.exists]
  refine exists_congr fun doc => exists_congr fun seen => and_congr_right fun _ => ?_
  cases shape seen with
  | true =>
    exact (Outcome.during_eq_ok_iff.trans Outcome.ofOption_eq_ok_iff).trans
      (and_iff_right rfl).symm
  | false => exact iff_of_false (fun h => by cases h) fun h => Bool.false_ne_true h.1

/-! ### A task or a tool -/

theorem isSome_task_ne_isSome_tool_of_parse (h : parse contents = .ok file) :
    file.task.isSome ≠ file.tool.isSome := by
  obtain ⟨doc, seen, hdocs, hshape, hread⟩ := parse_eq_ok_iff.mp h
  obtain ⟨_, _, hpair⟩ := Option.bind_eq_some_iff.mp hdocs
  obtain ⟨_, huntyped, heq⟩ := Option.bind_eq_some_iff.mp hpair
  cases heq
  obtain ⟨entries, seenEntries, rfl, rfl, hseen⟩ := exists_table_of_untyped? huntyped hshape
  obtain ⟨hrecord, hone⟩ := shape_iff.mp hshape
  obtain ⟨field, hfield, hfile⟩ := ofDocument?_eq_some_iff.mp hread
  rw [eq_find?_of_record? hfield] at hfile
  refine hfile.isSome_task_ne_isSome_tool (fun name _ hnull => ?_) ?_
  · have hseenNull : find? seenEntries name = some .null := by
      rw [find?_of_entriesUntyped? hseen, hnull]
      rfl
    exact Shape.ne_null_of_record hrecord (by decide) hseenNull
  · rwa [← has_of_entriesUntyped? hseen, ← has_of_entriesUntyped? hseen]

/-- Where there is a task or a tool, nothing fails for want of one or for both. -/
theorem cause_ne_taskOrTool (hone : file.task.isSome ≠ file.tool.isSome) {failure : Failure}
    (h : file.taskType registry = .error failure) : failure.cause ≠ .taskOrTool := by
  unfold taskType at h
  cases htask : file.task with
  | none =>
    cases htool : file.tool with
    | none => simp [htask, htool] at hone
    | some tool =>
      rw [htask, htool] at h
      simp only [ToolDefinition.taskType] at h
      cases hschema : Schema.ofList tool.params with
      | ok schema =>
        rw [hschema] at h
        cases h
      | error e =>
        rw [hschema] at h
        cases h
        exact nofun
  | some name =>
    cases htool : file.tool with
    | some tool => simp [htask, htool] at hone
    | none =>
      rw [htask, htool] at h
      cases hget : registry.get? name with
      | some task =>
        simp only [hget] at h
        cases h
      | none =>
        simp only [hget] at h
        cases h
        exact nofun

/-! ### The main statement -/

/-- **What the schema accepts is read, and all of it.** The schema accepts the documents of the shape
that texts are checked against. A tree that it accepts in JSON is read exactly if the templates of the
parameters that it declares are templates and their positions are written as words. What is read has a
task or a tool and not both, and holds every entry of the document, its tool's and its parameters'
among them. So no task file that is read from a text fails for naming a task and a tool or neither. -/
theorem reads_what_schema_accepts :
    (∀ doc : Document, JsonSchema.taskFile doc.image = shape doc) ∧
    (∀ doc : Document, doc.IsTree → JsonSchema.taskFile doc.image = true →
      ((∃ file, ofDocument? .toml doc = some file) ↔
        ∀ fields, Declares doc fields → Parameter.Readable fields) ∧
      ∀ file, ofDocument? .toml doc = some file →
        file.task.isSome ≠ file.tool.isSome ∧
          ∃ entries, doc = .table entries ∧ ∀ entry ∈ entries, file.Holds entry.1 entry.2) ∧
    ∀ contents file, parse contents = .ok file →
      file.task.isSome ≠ file.tool.isSome ∧
        ∀ registry failure, file.taskType registry = .error failure →
          failure.cause ≠ .taskOrTool := by
  refine ⟨JsonSchema.taskFile_describes_shape, fun doc htree haccepts => ?_,
    fun contents file h => ?_⟩
  · have hshape : shape doc = true := JsonSchema.taskFile_describes_shape doc ▸ haccepts
    refine ⟨exists_ofDocument?_iff htree hshape, fun file h => ?_⟩
    exact ⟨isSome_task_ne_isSome_tool htree hshape h, holds_of_ofDocument? htree hshape h⟩
  · have hone := isSome_task_ne_isSome_tool_of_parse h
    exact ⟨hone, fun registry failure hfailure => cause_ne_taskOrTool hone hfailure⟩

/-- A tool with a parameter that has both templates and a position, a pair of mounts and a number. -/
theorem reads_what_schema_accepts_fit :
    let param : List (String × Document) :=
      [("name", .text "report"), ("kind", .text "path"), ("argstr", .text "-o %s"),
        ("position", .int (-1)), ("name_source", .text "scan"), ("name_template", .text "%s.log"),
        ("requires", .list [.text "scan"])]
    let scan : List (String × Document) :=
      [("kind", .text "path"), ("name", .text "scan"), ("is_container_path", .bool true)]
    let doc : Document := .table
      [("tool", .table [("name", .text "fit"), ("params", .list [.table param, .table scan])]),
        ("mounts", .list [.list [.text "/scratch", .text "/work"]]),
        ("inputs", .table [("scan", .text "/data/a.nii"), ("scale", .float (.ofInt 2))])]
    let contents := "task = \"demo\"\nmounts = [\"/data:/mnt\"]\n"
    doc.IsTree ∧ JsonSchema.taskFile doc.image = true ∧
      (∀ fields, Declares doc fields → Parameter.Readable fields) ∧
      (∃ file, ofDocument? .toml doc = some file ∧
        ∃ entries, doc = .table entries ∧ ∀ entry ∈ entries, file.Holds entry.1 entry.2) ∧
      ∃ file, parse contents = .ok file ∧ file.task.isSome ≠ file.tool.isSome := by
  intro param scan doc contents
  have htree : doc.IsTree := by
    simp [doc, param, scan, Number.fitsWord, Number.fitsSigned, Number.wordCount]
  have haccepts : JsonSchema.taskFile doc.image = true := by decide +kernel
  obtain ⟨file, hfile⟩ : ∃ file, ofDocument? .toml doc = some file :=
    Option.isSome_iff_exists.mp (by decide +kernel)
  obtain ⟨parsed, hparsed⟩ : ∃ file, parse contents = .ok file :=
    exists_eq_ok_of_isOk (by decide +kernel)
  obtain ⟨-, hread, hparse⟩ := reads_what_schema_accepts
  obtain ⟨hreadable, hholds⟩ := hread doc htree haccepts
  exact ⟨htree, haccepts, hreadable.mp ⟨file, hfile⟩, ⟨file, hfile, (hholds file hfile).2⟩, parsed,
    hparsed, (hparse contents parsed hparsed).1⟩

end TaskFile

end ContainerCommand
