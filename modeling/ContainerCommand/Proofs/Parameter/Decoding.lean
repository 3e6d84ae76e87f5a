import ContainerCommand.Proofs.TaskFile.Shape

/-! Reading parameters from documents.

`Parameter.ReadFrom` says field by field what a parameter is read from. A table of the shape of a
parameter is read exactly if its templates are templates and its position is written as a word
(`Readable`, `exists_ofDocument?_iff`), and then every entry of the table is found in the parameter
(`Parameter.Holds`, `holds_of_ofDocument?`). -/
namespace ContainerCommand

open Document

namespace Template

variable {doc : Document} {raw : String}

theorem Argument.raw_of_parse {t : Argument} (h : parse raw = .ok t) : t.raw = raw := by
  unfold parse at h
  dsimp only at h
  split at h
  · cases h
  · split at h
    · cases h
    · split at h
      · cases h
      · split at h <;> cases h
        rfl

theorem Argument.ofDocument?_eq_some_iff {t : Argument} :
    ofDocument? doc = some t ↔ ∃ raw, doc = .text raw ∧ parse raw = .ok t := by
  simp only [ofDocument?, Option.bind_eq_some_iff, text?_eq_some_iff]
  refine exists_congr fun raw => and_congr_right fun _ => ?_
  cases parse raw <;> simp [Except.toOption]

theorem Name.ofDocument?_eq_some_iff {t : Name} :
    ofDocument? doc = some t ↔ ∃ raw, doc = .text raw ∧ parse raw = .ok t := by
  simp only [ofDocument?, Option.bind_eq_some_iff, text?_eq_some_iff]
  refine exists_congr fun raw => and_congr_right fun _ => ?_
  cases parse raw <;> simp [Except.toOption]

end Template

/-- A kind that is written as its label is read as itself. -/
theorem Kind.eq_label_of_ofDocument? {doc : Document} {k : Kind} {labels : List String}
    (hdoc : Shape.oneOf labels doc = true) (h : Kind.ofDocument? doc = some k) :
    doc = .text k.label := by
  obtain ⟨label, hlabel, -⟩ := (Option.any_eq_true _ _).mp hdoc
  rw [text?_eq_some_iff] at hlabel
  subst hlabel
  simp only [ofDocument?, ofLabel?] at h
  split at h <;> cases h <;> rfl

namespace Parameter

variable {p : Parameter} {entries : List (String × Document)} {doc : Document} {name : String}

theorem position?_eq_some_iff {n : Int} :
    position? doc = some n ↔ doc = .int n ∧ Number.fitsSigned 32 n = true := by
  simp [position?, int?_eq_some_iff]

/-- What a parameter is read from, field by field. -/
structure ReadFrom (field : String → Option Document) (p : Parameter) : Prop where
  name : ∃ doc, field "name" = some doc ∧ doc.text? = some p.name
  kind : ∃ doc, field "kind" = some doc ∧ Kind.ofDocument? doc = some p.kind
  argument : optional? Template.Argument.ofDocument? (field "argstr") = some p.argument
  position : optional? position? (field "position") = some p.position
  isMandatory : defaulted? bool? false (field "mandatory") = some p.isMandatory
  nameSource : optional? text? (field "name_source") = some p.nameSource
  nameTemplate : optional? Template.Name.ofDocument? (field "name_template") = some p.nameTemplate
  requires : defaulted? texts? [] (field "requires") = some p.requires
  isContainerPath : defaulted? bool? false (field "is_container_path") = some p.isContainerPath
  mustExist : defaulted? bool? false (field "exists_required") = some p.mustExist
  description : defaulted? text? "" (field "desc") = some p.description

theorem ofDocument?_eq_some_iff {format : Format} :
    ofDocument? format doc = some p ↔
      ∃ field, record? format fieldNames doc = some field ∧ p.ReadFrom field := by
  simp only [ofDocument?, Option.bind_eq_bind, Option.bind_eq_some_iff, Option.pure_def,
    Option.some.injEq]
  constructor
  · rintro ⟨field, hfield, name, hname, kind, hkind, argument, hargument, position, hposition,
      isMandatory, hmandatory, nameSource, hsource, nameTemplate, htemplate, requires, hrequires,
      isContainerPath, hcontainer, mustExist, hexists, description, hdescription, rfl⟩
    exact ⟨field, hfield, hname, hkind, hargument, hposition, hmandatory, hsource, htemplate,
      hrequires, hcontainer, hexists, hdescription⟩
  · rintro ⟨field, hfield, h⟩
    exact ⟨field, hfield, _, h.name, _, h.kind, _, h.argument, _, h.position, _, h.isMandatory,
      _, h.nameSource, _, h.nameTemplate, _, h.requires, _, h.isContainerPath, _, h.mustExist,
      _, h.description, rfl⟩

/-! ### Which parameters are read -/

/-- The texts of the templates are templates, and the position is written as a word. -/
structure Readable (entries : List (String × Document)) : Prop where
  argument : ∀ raw, ("argstr", Document.text raw) ∈ entries →
    ∃ t, Template.Argument.parse raw = .ok t
  nameTemplate : ∀ raw, ("name_template", Document.text raw) ∈ entries →
    ∃ t, Template.Name.parse raw = .ok t
  position : ∀ doc, ("position", doc) ∈ entries →
    ∃ n, doc = .int n ∧ Number.fitsSigned 32 n = true

theorem ReadFrom.readable (hdistinct : (entries.map Prod.fst).Nodup)
    (hnull : ∀ name, find? entries name ≠ some .null) (h : p.ReadFrom (find? entries)) :
    Readable entries := by
  have hentry : ∀ {α : Type} {read : Document → Option α} {name doc}, (name, doc) ∈ entries →
      (∃ a, optional? read (find? entries name) = some a) → ∃ a, read doc = some a :=
    fun hmem ha => (exists_optional?_iff (hnull _)).mp ha _ ((find?_eq_some_iff hdistinct).mpr hmem)
  refine ⟨fun raw hmem => ?_, fun raw hmem => ?_, fun doc hmem => ?_⟩
  · obtain ⟨t, ht⟩ := hentry hmem ⟨_, h.argument⟩
    obtain ⟨_, heq, hparse⟩ := Template.Argument.ofDocument?_eq_some_iff.mp ht
    cases heq
    exact ⟨t, hparse⟩
  · obtain ⟨t, ht⟩ := hentry hmem ⟨_, h.nameTemplate⟩
    obtain ⟨_, heq, hparse⟩ := Template.Name.ofDocument?_eq_some_iff.mp ht
    cases heq
    exact ⟨t, hparse⟩
  · obtain ⟨n, hn⟩ := hentry hmem ⟨_, h.position⟩
    exact ⟨n, position?_eq_some_iff.mp hn⟩

namespace Readable

theorem exists_argument (h : Readable entries)
    (hshape : TaskFile.parameterShape (.table entries) = true) :
    ∃ t, optional? Template.Argument.ofDocument? (find? entries "argstr") = some t := by
  refine (exists_optional?_iff (Shape.ne_null_of_record hshape (by decide))).mpr fun doc hdoc => ?_
  have hmem := mem_of_find?_eq_some hdoc
  obtain ⟨raw, rfl⟩ := Shape.text_iff.mp (Shape.of_record hshape rfl hmem)
  obtain ⟨t, ht⟩ := h.argument raw hmem
  exact ⟨t, Template.Argument.ofDocument?_eq_some_iff.mpr ⟨raw, rfl, ht⟩⟩

theorem exists_nameTemplate (h : Readable entries)
    (hshape : TaskFile.parameterShape (.table entries) = true) :
    ∃ t, optional? Template.Name.ofDocument? (find? entries "name_template") = some t := by
  refine (exists_optional?_iff (Shape.ne_null_of_record hshape (by decide))).mpr fun doc hdoc => ?_
  have hmem := mem_of_find?_eq_some hdoc
  obtain ⟨raw, rfl⟩ := Shape.text_iff.mp (Shape.of_record hshape rfl hmem)
  obtain ⟨t, ht⟩ := h.nameTemplate raw hmem
  exact ⟨t, Template.Name.ofDocument?_eq_some_iff.mpr ⟨raw, rfl, ht⟩⟩

theorem exists_position (h : Readable entries)
    (hshape : TaskFile.parameterShape (.table entries) = true) :
    ∃ n, optional? position? (find? entries "position") = some n := by
  refine (exists_optional?_iff (Shape.ne_null_of_record hshape (by decide))).mpr fun doc hdoc => ?_
  obtain ⟨n, hn⟩ := h.position doc (mem_of_find?_eq_some hdoc)
  exact ⟨n, position?_eq_some_iff.mpr hn⟩

end Readable

/-- A table of the shape of a parameter is read exactly if its templates and position are. -/
theorem exists_ofDocument?_iff (hdistinct : (entries.map Prod.fst).Nodup)
    (hshape : TaskFile.parameterShape (.table entries) = true) :
    (∃ p, ofDocument? .toml (.table entries) = some p) ↔ Readable entries := by
  simp only [ofDocument?_eq_some_iff, record?_table hdistinct, Option.some.injEq, exists_eq_left']
  refine ⟨fun ⟨p, hp⟩ => hp.readable hdistinct fun _ =>
    Shape.ne_null_of_record hshape (by decide), fun h => ?_⟩
  obtain ⟨name, hname⟩ : ∃ s doc, find? entries "name" = some doc ∧ text? doc = some s :=
    Shape.exists_read_of_record hshape (by simp) rfl Shape.reads_nonEmptyText
  obtain ⟨kind, hkind⟩ : ∃ k doc, find? entries "kind" = some doc ∧ Kind.ofDocument? doc = some k :=
    Shape.exists_read_of_record hshape (by simp) rfl Shape.reads_kind
  obtain ⟨argument, hargument⟩ := h.exists_argument hshape
  obtain ⟨position, hposition⟩ := h.exists_position hshape
  obtain ⟨isMandatory, hmandatory⟩ : ∃ b,
      defaulted? bool? false (find? entries "mandatory") = some b :=
    Shape.exists_defaulted?_of_record hshape rfl Shape.reads_bool false
  obtain ⟨nameSource, hsource⟩ : ∃ s, optional? text? (find? entries "name_source") = some s :=
    Shape.exists_optional?_of_record hshape (by decide) rfl Shape.reads_text
  obtain ⟨nameTemplate, htemplate⟩ := h.exists_nameTemplate hshape
  obtain ⟨requires, hrequires⟩ : ∃ names,
      defaulted? texts? [] (find? entries "requires") = some names :=
    Shape.exists_defaulted?_of_record hshape rfl Shape.reads_texts []
  obtain ⟨isContainerPath, hcontainer⟩ : ∃ b,
      defaulted? bool? false (find? entries "is_container_path") = some b :=
    Shape.exists_defaulted?_of_record hshape rfl Shape.reads_bool false
  obtain ⟨mustExist, hexists⟩ : ∃ b,
      defaulted? bool? false (find? entries "exists_required") = some b :=
    Shape.exists_defaulted?_of_record hshape rfl Shape.reads_bool false
  obtain ⟨description, hdescription⟩ : ∃ s, defaulted? text? "" (find? entries "desc") = some s :=
    Shape.exists_defaulted?_of_record hshape rfl Shape.reads_text ""
  exact ⟨⟨name, kind, argument, position, isMandatory, nameSource, nameTemplate, requires,
      isContainerPath, mustExist, description⟩,
    ⟨hname, hkind, hargument, hposition, hmandatory, hsource, htemplate, hrequires, hcontainer,
      hexists, hdescription⟩⟩

/-! ### What a parameter holds -/

/-- What a parameter has been given under a name. -/
inductive Holds (p : Parameter) : String → Document → Prop
  | name : p.Holds "name" (.text p.name)
  | kind : p.Holds "kind" (.text p.kind.label)
  | argument {t : Template.Argument} : p.argument = some t → p.Holds "argstr" (.text t.raw)
  | position {n : Int} : p.position = some n → p.Holds "position" (.int n)
  | isMandatory : p.Holds "mandatory" (.bool p.isMandatory)
  | nameSource {s : String} : p.nameSource = some s → p.Holds "name_source" (.text s)
  | nameTemplate {t : Template.Name} : p.nameTemplate = some t →
      p.Holds "name_template" (.text t.raw)
  | requires : p.Holds "requires" (.list (p.requires.map .text))
  | isContainerPath : p.Holds "is_container_path" (.bool p.isContainerPath)
  | mustExist : p.Holds "exists_required" (.bool p.mustExist)
  | description : p.Holds "desc" (.text p.description)

/-- Every entry of a table that has been read is found in the parameter. -/
theorem holds_of_ofDocument? (hdistinct : (entries.map Prod.fst).Nodup)
    (hshape : TaskFile.parameterShape (.table entries) = true)
    (h : ofDocument? .toml (.table entries) = some p) (hmem : (name, doc) ∈ entries) :
    p.Holds name doc := by
  simp only [ofDocument?_eq_some_iff, record?_table hdistinct, Option.some.injEq,
    exists_eq_left'] at h
  have hfind : find? entries name = some doc := (find?_eq_some_iff hdistinct).mpr hmem
  obtain ⟨shape, hfield, hdoc⟩ := Shape.mem_of_record hshape hmem
  simp only [List.mem_cons, Prod.mk.injEq, List.not_mem_nil, or_false] at hfield
  have hnull : doc ≠ .null := by
    rintro rfl
    exact Shape.ne_null_of_record hshape (by decide) hfind
  -- The shape leaves the names of the fields alone, and each is read by its own reader.
  rcases hfield with ⟨rfl, rfl⟩ | ⟨rfl, rfl⟩ | ⟨rfl, rfl⟩ | ⟨rfl, rfl⟩ | ⟨rfl, rfl⟩ | ⟨rfl, rfl⟩ |
    ⟨rfl, rfl⟩ | ⟨rfl, rfl⟩ | ⟨rfl, rfl⟩ | ⟨rfl, rfl⟩ | ⟨rfl, rfl⟩
  · obtain ⟨_, hname, hread⟩ := h.name
    rw [hfind, Option.some.injEq] at hname
    rw [hname, text?_eq_some_iff.mp hread]
    exact .name
  · obtain ⟨_, hkind, hread⟩ := h.kind
    rw [hfind, Option.some.injEq] at hkind
    rw [hkind, Kind.eq_label_of_ofDocument? (hkind ▸ hdoc) hread]
    exact .kind
  · obtain ⟨t, ht, hp⟩ := exists_of_optional? h.argument hfind hnull
    obtain ⟨raw, rfl, hparse⟩ := Template.Argument.ofDocument?_eq_some_iff.mp ht
    exact Template.Argument.raw_of_parse hparse ▸ .argument hp
  · obtain ⟨n, hn, hp⟩ := exists_of_optional? h.position hfind hnull
    rw [(position?_eq_some_iff.mp hn).1]
    exact .position hp
  · exact bool?_eq_some_iff.mp (read_of_defaulted? h.isMandatory hfind) ▸ .isMandatory
  · obtain ⟨s, hs, hp⟩ := exists_of_optional? h.nameSource hfind hnull
    rw [text?_eq_some_iff.mp hs]
    exact .nameSource hp
  · obtain ⟨t, ht, hp⟩ := exists_of_optional? h.nameTemplate hfind hnull
    obtain ⟨raw, rfl, hparse⟩ := Template.Name.ofDocument?_eq_some_iff.mp ht
    exact Template.Name.raw_of_parse hparse ▸ .nameTemplate hp
  · exact texts?_eq_some_iff.mp (read_of_defaulted? h.requires hfind) ▸ .requires
  · exact bool?_eq_some_iff.mp (read_of_defaulted? h.isContainerPath hfind) ▸ .isContainerPath
  · exact bool?_eq_some_iff.mp (read_of_defaulted? h.mustExist hfind) ▸ .mustExist
  · exact text?_eq_some_iff.mp (read_of_defaulted? h.description hfind) ▸ .description

end Parameter

end ContainerCommand
