import ContainerCommand.Proofs.Json.Writing
import ContainerCommand.Proofs.Parameter.Decoding

/-! Parameters that are written and read again.

The text of a parameter is read as that parameter (`ofJson?_compact`), since each field that is left out
has the default that is read in its place. -/
namespace ContainerCommand

open Document

namespace Document

variable {α : Type} {entries : List (String × Document)}

theorem find?_cons (entry : String × Document) (name : String) :
    find? (entry :: entries) name = if entry.1 = name then some entry.2 else find? entries name := by
  by_cases h : entry.1 = name
  · simp [find?, h]
  · simp [find?, beq_false_of_ne h, h]

theorem find?_append (others : List (String × Document)) (name : String) :
    find? (entries ++ others) name = (find? entries name).or (find? others name) := by
  simp only [find?, List.find?_append, Option.map_or]

/-- A field that may be left out is read as what it was written from. -/
theorem optional?_map {read : Document → Option α} {write : α → Document} {value : Option α}
    (hnull : ∀ a, write a ≠ .null) (h : ∀ a, value = some a → read (write a) = some a) :
    optional? read (value.map write) = some value := by
  cases value with
  | none => rfl
  | some a => rw [Option.map_some, optional?_some (hnull a), h a rfl, Option.map_some]

end Document

theorem Kind.ofLabel?_eq_some_iff {label : String} {k : Kind} :
    ofLabel? label = some k ↔ label = k.label := by
  constructor
  · intro h
    unfold ofLabel? at h
    split at h <;> cases h <;> rfl
  · rintro rfl
    cases k <;> rfl

theorem Kind.label_inj {k k' : Kind} (h : k.label = k'.label) : k = k' :=
  Option.some.inj ((ofLabel?_eq_some_iff.mpr rfl).symm.trans (ofLabel?_eq_some_iff.mpr h))

namespace Template

variable {raw raw' : String}

theorem Argument.eq_of_raw_eq {t t' : Argument} (h : parse raw = .ok t) (h' : parse raw' = .ok t')
    (hraw : t.raw = t'.raw) : t = t' := by
  rw [raw_of_parse h, raw_of_parse h'] at hraw
  subst hraw
  exact Except.ok.inj (h.symm.trans h')

theorem Name.eq_of_raw_eq {t t' : Name} (h : parse raw = .ok t) (h' : parse raw' = .ok t')
    (hraw : t.raw = t'.raw) : t = t' := by
  rw [raw_of_parse h, raw_of_parse h'] at hraw
  subst hraw
  exact Except.ok.inj (h.symm.trans h')

end Template

namespace Parameter

variable {p : Parameter} {format : Format}

/-- The templates come from texts, and the position is a number of thirty-two bits. -/
structure IsDeclared (p : Parameter) : Prop where
  argument : ∀ t, p.argument = some t → ∃ raw, Template.Argument.parse raw = .ok t
  nameTemplate : ∀ t, p.nameTemplate = some t → ∃ raw, Template.Name.parse raw = .ok t
  position : ∀ n, p.position = some n → Number.fitsSigned 32 n = true

/-! ### The fields that are written -/

/-- The fields in their order, each with what is written under its name. -/
def fields (p : Parameter) : List (String × Option Document) :=
  [("name", some (.text p.name)), ("kind", some (.text p.kind.label)),
    ("argstr", p.argument.map fun t => .text t.raw), ("position", p.position.map .int),
    ("mandatory", some (.bool p.isMandatory)), ("name_source", p.nameSource.map .text),
    ("name_template", p.nameTemplate.map fun t => .text t.raw),
    ("requires", if p.requires.isEmpty then none else some (.list (p.requires.map .text))),
    ("is_container_path", some (.bool p.isContainerPath)),
    ("exists_required", some (.bool p.mustExist)),
    ("desc", if p.description.isEmpty then none else some (.text p.description))]

/-- The entries of the fields that are written. -/
def entries (p : Parameter) : List (String × Document) :=
  p.fields.flatMap fun field => entry? field.1 field.2

theorem toDocument_eq (p : Parameter) : p.toDocument = .table p.entries := by
  simp [toDocument, entries, fields, entry?]

theorem find?_entry? (name : String) (doc : Option Document) (other : String) :
    find? ( entry? name doc) other = if name = other then doc else none := by
  cases doc with
  | none => simp [find?, entry?]
  | some doc => exact find?_cons (name, doc) other

theorem map_fst_entry?_sublist (fields : List (String × Option Document)) :
    ((fields.flatMap fun field => entry? field.1 field.2).map Prod.fst).Sublist
      (fields.map Prod.fst) := by
  induction fields with
  | nil => exact .slnil
  | cons field fields ih =>
    obtain ⟨name, doc⟩ := field
    rw [List.flatMap_cons, List.map_append, List.map_cons]
    cases doc with
    | none => exact ih.cons name
    | some doc => exact ih.cons_cons name

/-- What is found under the name of a field is what is written there. -/
theorem find?_flatMap_entry? {fields : List (String × Option Document)} {name : String}
    {doc : Option Document} (hdistinct : (fields.map Prod.fst).Nodup)
    (hmem : (name, doc) ∈ fields) :
    find? (fields.flatMap fun field => entry? field.1 field.2) name = doc := by
  induction fields with
  | nil => cases hmem
  | cons field fields ih =>
    rw [List.map_cons, List.nodup_cons] at hdistinct
    rw [List.flatMap_cons, find?_append, find?_entry?]
    rcases List.mem_cons.mp hmem with rfl | hmem
    · have hrest : find? (fields.flatMap fun field => entry? field.1 field.2) name = none := by
        rw [← Option.not_isSome_iff_eq_none, isSome_find?_iff]
        exact fun h => hdistinct.1 ((map_fst_entry?_sublist fields).subset h)
      simp [hrest]
    · have hne : field.1 ≠ name := by
        rintro rfl
        exact hdistinct.1 (List.mem_map.mpr ⟨_, hmem, rfl⟩)
      rw [if_neg hne, Option.none_or, ih hdistinct.2 hmem]

theorem nodup_fieldNames : fieldNames.Nodup := by
  decide

theorem nodup_entries (p : Parameter) : (p.entries.map Prod.fst).Nodup :=
  (map_fst_entry?_sublist p.fields).nodup nodup_fieldNames

theorem find?_entries (name : String) (doc : Option Document) (h : (name, doc) ∈ p.fields) :
    find? p.entries name = doc :=
  find?_flatMap_entry? nodup_fieldNames h

/-! ### Reading what is written -/

theorem optional?_entries {α : Type} {read : Document → Option α} {value : Option α}
    {name : String} (write : α → Document) (hmem : (name, value.map write) ∈ p.fields)
    (hnull : ∀ a, write a ≠ .null) (h : ∀ a, value = some a → read (write a) = some a) :
    optional? read (find? p.entries name) = some value := by
  rw [find?_entries name _ hmem]
  exact optional?_map hnull h

theorem defaulted?_entries {α : Type} {read : Document → Option α} {value fallback : α}
    {name : String} (omits : Bool) (write : α → Document)
    (hmem : (name, if omits then none else some (write value)) ∈ p.fields)
    (homits : omits = true → value = fallback) (h : read (write value) = some value) :
    defaulted? read fallback (find? p.entries name) = some value := by
  rw [find?_entries name _ hmem]
  cases omits with
  | true => exact congrArg some (homits rfl).symm
  | false => exact h

theorem readFrom_entries (h : p.IsDeclared) : p.ReadFrom (find? p.entries) where
  name := ⟨.text p.name, find?_entries "name" _ (by simp [fields]), rfl⟩
  kind := ⟨.text p.kind.label, find?_entries "kind" _ (by simp [fields]),
    Kind.ofLabel?_eq_some_iff.mpr rfl⟩
  argument := by
    refine optional?_entries (fun t => .text t.raw) (by simp [fields]) (fun _ => nofun) fun t ht => ?_
    obtain ⟨raw, hraw⟩ := h.argument t ht
    exact Template.Argument.ofDocument?_eq_some_iff.mpr
      ⟨_, rfl, (Template.Argument.raw_of_parse hraw).symm ▸ hraw⟩
  position := optional?_entries .int (by simp [fields]) (fun _ => nofun) fun n hn =>
    position?_eq_some_iff.mpr ⟨rfl, h.position n hn⟩
  isMandatory := defaulted?_entries false .bool (by simp [fields]) nofun rfl
  nameSource := optional?_entries .text (by simp [fields]) (fun _ => nofun) fun _ _ => rfl
  nameTemplate := by
    refine optional?_entries (fun t => .text t.raw) (by simp [fields]) (fun _ => nofun) fun t ht => ?_
    obtain ⟨raw, hraw⟩ := h.nameTemplate t ht
    exact Template.Name.ofDocument?_eq_some_iff.mpr
      ⟨_, rfl, (Template.Name.raw_of_parse hraw).symm ▸ hraw⟩
  requires := defaulted?_entries p.requires.isEmpty (fun names => .list (names.map .text))
    (by simp [fields]) List.isEmpty_iff.mp (texts?_eq_some_iff.mpr rfl)
  isContainerPath := defaulted?_entries false .bool (by simp [fields]) nofun rfl
  mustExist := defaulted?_entries false .bool (by simp [fields]) nofun rfl
  description := defaulted?_entries p.description.isEmpty .text (by simp [fields])
    String.isEmpty_iff.mp rfl

theorem ofDocument?_toDocument (h : p.IsDeclared) : ofDocument? format p.toDocument = some p := by
  rw [toDocument_eq, ofDocument?_eq_some_iff]
  exact ⟨_, record?_table (nodup_entries p), readFrom_entries h⟩

theorem fitsWord_of_fitsSigned {n : Int} (h : Number.fitsSigned 32 n = true) :
    Number.fitsWord n = true := by
  have hcount : (Number.wordCount (32 - 1) : Int) = 2 ^ 31 := by decide
  rw [Number.fitsSigned, Bool.and_eq_true, decide_eq_true_eq, decide_eq_true_eq, hcount] at h
  rw [Number.fitsWord_iff]
  omega

/-- Nothing that is written is lost. -/
theorem exact_fields (h : p.IsDeclared) (depth : Nat) :
    ∀ field ∈ p.fields, ∀ doc, field.2 = some doc → Json.Exact (depth + 1) doc := by
  have htexts : ∀ texts : List String, Json.Exact (depth + 1) (.list (texts.map .text)) := by
    intro texts
    refine .list fun doc hdoc => ?_
    obtain ⟨s, _, rfl⟩ := List.mem_map.mp hdoc
    exact .text s
  have hposition : ∀ n, p.position = some n → Json.Exact (depth + 1) (.int n) := fun n hn =>
    .int (fitsWord_of_fitsSigned (h.position n hn))
  simpa [fields, Json.Exact.text, Json.Exact.bool, htexts] using hposition

theorem exact_of_mem_entries (h : p.IsDeclared) (depth : Nat) {entry : String × Document}
    (hentry : entry ∈ p.entries) : Json.Exact (depth + 1) entry.2 := by
  obtain ⟨field, hfield, hentry⟩ := List.mem_flatMap.mp hentry
  unfold entry? at hentry
  rw [Option.mem_toList, Option.map_eq_some_iff] at hentry
  obtain ⟨doc, hdoc, rfl⟩ := hentry
  exact exact_fields h depth field hfield doc hdoc

/-- **The text of a parameter is read as that parameter.** -/
theorem ofJson?_compact (h : p.IsDeclared) : ofJson? (Json.compact p.toDocument) = some p := by
  have hread : Json.readRecord? fieldNames (Json.compact (.table p.entries)).toList =
      some (.table p.entries) :=
    Json.readRecord?_compact
      (fun _ hentry => (map_fst_entry?_sublist p.fields).subset (List.mem_map_of_mem hentry))
      fun _ hentry => exact_of_mem_entries h _ hentry
  rw [ofJson?, toDocument_eq, hread, Option.bind_some, ← toDocument_eq]
  exact ofDocument?_toDocument h

/-- Whatever a parameter is read from, its templates come from texts. -/
theorem isDeclared_of_ofDocument? {doc : Document} (h : ofDocument? format doc = some p) :
    p.IsDeclared := by
  obtain ⟨field, _, hfield⟩ := ofDocument?_eq_some_iff.mp h
  refine ⟨fun t ht => ?_, fun t ht => ?_, fun n hn => ?_⟩
  · obtain ⟨doc, _, hread⟩ := exists_of_optional?_eq_some (ht ▸ hfield.argument)
    obtain ⟨raw, _, hraw⟩ := Template.Argument.ofDocument?_eq_some_iff.mp hread
    exact ⟨raw, hraw⟩
  · obtain ⟨doc, _, hread⟩ := exists_of_optional?_eq_some (ht ▸ hfield.nameTemplate)
    obtain ⟨raw, _, hraw⟩ := Template.Name.ofDocument?_eq_some_iff.mp hread
    exact ⟨raw, hraw⟩
  · obtain ⟨doc, _, hread⟩ := exists_of_optional?_eq_some (hn ▸ hfield.position)
    exact (position?_eq_some_iff.mp hread).2

/-! ### What is kept of a table -/

/-- What a field that is left out stands for. -/
def standing : String → Option Document
  | "argstr" | "position" | "name_source" | "name_template" => some .null
  | "mandatory" | "is_container_path" | "exists_required" => some (.bool false)
  | "requires" => some (.list [])
  | "desc" => some (.text "")
  | _ => none

/-- A kind that is spelled as a table is its label. -/
def plain : Document → Document
  | .table [(label, .null)] => .text label
  | doc => doc

/-- What a table says of a field, be it left out or not. -/
def said (entries : List (String × Document)) (name : String) : Option Document :=
  ((find? entries name).map plain).or (standing name)

/-- What is said of the fields in their order. -/
def full (p : Parameter) : List Document :=
  [.text p.name, .text p.kind.label, (p.argument.map fun t => .text t.raw).getD .null,
    (p.position.map .int).getD .null, .bool p.isMandatory, (p.nameSource.map .text).getD .null,
    (p.nameTemplate.map fun t => .text t.raw).getD .null, .list (p.requires.map .text),
    .bool p.isContainerPath, .bool p.mustExist, .text p.description]

variable {α : Type} {read : Document → Option α} {entries : List (String × Document)}
  {name : String}

theorem said_of_optional? {value : Option α} (write : α → Document)
    (h : optional? read (find? entries name) = some value)
    (hread : ∀ {doc a}, read doc = some a → doc = write a) (hplain : ∀ a, plain (write a) = write a)
    (hstanding : standing name = some .null) :
    said entries name = some ((value.map write).getD .null) := by
  rw [said, hstanding]
  unfold optional? at h
  split at h
  · rename_i hfield
    cases h
    rw [hfield]
    rfl
  · rename_i hfield
    cases h
    rw [hfield]
    rfl
  · rename_i doc _ hfield
    obtain ⟨a, ha, rfl⟩ := Option.map_eq_some_iff.mp h
    rw [hfield, hread ha, Option.map_some, hplain]
    rfl

theorem said_of_defaulted? {value fallback : α} (write : α → Document)
    (h : defaulted? read fallback (find? entries name) = some value)
    (hread : ∀ {doc a}, read doc = some a → doc = write a) (hplain : ∀ a, plain (write a) = write a)
    (hstanding : standing name = some (write fallback)) :
    said entries name = some (write value) := by
  rw [said, hstanding]
  cases hfield : find? entries name with
  | none =>
    rw [hfield] at h
    cases h
    rfl
  | some doc => rw [hread (read_of_defaulted? h hfield), Option.map_some, hplain, Option.some_or]

theorem plain_of_ofDocument? {doc : Document} {k : Kind} (h : Kind.ofDocument? doc = some k) :
    plain doc = .text k.label := by
  unfold Kind.ofDocument? at h
  split at h
  · rw [Kind.ofLabel?_eq_some_iff.mp h]
    rfl
  · rw [Kind.ofLabel?_eq_some_iff.mp h]
    rfl
  · cases h

/-- A table says of the fields what the parameter that is read from it has. -/
theorem ReadFrom.map_said (h : p.ReadFrom (find? entries)) :
    fieldNames.map (said entries) = p.full.map some := by
  have hname : said entries "name" = some (.text p.name) := by
    obtain ⟨doc, hdoc, hread⟩ := h.name
    rw [said, hdoc, text?_eq_some_iff.mp hread]
    rfl
  have hkind : said entries "kind" = some (.text p.kind.label) := by
    obtain ⟨doc, hdoc, hread⟩ := h.kind
    rw [said, hdoc, Option.map_some, plain_of_ofDocument? hread, Option.some_or]
  have hargument := said_of_optional? (fun t => .text t.raw) h.argument
    (fun hread => by
      obtain ⟨raw, rfl, hraw⟩ := Template.Argument.ofDocument?_eq_some_iff.mp hread
      rw [Template.Argument.raw_of_parse hraw]) (fun _ => rfl) rfl
  have hposition := said_of_optional? .int h.position (fun hread => (position?_eq_some_iff.mp hread).1)
    (fun _ => rfl) rfl
  have hmandatory := said_of_defaulted? .bool h.isMandatory bool?_eq_some_iff.mp (fun _ => rfl) rfl
  have hsource := said_of_optional? .text h.nameSource text?_eq_some_iff.mp (fun _ => rfl) rfl
  have htemplate := said_of_optional? (fun t => .text t.raw) h.nameTemplate
    (fun hread => by
      obtain ⟨raw, rfl, hraw⟩ := Template.Name.ofDocument?_eq_some_iff.mp hread
      rw [Template.Name.raw_of_parse hraw]) (fun _ => rfl) rfl
  have hrequires := said_of_defaulted? (fun names => .list (names.map .text)) h.requires
    texts?_eq_some_iff.mp (fun _ => rfl) rfl
  have hcontainer := said_of_defaulted? .bool h.isContainerPath bool?_eq_some_iff.mp (fun _ => rfl) rfl
  have hexists := said_of_defaulted? .bool h.mustExist bool?_eq_some_iff.mp (fun _ => rfl) rfl
  have hdescription := said_of_defaulted? .text h.description text?_eq_some_iff.mp (fun _ => rfl) rfl
  simp only [fieldNames, full, List.map_cons, List.map_nil, hname, hkind, hargument, hposition,
    hmandatory, hsource, htemplate, hrequires, hcontainer, hexists, hdescription]

/-- Values that may be missing are the same if what is said of them is. -/
theorem eq_of_getD_null {write : α → Document} {value value' : Option α}
    (h : (value.map write).getD .null = (value'.map write).getD .null)
    (hnull : ∀ a, write a ≠ .null)
    (hinj : ∀ a a', value = some a → value' = some a' → write a = write a' → a = a') :
    value = value' := by
  cases value with
  | none =>
    cases value' with
    | none => rfl
    | some a' => exact absurd h.symm (hnull a')
  | some a =>
    cases value' with
    | none => exact absurd h (hnull a)
    | some a' => rw [hinj a a' rfl rfl h]

/-- What is said of the fields leaves nothing open. -/
theorem full_inj {q : Parameter} (hp : p.IsDeclared) (hq : q.IsDeclared) (h : p.full = q.full) :
    p = q := by
  obtain ⟨name, kind, argument, position, isMandatory, nameSource, nameTemplate, requires,
    isContainerPath, mustExist, description⟩ := p
  obtain ⟨name', kind', argument', position', isMandatory', nameSource', nameTemplate', requires',
    isContainerPath', mustExist', description'⟩ := q
  simp only [full, List.cons.injEq, text.injEq, bool.injEq, list.injEq, and_true] at h
  obtain ⟨rfl, hkind, hargument, hposition, rfl, hsource, htemplate, hrequires, rfl, rfl, rfl⟩ := h
  obtain rfl := Kind.label_inj hkind
  obtain rfl := eq_of_getD_null hposition (fun _ => nofun) fun _ _ _ _ => int.inj
  obtain rfl := eq_of_getD_null hsource (fun _ => nofun) fun _ _ _ _ => text.inj
  obtain rfl := List.map_injective_iff.mpr (fun _ _ => text.inj) hrequires
  obtain rfl := eq_of_getD_null hargument (fun _ => nofun) fun t t' ht ht' heq => by
    obtain ⟨_, hraw⟩ := hp.argument t ht
    obtain ⟨_, hraw'⟩ := hq.argument t' ht'
    exact Template.Argument.eq_of_raw_eq hraw hraw' (text.inj heq)
  obtain rfl := eq_of_getD_null htemplate (fun _ => nofun) fun t t' ht ht' heq => by
    obtain ⟨_, hraw⟩ := hp.nameTemplate t ht
    obtain ⟨_, hraw'⟩ := hq.nameTemplate t' ht'
    exact Template.Name.eq_of_raw_eq hraw hraw' (text.inj heq)
  rfl

/-- **Parameters and their texts.** A parameter whose templates come from texts is read from its own
text. So is whatever has been read, which therefore has one text for good. Two tables have the same
text exactly if they say the same of each field of a parameter, where a field that is left out says its
default and a kind that is spelled as a table its label: the order of the entries does not
count, nor does any entry that is no field. -/
theorem ofJson?_normalizes :
    (∀ p : Parameter, p.IsDeclared → ofJson? (Json.compact p.toDocument) = some p) ∧
    (∀ text p, ofJson? text = some p → ofJson? (Json.compact p.toDocument) = some p) ∧
    ∀ text text' entries entries' p q,
      Json.readRecord? fieldNames text.toList = some (.table entries) →
      Json.readRecord? fieldNames text'.toList = some (.table entries') →
      ofJson? text = some p → ofJson? text' = some q →
      (Json.compact p.toDocument = Json.compact q.toDocument ↔
        ∀ name ∈ fieldNames, said entries name = said entries' name) := by
  have hdeclared : ∀ {text p}, ofJson? text = some p → p.IsDeclared := by
    intro text p h
    obtain ⟨_, _, hdoc⟩ := Option.bind_eq_some_iff.mp h
    exact isDeclared_of_ofDocument? hdoc
  have hsaid : ∀ {text entries p}, Json.readRecord? fieldNames text.toList = some (.table entries) →
      ofJson? text = some p → fieldNames.map (said entries) = p.full.map some := by
    intro text entries p hentries h
    rw [ofJson?, hentries, Option.bind_some, ofDocument?_eq_some_iff] at h
    obtain ⟨field, hfield, h⟩ := h
    exact (eq_find?_of_record? hfield ▸ h).map_said
  refine ⟨fun p => ofJson?_compact, fun text p h => ofJson?_compact (hdeclared h),
    fun text text' entries entries' p q hentries hentries' hp hq => ?_⟩
  rw [← List.map_inj_left, hsaid hentries hp, hsaid hentries' hq]
  constructor
  · intro htext
    have hsame := ofJson?_compact (hdeclared hp)
    rw [htext, ofJson?_compact (hdeclared hq)] at hsame
    rw [Option.some.inj hsame]
  · intro hfull
    rw [full_inj (hdeclared hp) (hdeclared hq)
      (List.map_injective_iff.mpr (fun _ _ => Option.some.inj) hfull)]

/-- A parameter with an argument, and a table that declares it with its entries in another order, its
kind spelled as a table and a default written out. -/
theorem ofJson?_normalizes_reordered :
    let t : Template.Argument := ⟨"-l %d", .slotted ["-l"] "" .integer "" [], false⟩
    let p : Parameter := { name := "length", kind := .scalar, argument := some t }
    let text := "\x7b\"kind\":\x7b\"scalar\":null\x7d,\"argstr\":\"-l %d\",\"name\":\"length\"," ++
      "\"requires\":[]\x7d"
    p.IsDeclared ∧ ofJson? (Json.compact p.toDocument) = some p ∧
      ∃ q, ofJson? text = some q ∧ ofJson? (Json.compact q.toDocument) = some q ∧
        Json.compact q.toDocument = Json.compact p.toDocument := by
  intro t p text
  have hp : p.IsDeclared := by
    refine ⟨fun t' ht => ⟨"-l %d", ?_⟩, nofun, nofun⟩
    cases ht
    decide +kernel
  obtain ⟨hwritten, hread, _⟩ := ofJson?_normalizes
  obtain ⟨q, hq⟩ : ∃ q, ofJson? text = some q := Option.isSome_iff_exists.mp (by decide +kernel)
  have hsame : (ofJson? text).map (fun q => Json.compact q.toDocument) =
      some (Json.compact p.toDocument) := by
    decide +kernel
  rw [hq] at hsame
  exact ⟨hp, hwritten p hp, q, hq, hread text q hq, Option.some.inj hsame⟩

/-- An entry under a name that is no field's is lost, though all fields are written out in their
order. -/
theorem ofJson?_loses_note :
    let text := "\x7b\"name\":\"a\",\"kind\":\"flag\",\"mandatory\":false," ++
      "\"is_container_path\":false,\"exists_required\":false,\"note\":\"x\"\x7d"
    let kept := "\x7b\"name\":\"a\",\"kind\":\"flag\",\"mandatory\":false," ++
      "\"is_container_path\":false,\"exists_required\":false\x7d"
    (Json.readRecord? fieldNames text.toList).map Json.compact = some text ∧
      (ofJson? text).map (fun p => Json.compact p.toDocument) = some kept ∧ kept ≠ text := by
  decide +kernel

end Parameter

end ContainerCommand
