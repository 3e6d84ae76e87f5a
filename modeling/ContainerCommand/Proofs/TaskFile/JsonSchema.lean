import ContainerCommand.Table
import ContainerCommand.TaskFile.Shape
import ContainerCommand.Proofs.Document.Fields

/-! The shape of task files as a schema for JSON.

`JsonSchema` has the keywords of Draft 2020-12 that the schema of task files uses, each as what it
accepts, and `JsonSchema.taskFile` is that schema, definition by definition. A schema sees a document
as it looks in JSON (`Document.image`), where numbers are finite. The main statement,
`taskFile_describes_shape`, says that it accepts the documents of the shape. -/
namespace ContainerCommand

/-! ### Documents in JSON -/

mutual

/-- A document in JSON: what is no finite number is null, and a moment is a table of its text. -/
def Document.image : Document → Document
  | .float x => if x.isFinite then .float x else .null
  | .moment s => .table [(Document.momentKey, .text s)]
  | .list items => .list (imageList items)
  | .table entries => .table (imageEntries entries)
  | doc => doc

/-- The documents of a list in JSON. -/
def imageList : List Document → List Document
  | [] => []
  | doc :: rest => doc.image :: imageList rest

/-- The entries of a table in JSON. -/
def imageEntries : List (String × Document) → List (String × Document)
  | [] => []
  | (name, doc) :: rest => (name, doc.image) :: imageEntries rest

end

theorem imageList_eq_map (items : List Document) : imageList items = items.map Document.image := by
  induction items with
  | nil => rfl
  | cons doc rest ih => rw [imageList, ih, List.map_cons]

theorem imageEntries_eq_map (entries : List (String × Document)) :
    imageEntries entries = entries.map fun entry => (entry.1, entry.2.image) := by
  induction entries with
  | nil => rfl
  | cons entry rest ih => rw [imageEntries, ih, List.map_cons]

theorem image_list (items : List Document) :
    (Document.list items).image = .list (items.map Document.image) :=
  congrArg Document.list (imageList_eq_map items)

theorem image_table (entries : List (String × Document)) :
    (Document.table entries).image = .table (entries.map fun entry => (entry.1, entry.2.image)) :=
  congrArg Document.table (imageEntries_eq_map entries)

theorem image_float (x : Number.Binary64) :
    (Document.float x).image = if x.isFinite then .float x else .null :=
  rfl

theorem image_float_eq_or (x : Number.Binary64) :
    (Document.float x).image = .float x ∨ (Document.float x).image = .null := by
  rw [image_float]
  split
  · exact .inl rfl
  · exact .inr rfl

/-! ### Keywords -/

/-- A schema, as what it accepts. -/
abbrev JsonSchema : Type := Document → Bool

namespace JsonSchema

/-- The types of values that schemas name. -/
inductive JsonType where
  | object
  | array
  | string
  | boolean
  | number
  /-- Numbers without a fraction, in whichever way they are written. -/
  | integer

/-- The keyword `type`. -/
def hasType : JsonType → JsonSchema
  | .object, .table _ => true
  | .array, .list _ => true
  | .string, .text _ => true
  | .boolean, .bool _ => true
  | .number, .int _ | .number, .float _ => true
  | .integer, .int _ => true
  | .integer, .float x =>
    match x.datum with
    | .finite _ mantissa exponent => 0 ≤ exponent || mantissa % Nat.pow 2 (-exponent).toNat == 0
    | _ => false
  | _, _ => false

/-- The keyword `minLength`. -/
def minLength (least : Nat) : JsonSchema
  | .text s => least ≤ s.length
  | _ => true

/-- The keyword `enum`, of texts. -/
def enum (labels : List String) : JsonSchema
  | .text s => labels.contains s
  | _ => false

/-- The keyword `items`. -/
def items (item : JsonSchema) : JsonSchema
  | .list docs => docs.all item
  | _ => true

/-- The keyword `minItems`. -/
def minItems (least : Nat) : JsonSchema
  | .list docs => least ≤ docs.length
  | _ => true

/-- The keyword `maxItems`. -/
def maxItems (most : Nat) : JsonSchema
  | .list docs => docs.length ≤ most
  | _ => true

/-- The keyword `required`. -/
def required (names : List String) : JsonSchema
  | .table entries => names.all fun name => entries.any (·.1 == name)
  | _ => true

/-- The keyword `properties`. -/
def properties (fields : List (String × JsonSchema)) : JsonSchema
  | .table entries => entries.all fun entry => (fields.lookup entry.1).all fun field => field entry.2
  | _ => true

/-- The keyword `additionalProperties` beside some properties. -/
def additionalProperties (fields : List (String × JsonSchema)) (additional : JsonSchema) :
    JsonSchema
  | .table entries => entries.all fun entry =>
    (fields.lookup entry.1).isSome || additional entry.2
  | _ => true

/-- The keyword `allOf`, and the keywords that stand together in a schema. -/
def allOf (schemas : List JsonSchema) : JsonSchema := fun doc => schemas.all (· doc)

/-- The keyword `anyOf`. -/
def anyOf (schemas : List JsonSchema) : JsonSchema := fun doc => schemas.any (· doc)

/-- The keyword `oneOf`: one schema accepts the document and no other does. -/
def oneOf (schemas : List JsonSchema) : JsonSchema := fun doc => schemas.countP (· doc) == 1

/-- The keyword `not`. -/
def notOf (schema : JsonSchema) : JsonSchema := fun doc => !schema doc

/-- The schema `false`. -/
def never : JsonSchema := fun _ => false

/-! ### The schema of task files -/

def nonEmptyString : JsonSchema := allOf [hasType .string, minLength 1]

def arrayOf (item : JsonSchema) : JsonSchema := allOf [hasType .array, items item]

/-- An object of the properties, with no others. -/
def closedObject (names : List String) (fields : List (String × JsonSchema)) : JsonSchema :=
  allOf [hasType .object, additionalProperties fields never, required names, properties fields]

def mount : JsonSchema :=
  anyOf [
    hasType .string,
    allOf [hasType .array, items (hasType .string), minItems 2, maxItems 2]]

def value : JsonSchema :=
  anyOf [hasType .boolean, hasType .number, hasType .string, arrayOf (hasType .string)]

def parameter : JsonSchema :=
  closedObject ["name", "kind"] [
    ("name", nonEmptyString),
    ("kind", enum ["flag", "boolean", "scalar", "path", "path-list"]),
    ("argstr", hasType .string),
    ("position", hasType .integer),
    ("mandatory", hasType .boolean),
    ("name_source", hasType .string),
    ("name_template", hasType .string),
    ("requires", arrayOf (hasType .string)),
    ("is_container_path", hasType .boolean),
    ("exists_required", hasType .boolean),
    ("desc", hasType .string)]

def tool : JsonSchema :=
  closedObject ["name", "params"] [
    ("name", nonEmptyString),
    ("summary", hasType .string),
    ("command", nonEmptyString),
    ("params", arrayOf parameter)]

def inputs : JsonSchema := allOf [hasType .object, additionalProperties [] value]

def topLevel : JsonSchema :=
  closedObject [] [
    ("task", nonEmptyString),
    ("tool", tool),
    ("mounts", arrayOf mount),
    ("inputs", inputs)]

def taskOrTool : JsonSchema :=
  oneOf [
    allOf [required ["task"], notOf (required ["tool"])],
    allOf [required ["tool"], notOf (required ["task"])]]

def taskFile : JsonSchema := allOf [topLevel, taskOrTool]

/-! ### Schemas that describe shapes -/

/-- A schema accepts in JSON the documents of a shape. -/
def Describes (schema : JsonSchema) (shape : Shape) : Prop :=
  ∀ doc : Document, schema doc.image = shape doc

section Describes

variable {schema item : JsonSchema} {shape : Shape} {doc : Document}
  {entries : List (String × Document)}

theorem describes_text : Describes (hasType .string) Shape.text := by
  intro doc
  cases doc with
  | float x => rcases image_float_eq_or x with h | h <;> rw [h] <;> rfl
  | _ => rfl

theorem describes_bool : Describes (hasType .boolean) Shape.bool := by
  intro doc
  cases doc with
  | float x => rcases image_float_eq_or x with h | h <;> rw [h] <;> rfl
  | _ => rfl

theorem describes_number : Describes (hasType .number) Shape.number := by
  intro doc
  cases doc with
  | float x => rw [image_float]; cases hx : x.isFinite <;> simp [hasType, Shape.number, hx]
  | _ => rfl

/-- A number has no fraction if its mantissa has enough factors of two. -/
theorem isSome_wholeMagnitude? (mantissa : Nat) (exponent : Int) :
    (Number.Binary64.wholeMagnitude? mantissa exponent).isSome =
      (0 ≤ exponent || mantissa % Nat.pow 2 (-exponent).toNat == 0) := by
  unfold Number.Binary64.wholeMagnitude? Number.Binary64.ratio Number.Binary64.shift
  by_cases hexponent : 0 ≤ exponent
  · simp [hexponent, Nat.mod_one]
  · simp only [hexponent, if_false, Nat.one_mul, decide_false, Bool.false_or, Number.wordCount]
    by_cases hfactors : mantissa % Nat.pow 2 (-exponent).toNat = 0
    · rw [if_pos hfactors, hfactors]
      rfl
    · rw [if_neg hfactors, beq_eq_false_iff_ne.mpr hfactors]
      rfl

theorem describes_integer : Describes (hasType .integer) Shape.integer := by
  intro doc
  cases doc with
  | float x =>
    have hfinite : x.isFinite = match x.datum with | .finite .. => true | _ => false := rfl
    cases hx : x.datum with
    | finite negative mantissa exponent =>
      rw [hx] at hfinite
      simp [image_float, hfinite, hasType, Shape.integer, hx, isSome_wholeMagnitude?]
    | _ => simp [image_float, hfinite, hasType, Shape.integer, hx]
  | _ => rfl

theorem describes_nonEmptyText : Describes nonEmptyString Shape.nonEmptyText := by
  intro doc
  cases doc with
  | float x => rcases image_float_eq_or x with h | h <;> rw [h] <;> rfl
  | text s =>
    have hlength : decide (1 ≤ s.length) = !s.isEmpty := by
      rw [Bool.eq_iff_iff]
      simp [Nat.one_le_iff_ne_zero]
    have himage : (Document.text s).image = .text s := rfl
    simp [himage, nonEmptyString, allOf, hasType, minLength, Shape.nonEmptyText, Document.text?,
      hlength]
  | _ => rfl

theorem describes_oneOf (labels : List String) : Describes (enum labels) (Shape.oneOf labels) := by
  intro doc
  cases doc with
  | float x => rcases image_float_eq_or x with h | h <;> rw [h] <;> rfl
  | _ => rfl

theorem describes_listOf (h : Describes item shape) :
    Describes (arrayOf item) (Shape.listOf shape) := by
  intro doc
  cases doc with
  | float x => rcases image_float_eq_or x with h | h <;> rw [h] <;> rfl
  | list docs =>
    have hdocs : (docs.map Document.image).all item = docs.all shape := by
      rw [List.all_map]
      exact congrArg docs.all (funext h)
    simp [image_list, arrayOf, allOf, hasType, items, hdocs, Shape.listOf, Document.items?]
  | _ => rfl

theorem describes_pairOf (h : Describes item shape) :
    Describes (allOf [hasType .array, items item, minItems 2, maxItems 2])
      (Shape.pairOf shape) := by
  intro doc
  cases doc with
  | float x => rcases image_float_eq_or x with h | h <;> rw [h] <;> rfl
  | list docs =>
    have hdocs : (docs.map Document.image).all item = docs.all shape := by
      rw [List.all_map]
      exact congrArg docs.all (funext h)
    have hlength : (docs.length == 2) = (decide (2 ≤ docs.length) && decide (docs.length ≤ 2)) := by
      grind
    simp [image_list, allOf, hasType, items, minItems, maxItems, hdocs, Shape.pairOf,
      Document.items?, hlength, Bool.and_comm]
  | _ => rfl

/-! ### Schemas of objects -/

theorem all_and_all {α : Type} (as : List α) (p q : α → Bool) :
    (as.all p && as.all q) = as.all fun a => p a && q a := by
  rw [Bool.eq_iff_iff]
  simp only [Bool.and_eq_true, List.all_eq_true]
  exact ⟨fun h a ha => ⟨h.1 a ha, h.2 a ha⟩,
    fun h => ⟨fun a ha => (h a ha).1, fun a ha => (h a ha).2⟩⟩

/-- What has entries is a table in JSON. -/
theorem image_of_entries? (h : doc.entries? = some entries) :
    doc.image = .table (entries.map fun entry => (entry.1, entry.2.image)) := by
  cases doc with
  | table entries' =>
    cases h
    exact image_table entries
  | moment s =>
    cases h
    rfl
  | _ => cases h

theorem hasType_object_image : hasType .object doc.image = doc.entries?.isSome := by
  cases doc with
  | float x => rcases image_float_eq_or x with h | h <;> rw [h] <;> rfl
  | _ => rfl

/-- Entries that a schema describes, name by name. -/
def DescribeAll (fields : List (String × JsonSchema)) (shapes : List (String × Shape)) : Prop :=
  List.Forall₂ (fun field shape => field.1 = shape.1 ∧ Describes field.2 shape.2) fields shapes

variable {fields : List (String × JsonSchema)} {shapes : List (String × Shape)}

theorem lookup_describes (h : DescribeAll fields shapes) (name : String) (doc : Document) :
    ((fields.lookup name).isSome && (fields.lookup name).all fun field => field doc.image) =
      (shapes.lookup name).any fun shape => shape doc := by
  induction h with
  | nil => rfl
  | cons hfield _ ih =>
    rw [Table.lookup_cons_eq_ite, Table.lookup_cons_eq_ite, hfield.1]
    split
    · exact (Bool.true_and _).trans (hfield.2 doc)
    · exact ih

/-- A closed object is a record: each entry has one of the names and is what that name asks for. -/
theorem describes_record {names : List String} (h : DescribeAll fields shapes) :
    Describes (closedObject names fields) (Shape.record names shapes) := by
  intro doc
  cases hentries : doc.entries? with
  | none => simp [closedObject, allOf, hasType_object_image, Shape.record, hentries]
  | some entries =>
    rw [image_of_entries? hentries]
    have hentry : (entries.all fun entry => (shapes.lookup entry.1).any fun shape => shape entry.2) =
        ((entries.all fun entry => (fields.lookup entry.1).isSome) &&
          entries.all fun entry =>
            (fields.lookup entry.1).all fun field => field entry.2.image) := by
      rw [all_and_all]
      exact congrArg entries.all (funext fun entry => (lookup_describes h entry.1 entry.2).symm)
    simp only [closedObject, allOf, hasType, additionalProperties, never, required, properties,
      List.all_cons, List.all_nil, List.all_map, List.any_map, Function.comp_def, Bool.or_false,
      Bool.and_true, Bool.true_and, Shape.record, hentries, Option.any_some, Document.isSome_find?,
      hentry]
    rw [Bool.and_left_comm]

theorem describes_tableOf (h : Describes item shape) :
    Describes (allOf [hasType .object, additionalProperties [] item]) (Shape.tableOf shape) := by
  intro doc
  cases hentries : doc.entries? with
  | none => simp [allOf, hasType_object_image, Shape.tableOf, hentries]
  | some entries =>
    rw [image_of_entries? hentries]
    simp [allOf, hasType, additionalProperties, Shape.tableOf, hentries, List.all_map,
      Function.comp_def, h _]


/-! ### The shapes of task files -/

theorem describes_mount : Describes mount TaskFile.mountShape := by
  intro doc
  have hpair := describes_pairOf describes_text doc
  simp [mount, anyOf, TaskFile.mountShape, describes_text doc, hpair]

theorem describes_value : Describes value TaskFile.valueShape := by
  intro doc
  simp [value, anyOf, TaskFile.valueShape, describes_text doc, describes_bool doc,
    describes_number doc, describes_listOf describes_text doc, Bool.or_assoc]

theorem describes_parameter : Describes parameter TaskFile.parameterShape :=
  describes_record <|
    .cons ⟨rfl, describes_nonEmptyText⟩ <| .cons ⟨rfl, describes_oneOf _⟩ <|
    .cons ⟨rfl, describes_text⟩ <| .cons ⟨rfl, describes_integer⟩ <|
    .cons ⟨rfl, describes_bool⟩ <| .cons ⟨rfl, describes_text⟩ <|
    .cons ⟨rfl, describes_text⟩ <| .cons ⟨rfl, describes_listOf describes_text⟩ <|
    .cons ⟨rfl, describes_bool⟩ <| .cons ⟨rfl, describes_bool⟩ <|
    .cons ⟨rfl, describes_text⟩ .nil

theorem describes_tool : Describes tool TaskFile.toolShape :=
  describes_record <|
    .cons ⟨rfl, describes_nonEmptyText⟩ <| .cons ⟨rfl, describes_text⟩ <|
    .cons ⟨rfl, describes_nonEmptyText⟩ <|
    .cons ⟨rfl, describes_listOf describes_parameter⟩ .nil

theorem describes_inputs : Describes inputs (Shape.tableOf TaskFile.valueShape) :=
  describes_tableOf describes_value

theorem describes_topLevel :
    Describes topLevel (Shape.record [] [
      ("task", Shape.nonEmptyText),
      ("tool", TaskFile.toolShape),
      ("mounts", Shape.listOf TaskFile.mountShape),
      ("inputs", Shape.tableOf TaskFile.valueShape)]) :=
  describes_record <|
    .cons ⟨rfl, describes_nonEmptyText⟩ <| .cons ⟨rfl, describes_tool⟩ <|
    .cons ⟨rfl, describes_listOf describes_mount⟩ <| .cons ⟨rfl, describes_inputs⟩ .nil

theorem required_image (h : doc.entries? = some entries) (name : String) :
    required [name] doc.image = Shape.has name doc := by
  rw [image_of_entries? h]
  simp [required, Shape.has, h, Document.isSome_find?, List.any_map, Function.comp_def]

theorem taskOrTool_image (h : doc.entries? = some entries) :
    taskOrTool doc.image = (Shape.has "task" doc != Shape.has "tool" doc) := by
  simp only [taskOrTool, oneOf, allOf, notOf, List.countP_cons, List.countP_nil, List.all_cons,
    List.all_nil, Bool.and_true, required_image h]
  cases Shape.has "task" doc <;> cases Shape.has "tool" doc <;> rfl

/-- **The schema accepts in JSON exactly the documents of the shape.** -/
theorem taskFile_describes_shape : Describes taskFile TaskFile.shape := by
  intro doc
  rw [TaskFile.shape, taskFile, allOf, List.all_cons, List.all_cons, List.all_nil, Bool.and_true,
    describes_topLevel doc]
  cases hentries : doc.entries? with
  | none => simp [Shape.record, hentries]
  | some entries => rw [taskOrTool_image hentries]

end Describes

end JsonSchema

end ContainerCommand
