import ContainerCommand.CompileError

/-! Name templates: a text around the stem of another parameter's value.

A template is kept cut open at its placeholder (`Name.apply`). One that is kept as it is written is
filled by looking for the placeholder once more (`Name.applyWritten`). -/
namespace ContainerCommand.Template

/-- A template for derived names: what stands in front of the stem and what behind it. -/
structure Name where
  pre : String
  post : String
deriving DecidableEq

/-- The text with another one in the first place where the pattern stands. -/
def replaceFirst (pattern new cs : List Char) : List Char :=
  if pattern.isPrefixOf cs then new ++ cs.drop pattern.length
  else match cs with
    | [] => []
    | c :: rest => c :: replaceFirst pattern new rest

namespace Name

/-- The name made of a stem. -/
def apply (t : Name) (stem : String) : String :=
  t.pre ++ stem ++ t.post

/-- The template as it is written. -/
def raw (t : Name) : String :=
  t.apply (String.ofList Conversion.text.placeholder)

/-- The name made of a stem, for a template that is kept as it is written. -/
def applyWritten (raw stem : String) : String :=
  String.ofList (replaceFirst Conversion.text.placeholder stem.toList raw.toList)

/-- The template that a text writes: `%s` is its only placeholder. -/
def parse (raw : String) : Except CompileError Name :=
  let refuse : Except CompileError Name := .error (.invalidTemplate raw .notOneName)
  if placeholders raw.toList = [.text] then
    match split? raw.toList with
    | some (pre, _, post) => .ok ⟨String.ofList pre, String.ofList post⟩
    | none => refuse
  else refuse

/-- A template is written the way it was read. -/
theorem raw_of_parse {text : String} {t : Name} (h : parse text = .ok t) : t.raw = text := by
  unfold parse at h
  dsimp only at h
  split at h
  · rename_i hp
    split at h
    · rename_i pre k post hs
      cases h
      have hk : some Conversion.text = some k := by
        simpa [hp, hs] using head?_placeholders text.toList
      cases hk
      simp [raw, apply, ← String.ofList_append, ← eq_of_split? hs]
    · cases h
  · cases h

end Name

end ContainerCommand.Template
