import ContainerCommand.Proofs.Path.Components
import ContainerCommand.Resolution.Basic

/-! The stem of a path.

The last part of a path is found without looking at components (`LastPart`): nothing but separators
and single dots stands behind it. Every path has one or is bare (`isBare_or_exists_lastPart`), and it is
the path's last component (`getLast?_components_eq_normal_iff`), unless it is two dots. The stem is
that part up to its last dot (`CutsExtension`). The main statement is `pathStem_of_components`. -/
namespace ContainerCommand

namespace Path

variable {path part name base extension front back : List Char}

/-! ### The last part of a path -/

/-- The text has nothing but separators and single dots between them. -/
def IsBare (text : List Char) : Prop :=
  ∀ part ∈ segments text, isIdle part = true

instance (text : List Char) : Decidable (IsBare text) :=
  inferInstanceAs (Decidable (∀ part ∈ segments text, isIdle part = true))

/-- The part of a path that counts and has nothing that counts behind it. -/
structure LastPart (path part : List Char) : Prop where
  split : ∃ front back, path = front ++ part ++ back ∧ (∀ c, front.getLast? = some c → c = '/') ∧
    (∀ c, back.head? = some c → c = '/') ∧ IsBare back
  counts : isIdle part = false
  solid : '/' ∉ part

theorem isBare_append_slash : IsBare (front ++ '/' :: back) ↔ IsBare front ∧ IsBare back := by
  rw [IsBare, segments_append_slash, List.forall_mem_append]
  rfl

theorem isBare_iff_of_not_mem (h : '/' ∉ part) : IsBare part ↔ isIdle part = true := by
  rw [IsBare, segments_of_not_mem h, List.forall_mem_singleton]

theorem lastPart_self (hcounts : isIdle part = false) (hsolid : '/' ∉ part) : LastPart part part :=
  ⟨⟨[], [], by simp, by simp, by simp, by decide⟩, hcounts, hsolid⟩

theorem LastPart.prepend (h : LastPart path part) (front : List Char) :
    LastPart (front ++ '/' :: path) part := by
  obtain ⟨⟨before, back, rfl, hbefore, hback⟩, hcounts, hsolid⟩ := h
  refine ⟨⟨front ++ '/' :: before, back, by simp, fun c hc => ?_, hback⟩, hcounts, hsolid⟩
  cases hlast : before.getLast? with
  | none =>
    rw [List.getLast?_append_cons, List.getLast?_eq_none_iff.mp hlast] at hc
    exact (Option.some.inj hc).symm
  | some d =>
    rw [List.getLast?_append_cons, List.getLast?_cons, hlast] at hc
    exact hbefore c (hlast.trans hc)

theorem LastPart.append_bare (h : LastPart path part) (hback : IsBare back) :
    LastPart (path ++ '/' :: back) part := by
  obtain ⟨⟨front, between, rfl, hfront, hbetween, hbare⟩, hcounts, hsolid⟩ := h
  refine ⟨⟨front, between ++ '/' :: back, by simp, hfront, fun c hc => ?_,
    isBare_append_slash.mpr ⟨hbare, hback⟩⟩, hcounts, hsolid⟩
  cases between with
  | nil => exact (Option.some.inj hc).symm
  | cons d rest => exact hbetween c hc

/-- An element of a list has a last place in it. -/
theorem exists_last_split {α : Type} {a : α} {as : List α} (h : a ∈ as) :
    ∃ front back, as = front ++ a :: back ∧ a ∉ back := by
  obtain ⟨back, front, hsplit, hback⟩ := List.eq_append_cons_of_mem (List.mem_reverse.mpr h)
  refine ⟨front.reverse, back.reverse, ?_, by rwa [List.mem_reverse]⟩
  rw [← List.reverse_reverse as, hsplit]
  simp

/-- **Every path has a last part, unless it is bare.** -/
theorem isBare_or_exists_lastPart (path : List Char) :
    IsBare path ∨ ∃ part, LastPart path part := by
  -- What stands behind the last separator is dropped as long as it does not count.
  induction hlength : path.length using Nat.strong_induction_on generalizing path with
  | h n ih =>
    by_cases hslash : '/' ∈ path
    · obtain ⟨front, part, rfl, hsolid⟩ := exists_last_split hslash
      by_cases hidle : isIdle part = true
      · have hback : IsBare part := (isBare_iff_of_not_mem hsolid).mpr hidle
        rcases ih front.length (by simp [← hlength]) front rfl with hfront | ⟨last, hlast⟩
        · exact .inl (isBare_append_slash.mpr ⟨hfront, hback⟩)
        · exact .inr ⟨last, hlast.append_bare hback⟩
      · exact .inr ⟨part, (lastPart_self (by simpa using hidle) hsolid).prepend front⟩
    · by_cases hidle : isIdle path = true
      · exact .inl ((isBare_iff_of_not_mem hslash).mpr hidle)
      · exact .inr ⟨path, lastPart_self (by simpa using hidle) hslash⟩

/-! ### The last component -/

/-- A part with nothing that counts behind it is the first part of its text. -/
theorem segments_append_bare (hsolid : '/' ∉ part) (hback : ∀ c, back.head? = some c → c = '/')
    (hbare : IsBare back) :
    ∃ behind, segments (part ++ back) = part :: behind ∧ ∀ idle ∈ behind, isIdle idle = true := by
  cases back with
  | nil => exact ⟨[], by rw [List.append_nil, segments_of_not_mem hsolid], List.forall_mem_nil _⟩
  | cons c back =>
    obtain rfl := hback c rfl
    rw [← List.nil_append ('/' :: back), isBare_append_slash] at hbare
    exact ⟨segments back, by rw [segments_append_slash, segments_of_not_mem hsolid]; rfl, hbare.2⟩

theorem segments_of_lastPart (h : LastPart path part) :
    ∃ before behind, segments path = before ++ part :: behind ∧
      ∀ idle ∈ behind, isIdle idle = true := by
  obtain ⟨⟨front, back, rfl, hfront, hback, hbare⟩, _, hsolid⟩ := h
  -- What stands behind the part is read first, then what stands in front of both.
  obtain ⟨behind, hbehind, hidle⟩ := segments_append_bare hsolid hback hbare
  rw [List.append_assoc]
  cases hlast : front.getLast? with
  | none =>
    rw [List.getLast?_eq_none_iff.mp hlast]
    exact ⟨[], behind, hbehind, hidle⟩
  | some c =>
    obtain rfl := hfront c hlast
    obtain ⟨start, rfl⟩ := List.getLast?_eq_some_iff.mp hlast
    refine ⟨segments start, behind, ?_, hidle⟩
    rw [List.append_assoc, List.singleton_append, segments_append_slash, hbehind]

theorem getLast?_inner_of_lastPart (h : LastPart path part) :
    (inner path).getLast? = some (component part) := by
  obtain ⟨before, behind, hsegments, hidle⟩ := segments_of_lastPart h
  have hnone : behind.filter (!isIdle ·) = [] :=
    List.filter_eq_nil_iff.mpr fun idle hmem => by simp [hidle idle hmem]
  rw [inner, hsegments, List.filter_append, List.filter_cons_of_pos (by simp [h.counts]), hnone,
    List.map_append, List.map_cons, List.map_nil, List.getLast?_append, List.getLast?_singleton]
  rfl

theorem inner_of_isBare (h : IsBare path) : inner path = [] := by
  rw [inner, List.filter_eq_nil_iff.mpr fun part hpart => by simp [h part hpart]]
  rfl

theorem getLast?_components (path : List Char) :
    (components path).getLast? =
      (inner path).getLast?.or (leadComponent (splitLead path).1).getLast? := by
  rw [components_eq, inner_splitLead, List.getLast?_append]

theorem getLast?_components_of_lastPart (h : LastPart path part) :
    (components path).getLast? = some (component part) := by
  rw [getLast?_components, getLast?_inner_of_lastPart h]
  rfl

theorem getLast?_components_of_isBare (h : IsBare path) :
    (components path).getLast? ≠ some (.normal name) := by
  rw [getLast?_components, inner_of_isBare h, leadComponent]
  split
  · nofun
  · split <;> nofun

/-- **A path's last component is a name exactly if the path's last part is that name**, and not two
dots. -/
theorem getLast?_components_eq_normal_iff :
    (components path).getLast? = some (.normal name) ↔ LastPart path name ∧ name ≠ ['.', '.'] := by
  constructor
  · intro h
    rcases isBare_or_exists_lastPart path with hbare | ⟨part, hpart⟩
    · exact absurd h (getLast?_components_of_isBare hbare)
    · rw [getLast?_components_of_lastPart hpart, component] at h
      split at h
      · cases h
      · cases h
        exact ⟨hpart, ‹_›⟩
  · rintro ⟨hpart, hname⟩
    rw [getLast?_components_of_lastPart hpart, component, if_neg hname]

theorem getLast?_components_ne_normal_iff :
    (∀ name, (components path).getLast? ≠ some (.normal name)) ↔
      IsBare path ∨ LastPart path ['.', '.'] := by
  constructor
  · intro h
    rcases isBare_or_exists_lastPart path with hbare | ⟨part, hpart⟩
    · exact .inl hbare
    · by_cases hparent : part = ['.', '.']
      · exact .inr (hparent ▸ hpart)
      · exact absurd (getLast?_components_eq_normal_iff.mpr ⟨hpart, hparent⟩) (h part)
  · rintro (hbare | hparent) name
    · exact getLast?_components_of_isBare hbare
    · rw [getLast?_components_of_lastPart hparent]
      nofun

/-! ### Names without their extension -/

/-- A name without its extension: what stands in front of the last dot, unless that is the name's first
character. -/
structure CutsExtension (name base : List Char) : Prop where
  dotted : '.' ∈ name.tail → (∃ extension, name = base ++ '.' :: extension ∧ '.' ∉ extension) ∧
    ∀ front, front ++ ['.'] <+: name → front <+: base
  plain : '.' ∉ name.tail → base = name

/-- Read from its end, a name is read up to its last dot. -/
theorem dropWhile_reverse_append (h : '.' ∉ back) (front : List Char) :
    (back.reverse ++ front).dropWhile (· != '.') = front.dropWhile (· != '.') := by
  refine List.dropWhile_append_of_pos fun c hc => ?_
  rw [bne_iff_ne]
  rintro rfl
  exact h (List.mem_reverse.mp hc)

theorem stemOfName_of_not_mem (h : '.' ∉ name.tail) : stemOfName name = name := by
  cases name with
  | nil => rfl
  | cons c rest =>
    rw [List.tail_cons] at h
    rw [stemOfName, List.reverse_cons, dropWhile_reverse_append h]
    by_cases hc : c = '.'
    · rw [hc]
      rfl
    · rw [List.dropWhile_cons_of_pos (by simp [hc])]
      rfl

theorem stemOfName_append (hbase : base ≠ []) (hextension : '.' ∉ extension) :
    stemOfName (base ++ '.' :: extension) = base := by
  obtain ⟨c, before, hbefore⟩ := List.exists_cons_of_ne_nil (List.reverse_ne_nil_iff.mpr hbase)
  rw [stemOfName, List.reverse_append, List.reverse_cons, List.append_assoc,
    dropWhile_reverse_append hextension, List.singleton_append,
    List.dropWhile_cons_of_neg (by simp), hbefore]
  show (c :: before).reverse = base
  rw [← hbefore, List.reverse_reverse]

theorem exists_extension (h : '.' ∈ name.tail) :
    ∃ base extension, base ≠ [] ∧ name = base ++ '.' :: extension ∧ '.' ∉ extension := by
  cases name with
  | nil => cases h
  | cons c rest =>
    obtain ⟨front, extension, hrest, hfree⟩ := exists_last_split h
    rw [List.tail_cons] at hrest
    exact ⟨c :: front, extension, by simp, by rw [hrest]; rfl, hfree⟩

/-- No dot stands behind the last one. -/
theorem prefix_of_dot (hextension : '.' ∉ extension)
    (h : front ++ ['.'] <+: base ++ '.' :: extension) : front <+: base := by
  obtain ⟨back, hback⟩ := h
  rw [List.append_assoc, List.singleton_append] at hback
  rcases List.append_eq_append_iff.mp hback with ⟨middle, rfl, _⟩ | ⟨middle, rfl, hmiddle⟩
  · exact List.prefix_append front middle
  · cases middle with
    | nil => exact ⟨[], by simp⟩
    | cons c middle =>
      -- A longer front would leave a dot to the extension.
      obtain ⟨_, rfl⟩ := List.cons.inj hmiddle
      exact absurd (by simp) hextension

theorem cutsExtension_stemOfName (name : List Char) : CutsExtension name (stemOfName name) := by
  refine ⟨fun hdot => ?_, stemOfName_of_not_mem⟩
  obtain ⟨base, extension, hbase, rfl, hfree⟩ := exists_extension hdot
  rw [stemOfName_append hbase hfree]
  exact ⟨⟨extension, rfl, hfree⟩, fun front => prefix_of_dot hfree⟩

theorem prefix_stemOfName (name : List Char) : stemOfName name <+: name := by
  by_cases h : '.' ∈ name.tail
  · obtain ⟨⟨extension, hname, _⟩, _⟩ := (cutsExtension_stemOfName name).dotted h
    exact ⟨_, hname.symm⟩
  · exact ⟨[], by rw [stemOfName_of_not_mem h, List.append_nil]⟩

theorem stemOfName_ne_nil (h : name ≠ []) : stemOfName name ≠ [] := by
  by_cases hdot : '.' ∈ name.tail
  · obtain ⟨base, extension, hbase, rfl, hfree⟩ := exists_extension hdot
    rwa [stemOfName_append hbase hfree]
  · rwa [stemOfName_of_not_mem hdot]

theorem stem_of_getLast? (h : (components path).getLast? = some (.normal name)) :
    stem path = stemOfName name := by
  simp only [stem, fileName?, h]

theorem stem_eq_nil_iff :
    stem path = [] ↔ ∀ name, (components path).getLast? ≠ some (.normal name) := by
  constructor
  · intro h name hname
    have hpart := (getLast?_components_eq_normal_iff.mp hname).1
    rw [stem_of_getLast? hname] at h
    refine stemOfName_ne_nil (fun hnil => ?_) h
    have hcounts := hpart.counts
    rw [hnil] at hcounts
    cases hcounts
  · intro h
    unfold stem fileName?
    split
    · rename_i name hname
      split at hname
      · rename_i last hlast
        exact absurd hlast (h last)
      · cases hname
    · rfl

theorem stem_congr {other : List Char} (h : components path = components other) :
    stem path = stem other := by
  rw [stem, stem, fileName?, fileName?, h]

end Path

/-- What is derived from a value is settled by the stem of the value's text. -/
theorem Parameter.resolve_congr_pathStem {p : Parameter} {source path other : String}
    {value value' : Value} {known known' : Resolution} (hsource : p.nameSource = some source)
    (hvalue : known.value? source = some value) (hvalue' : known'.value? source = some value')
    (hpath : value.sourceText? = some path) (hother : value'.sourceText? = some other)
    (h : pathStem path = pathStem other) : p.resolve none known = p.resolve none known' := by
  have hderive : ∀ template, p.derive source template value = p.derive source template value' := by
    intro template
    simp only [derive, hpath, hother, h]
  unfold resolve
  rw [hsource]
  cases p.nameTemplate with
  | none => rfl
  | some template => simp only [hvalue, hvalue', hderive]

/-- **The stem is that of the last component, if that is a name.** Else it is empty: the path is bare, or
its last part is two dots. A name keeps its stem whole if no dot stands behind its first character, and
else ends it at the last dot; so the stem is not empty and has no separator. Paths with the same
components have the same stem, and have the same name derived from them. -/
theorem pathStem_of_components (path : String) :
    (pathStem path = "" ↔ ∀ name, (Path.components path.toList).getLast? ≠ some (.normal name)) ∧
    ((∀ name, (Path.components path.toList).getLast? ≠ some (.normal name)) ↔
      Path.IsBare path.toList ∨ Path.LastPart path.toList ['.', '.']) ∧
    (∀ name, (Path.components path.toList).getLast? = some (.normal name) →
      Path.LastPart path.toList name ∧ pathStem path ≠ "" ∧ '/' ∉ (pathStem path).toList ∧
        Path.CutsExtension name (pathStem path).toList) ∧
    ∀ other, Path.components path.toList = Path.components other.toList →
      pathStem path = pathStem other ∧
      ∀ (p : Parameter) (source : String) (value value' : Value) (known known' : Resolution),
        p.nameSource = some source →
        known.value? source = some value → value.sourceText? = some path →
        known'.value? source = some value' → value'.sourceText? = some other →
        p.resolve none known = p.resolve none known' := by
  have hempty : pathStem path = "" ↔ Path.stem path.toList = [] := by
    rw [pathStem, ← String.toList_eq_nil_iff, String.toList_ofList]
  have hcongr : ∀ other : String, Path.components path.toList = Path.components other.toList →
      pathStem path = pathStem other := fun other h => by rw [pathStem, pathStem, Path.stem_congr h]
  refine ⟨hempty.trans Path.stem_eq_nil_iff, Path.getLast?_components_ne_normal_iff, fun name hname => ?_,
    fun other h => ⟨hcongr other h, fun p source value value' known known' hsource hvalue hpath
      hvalue' hother => ?_⟩⟩
  · have hpart : Path.LastPart path.toList name := (Path.getLast?_components_eq_normal_iff.mp hname).1
    have hstem : (pathStem path).toList = Path.stemOfName name := by
      rw [pathStem, String.toList_ofList, Path.stem_of_getLast? hname]
    rw [hstem]
    exact ⟨hpart, fun h => Path.stem_eq_nil_iff.mp (hempty.mp h) name hname,
      fun h => hpart.solid ((Path.prefix_stemOfName name).subset h), Path.cutsExtension_stemOfName name⟩
  · exact p.resolve_congr_pathStem hsource hvalue hvalue' hpath hother (hcongr other h)

/-- Of a hidden name the first dot stays, and the last of three dots is an extension. -/
example : ["a/.git/.", ".tar.gz", "a.", "x/...", "..//"].map pathStem =
    [".git", ".tar", "a", "..", ""] := by
  decide +kernel

end ContainerCommand
