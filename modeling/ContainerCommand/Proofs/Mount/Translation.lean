import ContainerCommand.Mount
import ContainerCommand.Proofs.Path.Components
import Mathlib.Data.List.Pairwise

/-! Where rules take paths.

A rule covers the paths whose components begin with those of its host side, and puts the container
side's components in their place (`pathComponents_of_translate?`). So spellings of one path stay
spellings of one path under any rules (`translate_components`), and rules that keep their container
sides apart can be read backwards (`translate_swap`). -/
namespace ContainerCommand

/-- The components of a path. -/
def pathComponents (path : String) : List Path.Component :=
  Path.components path.toList

theorem pathComponents_eq_nil_iff {path : String} : pathComponents path = [] ↔ path = "" := by
  rw [pathComponents, Path.components_eq_nil_iff, String.toList_eq_nil_iff]

@[simp] theorem pathComponents_ofList (path : List Char) :
    pathComponents (String.ofList path) = Path.components path := by
  rw [pathComponents, String.toList_ofList]

namespace MountRule

variable {rule : MountRule} {path other result : String} {rest : List Path.Component}

/-- The path is the rule's host side or lies below it. -/
def Covers (rule : MountRule) (path : String) : Prop :=
  pathComponents rule.host <+: pathComponents path

/-- The text behind the host side of a path that the rule covers. -/
def tail (rule : MountRule) (path : String) : List Char :=
  Path.textBehind (pathComponents rule.host).length path.toList

theorem components_tail (rule : MountRule) (path : String) :
    Path.components (rule.tail path) =
      (pathComponents path).drop (pathComponents rule.host).length :=
  Path.components_textBehind ..

/-! ### One rule -/

theorem translate?_of_covers (h : rule.Covers path) :
    rule.translate? path =
      some (if rule.tail path = [] then rule.container
        else String.ofList (Path.join rule.container.toList (rule.tail path))) := by
  have hstrip : Path.stripBase? rule.host.toList path.toList = some (rule.tail path) :=
    if_pos (List.isPrefixOf_iff_prefix.mpr h)
  rw [translate?, hstrip, Option.map_some]
  simp only [List.isEmpty_iff]

theorem translate?_of_not_covers (h : ¬ rule.Covers path) : rule.translate? path = none := by
  have hstrip : Path.stripBase? rule.host.toList path.toList = none :=
    if_neg fun hprefix => h (List.isPrefixOf_iff_prefix.mp hprefix)
  rw [translate?, hstrip, Option.map_none]

/-- A rule applies to the paths that it covers. -/
theorem isSome_translate?_iff : (rule.translate? path).isSome = true ↔ rule.Covers path := by
  by_cases h : rule.Covers path
  · exact iff_of_true (by rw [translate?_of_covers h]; rfl) h
  · exact iff_of_false (by rw [translate?_of_not_covers h]; exact Bool.false_ne_true) h

/-- **A rule puts the components of its container side in the place of those of its host side.** The
host side itself becomes the container side as it is written. -/
theorem pathComponents_of_translate? (hhost : rule.host ≠ "")
    (h : rule.translate? path = some result)
    (hrest : pathComponents path = pathComponents rule.host ++ rest) :
    pathComponents result = pathComponents rule.container ++ rest ∧
      (rest = [] → result = rule.container) := by
  have htail : Path.components (rule.tail path) = rest := by
    rw [components_tail, hrest, List.drop_left]
  rw [translate?_of_covers ⟨rest, hrest.symm⟩, Option.some.injEq] at h
  by_cases hnone : rest = []
  · have hempty : rule.tail path = [] := Path.components_eq_nil_iff.mp (htail.trans hnone)
    rw [if_pos hempty] at h
    rw [← h, hnone, List.append_nil]
    exact ⟨rfl, fun _ => rfl⟩
  · refine ⟨?_, fun h => absurd h hnone⟩
    rw [if_neg fun hempty => hnone (htail.symm.trans (Path.components_eq_nil_iff.mpr hempty))] at h
    have hinner : ∀ c ∈ rest, c.isInner = true := by
      intro c hc
      rw [← htail, components_tail] at hc
      exact Path.isInner_of_mem_drop (fun hlength =>
        hhost (pathComponents_eq_nil_iff.mp (List.length_eq_zero_iff.mp hlength))) hc
    have hroot : rest.head? ≠ some .root := fun hhead => by
      cases hinner _ (List.mem_of_mem_head? hhead)
    rw [← h, pathComponents_ofList, Path.components_join, htail,
      List.filter_eq_self.mpr hinner]
    by_cases hcontainer : rule.container = ""
    · rw [if_pos (.inr (by rw [hcontainer]; rfl)), hcontainer]
      rfl
    · rw [if_neg (not_or.mpr ⟨hroot, fun h => hcontainer (String.toList_eq_nil_iff.mp h)⟩)]
      rfl

theorem covers_congr (h : pathComponents path = pathComponents other) :
    rule.Covers path ↔ rule.Covers other := by
  rw [Covers, Covers, h]

/-- A rule takes spellings of one path to spellings of one path. -/
theorem translate?_congr (h : pathComponents path = pathComponents other) :
    (rule.translate? path).map pathComponents = (rule.translate? other).map pathComponents := by
  have htail : Path.components (rule.tail path) = Path.components (rule.tail other) := by
    rw [components_tail, components_tail, h]
  have hempty : rule.tail path = [] ↔ rule.tail other = [] := by
    rw [← Path.components_eq_nil_iff, htail, Path.components_eq_nil_iff]
  by_cases hcovers : rule.Covers path
  · rw [translate?_of_covers hcovers, translate?_of_covers ((covers_congr h).mp hcovers)]
    by_cases hother : rule.tail other = []
    · rw [if_pos (hempty.mpr hother), if_pos hother]
    · rw [if_neg (mt hempty.mp hother), if_neg hother, Option.map_some, Option.map_some,
        pathComponents_ofList, pathComponents_ofList, Path.components_join, Path.components_join,
        htail]
  · rw [translate?_of_not_covers hcovers, translate?_of_not_covers (mt (covers_congr h).mpr hcovers)]

end MountRule

/-! ### Lists of rules -/

variable {rules : List MountRule} {path other : String}

theorem translate_cons (rule : MountRule) (rules : List MountRule) (path : String) :
    translate (rule :: rules) path = (rule.translate? path).getD (translate rules path) := by
  rw [translate, List.findSome?_cons]
  cases rule.translate? path <;> rfl

theorem translate_of_not_covers (h : ∀ rule ∈ rules, ¬ rule.Covers path) :
    translate rules path = path := by
  induction rules with
  | nil => rfl
  | cons rule rules ih =>
    obtain ⟨hrule, hrules⟩ := List.forall_mem_cons.mp h
    rw [translate_cons, MountRule.translate?_of_not_covers hrule, Option.getD_none, ih hrules]

/-- A path that is covered goes where one of the rules takes it. -/
theorem exists_translate?_eq_translate (h : ∃ rule ∈ rules, rule.Covers path) :
    ∃ rule ∈ rules, rule.translate? path = some (translate rules path) := by
  induction rules with
  | nil => obtain ⟨_, hrule, _⟩ := h; cases hrule
  | cons rule rules ih =>
    rw [translate_cons]
    cases hresult : rule.translate? path with
    | some result => exact ⟨rule, List.mem_cons_self .., hresult⟩
    | none =>
      rw [List.exists_mem_cons_iff, ← MountRule.isSome_translate?_iff, hresult] at h
      obtain ⟨covering, hmem, htranslate⟩ := ih (h.resolve_left Bool.false_ne_true)
      exact ⟨covering, List.mem_cons_of_mem rule hmem, htranslate⟩

theorem pathComponents_translate_congr (h : pathComponents path = pathComponents other) :
    pathComponents (translate rules path) = pathComponents (translate rules other) := by
  induction rules with
  | nil => exact h
  | cons rule rules ih =>
    have hrule : (rule.translate? path).map pathComponents =
        (rule.translate? other).map pathComponents := MountRule.translate?_congr h
    rw [translate_cons, translate_cons]
    cases hpath : rule.translate? path <;> cases hother : rule.translate? other <;>
      rw [hpath, hother] at hrule
    · exact ih
    · cases hrule
    · cases hrule
    · exact Option.some.inj hrule

/-- **Rules work on components.** A rule applies exactly if its host side's components begin those of
the path, and puts its container side's components in their place; the host side itself becomes the
container side as it is written. Under any rules two spellings of a path stay spellings of one path,
and a path that no rule covers stays as it is written. -/
theorem translate_components {rule : MountRule} (hhost : rule.host ≠ "") (path : String) :
    ((rule.translate? path).isSome = true ↔
      pathComponents rule.host <+: pathComponents path) ∧
    (∀ rest, pathComponents path = pathComponents rule.host ++ rest →
      ∃ result, rule.translate? path = some result ∧
        pathComponents result = pathComponents rule.container ++ rest ∧
        (rest = [] → result = rule.container)) ∧
    ∀ rules : List MountRule,
      (∀ other, pathComponents path = pathComponents other →
        pathComponents (translate rules path) = pathComponents (translate rules other)) ∧
      ((∀ rule ∈ rules, ¬ pathComponents rule.host <+: pathComponents path) →
        translate rules path = path) := by
  refine ⟨MountRule.isSome_translate?_iff, fun rest hrest => ?_, fun rules =>
    ⟨fun other => pathComponents_translate_congr, translate_of_not_covers⟩⟩
  obtain ⟨result, hresult⟩ :=
    Option.isSome_iff_exists.mp (MountRule.isSome_translate?_iff.mpr ⟨rest, hrest.symm⟩)
  exact ⟨result, hresult, MountRule.pathComponents_of_translate? hhost hresult hrest⟩

/-- The host side has a separator too many, the path repeats one and has a single dot. -/
theorem translate_components_spelled :
    let rule : MountRule := ⟨"/data/", "mnt/."⟩
    let path : String := "//data/./a/../b/"
    rule.host ≠ "" ∧
      ((rule.translate? path).isSome = true ↔
        pathComponents rule.host <+: pathComponents path) ∧
      (∃ result, rule.translate? path = some result ∧
        pathComponents result =
          pathComponents rule.container ++ [.normal ['a'], .parent, .normal ['b']]) ∧
      pathComponents (translate [rule] path) = pathComponents (translate [rule] "/data/a/../b") ∧
      translate [⟨"/data/x", "/x"⟩] path = path := by
  intro rule path
  have hhost : rule.host ≠ "" := by decide
  obtain ⟨happlies, hplace, hrules⟩ := translate_components hhost path
  obtain ⟨result, hresult, hcomponents, _⟩ :=
    hplace [.normal ['a'], .parent, .normal ['b']] (by decide +kernel)
  exact ⟨hhost, happlies, ⟨result, hresult, hcomponents⟩,
    (hrules [rule]).1 "/data/a/../b" (by decide +kernel),
    (hrules [⟨"/data/x", "/x"⟩]).2 (by decide +kernel)⟩

/-! ### The way back -/

/-- The rule with its sides exchanged. -/
def MountRule.swap (rule : MountRule) : MountRule :=
  ⟨rule.container, rule.host⟩

/-- Neither side of two rules' container sides lies below the other. -/
def MountRule.Apart (rule other : MountRule) : Prop :=
  ¬ pathComponents rule.container <+: pathComponents other.container ∧
    ¬ pathComponents other.container <+: pathComponents rule.container

instance (rule other : MountRule) : Decidable (rule.Apart other) :=
  inferInstanceAs (Decidable (_ ∧ _))

instance : Std.Symm MountRule.Apart :=
  ⟨fun _ _ => And.symm⟩

/-- At most one of the rules has its container side at a place or above it. -/
theorem eq_of_apart (h : rules.Pairwise MountRule.Apart) {rule other : MountRule}
    (hrule : rule ∈ rules) (hother : other ∈ rules) {place : List Path.Component}
    (hplace : pathComponents rule.container <+: place)
    (hplace' : pathComponents other.container <+: place) : rule = other := by
  by_contra hne
  obtain ⟨hbelow, habove⟩ := h.forall hrule hother hne
  rcases List.prefix_or_prefix_of_prefix hplace hplace' with hprefix | hprefix
  · exact hbelow hprefix
  · exact habove hprefix

/-- **Rules that keep their container sides apart can be read backwards**: with the sides exchanged
they take a translated path to a spelling of the path that it comes from. So different paths that
rules cover are different paths in the container. -/
theorem translate_swap (hsides : ∀ rule ∈ rules, rule.host ≠ "" ∧ rule.container ≠ "")
    (hapart : rules.Pairwise MountRule.Apart) :
    (∀ path, (∃ rule ∈ rules, pathComponents rule.host <+: pathComponents path) →
      pathComponents (translate (rules.map MountRule.swap) (translate rules path)) =
        pathComponents path) ∧
    ∀ path other, (∃ rule ∈ rules, pathComponents rule.host <+: pathComponents path) →
      (∃ rule ∈ rules, pathComponents rule.host <+: pathComponents other) →
      pathComponents path ≠ pathComponents other →
      pathComponents (translate rules path) ≠ pathComponents (translate rules other) := by
  have hback : ∀ path, (∃ rule ∈ rules, rule.Covers path) →
      pathComponents (translate (rules.map MountRule.swap) (translate rules path)) =
        pathComponents path := by
    intro path hcovers
    obtain ⟨rule, hrule, hthere⟩ := exists_translate?_eq_translate hcovers
    obtain ⟨rest, hrest⟩ := MountRule.isSome_translate?_iff.mp (Option.isSome_of_eq_some hthere)
    have hplace := (MountRule.pathComponents_of_translate? (hsides rule hrule).1 hthere
      hrest.symm).1
    -- Whichever rule is first on the way back, it is the one that was first on the way there.
    obtain ⟨back, hmem, hhere⟩ := exists_translate?_eq_translate
      ⟨rule.swap, List.mem_map_of_mem hrule, ⟨rest, hplace.symm⟩⟩
    obtain ⟨other, hother, rfl⟩ := List.mem_map.mp hmem
    have hcovers' := MountRule.isSome_translate?_iff.mp (Option.isSome_of_eq_some hhere)
    obtain rfl : rule = other := eq_of_apart hapart hrule hother ⟨rest, hplace.symm⟩ hcovers'
    rw [(MountRule.pathComponents_of_translate? (hsides rule hrule).2 hhere hplace).1, ← hrest]
    rfl
  refine ⟨hback, fun path other hpath hother hne hsame => hne ?_⟩
  rw [← hback path hpath, ← hback other hother]
  exact pathComponents_translate_congr hsame

/-- The second rule's host side lies below the first one's, which shadows it. -/
theorem translate_swap_shadowed :
    let rules : List MountRule := [⟨"/data", "/mnt/"⟩, ⟨"/data/raw", "/raw"⟩, ⟨"scratch", "."⟩]
    (∀ rule ∈ rules, rule.host ≠ "" ∧ rule.container ≠ "") ∧ rules.Pairwise MountRule.Apart ∧
      pathComponents (translate (rules.map MountRule.swap) (translate rules "/data//raw/s1.nrrd")) =
        pathComponents "/data//raw/s1.nrrd" ∧
      pathComponents (translate rules "/data/raw") ≠
        pathComponents (translate rules "scratch/raw") := by
  intro rules
  have hsides : ∀ rule ∈ rules, rule.host ≠ "" ∧ rule.container ≠ "" := by decide
  have hapart : rules.Pairwise MountRule.Apart := by decide +kernel
  have hdata : (⟨"/data", "/mnt/"⟩ : MountRule) ∈ rules := List.mem_cons_self ..
  have hscratch : (⟨"scratch", "."⟩ : MountRule) ∈ rules := by simp [rules]
  obtain ⟨hback, hdistinct⟩ := translate_swap hsides hapart
  exact ⟨hsides, hapart, hback _ ⟨_, hdata, by decide +kernel⟩,
    hdistinct "/data/raw" "scratch/raw" ⟨_, hdata, by decide +kernel⟩
      ⟨_, hscratch, by decide +kernel⟩ (by decide +kernel)⟩

end ContainerCommand
