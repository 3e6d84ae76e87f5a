import ContainerCommand.Proofs.Command.Provenance
import ContainerCommand.Task.Builtin

/-! The order of a command that is compiled from a merged schema.

Merging moves the leading parameters of the extension behind those of the base and changes no other
order: what precedes in one of the two schemas precedes in the merged one (`Precedes.of_base`,
`Precedes.shift`). So each of the two is met in the merged order as it was arranged alone
(`filter_ordered_base`, `filter_ordered_extension`). The main statement is `order_of_merge`. -/
namespace ContainerCommand

namespace Schema

variable {schema base extension merged : Schema} {p q : Parameter}

/-! ### What precedes in one of two schemas -/

/-- What precedes in the base precedes in the merged schema. -/
theorem Precedes.of_base (h : base.merge extension = .ok merged) (hpq : base.Precedes p q) :
    merged.Precedes p q := by
  cases hpq with
  | group hrank => exact .group hrank
  | position hgroup hm hn hlt => exact .position hgroup hm hn hlt
  | name hm hn hlt => exact .name hm hn hlt
  | declared hm hn hfirst =>
    refine .declared hm hn ?_
    rw [params_merge h]
    exact hfirst.trans (List.sublist_append_left _ _)

/-- What precedes in the extension precedes in the merged schema, where both are moved alike. -/
theorem Precedes.shift (h : base.merge extension = .ok merged) (hpq : extension.Precedes p q) :
    merged.Precedes (p.shift base.maxLeading) (q.shift base.maxLeading) := by
  have hgroup : ∀ r : Parameter, (r.shift base.maxLeading).group = r.group :=
    fun _ => Parameter.group_shift maxLeading_nonneg
  cases hpq with
  | group hrank => exact .group (by rwa [hgroup, hgroup])
  | name hm hn hlt =>
    exact .name (Parameter.position_shift_of_none hm) (Parameter.position_shift_of_none hn) hlt
  | @position m n hsame hm hn hlt =>
    -- Both positions are moved or none is, since the group tells the sign.
    have hsigns : 0 ≤ m ↔ 0 ≤ n := by
      simp only [Parameter.group, Group.ofPosition, hm, hn] at hsame
      grind
    have hsame' : (p.shift base.maxLeading).group = (q.shift base.maxLeading).group := by
      rw [hgroup, hgroup, hsame]
    by_cases hleads : 0 ≤ m
    · exact .position hsame' (Parameter.position_shift_of_leads hm hleads)
        (Parameter.position_shift_of_leads hn (hsigns.mp hleads)) (by omega)
    · exact .position hsame' (Parameter.position_shift_of_trails hm hleads)
        (Parameter.position_shift_of_trails hn (mt hsigns.mpr hleads)) hlt
  | @declared n hm hn hfirst =>
    have hposition : (p.shift base.maxLeading).position = (q.shift base.maxLeading).position := by
      rw [Parameter.shift, Parameter.shift, hm, hn]
    have hm' : (p.shift base.maxLeading).position =
        some (if 0 ≤ n then n + base.maxLeading else n) := by
      rw [Parameter.shift, hm, Option.map_some]
    refine .declared hm' (hposition ▸ hm') ?_
    rw [params_merge h]
    exact (hfirst.map (·.shift base.maxLeading)).trans (List.sublist_append_right _ _)

/-! ### A part of the order -/

/-- The parameters that a test keeps stand as any arrangement of them in order. -/
theorem filter_ordered_eq {keep : Parameter → Bool} {part : List Parameter}
    (hperm : part.Perm (schema.params.filter keep)) (hpart : part.Pairwise schema.Precedes) :
    schema.ordered.filter keep = part :=
  List.Perm.eq_of_pairwise (fun _ _ _ _ h h' => absurd h' h.asymm) (pairwise_ordered.filter _) hpart
    ((ordered_perm.filter keep).trans hperm.symm)

/-- The parameters of the base stand in the merged order as in its own. -/
theorem filter_ordered_base (h : base.merge extension = .ok merged) :
    merged.ordered.filter (base.contains ·.name) = base.ordered := by
  refine filter_ordered_eq (ordered_perm.trans (.of_eq ?_))
    (pairwise_ordered.imp (Precedes.of_base h))
  have hbase : base.params.filter (base.contains ·.name) = base.params :=
    List.filter_eq_self.mpr fun p hp => contains_iff.mpr ⟨p, hp, rfl⟩
  have hextension : (extension.params.map (·.shift base.maxLeading)).filter
      (base.contains ·.name) = [] := by
    simpa [List.filter_map] using apart_iff.mp (apart_of_merge h)
  rw [params_merge h, List.filter_append, hbase, hextension, List.append_nil]

/-- The parameters of the extension stand, moved back, in the merged order as in its own. -/
theorem filter_ordered_extension (h : base.merge extension = .ok merged) :
    merged.ordered.filter (extension.contains ·.name) =
      extension.ordered.map (·.shift base.maxLeading) := by
  refine filter_ordered_eq ((ordered_perm.map _).trans (.of_eq ?_))
    (List.pairwise_map.mpr (pairwise_ordered.imp (Precedes.shift h)))
  have hbase : base.params.filter (extension.contains ·.name) = [] := by
    simpa using fun p hp => contains_eq_false_of_merge h hp
  have hextension : (extension.params.map (·.shift base.maxLeading)).filter
      (extension.contains ·.name) = extension.params.map (·.shift base.maxLeading) := by
    simpa [List.filter_eq_self] using fun q hq => contains_iff.mpr ⟨q, hq, rfl⟩
  rw [params_merge h, List.filter_append, hbase, hextension, List.nil_append]

/-! ### The main statement -/

/-- A schema declares a parameter of a name with a position that is not negative. -/
def Leads (schema : Schema) (name : String) : Prop :=
  ∃ p ∈ schema.params, p.name = name ∧ ∃ n, p.position = some n ∧ 0 ≤ n

end Schema

/-- The tokens of a schema's parameters stand in a command as the schema alone orders them. -/
def Command.Follows (command : Command) (schema : Schema) : Prop :=
  ∃ order : List Parameter, order.Perm schema.params ∧ order.Pairwise schema.Precedes ∧
    command.tokens.filter (schema.contains ·.param) = order.flatMap (command.tokensOf ·.name)

namespace Schema

variable {base extension merged : Schema} {launcher : Launcher} {isOnHost : String → Bool}
  {inputs : Inputs} {rules used : List MountRule} {piece : Parameter → List Token}
  {command : Command}

theorem mem_merged_of_base (h : base.merge extension = .ok merged) {p : Parameter}
    (hp : p ∈ base.params) : p ∈ merged.params := by
  rw [params_merge h]
  exact List.mem_append_left _ hp

theorem shift_mem_merged (h : base.merge extension = .ok merged) {q : Parameter}
    (hq : q ∈ extension.params) : q.shift base.maxLeading ∈ merged.params := by
  rw [params_merge h]
  exact List.mem_append_right _ (List.mem_map_of_mem hq)

namespace Compiles

theorem follows_base (h : base.merge extension = .ok merged)
    (hc : merged.Compiles launcher isOnHost inputs rules used piece command) :
    command.Follows base := by
  refine ⟨base.ordered, ordered_perm, pairwise_ordered, ?_⟩
  rw [hc.filter_tokens base.contains, filter_ordered_base h]
  exact List.flatMap_congr fun p hp =>
    (hc.tokensOf_eq (mem_merged_of_base h (ordered_perm.mem_iff.mp hp))).symm

theorem follows_extension (h : base.merge extension = .ok merged)
    (hc : merged.Compiles launcher isOnHost inputs rules used piece command) :
    command.Follows extension := by
  refine ⟨extension.ordered, ordered_perm, pairwise_ordered, ?_⟩
  rw [hc.filter_tokens extension.contains, filter_ordered_extension h, List.flatMap_map]
  exact List.flatMap_congr fun p hp =>
    (hc.tokensOf_eq (shift_mem_merged h (ordered_perm.mem_iff.mp hp))).symm

/-- In front of a token of a parameter that leads in the base there is none of the extension. -/
theorem pairwise_tokens (h : base.merge extension = .ok merged)
    (hc : merged.Compiles launcher isOnHost inputs rules used piece command) :
    command.tokens.Pairwise fun a b =>
      base.Leads b.param → extension.contains a.param = false := by
  have hparam : ∀ p ∈ merged.ordered, ∀ token ∈ piece p, token.param = p.name :=
    fun p hp token hmem =>
      Parameter.param_of_mem_tokens (hc.pieces p (ordered_perm.mem_iff.mp hp)) hmem
  rw [hc.tokens, List.pairwise_flatMap]
  constructor
  · intro p hp
    refine List.pairwise_of_forall_mem_list fun a ha b hb hleads => ?_
    rw [hparam p hp b hb] at hleads
    obtain ⟨first, hfirst, hname, _⟩ := hleads
    rw [hparam p hp a ha, ← hname]
    exact contains_eq_false_of_merge h hfirst
  · refine pairwise_ordered.imp_of_mem fun {p q} hp hq hpq a ha b hb hleads => ?_
    rw [hparam q hq b hb] at hleads
    rw [hparam p hp a ha, ← Bool.not_eq_true, contains_iff]
    obtain ⟨first, hfirst, hname, n, hn, hsign⟩ := hleads
    rintro ⟨second, hsecond, hname'⟩
    obtain rfl : first = q := eq_of_name_eq (mem_merged_of_base h hfirst)
      (ordered_perm.mem_iff.mp hq) hname
    obtain rfl : second.shift base.maxLeading = p := eq_of_name_eq (shift_mem_merged h hsecond)
      (ordered_perm.mem_iff.mp hp) hname'
    -- The leading parameter precedes all of the extension, so it cannot come second.
    exact hpq.asymm (precedes_shift_of_merge h hfirst hn hsign hsecond)

end Compiles

/-- **Merging keeps the order of either schema, and what leads in the base stays in front.** All
tokens of a parameter that leads in the base stand before every token of the extension, whatever
positions the extension declares, zero among them. The tokens of either schema stand among
themselves as its own positions, names and order of declaration have it. -/
theorem order_of_merge
    (h : (do (← base.merge extension).compile launcher isOnHost inputs rules) = .ok command) :
    (∀ (i j : Nat) (a b : Token), command.tokens[i]? = some a → command.tokens[j]? = some b →
        base.Leads a.param → extension.contains b.param = true → i < j) ∧
      command.Follows base ∧ command.Follows extension := by
  obtain ⟨merged, h, hcompile⟩ := bind_eq_ok_iff.mp h
  obtain ⟨used, piece, hc⟩ := compile_eq_ok_iff.mp hcompile
  refine ⟨fun i j a b ha hb hleads hcontains => ?_, hc.follows_base h, hc.follows_extension h⟩
  obtain ⟨hi, rfl⟩ := List.getElem?_eq_some_iff.mp ha
  obtain ⟨hj, rfl⟩ := List.getElem?_eq_some_iff.mp hb
  rcases Nat.lt_trichotomy i j with hlt | rfl | hgt
  · exact hlt
  · obtain ⟨first, hfirst, hname, _⟩ := hleads
    have hfree := contains_eq_false_of_merge h hfirst
    rw [hname, hcontains] at hfree
    cases hfree
  · have hfree := List.pairwise_iff_getElem.mp (hc.pairwise_tokens h) j i hj hi hgt hleads
    rw [hcontains] at hfree
    cases hfree

/-- Both schemas declare a position of zero, and the extension one that goes before the base's last;
the atlas stands behind the image nevertheless. -/
theorem order_of_merge_tie :
    let log : Parameter :=
      { name := "log", kind := .path, position := some (-1), argument := some .bare }
    let image : Parameter :=
      { name := "image", kind := .scalar, position := some 0, argument := some .bare }
    let output : Parameter :=
      { name := "output", kind := .path, position := some (-2), argument := some .bare }
    let mode : Parameter := { name := "mode", kind := .scalar, argument := some (.option "-m") }
    let atlas : Parameter :=
      { name := "atlas", kind := .path, position := some 0, argument := some .bare }
    let base : Schema := ⟨[log, image], by decide, by decide⟩
    let extension : Schema := ⟨[output, mode, atlas], by decide, by decide⟩
    let inputs : Inputs := .ofList
      [("log", .text "log.txt"), ("image", .text "a.sif"), ("output", .text "out.nii"),
        ("mode", .int 3), ("atlas", .text "atlas.nii")]
    ∃ command,
      (do (← base.merge extension).compile {} (fun _ => true) inputs []) = .ok command ∧
        (∀ (i j : Nat) (a b : Token), command.tokens[i]? = some a →
          command.tokens[j]? = some b → a.param = "image" → b.param = "atlas" → i < j) ∧
        command.Follows base ∧ command.Follows extension := by
  intro log image output mode atlas base extension inputs
  obtain ⟨command, h⟩ : ∃ command,
      (do (← base.merge extension).compile {} (fun _ => true) inputs []) = .ok command :=
    exists_eq_ok_of_isOk (by decide +kernel)
  obtain ⟨hfront, hbase, hextension⟩ := order_of_merge h
  have hleads : base.Leads "image" := ⟨image, by simp [base], rfl, 0, rfl, by decide⟩
  refine ⟨command, h, fun i j a b ha hb himage hatlas => ?_, hbase, hextension⟩
  refine hfront i j a b ha hb (himage ▸ hleads) ?_
  rw [hatlas]
  decide

end Schema

end ContainerCommand
