import ContainerCommand.Proofs.Command.Order

/-! Sorting tokens in buckets.

Sorting is stable, so blocks of tokens that have the key of their parameter are sorted as the parameters
are, and no block is broken up (`mergeSort_flatMap`). The buckets hold the tokens of one group each, in
the order of declaration (`Buckets.ofShown_map`), and what is sorted in each of them, put one behind the
other, is what one sort of all parameters gives (`Schema.ordered_eq_append`). The main statement is
`Schema.arrange_map`. -/
namespace ContainerCommand

/-! ### Stable sorting -/

section
variable {α β : Type} {le : α → α → Bool} {le' : β → β → Bool}

/-- A list is cut in one way only into what fails a test and what passes it. -/
theorem eq_of_append_eq_append {test : α → Bool} {front front' back back' : List α}
    (h : front ++ back = front' ++ back') (hfront : ∀ a ∈ front, test a = false)
    (hback : ∀ a ∈ back, test a = true) (hfront' : ∀ a ∈ front', test a = false)
    (hback' : ∀ a ∈ back', test a = true) : front = front' ∧ back = back' := by
  have hfilter : ∀ {front back : List α}, (∀ a ∈ front, test a = false) →
      (∀ a ∈ back, test a = true) → (front ++ back).filter test = back := by
    intro front back hfront hback
    rw [List.filter_append, List.filter_eq_nil_iff.mpr (by simpa using hfront),
      List.filter_eq_self.mpr hback, List.nil_append]
  have heq : back = back' := by rw [← hfilter hfront hback, h, hfilter hfront' hback']
  exact ⟨List.append_cancel_right (heq ▸ h), heq⟩

/-- The first element of a list is put behind those that must stand before it. -/
theorem exists_mergeSort_cons_eq
    (htrans : ∀ a b c, le a b = true → le b c = true → le a c = true)
    (htotal : ∀ a b, (le a b || le b a) = true) (a : α) (l : List α) :
    ∃ front back, l.mergeSort le = front ++ back ∧ (a :: l).mergeSort le = front ++ a :: back ∧
      (∀ b ∈ front, le a b = false) ∧ ∀ b ∈ back, le a b = true := by
  obtain ⟨front, back, hall, hrest, hfront⟩ := List.mergeSort_cons htrans htotal a l
  have hsorted := List.pairwise_mergeSort htrans htotal (a :: l)
  rw [hall] at hsorted
  exact ⟨front, back, hrest, hall, by simpa using hfront,
    (List.pairwise_cons.mp (List.pairwise_append.mp hsorted).2.1).1⟩

/-- So is a block at the front of a list, whose elements have one key. -/
theorem mergeSort_append_eq (htrans : ∀ a b c, le a b = true → le b c = true → le a c = true)
    (htotal : ∀ a b, (le a b || le b a) = true) {block l front back : List α}
    (hblock : ∀ a ∈ block, ∀ b ∈ block, le a b = true) (hrest : l.mergeSort le = front ++ back)
    (hfront : ∀ a ∈ block, ∀ b ∈ front, le a b = false)
    (hback : ∀ a ∈ block, ∀ b ∈ back, le a b = true) :
    (block ++ l).mergeSort le = front ++ (block ++ back) := by
  induction block with
  | nil => exact hrest
  | cons a block ih =>
    have hbehind : ∀ b ∈ block ++ back, le a b = true := by
      intro b hb
      rcases List.mem_append.mp hb with hb | hb
      · exact hblock a (by simp) b (by simp [hb])
      · exact hback a (by simp) b hb
    have hmerged := ih (fun b hb c hc => hblock b (by simp [hb]) c (by simp [hc]))
      (fun b hb => hfront b (by simp [hb])) (fun b hb => hback b (by simp [hb]))
    obtain ⟨front', back', hcut, hall, hfront', hback'⟩ :=
      exists_mergeSort_cons_eq htrans htotal a (block ++ l)
    obtain ⟨rfl, rfl⟩ := eq_of_append_eq_append (hmerged.symm.trans hcut)
      (hfront a (by simp)) hbehind hfront' hback'
    exact hall

/-- **Blocks are sorted as what they belong to**, if each element has the key of what its block belongs
to. -/
theorem mergeSort_flatMap (htrans : ∀ a b c, le a b = true → le b c = true → le a c = true)
    (htotal : ∀ a b, (le a b || le b a) = true)
    (htrans' : ∀ x y z, le' x y = true → le' y z = true → le' x z = true)
    (htotal' : ∀ x y, (le' x y || le' y x) = true) {block : α → List β} {l : List α}
    (hkey : ∀ a ∈ l, ∀ x ∈ block a, ∀ b ∈ l, ∀ y ∈ block b, le' x y = le a b) :
    (l.flatMap block).mergeSort le' = (l.mergeSort le).flatMap block := by
  induction l with
  | nil => simp
  | cons a rest ih =>
    obtain ⟨front, back, hrest, hall, hfront, hback⟩ :=
      exists_mergeSort_cons_eq htrans htotal a rest
    have hmem : ∀ b ∈ front ++ back, b ∈ a :: rest :=
      fun b hb => List.mem_cons_of_mem a (List.mem_mergeSort.mp (hrest ▸ hb))
    have hself : le a a = true := by simpa using htotal a a
    rw [List.flatMap_cons, hall, List.flatMap_append, List.flatMap_cons]
    refine mergeSort_append_eq htrans' htotal' (fun x hx y hy => ?_) ?_ (fun x hx y hy => ?_)
      (fun x hx y hy => ?_)
    · rw [hkey a (by simp) x hx a (by simp) y hy, hself]
    · rw [ih fun b hb x hx c hc => hkey b (by simp [hb]) x hx c (by simp [hc]), hrest,
        List.flatMap_append]
    · obtain ⟨b, hb, hy⟩ := List.mem_flatMap.mp hy
      rw [hkey a (by simp) x hx b (hmem b (List.mem_append_left _ hb)) y hy, hfront b hb]
    · obtain ⟨b, hb, hy⟩ := List.mem_flatMap.mp hy
      rw [hkey a (by simp) x hx b (hmem b (List.mem_append_right _ hb)) y hy, hback b hb]

end

/-! ### What the buckets hold -/

/-- The parameters of a group. -/
def Group.members (g : Group) (params : List Parameter) : List Parameter :=
  params.filter (·.group = g)

/-- The parameters of a group in order. -/
def Group.sorted (g : Group) (params : List Parameter) : List Parameter :=
  (g.members params).mergeSort Parameter.precedes

theorem Group.mem_members {g : Group} {params : List Parameter} {p : Parameter} :
    p ∈ g.members params ↔ p ∈ params ∧ p.group = g := by
  rw [members, List.mem_filter, decide_eq_true_eq]

theorem Group.mem_sorted {g : Group} {params : List Parameter} {p : Parameter} :
    p ∈ g.sorted params ↔ p ∈ params ∧ p.group = g :=
  List.mem_mergeSort.trans mem_members

namespace Parameter

/-- Parameters without a position stand by their names. -/
theorem precedes_of_unordered {p q : Parameter} (hp : p.group = .unordered)
    (hq : q.group = .unordered) : p.precedes q = decide (p.name ≤ q.name) := by
  have hnone : ∀ {r : Parameter}, r.group = .unordered → r.position = none := by
    intro r hr
    cases h : r.position with
    | none => rfl
    | some n =>
      rw [group, h, Group.ofPosition] at hr
      split at hr <;> cases hr
  rw [precedes, hnone hp, hnone hq]

/-- Two leading parameters, or two trailing ones, stand by their positions. -/
theorem precedes_of_group_eq {p q : Parameter} (h : p.group = q.group) (hp : p.group ≠ .unordered) :
    p.precedes q = decide (p.position.getD 0 ≤ q.position.getD 0) := by
  unfold group at h hp
  unfold precedes
  cases hm : p.position with
  | none =>
    rw [hm] at hp
    exact absurd rfl hp
  | some m =>
    cases hn : q.position with
    | none =>
      rw [h, hn] at hp
      exact absurd rfl hp
    | some n =>
      simp only [hm, hn, Group.ofPosition] at h
      dsimp only [Option.getD_some]
      grind

end Parameter

namespace Buckets

variable {params : List Parameter} {piece : Parameter → List Token}

/-- The tokens of a parameter with its position. -/
def placed (piece : Parameter → List Token) (p : Parameter) : List (Int × Token) :=
  (piece p).map fun token => (p.position.getD 0, token)

theorem add_eq (buckets : Buckets) (p : Parameter) :
    buckets.add p (piece p) =
      match p.group with
      | .leading => { buckets with leading := buckets.leading ++ placed piece p }
      | .unordered => { buckets with unordered := buckets.unordered ++ piece p }
      | .trailing => { buckets with trailing := buckets.trailing ++ placed piece p } := by
  unfold add Parameter.group Group.ofPosition placed
  cases hp : p.position with
  | none => rfl
  | some n =>
    dsimp only
    split <;> rfl

/-- **Each bucket holds the tokens of its group**, in the order in which the parameters are given. -/
theorem ofShown_map :
    ofShown (params.map fun p => (p, piece p)) =
      { leading := (Group.leading.members params).flatMap (placed piece)
        unordered := (Group.unordered.members params).flatMap piece
        trailing := (Group.trailing.members params).flatMap (placed piece) } := by
  have hfold : ∀ buckets : Buckets,
      (params.map fun p => (p, piece p)).foldl (fun buckets entry => buckets.add entry.1 entry.2)
          buckets =
        { leading := buckets.leading ++ (Group.leading.members params).flatMap (placed piece)
          unordered := buckets.unordered ++ (Group.unordered.members params).flatMap piece
          trailing := buckets.trailing ++
            (Group.trailing.members params).flatMap (placed piece) } := by
    induction params with
    | nil => simp [Group.members]
    | cons p rest ih =>
      intro buckets
      rw [List.map_cons, List.foldl_cons, ih]
      dsimp only
      rw [add_eq]
      cases hgroup : p.group <;> simp [Group.members, hgroup]
  exact hfold {}

theorem map_snd_placed (p : Parameter) : (placed piece p).map Prod.snd = piece p := by
  rw [placed, List.map_map]
  exact List.map_id _

/-- Where all parameters with tokens lead, or all trail, sorting by position is sorting them. -/
theorem byPosition_flatMap {g : Group} (hg : g ≠ .unordered) :
    byPosition ((g.members params).flatMap (placed piece)) =
      (g.sorted params).flatMap piece := by
  rw [byPosition, mergeSort_flatMap Parameter.precedes_trans Parameter.precedes_total
    (fun x y z => by simpa using Int.le_trans) (fun x y => by simpa using Int.le_total x.1 y.1)
    ?key, List.map_flatMap]
  · simp only [map_snd_placed, Group.sorted]
  case key =>
    intro p hp x hx q hq y hy
    obtain ⟨_, hp⟩ := Group.mem_members.mp hp
    obtain ⟨_, hq⟩ := Group.mem_members.mp hq
    obtain ⟨_, _, rfl⟩ := List.mem_map.mp hx
    obtain ⟨_, _, rfl⟩ := List.mem_map.mp hy
    rw [Parameter.precedes_of_group_eq (hp.trans hq.symm) (hp ▸ hg)]

theorem byName_flatMap (hname : ∀ p ∈ params, ∀ token ∈ piece p, token.param = p.name) :
    byName ((Group.unordered.members params).flatMap piece) =
      (Group.unordered.sorted params).flatMap piece := by
  refine mergeSort_flatMap Parameter.precedes_trans Parameter.precedes_total
    (fun x y z => by simpa using String.le_trans)
    (fun x y => by simpa using String.le_total x.param y.param) fun p hp x hx q hq y hy => ?_
  obtain ⟨hp, hp'⟩ := Group.mem_members.mp hp
  obtain ⟨hq, hq'⟩ := Group.mem_members.mp hq
  rw [Parameter.precedes_of_unordered hp' hq', hname p hp x hx, hname q hq y hy]

end Buckets

/-! ### The main statement -/

namespace Schema

variable {schema : Schema}

theorem pairwise_sorted (g : Group) : (g.sorted schema.params).Pairwise schema.Precedes :=
  pairwise_mergeSort List.filter_sublist

/-- One sort of all parameters puts the groups one behind the other, each sorted by itself. -/
theorem ordered_eq_append :
    schema.ordered = Group.leading.sorted schema.params ++ Group.unordered.sorted schema.params ++
      Group.trailing.sorted schema.params := by
  have hbefore : ∀ {g g' : Group}, g.rank < g'.rank →
      ∀ p ∈ g.sorted schema.params, ∀ q ∈ g'.sorted schema.params, schema.Precedes p q := by
    intro g g' hrank p hp q hq
    exact .group (by rwa [(Group.mem_sorted.mp hp).2, (Group.mem_sorted.mp hq).2])
  have hpairs : (Group.leading.sorted schema.params ++ Group.unordered.sorted schema.params ++
      Group.trailing.sorted schema.params).Pairwise schema.Precedes := by
    refine List.pairwise_append.mpr ⟨List.pairwise_append.mpr
      ⟨pairwise_sorted _, pairwise_sorted _, hbefore (by decide)⟩, pairwise_sorted _, fun p hp => ?_⟩
    rcases List.mem_append.mp hp with hp | hp
    · exact hbefore (by decide) p hp
    · exact hbefore (by decide) p hp
  refine (eq_ordered ?_ hpairs).symm
  have hnodup := hpairs.imp fun {p q} h (heq : p = q) => h.asymm (heq ▸ h)
  refine (List.perm_ext_iff_of_nodup hnodup nodup_params).mpr fun p => ?_
  rw [List.mem_append, List.mem_append, Group.mem_sorted, Group.mem_sorted, Group.mem_sorted]
  cases hp : p.group <;> simp

/-- **The buckets put tokens in the order of the schema**, the tokens of each parameter together. -/
theorem arrange_map {piece : Parameter → List Token}
    (hname : ∀ p ∈ schema.params, ∀ token ∈ piece p, token.param = p.name) :
    arrange (schema.params.map fun p => (p, piece p)) = schema.ordered.flatMap piece := by
  rw [arrange, Buckets.ofShown_map, Buckets.tokens, Buckets.byPosition_flatMap (by decide),
    Buckets.byName_flatMap hname, Buckets.byPosition_flatMap (by decide), ordered_eq_append,
    List.flatMap_append, List.flatMap_append]

end Schema

end ContainerCommand
