import ContainerCommand.Proofs.Resolution.Visit

/-! How deep visits nest, and what is settled when they end.

A visit makes one visit at most, of the source that its name waits for, and enters a declared name
before it does. So visits nest no deeper than there are declared parameters that are not being
visited, and one more (`Walk.visitWithin_eq_visit`).

A walk is closed (`Walk.Closed`) while with each settled name the source that it waits for is
settled. Entering a name and leaving it keep a walk sound and closed, so all walks that visits come
to are (`Walk.Reachable`), and a visit that succeeds settles its name with all that the name is
derived from, each either with a value or without (`Walk.visit_of_reachable`). -/
namespace ContainerCommand.Walk

variable {schema : Schema} {inputs : Inputs} {walk after known : Walk} {name : String}

/-! ### Depth -/

/-- A visit that gives up where visits nest deeper than `depth`, itself counted. -/
def visitWithin (schema : Schema) (inputs : Inputs) (depth : Nat) (name : String) (walk : Walk) :
    Option (Except CompileError Walk) :=
  match depth with
  | 0 => none
  | depth + 1 =>
    if walk.isSettled name then some (.ok walk)
    else if name ∈ walk.visiting then some (.error (.derivationCycle name))
    else
      match schema.get? name with
      | none => some (.error (.unknownParameter name))
      | some p =>
        let given := inputs.get? name
        let known := match given, p.nameSource with
          | none, some source => visitWithin schema inputs depth source (walk.enter name)
          | _, _ => some (.ok (walk.enter name))
        known.map fun known => do
          let known ← known
          let found ← p.resolve given known.resolved
          return known.leave name found

/-- **Visits nest no deeper than there are names left to enter.** The visit of the last one may make
one more, which enters nothing. -/
theorem visitWithin_eq_visit {depth : Nat} (h : walk.unvisited schema < depth) :
    walk.visitWithin schema inputs depth name = some (walk.visit schema inputs name) := by
  induction depth generalizing name walk with
  | zero => omega
  | succ depth ih =>
    unfold visitWithin
    cases hsettled : walk.isSettled name with
    | true => rw [if_pos rfl, visit_of_isSettled hsettled]
    | false =>
      by_cases hvisiting : name ∈ walk.visiting
      · rw [if_neg Bool.false_ne_true, if_pos hvisiting, visit_of_mem_visiting hsettled hvisiting]
      rw [if_neg Bool.false_ne_true, if_neg hvisiting]
      cases hp : schema.get? name with
      | none => rw [visit_of_get?_eq_none hsettled hvisiting hp]
      | some p =>
        have hless := unvisited_enter_lt hp hvisiting
        have hsource : ∀ source, (walk.enter name).visitWithin schema inputs depth source =
            some ((walk.enter name).visit schema inputs source) :=
          fun source => ih (by omega)
        rw [visit_eq_bind hsettled hvisiting hp]
        simp only [hsource]
        cases inputs.get? name <;> cases p.nameSource <;> rfl

/-- Around a cycle the bound is reached: the third of two names is the first one again. -/
example :
    let derived (name source : String) : Parameter :=
      { name, kind := .path, nameSource := some source, nameTemplate := some ⟨"", ".x"⟩ }
    let schema : Schema := ⟨[derived "a" "b", derived "b" "a"], by decide, by decide⟩
    let walk : Walk := {}
    walk.unvisited schema = 2 ∧ (walk.visitWithin schema ∅ 2 "a").isNone = true ∧
      (walk.visitWithin schema ∅ 3 "a").isSome = true := by
  decide +kernel

/-! ### Closed walks -/

/-- With each settled name the source that it waits for is settled. -/
def Closed (schema : Schema) (inputs : Inputs) (walk : Walk) : Prop :=
  ∀ n source, walk.isSettled n = true → schema.Awaits inputs n source →
    walk.isSettled source = true

/-- Entering a name settles nothing. -/
theorem Closed.enter (hc : Closed schema inputs walk) (name : String) :
    Closed schema inputs (walk.enter name) :=
  hc

theorem Closed.leave {found : Option (Value × Origin)} (hc : Closed schema inputs known)
    (hsource : ∀ source, schema.Awaits inputs name source → known.isSettled source = true) :
    Closed schema inputs (known.leave name found) := by
  intro n source hn hawaits
  rw [isSettled_leave] at hn ⊢
  rcases hn with rfl | hn
  · exact .inr (hsource source hawaits)
  · exact .inr (hc n source hn hawaits)

/-- With a settled name all that it is derived from is settled. -/
theorem Closed.isSettled_of_reaches (hc : Closed schema inputs walk) {consulted : String}
    (hname : walk.isSettled name = true)
    (hreaches : Relation.ReflTransGen (schema.Awaits inputs) name consulted) :
    walk.isSettled consulted = true := by
  induction hreaches with
  | refl => exact hname
  | tail _ hawaits ih => exact hc _ _ ih hawaits

/-- A visit that succeeds keeps a walk closed: the source is settled before the visited name is. -/
theorem visit_closed (h : walk.visit schema inputs name = .ok after)
    (hc : Closed schema inputs walk) :
    Closed schema inputs after ∧ after.isSettled name = true := by
  revert hc
  refine visit_induction (motive := fun name walk after => Closed schema inputs walk →
    Closed schema inputs after ∧ after.isSettled name = true) ?settled ?direct ?chained h
  case settled =>
    intro name walk hsettled hc
    exact ⟨hc, hsettled⟩
  case direct =>
    intro name walk p found _ _ _ hnone _ hc
    exact ⟨(hc.enter name).leave fun source hawaits => absurd hawaits (hnone source),
      (isSettled_leave ..).mpr (.inl rfl)⟩
  case chained =>
    intro name walk source known p found _ _ _ hawaits ih _ hc
    obtain ⟨hknown, hsource⟩ := ih (hc.enter name)
    refine ⟨hknown.leave fun other hother => ?_, (isSettled_leave ..).mpr (.inl rfl)⟩
    rw [← hawaits.unique hother]
    exact hsource

/-! ### Walks that visits come to -/

/-- A walk that visits can come to: it has not begun, a visit has entered its name, or a visit has
succeeded. -/
inductive Reachable (schema : Schema) (inputs : Inputs) : Walk → Prop
  | start : Reachable schema inputs {}
  | enter {walk : Walk} {name : String} : Reachable schema inputs walk → walk.isSettled name = false →
      name ∉ walk.visiting → Reachable schema inputs (walk.enter name)
  | visit {walk after : Walk} {name : String} : Reachable schema inputs walk →
      walk.visit schema inputs name = .ok after → Reachable schema inputs after

/-- Visits come to sound walks only. -/
theorem Reachable.sound (h : Reachable schema inputs walk) : Sound schema inputs walk := by
  induction h with
  | start => exact .empty schema inputs
  | enter _ hsettled _ ih => exact ih.enter hsettled
  | visit _ hvisit ih => exact (visit_sound hvisit ih).1

/-- Visits come to closed walks only. -/
theorem Reachable.closed (h : Reachable schema inputs walk) : Closed schema inputs walk := by
  induction h with
  | start =>
    intro n source hn _
    cases hn
  | enter _ _ _ ih => exact ih.enter _
  | visit _ hvisit ih => exact (visit_closed hvisit ih).1

/-- The visits that the walk through all parameters makes, each with the walk in which it begins: one
of each parameter after those in front of it, and one of the source that a visited name waits
for. -/
inductive Begins (schema : Schema) (inputs : Inputs) : Walk → String → Prop
  | declared {front back : List Parameter} {p : Parameter} {walk : Walk} :
      schema.params = front ++ p :: back →
      front.foldlM (fun (walk : Walk) p => walk.visit schema inputs p.name) {} = .ok walk →
      Begins schema inputs walk p.name
  | source {walk : Walk} {name source : String} : Begins schema inputs walk name →
      walk.isSettled name = false → name ∉ walk.visiting → schema.Awaits inputs name source →
      Begins schema inputs (walk.enter name) source

theorem Reachable.of_foldlM {params : List Parameter}
    (h : params.foldlM (fun (walk : Walk) p => walk.visit schema inputs p.name) walk = .ok after)
    (hwalk : Reachable schema inputs walk) : Reachable schema inputs after := by
  induction params generalizing walk with
  | nil =>
    rw [List.foldlM_nil, pure_eq_ok_iff] at h
    exact h ▸ hwalk
  | cons p rest ih =>
    rw [List.foldlM_cons, bind_eq_ok_iff] at h
    obtain ⟨next, hnext, h⟩ := h
    exact ih h (hwalk.visit hnext)

theorem Begins.reachable (h : Begins schema inputs walk name) : Reachable schema inputs walk := by
  induction h with
  | declared _ hfront => exact .of_foldlM hfront .start
  | source _ hsettled hfresh _ ih => exact ih.enter hsettled hfresh

/-! ### What is known of a name -/

/-- No name is known in two ways: as one with a value, as one without or as one being visited. -/
structure Parted (walk : Walk) : Prop where
  undefined : ∀ n ∈ walk.undefined, walk.resolved.contains n = false
  visiting : ∀ n ∈ walk.visiting, walk.resolved.contains n = false ∧ n ∉ walk.undefined

theorem Sound.parted (hs : Sound schema inputs walk) : walk.Parted := by
  refine ⟨fun n hn => ?_, fun n hn => ?_⟩
  · cases hr : walk.resolved.get? n with
    | none => rw [Table.contains, hr, Option.isSome_none]
    | some r => cases (hs.resolved n r hr).unique (hs.undefined n hn)
  · simpa [isSettled] using hs.apart n hn

theorem Parted.contains_iff (h : walk.Parted) {n : String} (hn : walk.isSettled n = true) :
    walk.resolved.contains n = true ↔ n ∉ walk.undefined := by
  constructor
  · intro hresolved hmem
    rw [h.undefined n hmem] at hresolved
    cases hresolved
  · intro hmem
    simpa [isSettled, hmem] using hn

/-! ### The main statement -/

/-- **Visits end, and settle their name with all that it is derived from.** The walk through all
parameters visits in reachable walks only. In such a walk no name is known in two ways, and visits
nest no deeper than there are declared parameters that are not being visited, and one more. A visit
that succeeds leaves what is being visited and all that is known as it was. It parts what is known as
before, and the visited name and all that it is derived from, as far as no input is given, either
have a value or are known to have none. -/
theorem visit_of_reachable (schema : Schema) (inputs : Inputs) :
    (∀ walk name, Begins schema inputs walk name → Reachable schema inputs walk) ∧
      ∀ walk, Reachable schema inputs walk → walk.Parted ∧ ∀ name,
        walk.visitWithin schema inputs (walk.unvisited schema + 1) name =
            some (walk.visit schema inputs name) ∧
          ∀ after, walk.visit schema inputs name = .ok after →
            after.visiting = walk.visiting ∧
            (∀ n r, walk.resolved.get? n = some r → after.resolved.get? n = some r) ∧
            (∀ n ∈ walk.undefined, n ∈ after.undefined) ∧
            after.Parted ∧
            ∀ consulted, Relation.ReflTransGen (schema.Awaits inputs) name consulted →
              (after.resolved.contains consulted = true ↔ consulted ∉ after.undefined) := by
  refine ⟨fun walk name h => h.reachable, fun walk hwalk => ?_⟩
  refine ⟨hwalk.sound.parted,
    fun name => ⟨visitWithin_eq_visit (Nat.lt_succ_self _), fun after h => ?_⟩⟩
  obtain ⟨hafter, hvisited⟩ := visit_sound h hwalk.sound
  refine ⟨hvisited.visiting, hvisited.resolved, hvisited.undefined, hafter.parted,
    fun consulted hreaches => ?_⟩
  have hconsulted : after.isSettled consulted = true :=
    (hwalk.visit h).closed.isSettled_of_reaches hvisited.settled hreaches
  exact hafter.parted.contains_iff hconsulted

/-- The visit of `b` begins while `c` is being visited, and has `a` visited. -/
theorem visit_of_reachable_chain :
    let derived (name source : String) : Parameter :=
      { name, kind := .path, nameSource := some source, nameTemplate := some ⟨"", ".x"⟩ }
    let schema : Schema :=
      ⟨[derived "c" "b", derived "b" "a", { name := "a", kind := .path }], by decide, by decide⟩
    let inputs : Inputs := .ofList [("a", .text "/data/s.nrrd")]
    let walk : Walk := enter {} "c"
    Begins schema inputs walk "b" ∧ Reachable schema inputs walk ∧ walk.Parted ∧
      walk.visitWithin schema inputs (walk.unvisited schema + 1) "b" =
        some (walk.visit schema inputs "b") ∧
      walk.unvisited schema + 1 = 3 ∧
      ∃ after, walk.visit schema inputs "b" = .ok after ∧ after.visiting = ["c"] ∧ after.Parted ∧
        Relation.ReflTransGen (schema.Awaits inputs) "b" "a" ∧
        (after.resolved.contains "a" = true ↔ "a" ∉ after.undefined) ∧
        (after.resolved.contains "b" = true ↔ "b" ∉ after.undefined) := by
  intro derived schema inputs walk
  have hsplit : schema.params = [] ++ derived "c" "b" :: schema.params.tail := rfl
  have hbegins : Begins schema inputs walk "b" :=
    .source (.declared hsplit rfl) (by decide) (by decide) ⟨derived "c" "b", rfl, rfl, rfl⟩
  have hawaits : schema.Awaits inputs "b" "a" := ⟨derived "b" "a", rfl, rfl, rfl⟩
  obtain ⟨hreachable, hvisits⟩ := visit_of_reachable schema inputs
  have hwalk := hreachable walk "b" hbegins
  obtain ⟨hparted, hvisit⟩ := hvisits walk hwalk
  obtain ⟨hdepth, hafter⟩ := hvisit "b"
  obtain ⟨after, h⟩ : ∃ after, walk.visit schema inputs "b" = .ok after :=
    exists_eq_ok_of_isOk (by decide +kernel)
  obtain ⟨hvisiting, _, _, hparted', hsettled⟩ := hafter after h
  exact ⟨hbegins, hwalk, hparted, hdepth, by decide +kernel, after, h, hvisiting, hparted',
    .single hawaits, hsettled "a" (.single hawaits), hsettled "b" .refl⟩

end ContainerCommand.Walk
