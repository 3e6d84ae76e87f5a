import ContainerCommand.Proofs.Resolution.Walk
import Mathlib.Data.List.Cycle

/-! Names that are derived from themselves.

A cycle of derivations is one that no input breaks if none of its names has one
(`Schema.Unbroken`). What is being visited waits for the visited name, so a name that is met again
waits for itself (`Walk.visit_eq_error_cases`), and lies on an unbroken cycle, even if the walk
has begun at a name that only leads there. A schema with such a cycle is not resolved, and one
without is never refused for a cycle (`resolve_cycle`). -/
namespace ContainerCommand

/-! ### Going around -/

section
variable {α : Type} {r s : α → α → Prop} {cycle : Cycle α} {a : α}

theorem exists_mem_of_ne_nil (h : cycle ≠ Cycle.nil) : ∃ a, a ∈ cycle := by
  induction cycle with
  | nil => exact absurd rfl h
  | cons a rest => exact ⟨a, Cycle.mem_coe_iff.mpr (List.mem_cons_self ..)⟩

theorem exists_cycle_of_transGen (h : Relation.TransGen r a a) :
    ∃ cycle : Cycle α, a ∈ cycle ∧ cycle.Chain r := by
  obtain ⟨b, hstep, hback⟩ := Relation.TransGen.head'_iff.mp h
  obtain ⟨rest, hchain, hlast⟩ := List.exists_isChain_cons_of_relationReflTransGen hback
  refine ⟨(b :: rest : List α), ?_, ?_⟩
  · rw [Cycle.mem_coe_iff, ← hlast]
    exact List.getLast_mem _
  · rw [Cycle.chain_coe_cons, ← List.cons_append, List.isChain_append]
    refine ⟨hchain, .singleton b, fun x hx y hy => ?_⟩
    rw [List.getLast?_eq_some_getLast (List.cons_ne_nil b rest), hlast] at hx
    cases hx
    cases hy
    exact hstep

/-- Each name of a cycle is followed by one of it. -/
theorem exists_mem_of_chain (h : cycle.Chain r) (ha : a ∈ cycle) :
    ∃ b ∈ cycle, r a b := by
  obtain ⟨names, rfl⟩ : ∃ names : List α, cycle = names :=
    ⟨_, (Quotient.exists_rep cycle).choose_spec.symm⟩
  obtain ⟨front, back, rfl⟩ := List.append_of_mem (Cycle.mem_coe_iff.mp ha)
  have hturn : ((front ++ a :: back : List α) : Cycle α) = (a :: (back ++ front) : List α) :=
    Cycle.coe_eq_coe.mpr List.isRotated_append
  rw [hturn] at h ⊢
  rw [Cycle.chain_coe_cons] at h
  cases hbehind : back ++ front with
  | nil =>
    rw [hbehind] at h
    exact ⟨a, Cycle.mem_coe_iff.mpr (List.mem_cons_self ..), h.rel⟩
  | cons b others =>
    rw [hbehind] at h
    exact ⟨b, Cycle.mem_coe_iff.mpr (List.mem_cons_of_mem a (List.mem_cons_self ..)), h.rel⟩

/-- The steps of a cycle start at its names. -/
theorem chain_imp_of_mem (himp : ∀ x ∈ cycle, ∀ y, r x y → s x y) (h : cycle.Chain r) :
    cycle.Chain s := by
  induction cycle with
  | nil => exact .nil s
  | cons b rest =>
    rw [Cycle.chain_coe_cons] at h ⊢
    refine h.imp_of_mem_imp fun x y hx _ => himp x ?_ y
    rw [← List.cons_append] at hx
    rcases List.mem_append.mp hx with hx | hx
    · exact Cycle.mem_coe_iff.mpr hx
    · rw [List.mem_singleton.mp hx]
      exact Cycle.mem_coe_iff.mpr (List.mem_cons_self ..)

theorem transGen_of_chain (h : cycle.Chain r) (ha : a ∈ cycle) :
    Relation.TransGen r a a :=
  Cycle.chain_iff_pairwise.mp (h.imp fun _ _ => Relation.TransGen.single) a ha a ha

end

namespace Schema

/-- A cycle of derivations in which no name has an input. -/
structure Unbroken (schema : Schema) (inputs : Inputs) (cycle : Cycle String) : Prop where
  nonempty : cycle ≠ Cycle.nil
  chain : cycle.Chain schema.DerivesFrom
  without : ∀ name ∈ cycle, inputs.get? name = none

variable {schema : Schema} {inputs : Inputs} {name : String}

theorem awaits_iff {source : String} :
    schema.Awaits inputs name source ↔
      schema.DerivesFrom name source ∧ inputs.get? name = none := by
  constructor
  · rintro ⟨p, hp, hgiven, hsource⟩
    exact ⟨⟨p, hp, hsource⟩, hgiven⟩
  · rintro ⟨⟨p, hp, hsource⟩, hgiven⟩
    exact ⟨p, hp, hgiven, hsource⟩

/-- A name waits for itself exactly if it lies on an unbroken cycle. -/
theorem transGen_awaits_iff :
    Relation.TransGen (schema.Awaits inputs) name name ↔
      ∃ cycle, name ∈ cycle ∧ schema.Unbroken inputs cycle := by
  constructor
  · intro h
    obtain ⟨cycle, hname, hchain⟩ := exists_cycle_of_transGen h
    refine ⟨cycle, hname, ?_, hchain.imp fun _ _ hawaits => (awaits_iff.mp hawaits).1,
      fun other hother => ?_⟩
    · rintro rfl
      exact absurd hname (Cycle.notMem_nil name)
    · obtain ⟨_, _, hawaits⟩ := exists_mem_of_chain hchain hother
      exact (awaits_iff.mp hawaits).2
  · rintro ⟨cycle, hname, h⟩
    have hawaits : cycle.Chain (schema.Awaits inputs) :=
      chain_imp_of_mem (fun other hother _ hderives =>
        awaits_iff.mpr ⟨hderives, h.without other hother⟩) h.chain
    exact transGen_of_chain hawaits hname

namespace Unbroken

variable {cycle : Cycle String}

theorem declared (h : schema.Unbroken inputs cycle) (hname : name ∈ cycle) :
    schema.contains name = true := by
  obtain ⟨_, _, p, hp, _⟩ := exists_mem_of_chain h.chain hname
  exact contains_iff.mpr ⟨p, get?_eq_some_iff.mp hp⟩

end Unbroken

theorem transGen_of_resolve_eq_error
    (h : schema.resolve inputs = .error (.derivationCycle name)) :
    Relation.TransGen (schema.Awaits inputs) name name := by
  unfold resolve at h
  cases hundeclared : schema.undeclared? inputs with
  | some _ =>
    rw [hundeclared] at h
    cases h
  | none =>
    rw [hundeclared] at h
    obtain h | ⟨after, _, h⟩ := bind_eq_error_iff.mp h
    · -- Between two visits nothing is being visited.
      obtain ⟨walk, ⟨_, hvisiting⟩, p, _, hvisit⟩ := exists_of_foldlM_eq_error
        (fun walk => Walk.Sound schema inputs walk ∧ walk.visiting = [])
        (fun walk p _ hinv next hnext => by
          obtain ⟨hsound, hvisited⟩ := Walk.visit_sound hnext hinv.1
          exact ⟨hsound, hvisited.visiting.trans hinv.2⟩) ⟨.empty schema inputs, rfl⟩ h
      obtain ⟨_, ⟨⟩, hcyclic⟩ | ⟨_, ⟨⟩⟩ | ⟨_, _, ⟨⟩⟩ := Walk.visit_eq_error_cases hvisit
      exact hcyclic fun n hn => by rw [hvisiting] at hn; cases hn
    · cases hmissing : schema.missing? after.resolved with
      | some p =>
        rw [hmissing] at h
        cases h
      | none =>
        rw [hmissing] at h
        cases h

/-- **A cycle that no input breaks keeps a schema from being resolved, and only such a cycle is
reported.** The name that the error gives is declared, has no input and waits for itself: from it
a chain of names without inputs, each derived from the next, leads back to it. Where each cycle of
derivations has an input, no cycle is reported. -/
theorem resolve_cycle (schema : Schema) (inputs : Inputs) :
    (∀ name, schema.resolve inputs = .error (.derivationCycle name) →
      schema.contains name = true ∧ inputs.get? name = none ∧
        Relation.TransGen (schema.Awaits inputs) name name ∧
        ∃ cycle, name ∈ cycle ∧ schema.Unbroken inputs cycle) ∧
    (∀ cycle, schema.Unbroken inputs cycle →
      ∀ resolution, schema.resolve inputs ≠ .ok resolution) ∧
    ((∀ cycle : Cycle String, cycle ≠ Cycle.nil → cycle.Chain schema.DerivesFrom →
        ∃ name ∈ cycle, ∃ value, inputs.get? name = some value) →
      ∀ name, schema.resolve inputs ≠ .error (.derivationCycle name)) := by
  refine ⟨fun name h => ?_, fun cycle hcycle resolution h => ?_, fun hbroken name h => ?_⟩
  · have hreturns := transGen_of_resolve_eq_error h
    obtain ⟨cycle, hname, hcycle⟩ := transGen_awaits_iff.mp hreturns
    exact ⟨hcycle.declared hname, hcycle.without name hname, hreturns, cycle, hname, hcycle⟩
  · obtain ⟨name, hname⟩ := exists_mem_of_ne_nil hcycle.nonempty
    obtain ⟨p, hp, rfl⟩ := contains_iff.mp (hcycle.declared hname)
    have hresolvable := (exists_resolve_eq_ok_iff.mp ⟨resolution, h⟩).2.1
    exact hresolvable.acyclic p hp p.name .refl (transGen_awaits_iff.mpr ⟨cycle, hname, hcycle⟩)
  · obtain ⟨cycle, -, hcycle⟩ := transGen_awaits_iff.mp (transGen_of_resolve_eq_error h)
    obtain ⟨other, hother, value, hgiven⟩ := hbroken cycle hcycle.nonempty hcycle.chain
    rw [hcycle.without other hother] at hgiven
    cases hgiven

/-- The walk begins at a name that only leads to the cycle. One input breaks the cycle. -/
theorem resolve_cycle_ahead :
    let derived (name source : String) : Parameter :=
      { name, kind := .path, nameSource := some source, nameTemplate := some ⟨"", ".x"⟩ }
    let schema : Schema :=
      ⟨[derived "c" "a", derived "a" "b", derived "b" "a"], by decide, by decide⟩
    let given : Inputs := .ofList [("b", .text "/data/b")]
    (schema.resolve ∅ = .error (.derivationCycle "a") ∧
      schema.contains "a" = true ∧
      schema.Unbroken ∅ (["a", "b"] : List String) ∧
      ∀ resolution, schema.resolve ∅ ≠ .ok resolution) ∧
    (∀ cycle : Cycle String, cycle ≠ Cycle.nil → cycle.Chain schema.DerivesFrom →
      ∃ name ∈ cycle, ∃ value, given.get? name = some value) ∧
    ∀ name, schema.resolve given ≠ .error (.derivationCycle name) := by
  intro derived schema given
  have hrefused : schema.resolve ∅ = .error (.derivationCycle "a") := by decide +kernel
  have hunbroken : schema.Unbroken ∅ (["a", "b"] : List String) := by
    refine ⟨by decide, ?_, fun name _ => rfl⟩
    rw [Cycle.chain_coe_cons]
    exact .cons_cons ⟨derived "a" "b", rfl, rfl⟩
      (.cons_cons ⟨derived "b" "a", rfl, rfl⟩ (.singleton _))
  have hsteps : ∀ {name source}, schema.DerivesFrom name source →
      name = "b" ∨ (name = "a" ∧ source = "b") ∨ (name = "c" ∧ source = "a") := by
    rintro name source ⟨p, hp, hsource⟩
    obtain ⟨hmem, rfl⟩ := get?_eq_some_iff.mp hp
    simp only [schema, List.mem_cons, List.not_mem_nil, or_false] at hmem
    rcases hmem with rfl | rfl | rfl <;> cases hsource <;> simp [derived]
  have hbroken : ∀ cycle : Cycle String, cycle ≠ Cycle.nil → cycle.Chain schema.DerivesFrom →
      ∃ name ∈ cycle, ∃ value, given.get? name = some value := by
    intro cycle hne hchain
    suffices "b" ∈ cycle from ⟨"b", this, .text "/data/b", rfl⟩
    have ha : "a" ∈ cycle → "b" ∈ cycle := by
      intro hmem
      obtain ⟨next, hnext, hderives⟩ := exists_mem_of_chain hchain hmem
      obtain h | ⟨-, rfl⟩ | ⟨h, -⟩ := hsteps hderives
      · exact absurd h (by decide)
      · exact hnext
      · exact absurd h (by decide)
    obtain ⟨name, hname⟩ := exists_mem_of_ne_nil hne
    obtain ⟨next, hnext, hderives⟩ := exists_mem_of_chain hchain hname
    obtain rfl | ⟨rfl, -⟩ | ⟨-, rfl⟩ := hsteps hderives
    · exact hname
    · exact ha hname
    · exact ha hnext
  obtain ⟨hname, hnone, -⟩ := resolve_cycle schema ∅
  exact ⟨⟨hrefused, (hname "a" hrefused).1, hunbroken, hnone _ hunbroken⟩, hbroken,
    (resolve_cycle schema given).2.2 hbroken⟩

end Schema

end ContainerCommand
