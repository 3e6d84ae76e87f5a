import ContainerCommand.Command.Compile
import ContainerCommand.Proofs.Schema.Merging
import Mathlib.Data.List.Pairwise

/-! The order in which the parameters of a schema are shown.

`Schema.Precedes` says when one parameter stands before another: its group comes first, or
in one group its position or its name does, or at one position it is declared first.
Sorting parameters by the pre-order `Parameter.precedes` puts them in that order
(`pairwise_mergeSort`), because the sort is stable, and no other arrangement of them is in
it (`eq_ordered`). -/
namespace ContainerCommand

/-! ### The pre-order of parameters -/

namespace Group

/-- The place of a group among the three. -/
def rank : Group → Nat
  | .leading => 0
  | .unordered => 1
  | .trailing => 2

end Group

namespace Parameter

/-- Whether one parameter may stand before another: leading ones by position, then unordered ones by
name, then trailing ones by position. -/
def precedes (p q : Parameter) : Bool :=
  match p.position, q.position with
  | none, none => p.name ≤ q.name
  | none, some n => n < 0
  | some m, none => 0 ≤ m
  | some m, some n => if 0 ≤ m then n < 0 || m ≤ n else n < 0 && m ≤ n

variable {p q r : Parameter}

theorem rank_of_position_eq_none (h : p.position = none) : p.group.rank = 1 := by
  rw [group, h]
  rfl

theorem rank_of_position_eq_some {n : Int} (h : p.position = some n) :
    p.group.rank = if 0 ≤ n then 0 else 2 := by
  rw [group, h, Group.ofPosition]
  split <;> rfl

theorem precedes_total (p q : Parameter) : (p.precedes q || q.precedes p) = true := by
  unfold precedes
  cases p.position with
  | none =>
    cases q.position with
    | none => simpa using String.le_total p.name q.name
    | some n => simp; omega
  | some m =>
    cases q.position with
    | none => simp; omega
    | some n => by_cases hm : 0 ≤ m <;> by_cases hn : 0 ≤ n <;> simp [hm, hn] <;> omega

theorem precedes_trans (p q r : Parameter) (hpq : p.precedes q = true)
    (hqr : q.precedes r = true) : p.precedes r = true := by
  unfold precedes at *
  cases hp : p.position <;> cases hq : q.position <;> cases hr : r.position <;>
    simp only [hp, hq, hr, decide_eq_true_eq] at hpq hqr ⊢
  · exact String.le_trans hpq hqr
  all_goals grind

end Parameter

namespace Schema

/-! ### Which of two parameters is declared first -/

theorem declared_or_declared {l : List Parameter} {p q : Parameter} (hp : p ∈ l) (hq : q ∈ l)
    (hne : p ≠ q) : [p, q].Sublist l ∨ [q, p].Sublist l := by
  have hsymm : Std.Symm fun p q => [p, q].Sublist l ∨ [q, p].Sublist l := ⟨fun _ _ => Or.symm⟩
  have hpairs : l.Pairwise fun p q => [p, q].Sublist l ∨ [q, p].Sublist l :=
    List.pairwise_iff_forall_sublist.mpr fun h => .inl h
  exact hpairs.forall hp hq hne

/-- In a list without repetitions, of two parameters only one comes first. -/
theorem not_declared_of_declared {l : List Parameter} {p q : Parameter} (hl : l.Nodup)
    (h : [p, q].Sublist l) : ¬ [q, p].Sublist l := by
  intro h'
  induction l with
  | nil => cases h
  | cons x rest ih =>
    obtain ⟨hx, hrest⟩ := List.nodup_cons.mp hl
    rcases List.sublist_cons_iff.mp h with hpq | ⟨_, hpq, hq⟩ <;>
      rcases List.sublist_cons_iff.mp h' with hqp | ⟨_, hqp, hp⟩
    · exact ih hrest hpq hqp
    · cases hqp
      have hmem : q ∈ rest := hpq.subset (by simp)
      exact hx hmem
    · cases hpq
      have hmem : p ∈ rest := hqp.subset (by simp)
      exact hx hmem
    · cases hpq
      cases hqp
      have hmem : p ∈ rest := hq.subset (by simp)
      exact hx hmem

/-! ### The order of a schema -/

/-- What puts one parameter of a schema before another. -/
inductive Precedes (schema : Schema) (p q : Parameter) : Prop
  | group : p.group.rank < q.group.rank → Precedes schema p q
  | position {m n} : p.group = q.group → p.position = some m → q.position = some n → m < n →
      Precedes schema p q
  | name : p.position = none → q.position = none → p.name < q.name → Precedes schema p q
  | declared {n} : p.position = some n → q.position = some n → [p, q].Sublist schema.params →
      Precedes schema p q

variable {schema : Schema} {p q : Parameter}

theorem Precedes.of_precedes (hp : p ∈ schema.params) (hq : q ∈ schema.params) (hne : p ≠ q)
    (h : p.precedes q = true)
    (hdeclared : q.precedes p = true → [p, q].Sublist schema.params) : schema.Precedes p q := by
  unfold Parameter.precedes at h hdeclared
  cases hm : p.position with
  | none =>
    cases hn : q.position with
    | none =>
      simp only [hm, hn, decide_eq_true_eq] at h
      refine .name hm hn (String.not_le.mp fun h' => hne ?_)
      exact eq_of_name_eq hp hq (String.le_antisymm h h')
    | some n =>
      simp only [hm, hn, decide_eq_true_eq] at h
      refine .group ?_
      rw [Parameter.rank_of_position_eq_none hm, Parameter.rank_of_position_eq_some hn]
      grind
  | some m =>
    cases hn : q.position with
    | none =>
      simp only [hm, hn, decide_eq_true_eq] at h
      refine .group ?_
      rw [Parameter.rank_of_position_eq_none hn, Parameter.rank_of_position_eq_some hm]
      grind
    | some n =>
      simp only [hm, hn] at h hdeclared
      rcases Int.lt_trichotomy m n with hlt | rfl | hgt
      · have hgroup : p.group = q.group := by
          simp only [Parameter.group, Group.ofPosition, hm, hn]
          grind
        exact .position hgroup hm hn hlt
      · exact .declared hm hn (hdeclared (by grind))
      · refine .group ?_
        rw [Parameter.rank_of_position_eq_some hm, Parameter.rank_of_position_eq_some hn]
        grind

/-- Of two parameters one precedes the other at most. -/
theorem Precedes.asymm (h : schema.Precedes p q) : ¬ schema.Precedes q p := by
  intro h'
  cases h with
  | group hrank =>
    cases h' with
    | group hrank' => omega
    | position hgroup _ _ _ => rw [hgroup] at hrank; omega
    | name hq hp _ =>
      rw [Parameter.rank_of_position_eq_none hp, Parameter.rank_of_position_eq_none hq] at hrank
      omega
    | declared hq hp _ =>
      rw [Parameter.rank_of_position_eq_some hp, Parameter.rank_of_position_eq_some hq] at hrank
      omega
  | position hgroup hm hn hlt =>
    cases h' with
    | group hrank' => rw [hgroup] at hrank'; omega
    | position _ hn' hm' hlt' => grind
    | name hq _ _ => grind
    | declared hn' hm' _ => grind
  | name hp hq hlt =>
    cases h' with
    | group hrank' =>
      rw [Parameter.rank_of_position_eq_none hp, Parameter.rank_of_position_eq_none hq] at hrank'
      omega
    | position _ hq' _ _ => grind
    | name _ _ hlt' => exact String.lt_asymm hlt hlt'
    | declared hq' _ _ => grind
  | declared hp hq hfirst =>
    cases h' with
    | group hrank' =>
      rw [Parameter.rank_of_position_eq_some hp, Parameter.rank_of_position_eq_some hq] at hrank'
      omega
    | position _ hq' hp' _ => grind
    | name hq' _ _ => grind
    | declared _ _ hfirst' => exact not_declared_of_declared nodup_params hfirst hfirst'

/-- The parameters in the order in which they are shown. -/
def ordered (schema : Schema) : List Parameter :=
  schema.params.mergeSort Parameter.precedes

theorem ordered_perm : schema.ordered.Perm schema.params :=
  List.mergeSort_perm _ _

/-- **Sorted parameters are in order**: the sort is stable, so that at one position the order of
declaration is kept. -/
theorem pairwise_mergeSort {l : List Parameter} (hl : l.Sublist schema.params) :
    (l.mergeSort Parameter.precedes).Pairwise schema.Precedes := by
  have hperm : (l.mergeSort Parameter.precedes).Perm l := List.mergeSort_perm _ _
  have hnodup : (l.mergeSort Parameter.precedes).Nodup :=
    hperm.nodup_iff.mpr (nodup_params.sublist hl)
  have hsorted : (l.mergeSort Parameter.precedes).Pairwise fun p q => p.precedes q = true :=
    List.pairwise_mergeSort Parameter.precedes_trans Parameter.precedes_total _
  rw [List.pairwise_iff_forall_sublist]
  intro p q hsub
  have hp : p ∈ l := hperm.mem_iff.mp (hsub.subset (by simp))
  have hq : q ∈ l := hperm.mem_iff.mp (hsub.subset (by simp))
  have hne : p ≠ q := by
    rintro rfl
    exact List.nodup_iff_sublist.mp hnodup p hsub
  refine .of_precedes (hl.subset hp) (hl.subset hq) hne
    (List.pairwise_iff_forall_sublist.mp hsorted hsub) fun h => ?_
  -- Were `q` declared first, the sort would have left it in front of `p`.
  rcases declared_or_declared hp hq hne with hfirst | hfirst
  · exact hfirst.trans hl
  · have hkept : [q, p].Sublist (l.mergeSort Parameter.precedes) :=
      List.pair_sublist_mergeSort Parameter.precedes_trans Parameter.precedes_total h hfirst
    exact absurd hkept (not_declared_of_declared hnodup hsub)

theorem pairwise_ordered : schema.ordered.Pairwise schema.Precedes :=
  pairwise_mergeSort (.refl _)

/-- No other arrangement of the parameters is in order. -/
theorem eq_ordered {l : List Parameter} (hperm : l.Perm schema.params)
    (hl : l.Pairwise schema.Precedes) : l = schema.ordered :=
  List.Perm.eq_of_pairwise (fun _ _ _ _ h h' => absurd h' h.asymm) hl pairwise_ordered
    (hperm.trans ordered_perm.symm)

/-! ### Parameters that stand in front -/

/-- What is in order and precedes everything else stands in front. -/
theorem exists_eq_append_of_precedes {front l : List Parameter} (hl : l.Pairwise schema.Precedes)
    (hmem : ∀ p ∈ front, p ∈ l) (hfront : front.Pairwise schema.Precedes)
    (hbefore : ∀ p ∈ front, ∀ q ∈ l, q ∉ front → schema.Precedes p q) :
    ∃ rest, l = front ++ rest := by
  induction front generalizing l with
  | nil => exact ⟨l, rfl⟩
  | cons p front ih =>
    rw [List.forall_mem_cons] at hmem hbefore
    obtain ⟨hfirst, hfront⟩ := List.pairwise_cons.mp hfront
    have hleast : ∀ q ∈ l, ¬ schema.Precedes q p := by
      intro q hq h
      by_cases hqp : q = p
      · subst hqp
        exact h.asymm h
      · by_cases hqf : q ∈ front
        · exact h.asymm (hfirst q hqf)
        · exact h.asymm (hbefore.1 q hq (by simp [hqp, hqf]))
    obtain ⟨before, after, rfl⟩ := List.append_of_mem hmem.1
    obtain ⟨_, hafter, hcross⟩ := List.pairwise_append.mp hl
    cases before with
    | cons q before =>
      exact absurd (hcross q (by simp) p (by simp)) (hleast q (by simp))
    | nil =>
      have hne : ∀ q ∈ front, q ≠ p := by
        rintro q hq rfl
        exact (hfirst q hq).asymm (hfirst q hq)
      obtain ⟨rest, hrest⟩ := ih (List.pairwise_cons.mp hafter).2
        (fun q hq => by simpa [hne q hq] using hmem.2 q hq) hfront
        (fun q hq r hr hrf => hbefore.2 q hq r (by simp [hr]) (by
          have hpr := (List.pairwise_cons.mp hafter).1 r hr
          have hrp : r ≠ p := by
            rintro rfl
            exact hpr.asymm hpr
          simp [hrp, hrf]))
      exact ⟨rest, by rw [hrest]; rfl⟩

/-! ### The order of a merged schema -/

/-- **What leads in the first schema precedes all of the second one**: a position of zero is moved
to the first one's last position, and there the first schema was declared before. -/
theorem precedes_shift_of_merge {base extension merged : Schema}
    (h : base.merge extension = .ok merged) {n : Int} (hp : p ∈ base.params)
    (hn : p.position = some n) (hleads : 0 ≤ n) (hq : q ∈ extension.params) :
    merged.Precedes p (q.shift base.maxLeading) := by
  have hle := le_maxLeading hp hn
  have hrank : p.group.rank = 0 := by rw [Parameter.rank_of_position_eq_some hn, if_pos hleads]
  cases hm : q.position with
  | none =>
    have hm' : (q.shift base.maxLeading).position = none := Parameter.position_shift_of_none hm
    exact .group (by rw [hrank, Parameter.rank_of_position_eq_none hm']; decide)
  | some m =>
    by_cases hsign : 0 ≤ m
    · have hm' : (q.shift base.maxLeading).position = some (m + base.maxLeading) :=
        Parameter.position_shift_of_leads hm hsign
      rcases Int.lt_or_eq_of_le (show n ≤ m + base.maxLeading by omega) with hlt | heq
      · refine .position ?_ hn hm' hlt
        simp only [Parameter.group, Group.ofPosition, hn, hm']
        rw [if_pos hleads, if_pos (by omega)]
      · refine .declared hn (heq ▸ hm') ?_
        rw [params_merge h]
        exact (List.singleton_sublist.mpr hp).append
          (List.singleton_sublist.mpr (List.mem_map_of_mem hq))
    · have hm' : (q.shift base.maxLeading).position = some m :=
        Parameter.position_shift_of_trails hm hsign
      exact .group (by rw [hrank, Parameter.rank_of_position_eq_some hm', if_neg hsign]; decide)

end Schema

end ContainerCommand
