import ContainerCommand.Failure
import Mathlib.Data.List.Forall2

/-! When steps that may fail succeed, and which of them fails.

A chain of steps succeeds exactly when each step does on what the one before it gives
(`bind_eq_ok_iff`), and a step for each element of a list exactly when it does for every
element (`mapM_eq_ok_iff`, `forM_eq_ok_iff`), also where a step that fails gives no reason
(`mapM_eq_some_iff`). A fold succeeds if each step from its invariant succeeds and keeps it
(`exists_foldlM_eq_ok`). What fails, fails as one of its steps does, and as the first one
(`bind_eq_error_iff`, `mapM_eq_error_iff`, `exists_of_foldlM_eq_error`). The causes of an outcome's
failures are those of its steps (`Outcome.FailsBy`). -/
namespace ContainerCommand

variable {ε α β : Type}

/-! ### Lists element by element -/

/-- Elements have a counterpart in some list if each has one. -/
theorem exists_forall₂_iff {R : α → β → Prop} {as : List α} :
    (∃ bs, List.Forall₂ R as bs) ↔ ∀ a ∈ as, ∃ b, R a b := by
  induction as with
  | nil => simp
  | cons a rest ih =>
    simp only [List.forall_mem_cons, ← ih, List.forall₂_cons_left_iff]
    constructor
    · rintro ⟨_, b, bs, hb, hrest, rfl⟩
      exact ⟨⟨b, hb⟩, bs, hrest⟩
    · rintro ⟨⟨b, hb⟩, bs, hrest⟩
      exact ⟨_, b, bs, hb, hrest, rfl⟩

theorem exists_mem_of_forall₂ {R : α → β → Prop} {as : List α} {bs : List β}
    (h : List.Forall₂ R as bs) {a : α} (ha : a ∈ as) : ∃ b ∈ bs, R a b := by
  induction h with
  | nil => cases ha
  | cons hb _ ih =>
    rcases List.mem_cons.mp ha with rfl | ha
    · exact ⟨_, List.mem_cons_self .., hb⟩
    · obtain ⟨b, hmem, hb⟩ := ih ha
      exact ⟨b, List.mem_cons_of_mem _ hmem, hb⟩

theorem forall₂_eq_iff_map_eq {γ : Type} {f : α → γ} {g : β → γ} {as : List α} {bs : List β} :
    List.Forall₂ (fun a b => f a = g b) as bs ↔ as.map f = bs.map g := by
  rw [← List.forall₂_eq_eq_eq, List.forall₂_map_left_iff, List.forall₂_map_right_iff]

/-! ### Steps that succeed -/

theorem bind_eq_ok_iff {x : Except ε α} {f : α → Except ε β} {b : β} :
    x >>= f = .ok b ↔ ∃ a, x = .ok a ∧ f a = .ok b := by
  cases x with
  | error e => simp [bind, Except.bind]
  | ok a => simp [bind, Except.bind]

theorem pure_eq_ok_iff {a b : α} : (pure a : Except ε α) = .ok b ↔ a = b := by
  simp [pure, Except.pure]

theorem map_eq_ok_iff {f : α → β} {x : Except ε α} {b : β} :
    x.map f = .ok b ↔ ∃ a, x = .ok a ∧ f a = b := by
  cases x with
  | error e => simp [Except.map]
  | ok a => simp [Except.map]

theorem exists_eq_ok_of_isOk {x : Except ε α} (h : x.isOk = true) : ∃ a, x = .ok a := by
  cases x with
  | error e => cases h
  | ok a => exact ⟨a, rfl⟩

theorem exists_eq_error_of_isOk {x : Except ε α} (h : x.isOk = false) : ∃ e, x = .error e := by
  cases x with
  | error e => exact ⟨e, rfl⟩
  | ok a => cases h

theorem mapM_eq_ok_iff {f : α → Except ε β} {as : List α} {bs : List β} :
    as.mapM f = .ok bs ↔ List.Forall₂ (fun a b => f a = .ok b) as bs := by
  induction as generalizing bs with
  | nil =>
    rw [List.mapM_nil, pure_eq_ok_iff, List.forall₂_nil_left_iff]
    exact eq_comm
  | cons a rest ih =>
    simp only [List.mapM_cons, bind_eq_ok_iff, pure_eq_ok_iff, ih]
    constructor
    · rintro ⟨b, hb, bs', hrest, rfl⟩
      exact .cons hb hrest
    · rintro (_ | ⟨hb, hrest⟩)
      exact ⟨_, hb, _, hrest, rfl⟩

/-- A step for each element succeeds if it does for every element. -/
theorem exists_mapM_eq_ok_iff {f : α → Except ε β} {as : List α} :
    (∃ bs, as.mapM f = .ok bs) ↔ ∀ a ∈ as, ∃ b, f a = .ok b := by
  simp only [mapM_eq_ok_iff, exists_forall₂_iff]

theorem forM_eq_ok_iff {f : α → Except ε Unit} {as : List α} {u : Unit} :
    as.forM f = .ok u ↔ ∀ a ∈ as, f a = .ok () := by
  induction as with
  | nil => simp [pure, Except.pure]
  | cons a rest ih =>
    rw [List.forM_eq_forM] at ih ⊢
    simp only [List.forM_cons, bind_eq_ok_iff, List.forall_mem_cons, ih]
    exact ⟨fun ⟨_, ha, hrest⟩ => ⟨ha, hrest⟩, fun ⟨ha, hrest⟩ => ⟨(), ha, hrest⟩⟩

/-- A fold succeeds if each step that starts from the invariant succeeds and keeps it. -/
theorem exists_foldlM_eq_ok {f : β → α → Except ε β} {as : List α} (Inv : β → Prop)
    (hstep : ∀ b, ∀ a ∈ as, Inv b → ∃ b', f b a = .ok b' ∧ Inv b') {b : β} (hb : Inv b) :
    ∃ b', as.foldlM f b = .ok b' := by
  induction as generalizing b with
  | nil => exact ⟨b, rfl⟩
  | cons a rest ih =>
    obtain ⟨next, hnext, hinv⟩ := hstep b a (List.mem_cons_self ..) hb
    obtain ⟨b', hrest⟩ := ih (fun c x hx => hstep c x (List.mem_cons_of_mem a hx)) hinv
    exact ⟨b', by rw [List.foldlM_cons, bind_eq_ok_iff]; exact ⟨next, hnext, hrest⟩⟩

/-! ### Steps that may give nothing -/

theorem mapM_eq_some_iff {f : α → Option β} {as : List α} {bs : List β} :
    as.mapM f = some bs ↔ List.Forall₂ (fun a b => f a = some b) as bs := by
  induction as generalizing bs with
  | nil =>
    rw [List.mapM_nil, List.forall₂_nil_left_iff]
    exact Option.some_inj.trans eq_comm
  | cons a rest ih =>
    simp only [List.mapM_cons, Option.bind_eq_bind, Option.bind_eq_some_iff, Option.pure_def,
      Option.some.injEq, ih]
    constructor
    · rintro ⟨b, hb, bs', hrest, rfl⟩
      exact .cons hb hrest
    · rintro (_ | ⟨hb, hrest⟩)
      exact ⟨_, hb, _, hrest, rfl⟩

theorem exists_mapM_eq_some_iff {f : α → Option β} {as : List α} :
    (∃ bs, as.mapM f = some bs) ↔ ∀ a ∈ as, ∃ b, f a = some b := by
  simp only [mapM_eq_some_iff, exists_forall₂_iff]

/-! ### Outcomes -/

namespace Outcome

variable {a : α}

theorem ofOption_eq_ok_iff {cause : Cause} {result : Option α} :
    ofOption cause result = .ok a ↔ result = some a := by
  cases result with
  | some => simp [ofOption]
  | none => simp [ofOption, fail]

theorem ofCompile_eq_ok_iff {result : Except CompileError α} :
    ofCompile result = .ok a ↔ result = .ok a := by
  cases result with
  | ok => simp [ofCompile]
  | error => simp [ofCompile, fail]

theorem during_eq_ok_iff {action : String} {outcome : Outcome α} :
    outcome.during action = .ok a ↔ outcome = .ok a := by
  cases outcome with
  | ok => simp [during]
  | error => simp [during]

end Outcome

/-! ### Steps that do the same -/

theorem bind_congr_of_ok {x : Except ε α} {f g : α → Except ε β}
    (h : ∀ a, x = .ok a → f a = g a) : x >>= f = x >>= g := by
  cases x with
  | error e => rfl
  | ok a => exact h a rfl

theorem mapM_congr {f g : α → Except ε β} {as : List α} (h : ∀ a ∈ as, f a = g a) :
    as.mapM f = as.mapM g := by
  induction as with
  | nil => rfl
  | cons a rest ih =>
    obtain ⟨ha, hrest⟩ := List.forall_mem_cons.mp h
    rw [List.mapM_cons, List.mapM_cons, ha, ih hrest]

theorem forM_eq_mapM (f : α → Except ε Unit) (as : List α) :
    as.forM f = (do let _ ← as.mapM f; pure ()) := by
  induction as with
  | nil => rfl
  | cons a rest ih =>
    rw [List.forM_eq_forM] at ih ⊢
    rw [List.forM_cons, List.mapM_cons, ih]
    simp

theorem forM_congr {f g : α → Except ε Unit} {as : List α} (h : ∀ a ∈ as, f a = g a) :
    as.forM f = as.forM g := by
  rw [forM_eq_mapM, forM_eq_mapM, mapM_congr h]

/-- Steps that a map commutes with are taken alike from where the map leads. -/
theorem foldlM_map {f g : β → α → Except ε β} {φ : β → β}
    (h : ∀ b a, g (φ b) a = (f b a).map φ) {as : List α} {b : β} :
    as.foldlM g (φ b) = (as.foldlM f b).map φ := by
  induction as generalizing b with
  | nil => rfl
  | cons a rest ih =>
    rw [List.foldlM_cons, List.foldlM_cons, h]
    cases f b a with
    | error e => rfl
    | ok next => exact ih

/-! ### Which step fails -/

theorem bind_eq_error_iff {x : Except ε α} {f : α → Except ε β} {e : ε} :
    x >>= f = .error e ↔ x = .error e ∨ ∃ a, x = .ok a ∧ f a = .error e := by
  cases x with
  | error e' => simp [bind, Except.bind]
  | ok a => simp [bind, Except.bind]

theorem map_eq_error_iff {f : α → β} {x : Except ε α} {e : ε} :
    x.map f = .error e ↔ x = .error e := by
  cases x with
  | error e' => simp [Except.map]
  | ok a => simp [Except.map]

/-- A last step that only returns does not fail. -/
theorem bind_pure_eq_error_iff {x : Except ε α} {f : α → β} {e : ε} :
    (x >>= fun a => pure (f a)) = .error e ↔ x = .error e := by
  cases x with
  | error e' => simp [bind, Except.bind]
  | ok a => simp [bind, Except.bind, pure, Except.pure]

/-- What is made of the elements of a list fails as the first of them that does. -/
theorem mapM_eq_error_iff {f : α → Except ε β} {as : List α} {e : ε} :
    as.mapM f = .error e ↔
      ∃ front a back, as = front ++ a :: back ∧ (∀ b ∈ front, ∃ c, f b = .ok c) ∧ f a = .error e := by
  induction as with
  | nil => simp [pure, Except.pure]
  | cons a rest ih =>
    rw [List.mapM_cons, bind_eq_error_iff]
    simp only [bind_pure_eq_error_iff, ih]
    constructor
    · rintro (ha | ⟨c, hc, front, b, back, rfl, hfront, hb⟩)
      · exact ⟨[], a, rest, rfl, List.forall_mem_nil _, ha⟩
      · exact ⟨a :: front, b, back, rfl, List.forall_mem_cons.mpr ⟨⟨c, hc⟩, hfront⟩, hb⟩
    · rintro ⟨front, b, back, hsplit, hfront, hb⟩
      cases front with
      | nil =>
        cases hsplit
        exact .inl hb
      | cons c front =>
        cases hsplit
        obtain ⟨⟨d, hd⟩, hfront⟩ := List.forall_mem_cons.mp hfront
        exact .inr ⟨d, hd, front, b, back, rfl, hfront, hb⟩

theorem exists_of_mapM_eq_error {f : α → Except ε β} {as : List α} {e : ε}
    (h : as.mapM f = .error e) : ∃ a ∈ as, f a = .error e := by
  obtain ⟨front, a, back, rfl, _, hfails⟩ := mapM_eq_error_iff.mp h
  exact ⟨a, by simp, hfails⟩

/-- Steps for the elements of a list fail as the first of them that does. -/
theorem forM_eq_error_iff {f : α → Except ε Unit} {as : List α} {e : ε} :
    as.forM f = .error e ↔
      ∃ front a back, as = front ++ a :: back ∧ (∀ b ∈ front, f b = .ok ()) ∧ f a = .error e := by
  rw [forM_eq_mapM, bind_pure_eq_error_iff, mapM_eq_error_iff]
  simp only [Unique.exists_iff]

/-- A fold fails at a step from the invariant that its steps keep. -/
theorem exists_of_foldlM_eq_error {f : β → α → Except ε β} {as : List α} (Inv : β → Prop)
    (hstep : ∀ b, ∀ a ∈ as, Inv b → ∀ b', f b a = .ok b' → Inv b') {b : β} (hb : Inv b) {e : ε}
    (h : as.foldlM f b = .error e) : ∃ c, Inv c ∧ ∃ a ∈ as, f c a = .error e := by
  induction as generalizing b with
  | nil => cases h
  | cons a rest ih =>
    rw [List.foldlM_cons, bind_eq_error_iff] at h
    rcases h with ha | ⟨next, hnext, h⟩
    · exact ⟨b, hb, a, List.mem_cons_self .., ha⟩
    · have hinv := hstep b a (List.mem_cons_self ..) hb next hnext
      obtain ⟨c, hc, x, hx, hfails⟩ :=
        ih (fun c x hx => hstep c x (List.mem_cons_of_mem a hx)) hinv h
      exact ⟨c, hc, x, List.mem_cons_of_mem a hx, hfails⟩

/-! ### The causes of failures -/

namespace Outcome

/-- If the outcome is a failure, its cause is one of these. -/
def FailsBy (causes : Cause → Prop) (outcome : Outcome α) : Prop :=
  ∀ failure, outcome = .error failure → causes failure.cause

variable {causes : Cause → Prop} {outcome : Outcome α}

theorem failsBy_ok (a : α) : FailsBy causes (.ok a) := by
  rintro _ ⟨⟩

theorem failsBy_fail {cause : Cause} (h : causes cause) :
    FailsBy causes (fail cause : Outcome α) := by
  rintro _ ⟨⟩
  exact h

theorem failsBy_ofOption {cause : Cause} {result : Option α} (h : causes cause) :
    FailsBy causes (ofOption cause result) := by
  cases result with
  | some a => exact failsBy_ok a
  | none => exact failsBy_fail h

theorem failsBy_ofCompile {result : Except CompileError α} (h : ∀ e, causes (.compile e)) :
    FailsBy causes (ofCompile result) := by
  cases result with
  | ok a => exact failsBy_ok a
  | error e => exact failsBy_fail (h e)

theorem failsBy_ofHost {result : Except Host.Fault α} (h : ∀ fault, causes (.host fault)) :
    FailsBy causes (ofHost result) := by
  cases result with
  | ok a => exact failsBy_ok a
  | error fault => exact failsBy_fail (h fault)

/-- What is being done is said of a failure, and leaves its cause alone. -/
theorem FailsBy.during (h : FailsBy causes outcome) (action : String) :
    FailsBy causes (outcome.during action) := by
  cases outcome with
  | ok a => exact failsBy_ok a
  | error failure =>
    rintro _ ⟨⟩
    exact h failure rfl

theorem FailsBy.map (h : FailsBy causes outcome) (f : α → β) : FailsBy causes (outcome.map f) := by
  cases outcome with
  | ok a => exact failsBy_ok (f a)
  | error failure =>
    rintro _ ⟨⟩
    exact h failure rfl

theorem FailsBy.mono {others : Cause → Prop} (h : FailsBy causes outcome)
    (hcauses : ∀ cause, causes cause → others cause) : FailsBy others outcome :=
  fun failure hfailure => hcauses _ (h failure hfailure)

theorem FailsBy.bind {f : α → Outcome β} (h : FailsBy causes outcome)
    (hf : ∀ a, FailsBy causes (f a)) : FailsBy causes (outcome >>= f) := by
  intro failure hfailure
  rcases bind_eq_error_iff.mp hfailure with hfirst | ⟨a, _, hlast⟩
  · exact h failure hfirst
  · exact hf a failure hlast

end Outcome

end ContainerCommand
