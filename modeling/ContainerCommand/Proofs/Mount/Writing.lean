import ContainerCommand.Mount
import ContainerCommand.Proofs.Success

/-! Reading and writing mounts.

A text writes a rule exactly if it is the rule's specification and parts at the right colon
(`parse_eq_ok_iff`), so a rule that was read is written as it was read (`eq_spec_of_parse`) and
reads as itself (`parse_spec_of_parse`). Lists are read in order, up to the first text that writes no
rule (`parse_inverse`). Entries count by their texts alone: a pair writes what the text of its two sides
writes (`toRules_eq_parseAll`), which is the rule with these sides only as long as the first of them has
no colon (`toRule_pair`). -/
namespace ContainerCommand

namespace MountRule

variable {entry host container : String} {rule : MountRule}

theorem toList_spec (rule : MountRule) :
    rule.spec.toList = rule.host.toList ++ ':' :: rule.container.toList := by
  rw [spec, String.toList_append, String.toList_append, List.append_assoc]
  rfl

/-- A text that writes a rule is the rule's specification, parted at its first colon. -/
theorem eq_spec_of_parse (h : parse entry = .ok rule) :
    rule.spec = entry ∧ ':' ∉ rule.host.toList ∧ rule.host ≠ "" ∧ rule.container ≠ "" := by
  unfold parse at h
  split at h
  · rename_i c host x d container hfront hback
    cases h
    have hcolon : x = ':' := by
      have hstop := List.head?_dropWhile_not (· != ':') entry.toList
      rw [hback] at hstop
      simpa using hstop
    have hsplit := List.takeWhile_append_dropWhile (p := (· != ':')) (l := entry.toList)
    rw [hfront, hback, hcolon] at hsplit
    refine ⟨?_, ?_, by simp [← String.toList_inj], by simp [← String.toList_inj]⟩
    · rw [← String.toList_inj, toList_spec, String.toList_ofList, String.toList_ofList]
      exact hsplit
    · have hfree := List.all_takeWhile (p := (· != ':')) (l := entry.toList)
      rw [hfront, List.all_eq_true] at hfree
      rw [String.toList_ofList]
      intro hmem
      simpa using hfree ':' hmem
  · cases h

/-- A text is read at its first colon. -/
theorem parse_append (h : ':' ∉ host.toList) :
    parse (host ++ ":" ++ container) =
      if host = "" ∨ container = "" then .error (.malformedMount (host ++ ":" ++ container))
      else .ok ⟨host, container⟩ := by
  have hfree : ∀ c ∈ host.toList, (c != ':') = true := by
    intro c hc
    rw [bne_iff_ne]
    rintro rfl
    exact h hc
  have htext : (host ++ ":" ++ container).toList = host.toList ++ ':' :: container.toList :=
    toList_spec ⟨host, container⟩
  have hfront : (host ++ ":" ++ container).toList.takeWhile (· != ':') = host.toList := by
    rw [htext, List.takeWhile_append_of_pos hfree, List.takeWhile_cons_of_neg (by simp),
      List.append_nil]
  have hback : (host ++ ":" ++ container).toList.dropWhile (· != ':') = ':' :: container.toList := by
    rw [htext, List.dropWhile_append_of_pos hfree, List.dropWhile_cons_of_neg (by simp)]
  rw [parse, hfront, hback]
  cases hhost : host.toList with
  | nil => rw [if_pos (.inl (String.toList_eq_nil_iff.mp hhost))]
  | cons c front =>
    cases hcontainer : container.toList with
    | nil => rw [if_pos (.inr (String.toList_eq_nil_iff.mp hcontainer))]
    | cons d back =>
      have hsides : ¬ (host = "" ∨ container = "") := by
        rintro (hempty | hempty)
        · cases hhost.symm.trans (String.toList_eq_nil_iff.mpr hempty)
        · cases hcontainer.symm.trans (String.toList_eq_nil_iff.mpr hempty)
      rw [if_neg hsides]
      show Except.ok (⟨String.ofList (c :: front), String.ofList (d :: back)⟩ : MountRule) = _
      rw [← hhost, ← hcontainer, String.ofList_toList, String.ofList_toList]

theorem parse_eq_ok_iff :
    parse entry = .ok rule ↔
      rule.spec = entry ∧ ':' ∉ rule.host.toList ∧ rule.host ≠ "" ∧ rule.container ≠ "" := by
  refine ⟨eq_spec_of_parse, ?_⟩
  rintro ⟨rfl, hcolon, hhost, hcontainer⟩
  rw [spec, parse_append hcolon, if_neg (not_or.mpr ⟨hhost, hcontainer⟩)]

theorem parse_eq_error_iff {e : CompileError} :
    parse entry = .error e ↔ (∀ rule, parse entry ≠ .ok rule) ∧ e = .malformedMount entry := by
  unfold parse
  split
  · exact iff_of_false nofun fun h => h.1 _ rfl
  · simp [eq_comm]

/-- A rule that was read is written as it was read, and reads as itself. -/
theorem parse_spec_of_parse (h : parse entry = .ok rule) :
    parse rule.spec = .ok rule := by
  rw [(eq_spec_of_parse h).1, h]

theorem parse_spec_of_parseAll {entries : List String} {rules : List MountRule}
    (h : parseAll entries = .ok rules) : ∀ rule ∈ rules, parse rule.spec = .ok rule := by
  rw [parseAll, mapM_eq_ok_iff] at h
  induction h with
  | nil => exact List.forall_mem_nil _
  | cons hparse _ ih => exact List.forall_mem_cons.mpr ⟨parse_spec_of_parse hparse, ih⟩

/-- What comes of entries that are read in order: as many rules, each the one that its entry writes, or
the error of the first entry that writes none. -/
structure ReadInOrder {α : Type} (read : α → Except CompileError MountRule) (text : α → String)
    (entries : List α) (outcome : Except CompileError (List MountRule)) : Prop where
  ok_iff : ∀ rules,
    outcome = .ok rules ↔ List.Forall₂ (fun entry rule => read entry = .ok rule) entries rules
  exists_ok_iff : (∃ rules, outcome = .ok rules) ↔ ∀ entry ∈ entries, ∃ rule, read entry = .ok rule
  error_iff : ∀ e, outcome = .error e ↔ ∃ front entry back, entries = front ++ entry :: back ∧
    (∀ earlier ∈ front, ∃ rule, read earlier = .ok rule) ∧ (∀ rule, read entry ≠ .ok rule) ∧
      e = .malformedMount (text entry)

theorem readInOrder_mapM {α : Type} {read : α → Except CompileError MountRule} {text : α → String}
    (hread : ∀ entry e,
      read entry = .error e ↔ (∀ rule, read entry ≠ .ok rule) ∧ e = .malformedMount (text entry))
    (entries : List α) : ReadInOrder read text entries (entries.mapM read) where
  ok_iff _ := mapM_eq_ok_iff
  exists_ok_iff := exists_mapM_eq_ok_iff
  error_iff e := by simp only [mapM_eq_error_iff, hread]

/-- **Reading and writing rules are inverse to each other**: a text writes a rule exactly if it is the
rule's specification, no side of the rule is empty and the host side has no colon; any other text is
malformed, and named by the error. Lists are read in order. -/
theorem parse_inverse :
    (∀ (entry : String) (rule : MountRule), parse entry = .ok rule ↔
      rule.spec = entry ∧ rule.host ≠ "" ∧ ':' ∉ rule.host.toList ∧ rule.container ≠ "") ∧
    (∀ (entry : String) (e : CompileError), parse entry = .error e ↔
      (∀ rule, parse entry ≠ .ok rule) ∧ e = .malformedMount entry) ∧
    (∀ entries : List MountEntry,
      ReadInOrder MountEntry.toRule MountEntry.text entries (MountEntry.toRules entries)) ∧
    ∀ entries : List String, ReadInOrder parse id entries (parseAll entries) := by
  refine ⟨fun entry rule => ?_, fun entry e => parse_eq_error_iff, fun entries => ?_, fun entries => ?_⟩
  · rw [parse_eq_ok_iff, and_left_comm (a := rule.host ≠ "")]
  · exact readInOrder_mapM (fun entry e => parse_eq_error_iff) entries
  · exact readInOrder_mapM (fun entry e => parse_eq_error_iff) entries

/-- The colons behind the first one belong to the container side. -/
example : parse "/a::b:" = .ok ⟨"/a", ":b:"⟩ := by
  decide +kernel

end MountRule

namespace MountEntry

/-- The pair that parts a text at its first colon is written as the text. -/
theorem text_pair_of_parse {entry : String} {rule : MountRule}
    (h : MountRule.parse entry = .ok rule) :
    (pair rule.host rule.container).text = entry ∧ ':' ∉ rule.host.toList :=
  ⟨(MountRule.eq_spec_of_parse h).1, (MountRule.eq_spec_of_parse h).2.1⟩

/-- Entries write what their texts write. -/
theorem toRules_eq_parseAll (entries : List MountEntry) :
    toRules entries = MountRule.parseAll (entries.map text) := by
  rw [toRules, MountRule.parseAll, List.mapM_map]
  rfl

/-! ### Pairs -/

variable {host container : String}

theorem toRule_pair_of_not_mem (h : ':' ∉ host.toList) :
    (pair host container).toRule =
      if host = "" ∨ container = "" then .error (.malformedMount (host ++ ":" ++ container))
      else .ok ⟨host, container⟩ :=
  MountRule.parse_append h

/-- A colon in the host side of a pair parts the rule that is read. -/
theorem toRule_pair_append {front back : String} (h : ':' ∉ front.toList) :
    (pair (front ++ ":" ++ back) container).toRule =
      if front = "" then .error (.malformedMount (front ++ ":" ++ back ++ ":" ++ container))
      else .ok ⟨front, back ++ ":" ++ container⟩ := by
  have hjoined : front ++ ":" ++ back ++ ":" ++ container = front ++ ":" ++ (back ++ ":" ++ container) := by
    simp only [String.append_assoc]
  have hcontainer : back ++ ":" ++ container ≠ "" := by
    rw [← String.toList_inj.ne]
    simp
  rw [toRule, text, hjoined]
  exact (toRule_pair_of_not_mem h).trans (by simp only [hcontainer, or_false])

theorem exact_of_toRule_pair {rule : MountRule} (hcolon : ':' ∉ host.toList)
    (h : (pair host container).toRule = .ok rule) : rule = ⟨host, container⟩ := by
  rw [toRule_pair_of_not_mem hcolon] at h
  split at h
  · cases h
  · exact (Except.ok.inj h).symm

theorem map_of_rulesOfPairs {pairs : List (String × String)} {rules : List MountRule}
    (hpairs : ∀ pair ∈ pairs, ':' ∉ pair.1.toList) (h : rulesOfPairs pairs = .ok rules) :
    rules = pairs.map fun pair => ⟨pair.1, pair.2⟩ := by
  rw [rulesOfPairs, mapM_eq_ok_iff] at h
  induction h with
  | nil => rfl
  | cons hrule _ ih =>
    obtain ⟨hpair, hpairs⟩ := List.forall_mem_cons.mp hpairs
    rw [List.map_cons, ← ih hpairs, exact_of_toRule_pair hpair hrule]

/-- **A pair whose host side has no colon is read as the rule with its two sides**, or refused if one of
them is empty; so it is in lists of any entries, and in lists of pairs. A pair is its joined text, so that
one with a colon in its host side is read up to the first of these, and the rest belongs to the container
side. -/
theorem toRule_pair :
    (∀ host container : String, ':' ∉ host.toList →
      (pair host container).toRule =
        if host = "" ∨ container = "" then .error (.malformedMount (host ++ ":" ++ container))
        else .ok ⟨host, container⟩) ∧
    (∀ front back container : String, ':' ∉ front.toList →
      (pair (front ++ ":" ++ back) container).toRule =
        if front = "" then .error (.malformedMount (front ++ ":" ++ back ++ ":" ++ container))
        else .ok ⟨front, back ++ ":" ++ container⟩) ∧
    (∀ entries : List MountEntry,
      (∃ entry ∈ entries, toRules entries = .error (.malformedMount entry.text)) ∨
      ∃ rules, toRules entries = .ok rules ∧
        List.Forall₂ (fun entry rule => ∀ host container, entry = pair host container →
          ':' ∉ host.toList → rule = ⟨host, container⟩) entries rules) ∧
    ∀ pairs : List (String × String), (∀ pair ∈ pairs, ':' ∉ pair.1.toList) →
      (∃ pair ∈ pairs, rulesOfPairs pairs = .error (.malformedMount (pair.1 ++ ":" ++ pair.2))) ∨
      rulesOfPairs pairs = .ok (pairs.map fun pair => ⟨pair.1, pair.2⟩) := by
  refine ⟨fun _ _ => toRule_pair_of_not_mem, fun _ _ _ => toRule_pair_append, fun entries => ?_,
    fun pairs hpairs => ?_⟩
  · cases hrules : toRules entries with
    | error e =>
      obtain ⟨entry, hmem, hfails⟩ := exists_of_mapM_eq_error hrules
      exact .inl ⟨entry, hmem, by rw [(MountRule.parse_eq_error_iff.mp hfails).2]⟩
    | ok rules =>
      refine .inr ⟨rules, rfl, (mapM_eq_ok_iff.mp hrules).imp ?_⟩
      intro entry rule hrule host container hentry hcolon
      exact exact_of_toRule_pair hcolon (hentry ▸ hrule)
  · cases hrules : rulesOfPairs pairs with
    | error e =>
      obtain ⟨⟨host, container⟩, hmem, hfails⟩ := exists_of_mapM_eq_error hrules
      exact .inl ⟨(host, container), hmem, by rw [(MountRule.parse_eq_error_iff.mp hfails).2]; rfl⟩
    | ok rules => exact .inr (by rw [map_of_rulesOfPairs hpairs hrules])

/-- With a colon in its host side a pair may be read as another rule. -/
theorem not_toRule_pair_exact :
    ¬ ∀ host container : String,
      (∃ entry, (pair host container).toRule = .error (.malformedMount entry)) ∨
        (pair host container).toRule = .ok ⟨host, container⟩ := by
  intro h
  have hread : (pair "/data:raw" "/mnt").toRule = .ok ⟨"/data", "raw:/mnt"⟩ := by decide +kernel
  rcases h "/data:raw" "/mnt" with ⟨entry, hrefused⟩ | hexact
  · cases hread.symm.trans hrefused
  · exact absurd (hread.symm.trans hexact) (by decide)

end MountEntry

end ContainerCommand
