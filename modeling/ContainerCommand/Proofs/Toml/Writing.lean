import ContainerCommand.Proofs.Toml.Values

/-! Documents as they are written.

A document of values and of tables of values is read as it was (`read?_write`): each value has a line
under its key, and each table is a section behind the values. Keys need no quotes here. -/
namespace ContainerCommand.Toml
open Text Number

/-! ### Keys -/

/-- A key that is written without quotes. -/
structure IsBare (key : String) : Prop where
  ne_nil : key.toList ≠ []
  isKeyChar : ∀ c ∈ key.toList, isKeyChar c = true

instance (key : String) : Decidable (IsBare key) :=
  decidable_of_iff (key.toList.isEmpty = false ∧ key.toList.all isKeyChar = true)
    ⟨fun h => ⟨List.isEmpty_eq_false_iff.mp h.1, List.all_eq_true.mp h.2⟩,
      fun h => ⟨List.isEmpty_eq_false_iff.mpr h.1, List.all_eq_true.mpr h.2⟩⟩

variable {name : String} {rest : List Char} {doc : Document}

theorem IsBare.keyText_eq (h : IsBare name) : keyText name = name.toList := by
  have hall : name.toList.all (fun c => c.isAlphanum || c == '_' || c == '-') = true :=
    List.all_eq_true.mpr h.isKeyChar
  have hne : name.toList.isEmpty = false := List.isEmpty_eq_false_iff.mpr h.ne_nil
  rw [keyText, hne, hall]
  rfl

/-- No gap holds a character of a key. -/
theorem not_mem_of_isKeyChar {c : Char} (h : isKeyChar c = true) :
    c ∉ [' ', '\t', '#', '\n', '\r'] := by
  intro hmem
  simp only [List.mem_cons, List.not_mem_nil, or_false] at hmem
  rcases hmem with rfl | rfl | rfl | rfl | rfl <;> cases h

/-- A key that is written without quotes begins with a character of a key. -/
theorem IsBare.exists_cons (h : IsBare name) :
    ∃ c tail, name.toList = c :: tail ∧ Toml.isKeyChar c = true := by
  obtain ⟨c, tail, hsplit⟩ := List.exists_cons_of_ne_nil h.ne_nil
  exact ⟨c, tail, hsplit, h.isKeyChar c (hsplit ▸ List.mem_cons_self ..)⟩

theorem key_bare (h : IsBare name) (hrest : ∀ c ∈ rest.head?, isKeyChar c = false) :
    Reads key (name.toList ++ rest) name rest := by
  have hread := Reader.run_append h.ne_nil h.isKeyChar hrest
  obtain ⟨c, tail, hsplit, hc⟩ := h.exists_cons
  have hname : String.ofList (c :: tail) = name := by rw [← hsplit, String.ofList_toList]
  rw [hsplit, List.cons_append] at hread ⊢
  obtain ⟨hlength, hread⟩ := hread
  refine ⟨hlength, ?_⟩
  rw [key, hread]
  · simp [hname]
  · rintro _ ⟨⟩
    cases hc
  · rintro _ ⟨⟩
    cases hc

/-- A single key is read with the blanks behind it. -/
theorem dottedKey_bare (h : IsBare name) (hrest : ∀ c ∈ rest.head?, isKeyChar c = false)
    (hdot : (rest.dropWhile isBlank).head? ≠ some '.') :
    Reads dottedKey (name.toList ++ rest) ([], name) (rest.dropWhile isBlank) := by
  obtain ⟨hlength, hread⟩ := key_bare h hrest
  have := length_dropWhile_le isBlank rest
  refine ⟨by omega, ?_⟩
  rw [dottedKey, keys, hread]
  dsimp only [Rest.skip]
  split
  · rfl
  · rename_i c tail heq
    have hne : c ≠ '.' := by
      rintro rfl
      exact hdot (congrArg List.head? heq)
    rw [if_neg hne]
    rfl

/-! ### Lines -/

variable {text : List Char}

/-- The first character of a line that assigns a value is no bracket. -/
theorem header_eq_none {c : Char} (h : c ≠ '[') (cs : List Char) : header (c :: cs) = none := by
  rw [header.eq_3]
  · rintro _ ⟨⟩
    exact h rfl
  · rintro _ ⟨⟩
    exact h rfl

/-- What stands behind a key up to its value, and the blanks around that. -/
theorem assignment_of_dottedKey {cs tail : List Char} {path : List String} {key : String}
    (hkey : Reads dottedKey cs (path, key) ('=' :: tail))
    (h : Reads (value depthLimit) (Suffix.dropWhile isBlank tail).1 doc rest) :
    Reads (assignment (.dropWhile isBlank) (value depthLimit)) cs ⟨path, key, doc⟩ rest := by
  obtain ⟨hlength, hkey⟩ := hkey
  obtain ⟨hlength', h⟩ := h
  have := (Suffix.dropWhile isBlank tail).2
  refine ⟨by simp only [List.length_cons] at hlength; omega, ?_⟩
  have hskip : ('=' :: tail).dropWhile isBlank = '=' :: tail := rfl
  rw [assignment, hkey]
  simp only [Option.bind_eq_bind, Option.bind_some]
  split
  · rename_i heq
    cases hskip.symm.trans heq
    rw [h]
    rfl
  · rename_i hnot
    exact absurd hskip (hnot _)

/-- A line that gives a key a value. -/
def assignmentText (name : String) (text : List Char) : List Char :=
  name.toList ++ (" = ".toList ++ text)

variable {text : List Char}

theorem line_assignment (hname : IsBare name)
    (htext : ∃ c tail, text = c :: tail ∧ isBlank c = false)
    (h : Reads (value depthLimit) (text ++ rest) doc rest) :
    Reads line (assignmentText name text ++ rest) (.assignment ⟨[], name, doc⟩) rest := by
  obtain ⟨c, tail, rfl, hblank⟩ := htext
  have hkey : Reads dottedKey (name.toList ++ (" = ".toList ++ (c :: tail ++ rest))) ([], name)
      ('=' :: ' ' :: (c :: tail ++ rest)) :=
    dottedKey_bare hname (by rintro _ ⟨⟩; rfl) (by show some '=' ≠ some '.'; decide)
  have hdrop : (Suffix.dropWhile isBlank (' ' :: (c :: tail ++ rest))).1 = c :: tail ++ rest := by
    show (' ' :: (c :: tail ++ rest)).dropWhile isBlank = _
    rw [List.dropWhile_cons_of_pos rfl, List.cons_append,
      List.dropWhile_cons_of_neg (by simp [hblank])]
  rw [← hdrop] at h
  have hread := assignment_of_dottedKey hkey h
  obtain ⟨d, others, hsplit, hd⟩ := hname.exists_cons
  have hbracket : d ≠ '[' := by
    rintro rfl
    cases hd
  rw [assignmentText, List.append_assoc, List.append_assoc]
  rw [hsplit, List.cons_append] at hread ⊢
  obtain ⟨hlength, hread⟩ := hread
  refine ⟨hlength, ?_⟩
  rw [line, header_eq_none hbracket, hread]
  rfl

theorem header_of_dottedKey {cs : List Char} {path : List String} {key : String}
    (hbracket : cs.head? ≠ some '[')
    (hkey : Reads dottedKey (cs.dropWhile isBlank) (path, key) (']' :: rest)) :
    Reads header ('[' :: cs) (.table path key) rest := by
  obtain ⟨hlength, hkey⟩ := hkey
  have := length_dropWhile_le isBlank cs
  refine ⟨by simp only [List.length_cons] at hlength ⊢; omega, ?_⟩
  have hskip : (']' :: rest).dropWhile isBlank = ']' :: rest := rfl
  rw [header.eq_2, hkey]
  · simp only [Option.bind_eq_bind, Option.bind_some]
    split
    · rename_i heq
      cases hskip.symm.trans heq
      rfl
    · rename_i hnot
      exact absurd hskip (hnot _)
  · rintro tail rfl
    exact hbracket rfl

/-- The line that opens a table. -/
def headerText (name : String) : List Char :=
  '[' :: (name.toList ++ [']'])

theorem line_header (hname : IsBare name) (rest : List Char) :
    Reads line (headerText name ++ rest) (.header (.table [] name)) rest := by
  obtain ⟨d, others, hsplit, hd⟩ := hname.exists_cons
  have hdrop : (name.toList ++ ']' :: rest).dropWhile isBlank = name.toList ++ ']' :: rest := by
    rw [hsplit, List.cons_append,
      List.dropWhile_cons_of_neg (by simp [isBlank_of_not_mem (not_mem_of_isKeyChar hd)])]
  have hbracket : (name.toList ++ ']' :: rest).head? ≠ some '[' := by
    rw [hsplit]
    rintro ⟨⟩
    cases hd
  have hkey : Reads dottedKey (name.toList ++ ']' :: rest) ([], name) (']' :: rest) :=
    dottedKey_bare hname (by rintro _ ⟨⟩; rfl) (by show some ']' ≠ some '.'; decide)
  rw [← hdrop] at hkey
  obtain ⟨hlength, hread⟩ := header_of_dottedKey hbracket hkey
  rw [headerText, List.cons_append, List.append_assoc, List.singleton_append]
  exact ⟨hlength, by rw [line, hread]⟩

/-! ### All lines -/

theorem lines_eq (cs : List Char) :
    lines cs =
      match (skipGap cs).1 with
      | [] => some []
      | c :: tail =>
        (line (c :: tail)).bind fun (first, rest) =>
          if (skipRemark rest.1).1.isEmpty || (lineEnd? (skipRemark rest.1).1).isSome then
            (lines (skipRemark rest.1).1).map (first :: ·)
          else none := by
  rw [lines]
  split
  · rename_i heq
    rw [heq]
  · rename_i heq
    simp only [heq, Option.bind_eq_bind, Option.pure_def, Option.map_eq_bind, Function.comp_def]

theorem lines_nil : lines [] = some [] := by
  have hgap : (skipGap []).1 = [] := by
    rw [skipGap_eq]
    rfl
  rw [lines_eq, hgap]

theorem lines_line (cs : List Char) : lines ('\n' :: cs) = lines cs := by
  rw [lines_eq, lines_eq cs, skipGap_line]

/-- A line and those behind it. -/
theorem lines_of_line {l : Line} {ls : List Line} {cs : List Char}
    (hstart : ∃ c tail, cs = c :: tail ∧ c ∉ [' ', '\t', '#', '\n', '\r'])
    (hline : Reads line cs l ('\n' :: rest)) (hmore : lines rest = some ls) :
    lines cs = some (l :: ls) := by
  obtain ⟨c, tail, rfl, hc⟩ := hstart
  obtain ⟨hlength, hline⟩ := hline
  have hremark : (skipRemark ('\n' :: rest)).1 = '\n' :: rest := rfl
  rw [← lines_line] at hmore
  rw [lines_eq, skipGap_cons hc]
  simp only [hline, Option.bind_some, hremark, hmore]
  rfl

/-! ### Entries -/

variable {entries : List (String × Document)}

theorem entryTexts_eq_map (h : ∀ entry ∈ entries, IsBare entry.1) :
    entryTexts entries = entries.map fun entry => assignmentText entry.1 (valueText entry.2) := by
  induction entries with
  | nil => rfl
  | cons entry entries ih =>
    obtain ⟨hentry, hentries⟩ := List.forall_mem_cons.mp h
    rw [entryTexts, ih hentries, List.map_cons, hentry.keyText_eq, assignmentText, List.append_assoc]

/-- The assignments of entries. -/
def assignments (entries : List (String × Document)) : List Assignment :=
  entries.map fun entry => ⟨[], entry.1, entry.2⟩

theorem lines_entries (h : ∀ entry ∈ entries, IsBare entry.1 ∧ Exact depthLimit entry.2)
    {ls : List Line} (hmore : lines rest = some ls) :
    lines (linesOf (entryTexts entries) ++ rest) =
      some ((assignments entries).map .assignment ++ ls) := by
  rw [entryTexts_eq_map fun entry hentry => (h entry hentry).1]
  induction entries with
  | nil => exact hmore
  | cons entry entries ih =>
    obtain ⟨⟨hname, hexact⟩, hentries⟩ := List.forall_mem_cons.mp h
    obtain ⟨c, tail, hsplit, -, hc⟩ := exists_cons_valueText hexact
    obtain ⟨d, others, hkey, hd⟩ := hname.exists_cons
    have hends : ∀ more, Ends ('\n' :: more) := ends_cons (by decide)
    rw [List.map_cons, linesOf, List.flatMap_cons, List.append_assoc, List.append_assoc,
      ← linesOf]
    refine lines_of_line ⟨d, _, by rw [assignmentText, hkey]; rfl, not_mem_of_isKeyChar hd⟩ ?_
      (ih hentries)
    exact line_assignment hname ⟨c, tail, hsplit, isBlank_of_not_mem hc⟩
      (value_valueText hexact (hends _))

/-! ### Sections -/

/-- A table of a document: its key and its entries. -/
abbrev Section : Type := String × List (String × Document)

def Section.toEntry (t : Section) : String × Document :=
  (t.1, .table t.2)

/-- The lines of tables. -/
def sectionLines (tables : List Section) : List Line :=
  tables.flatMap fun t => .header (.table [] t.1) :: (assignments t.2).map .assignment

theorem sectionText_eq (hname : IsBare name) (entries : List (String × Document)) :
    sectionText name (.table entries) =
      '\n' :: (headerText name ++ '\n' :: linesOf (entryTexts entries)) := by
  rw [sectionText, hname.keyText_eq, headerText]
  simp

theorem lines_sections {tables : List Section}
    (h : ∀ t ∈ tables, IsBare t.1 ∧ ∀ entry ∈ t.2, IsBare entry.1 ∧ Exact depthLimit entry.2)
    {ls : List Line} (hmore : lines rest = some ls) :
    lines (tables.flatMap (fun t => sectionText t.1 (.table t.2)) ++ rest) =
      some (sectionLines tables ++ ls) := by
  induction tables with
  | nil => exact hmore
  | cons t tables ih =>
    obtain ⟨⟨hname, hentries⟩, htables⟩ := List.forall_mem_cons.mp h
    rw [List.flatMap_cons, sectionText_eq hname, sectionLines, List.flatMap_cons, ← sectionLines]
    simp only [List.cons_append, List.append_assoc]
    rw [lines_line]
    refine lines_of_line ⟨'[', _, rfl, by decide⟩ (line_header hname _) ?_
    exact lines_entries hentries (ih htables)

/-! ### The tree -/

theorem sections_map_assignment (as : List Assignment) (ls : List Line) :
    sections (as.map .assignment ++ ls) = (as ++ (sections ls).1, (sections ls).2) := by
  induction as with
  | nil => rfl
  | cons a as ih => rw [List.map_cons, List.cons_append, sections, ih, List.cons_append]

theorem sections_sectionLines (tables : List Section) :
    sections (sectionLines tables) = ([], tables.map fun t => (.table [] t.1, assignments t.2)) := by
  induction tables with
  | nil => rfl
  | cons t tables ih =>
    rw [sectionLines, List.flatMap_cons, ← sectionLines, List.cons_append, sections,
      sections_map_assignment, ih, List.append_nil, List.map_cons]

/-- Entries as nodes of a tree. -/
def closedEntries (entries : List (String × Document)) : Entries :=
  entries.map fun entry => (entry.1, .closed entry.2)

theorem map_fst_closedEntries (entries : List (String × Document)) :
    (closedEntries entries).map Prod.fst = entries.map Prod.fst := by
  simp [closedEntries]

theorem lookup_eq_none_of_not_mem {nodes : Entries} (h : name ∉ nodes.map Prod.fst) :
    nodes.lookup name = none := by
  rw [List.lookup_eq_none_iff]
  intro node hnode
  simp only [bne_iff_ne]
  rintro rfl
  exact h (List.mem_map_of_mem hnode)

/-- Values under keys of which none is there yet are added one after the other. -/
theorem assignAll?_assignments (nodes : Entries)
    (h : (nodes.map Prod.fst ++ entries.map Prod.fst).Nodup) :
    Entries.assignAll? nodes (assignments entries) = some (nodes ++ closedEntries entries) := by
  induction entries generalizing nodes with
  | nil => simp [assignments, closedEntries, Entries.assignAll?]
  | cons entry entries ih =>
    obtain ⟨key, doc⟩ := entry
    have hnew : nodes.lookup key = none := lookup_eq_none_of_not_mem fun hmem =>
      (List.nodup_append.mp h).2.2 key hmem key (by simp) rfl
    have hstep : Entries.assign? nodes ⟨[], key, doc⟩ = some (nodes ++ [(key, .closed doc)]) := by
      simp [Entries.assign?, Entries.modify?, Entries.add?, hnew]
    have hrest := ih (nodes ++ [(key, .closed doc)]) (by simpa using h)
    rw [Entries.assignAll?] at hrest ⊢
    rw [assignments, List.map_cons, List.foldlM_cons, hstep, ← assignments]
    simpa [closedEntries] using hrest

/-- A section as a node of a tree. -/
def Section.toNode (t : Section) : String × Node :=
  (t.1, .table .written (closedEntries t.2))

/-- Sections under keys of which none is there yet are added one after the other. -/
theorem foldlM_addSection? (nodes : Entries) {tables : List Section}
    (h : (nodes.map Prod.fst ++ tables.map Prod.fst).Nodup)
    (htables : ∀ t ∈ tables, (t.2.map Prod.fst).Nodup) :
    (tables.map fun t => (Header.table [] t.1, assignments t.2)).foldlM
        (fun nodes s => Entries.addSection? nodes s.1 s.2) nodes =
      some (nodes ++ tables.map Section.toNode) := by
  induction tables generalizing nodes with
  | nil => simp
  | cons t tables ih =>
    obtain ⟨hdistinct, htables⟩ := List.forall_mem_cons.mp htables
    have hnew : nodes.lookup t.1 = none := lookup_eq_none_of_not_mem fun hmem =>
      (List.nodup_append.mp h).2.2 t.1 hmem t.1 (by simp) rfl
    have hinner : Entries.assignAll? [] (assignments t.2) = some (closedEntries t.2) :=
      assignAll?_assignments [] (by simpa using hdistinct)
    have hstep : Entries.addSection? nodes (.table [] t.1) (assignments t.2) =
        some (nodes ++ [t.toNode]) := by
      simp [Entries.addSection?, Entries.modify?, hnew, hinner, Section.toNode]
    have hrest := ih (nodes ++ [t.toNode]) (by simpa [Section.toNode] using h) htables
    rw [List.map_cons, List.foldlM_cons, hstep]
    simpa using hrest

theorem entryDocuments_eq_map (nodes : Entries) :
    entryDocuments nodes = nodes.map fun node => (node.1, node.2.toDocument) := by
  induction nodes with
  | nil => rfl
  | cons node nodes ih => rw [entryDocuments, ih, List.map_cons]

theorem entryDocuments_closedEntries (entries : List (String × Document)) :
    entryDocuments (closedEntries entries) = entries := by
  simp [entryDocuments_eq_map, closedEntries, Node.toDocument, Function.comp_def]

theorem entryDocuments_append_sections (entries : List (String × Document)) (tables : List Section) :
    entryDocuments (closedEntries entries ++ tables.map Section.toNode) =
      entries ++ tables.map Section.toEntry := by
  rw [entryDocuments_eq_map, List.map_append, ← entryDocuments_eq_map, entryDocuments_closedEntries,
    List.map_map]
  congr 1
  refine List.map_congr_left fun t _ => ?_
  simp [Section.toNode, Section.toEntry, Node.toDocument, entryDocuments_closedEntries]

/-! ### Documents -/

/-- A text holds a table. -/
theorem exists_table_of_read? {cs : List Char} (h : read? cs = some doc) :
    ∃ entries, doc = .table entries := by
  simp only [read?, Option.bind_eq_bind, Option.bind_eq_some_iff] at h
  obtain ⟨ls, -, nodes, -, tree, -, ⟨⟩⟩ := h
  exact ⟨_, rfl⟩

variable {tables : List Section}

theorem isTable_of_exact {depth : Nat} (h : Exact depth doc) : isTable doc = false := by
  cases h <;> rfl

theorem sectionText_of_isTable (name : String) (h : isTable doc = false) :
    sectionText name doc = [] := by
  cases doc <;> first | rfl | cases h

/-- What is written of values and of the tables behind them. -/
theorem toList_write (h : ∀ entry ∈ entries, isTable entry.2 = false) :
    (write (entries ++ tables.map Section.toEntry)).toList =
      linesOf (entryTexts entries) ++ tables.flatMap fun t => sectionText t.1 (.table t.2) := by
  have hvalues : entries.filter (fun entry => !isTable entry.2) = entries :=
    List.filter_eq_self.mpr fun entry hentry => by rw [h entry hentry]; rfl
  have htables : (tables.map Section.toEntry).filter (fun entry => !isTable entry.2) = [] := by
    rw [List.filter_eq_nil_iff]
    intro entry hentry
    obtain ⟨t, _, rfl⟩ := List.mem_map.mp hentry
    simp [Section.toEntry, isTable]
  have hnone : entries.flatMap (fun entry => sectionText entry.1 entry.2) = [] :=
    List.flatMap_eq_nil_iff.mpr fun entry hentry => sectionText_of_isTable _ (h entry hentry)
  rw [write, String.toList_ofList, List.filter_append, hvalues, htables, List.append_nil,
    List.flatMap_append, hnone, List.nil_append, List.flatMap_map]
  rfl

theorem skipMark_eq {cs : List Char} (h : cs.head? ≠ some '\uFEFF') : skipMark cs = cs := by
  unfold skipMark
  split
  · exact absurd rfl h
  · rfl

/-- What is written begins with no mark of its byte order. -/
theorem head?_write_ne (hentries : ∀ entry ∈ entries, IsBare entry.1)
    (htables : ∀ t ∈ tables, IsBare t.1) :
    (linesOf (entryTexts entries) ++
      (tables.flatMap (fun t => sectionText t.1 (.table t.2)) ++ ['\n'])).head? ≠
        some '\uFEFF' := by
  cases entries with
  | nil =>
    cases tables with
    | nil => decide
    | cons t tables =>
      rw [List.flatMap_cons, sectionText_eq (List.forall_mem_cons.mp htables).1]
      rintro ⟨⟩
  | cons entry entries =>
    obtain ⟨d, others, hkey, hd⟩ := (List.forall_mem_cons.mp hentries).1.exists_cons
    rw [entryTexts_eq_map hentries, List.map_cons, linesOf, List.flatMap_cons, assignmentText, hkey]
    rintro ⟨⟩
    cases hd

/-- **A document is read as it has been written**: values under their keys, then tables of such. -/
theorem read?_write
    (hentries : ∀ entry ∈ entries, IsBare entry.1 ∧ Exact depthLimit entry.2)
    (htables : ∀ t ∈ tables, IsBare t.1 ∧ ∀ entry ∈ t.2, IsBare entry.1 ∧ Exact depthLimit entry.2)
    (hdistinct : (entries.map Prod.fst ++ tables.map Prod.fst).Nodup)
    (hinner : ∀ t ∈ tables, (t.2.map Prod.fst).Nodup) :
    read? (write (entries ++ tables.map Section.toEntry) ++ "\n").toList =
      some (.table (entries ++ tables.map Section.toEntry)) := by
  have htext : (write (entries ++ tables.map Section.toEntry) ++ "\n").toList =
      linesOf (entryTexts entries) ++
        (tables.flatMap (fun t => sectionText t.1 (.table t.2)) ++ ['\n']) := by
    rw [String.toList_append,
      toList_write fun entry hentry => isTable_of_exact (hentries entry hentry).2,
      List.append_assoc]
    rfl
  have hend : lines ['\n'] = some [] := (lines_line []).trans lines_nil
  have hlines := lines_entries hentries (lines_sections htables hend)
  have hmark := skipMark_eq (head?_write_ne (fun entry hentry => (hentries entry hentry).1)
    fun t ht => (htables t ht).1)
  have hown : Entries.assignAll? [] (assignments entries) = some (closedEntries entries) :=
    assignAll?_assignments [] (by simpa using (List.nodup_append.mp hdistinct).1)
  have hothers := foldlM_addSection? (closedEntries entries)
    (by rwa [map_fst_closedEntries]) hinner
  rw [List.append_nil] at hlines
  rw [htext, read?, hmark, hlines]
  simp only [Option.bind_eq_bind, Option.bind_some, sections_map_assignment, sections_sectionLines,
    List.append_nil, hown, hothers, entryDocuments_append_sections]
  rfl

end ContainerCommand.Toml
