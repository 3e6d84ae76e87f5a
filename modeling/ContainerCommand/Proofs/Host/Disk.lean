import ContainerCommand.Host.Disk
import ContainerCommand.Proofs.Path.Components
import ContainerCommand.Proofs.Success
import ContainerCommand.Table

/-! Places of paths, and what changes of a disk leave alone.

The components of a path lead to a place, whatever stands on the way (`placeOf`), and a disk that finds
the path finds it there (`eq_placeOf_of_locate`). Making directories puts some where there was nothing
on the way (`stations`) and changes nothing else (`Keeps`, `keeps_makeDirectories`), and once it has
succeeded there is one at every place on the way (`at?_makeDirectories_of_done`). Writing a file changes
its own place (`at?_write`, `at?_write_of_ne`), and a rename the places of its two names
(`rename_of_done`), so that a file is found under its new one (`find_of_rename`). -/
namespace ContainerCommand.Host

open ContainerCommand.Path

/-! ### Places -/

/-- Where a component of a path leads. -/
def step (place : Location) : Component → Location
  | .root => []
  | .current => place
  | .parent => place.dropLast
  | .normal name => place ++ [String.ofList name]

/-- The place that a path names from the working directory, whether anything stands there or not. -/
def placeOf (here : Location) (path : List Char) : Location :=
  (components path).foldl step here

/-- Where a part of a path leads. -/
def turn (place : Location) (part : List Char) : Location :=
  if isIdle part then place else step place (component part)

/-- The components that parts between separators make. -/
def counted (parts : List (List Char)) : List Component :=
  (parts.filter (!isIdle ·)).map component

theorem foldl_turn (place : Location) (parts : List (List Char)) :
    parts.foldl turn place = (counted parts).foldl step place := by
  rw [counted, List.foldl_map, List.foldl_filter]
  congr 1
  funext place part
  unfold turn
  cases isIdle part <;> rfl

/-- The places that components lead by from a place, where they end included. -/
def stations : Location → List Component → List Location
  | _, [] => []
  | here, c :: way => step here c :: stations (step here c) way

theorem stations_append (here : Location) (front back : List Component) :
    stations here (front ++ back) = stations here front ++ stations (front.foldl step here) back := by
  induction front generalizing here with
  | nil => rfl
  | cons c way ih => rw [List.cons_append, stations, stations, ih, List.foldl_cons, List.cons_append]

/-- Who never turns back passes only places above the one where the way ends. -/
theorem prefix_of_mem_stations {here place : Location} {way : List Component}
    (hway : ∀ c ∈ way, c ≠ .root ∧ c ≠ .parent) (h : place ∈ here :: stations here way) :
    place <+: way.foldl step here := by
  induction way generalizing here place with
  | nil =>
    obtain rfl := List.mem_singleton.mp h
    exact List.prefix_rfl
  | cons c way ih =>
    obtain ⟨⟨hroot, hparent⟩, hrest⟩ := List.forall_mem_cons.mp hway
    rcases List.mem_cons.mp h with heq | hlater
    · subst heq
      have hstep : place <+: step place c := by
        cases c with
        | root => exact absurd rfl hroot
        | current => exact List.prefix_rfl
        | parent => exact absurd rfl hparent
        | normal name => exact List.prefix_append place _
      exact hstep.trans (ih hrest List.mem_cons_self)
    · exact ih hrest hlater

theorem mem_stations_counted_cons {place other : Location} {part : List Char}
    {rest : List (List Char)} :
    other ∈ stations place (counted (part :: rest)) ↔
      isIdle part = false ∧ other = turn place part ∨
        other ∈ stations (turn place part) (counted rest) := by
  unfold turn counted
  cases h : isIdle part <;> simp [h, stations]

/-- Whether an entry keeps nothing of what is written to it. -/
def Entry.isDevice : Entry → Bool
  | .sink | .full | .stream _ => true
  | .directory | .file _ | .program _ => false

namespace Disk

variable {disk after : Disk} {faults : Faults} {path source target : List Char}
  {place next : Location} {parts : List (List Char)} {content : List UInt8}

/-- The lead of a path takes one to where it starts. -/
theorem foldl_step_lead (disk : Disk) (path : List Char) :
    (leadComponent (splitLead path).1).foldl step disk.here = disk.start path := by
  unfold start
  rcases splitLead_cases path with ⟨rest, rfl⟩ | rfl | ⟨rest, rfl⟩ | hlead
  · rfl
  · rfl
  · rfl
  · have hroot : path.head? ≠ some '/' := by
      intro h
      obtain ⟨rest, rfl⟩ := List.head?_eq_some_iff.mp h
      cases hlead
    rw [if_neg hroot, hlead]
    rfl

theorem components_eq_append_inner (path : List Char) :
    components path = leadComponent (splitLead path).1 ++ Path.inner path := by
  rw [components_eq, inner_splitLead]

theorem placeOf_here (disk : Disk) (path : List Char) :
    placeOf disk.here path = (segments path).foldl turn (disk.start path) := by
  rw [foldl_turn, placeOf, components_eq_append_inner, List.foldl_append, foldl_step_lead]
  rfl

/-- Behind its lead a path is followed from where it starts. -/
theorem stations_components (disk : Disk) (path : List Char) :
    stations disk.here (components path) =
      stations disk.here (leadComponent (splitLead path).1) ++
        stations (disk.start path) (Path.inner path) := by
  rw [components_eq_append_inner, stations_append, foldl_step_lead]

theorem eq_start_of_mem_stations_lead
    (h : place ∈ stations disk.here (leadComponent (splitLead path).1)) : place = disk.start path := by
  rw [← foldl_step_lead]
  have hlength := length_leadComponent_le (splitLead path).1
  generalize leadComponent (splitLead path).1 = lead at h hlength
  match lead, hlength with
  | [], _ => cases h
  | [c], _ => exact List.mem_singleton.mp h

theorem eq_turn_of_enter {part : List Char} (h : enter place part = .ok next) :
    next = turn place part := by
  unfold enter at h
  unfold turn
  split at h
  · rename_i hidle
    cases h
    rw [if_pos hidle]
  · rename_i hidle
    rw [if_neg hidle, component]
    split at h
    · rename_i hparent
      cases h
      rw [if_pos hparent]
      rfl
    · rename_i hparent
      rw [if_neg hparent]
      dsimp only at h
      split at h
      · cases h
      · cases h
        rfl

theorem follow_cons_eq_ok_iff {part : List Char} :
    disk.follow place (part :: parts) = .ok next ↔
      disk.at? place = some .directory ∧
        ∃ entered, enter place part = .ok entered ∧ disk.follow entered parts = .ok next := by
  rw [follow]
  split
  · rename_i hplace
    simp only [bind_eq_ok_iff, hplace, true_and]
  · rename_i hplace
    simp_all
  · rename_i hplace
    simp_all

theorem eq_foldl_of_follow (h : disk.follow place parts = .ok next) :
    next = parts.foldl turn place := by
  induction parts generalizing place with
  | nil =>
    cases h
    rfl
  | cons part rest ih =>
    obtain ⟨-, entered, henter, hrest⟩ := follow_cons_eq_ok_iff.mp h
    rw [ih hrest, eq_turn_of_enter henter]
    rfl

/-- **What a disk finds stands where the components of the path lead.** -/
theorem eq_placeOf_of_locate (h : disk.locate path = .ok place) : place = placeOf disk.here path := by
  obtain ⟨_, _, hfollow⟩ := bind_eq_ok_iff.mp h
  rw [placeOf_here, eq_foldl_of_follow hfollow]

theorem of_find {entry : Entry} (h : disk.find path = .ok (place, entry)) :
    place = placeOf disk.here path ∧ disk.at? place = some entry := by
  obtain ⟨found, hlocate, hentry⟩ := bind_eq_ok_iff.mp h
  split at hentry
  · rename_i e hat
    cases hentry
    exact ⟨eq_placeOf_of_locate hlocate, hat⟩
  · cases hentry

theorem of_locateTarget (h : disk.locateTarget path = .ok place) :
    place = placeOf disk.here path ∧ disk.at? place ≠ some .directory := by
  unfold locateTarget at h
  split at h
  · obtain ⟨_, _, hthrow⟩ := bind_eq_ok_iff.mp h
    cases hthrow
  · obtain ⟨found, hlocate, hcheck⟩ := bind_eq_ok_iff.mp h
    split at hcheck
    · cases hcheck
    · rename_i hat
      cases hcheck
      exact ⟨eq_placeOf_of_locate hlocate, hat⟩

/-- The last part is entered from where the others lead. -/
theorem follow_concat {part : List Char} {directory : Location}
    (h : disk.follow place parts = .ok directory) (hat : disk.at? directory = some .directory)
    (hlast : enter directory part = .ok next) : disk.follow place (parts ++ [part]) = .ok next := by
  induction parts generalizing place with
  | nil =>
    cases h
    exact follow_cons_eq_ok_iff.mpr ⟨hat, next, hlast, rfl⟩
  | cons first rest ih =>
    obtain ⟨hplace, entered, henter, hrest⟩ := follow_cons_eq_ok_iff.mp h
    exact follow_cons_eq_ok_iff.mpr ⟨hplace, entered, henter, ih hrest⟩

theorem follow_of_directories
    (hkept : ∀ other, disk.at? other = some .directory → after.at? other = some .directory)
    (h : disk.follow place parts = .ok next) : after.follow place parts = .ok next := by
  induction parts generalizing place with
  | nil => exact h
  | cons part rest ih =>
    obtain ⟨hplace, entered, henter, hrest⟩ := follow_cons_eq_ok_iff.mp h
    exact follow_cons_eq_ok_iff.mpr ⟨hkept place hplace, entered, henter, ih hrest⟩

/-- A disk that has the same directories locates what was located. -/
theorem locate_of_directories
    (hkept : ∀ other, disk.at? other = some .directory → after.at? other = some .directory)
    (hhere : after.here = disk.here) (h : disk.locate path = .ok place) :
    after.locate path = .ok place := by
  obtain ⟨_, hcheck, h⟩ := bind_eq_ok_iff.mp h
  refine bind_eq_ok_iff.mpr ⟨(), hcheck, ?_⟩
  rw [start, hhere]
  exact follow_of_directories hkept h

/-- Where the last part of a path is looked up, if no slash is behind it. -/
theorem of_locateLast {directory : Location} {part : List Char}
    (h : disk.locateLast path = .ok (directory, part)) (hend : path.getLast? ≠ some '/') :
    checkPath path = .ok () ∧ disk.at? directory = some .directory ∧
      ∃ parts, segments path = parts ++ [part] ∧
        disk.follow (disk.start path) parts = .ok directory := by
  have hwhole : (path.reverse.dropWhile (· == '/')).reverse = path := by
    show path.rdropWhile (· == '/') = path
    rw [List.rdropWhile_eq_self_iff]
    intro hne hslash
    rw [List.getLast?_eq_some_getLast hne] at hend
    exact hend (congrArg some (beq_iff_eq.mp hslash))
  unfold locateLast at h
  obtain ⟨_, hcheck, h⟩ := bind_eq_ok_iff.mp h
  dsimp only at h
  rw [hwhole] at h
  obtain ⟨found, hfollow, h⟩ := bind_eq_ok_iff.mp h
  split at h
  · rename_i hfound
    cases h
    have hne := segments_ne_nil path
    refine ⟨hcheck, hfound, (segments path).dropLast, ?_, hfollow⟩
    rw [List.getLastD_eq_getLast?, List.getLast?_eq_some_getLast hne, Option.getD_some,
      List.dropLast_append_getLast hne]
  · cases h
  · cases h

/-- A place that a file can be moved to is located as any other, and no directory is there. -/
theorem of_locateName (h : disk.locateName path = .ok place) :
    disk.locate path = .ok place ∧ disk.at? place ≠ some .directory := by
  unfold locateName at h
  obtain ⟨⟨directory, part⟩, hlast, h⟩ := bind_eq_ok_iff.mp h
  dsimp only at h
  split at h
  · cases h
  · obtain ⟨named, hentered, h⟩ := bind_eq_ok_iff.mp h
    split at h
    · cases h
    · rename_i hend
      split at h
      · cases h
      · rename_i hat
        cases h
        obtain ⟨hcheck, hdirectory, parts, hparts, hfollow⟩ := of_locateLast hlast hend
        refine ⟨bind_eq_ok_iff.mpr ⟨(), hcheck, ?_⟩, hat⟩
        rw [hparts]
        exact follow_concat hfollow hdirectory hentered

/-! ### What stands at a place -/

theorem lookup_entries_filter (disk : Disk) (place other : Location) :
    (disk.entries.filter (·.1 ≠ place)).lookup other =
      if other = place then none else disk.entries.lookup other := by
  rw [← Table.lookup_filter_ne]
  congr 2
  funext entry
  by_cases h : entry.1 = place <;> simp [h]

theorem at?_put (disk : Disk) (place other : Location) (entry : Entry) :
    (disk.put place entry).at? other =
      if other = [] then some .directory else if other = place then some entry else disk.at? other := by
  simp only [at?, put, Table.lookup_cons_eq_ite, lookup_entries_filter]
  split
  · rfl
  · split <;> rfl

theorem at?_put_of_ne {other : Location} {entry : Entry} (h : other ≠ place) :
    (disk.put place entry).at? other = disk.at? other := by
  rw [at?_put, if_neg h]
  split
  · rename_i hroot
    exact hroot ▸ rfl
  · rfl

theorem at?_remove (disk : Disk) (place other : Location) :
    (disk.remove place).at? other =
      if other = [] then some .directory else if other = place then none else disk.at? other := by
  simp only [at?, remove, lookup_entries_filter]
  split <;> rfl

theorem at?_root (disk : Disk) : disk.at? [] = some .directory := rfl

/-- What stands at a place stands there still, or nothing has and a directory on the way has been
made there. -/
def Keeps (way : List Component) (before after : Disk) (place : Location) : Prop :=
  after.at? place = before.at? place ∨
    place ∈ stations before.here way ∧ before.at? place = none ∧ after.at? place = some .directory

theorem Keeps.refl (way : List Component) (disk : Disk) (place : Location) :
    Keeps way disk disk place :=
  .inl rfl

theorem Keeps.congr {way : List Component} {before between after : Disk}
    (h : Keeps way before between place) (hsame : after.at? place = between.at? place) :
    Keeps way before after place := by
  rwa [Keeps, hsame]

/-- Where only directories have been made there is no device unless there was one. -/
theorem Keeps.isDevice_eq_false {way : List Component} {before after : Disk}
    (h : Keeps way before after place)
    (hdevice : ∀ entry, before.at? place = some entry → entry.isDevice = false) :
    ∀ entry, after.at? place = some entry → entry.isDevice = false := by
  intro entry hentry
  rcases h with hsame | ⟨_, _, hdirectory⟩
  · exact hdevice entry (hsame ▸ hentry)
  · cases hentry.symm.trans hdirectory
    rfl

/-! ### Changes -/

theorem here_makeAlong (limit : Option Nat) (made : Nat) :
    (disk.makeAlong limit made place parts).2.here = disk.here := by
  fun_induction makeAlong disk limit made place parts <;> simp_all [put]

/-- Making directories leaves what stands anywhere, and makes directories where the parts of the path
lead by and nowhere else, also if it fails half-way. -/
theorem at?_makeAlong (limit : Option Nat) (made : Nat) (other : Location) :
    (disk.makeAlong limit made place parts).2.at? other = disk.at? other ∨
      other ∈ stations place (counted parts) ∧ disk.at? other = none ∧
        (disk.makeAlong limit made place parts).2.at? other = some .directory := by
  fun_induction makeAlong disk limit made place parts with
  | case1 | case2 | case3 | case5 | case7 | case8 => exact .inl rfl
  | case4 _ _ _ _ _ _ henter _ _ _ ih =>
    obtain rfl := eq_turn_of_enter henter
    exact ih.imp_right fun ⟨hmem, hmade⟩ => ⟨mem_stations_counted_cons.mpr (.inr hmem), hmade⟩
  | case6 disk made place part rest next henter hplace hnone _ ih =>
    obtain rfl := eq_turn_of_enter henter
    by_cases hnext : other = turn place part
    · subst hnext
      -- An idle part would lead to where it starts, and a directory is there.
      have hcounts : isIdle part = false := by
        by_contra hidle
        rw [turn, if_pos (eq_true_of_ne_false hidle), hplace] at hnone
        cases hnone
      rw [at?_put, if_pos rfl, ite_self] at ih
      exact .inr ⟨mem_stations_counted_cons.mpr (.inl ⟨hcounts, rfl⟩), hnone,
        ih.elim id fun ⟨_, hdirectory, _⟩ => by cases hdirectory⟩
    · rw [at?_put_of_ne hnext] at ih
      exact ih.imp_right fun ⟨hmem, hmade⟩ => ⟨mem_stations_counted_cons.mpr (.inr hmem), hmade⟩

theorem at?_makeAlong_of_some {entry : Entry} {other : Location} (limit : Option Nat) (made : Nat)
    (h : disk.at? other = some entry) :
    (disk.makeAlong limit made place parts).2.at? other = some entry := by
  rcases at?_makeAlong limit made other with hsame | ⟨_, hnone, _⟩
  · exact hsame.trans h
  · cases h.symm.trans hnone

/-- Where all directories have been made there is one at each place on the way. -/
theorem at?_makeAlong_of_done {limit : Option Nat} {made : Nat} {other : Location}
    (h : (disk.makeAlong limit made place parts).1 = none)
    (hother : other = place ∨ other ∈ stations place (counted parts)) :
    (disk.makeAlong limit made place parts).2.at? other = some .directory := by
  fun_induction makeAlong disk limit made place parts with
  | case1 _ _ _ hplace =>
    rcases hother with rfl | hmem
    · exact hplace
    · cases hmem
  | case2 | case3 | case5 | case7 | case8 => cases h
  | case4 disk made place part rest next henter hplace _ _ ih =>
    obtain rfl := eq_turn_of_enter henter
    rcases hother with rfl | hmem
    · exact at?_makeAlong_of_some _ _ hplace
    · exact ih h ((mem_stations_counted_cons.mp hmem).imp_left And.right)
  | case6 disk made place part rest next henter hplace hnone _ ih =>
    obtain rfl := eq_turn_of_enter henter
    rcases hother with rfl | hmem
    · refine at?_makeAlong_of_some _ _ ?_
      rw [at?_put, hplace, ite_self, ite_self]
    · exact ih h ((mem_stations_counted_cons.mp hmem).imp_left And.right)

/-- Making the directories of a path changes nothing but that. -/
theorem keeps_makeDirectories (disk : Disk) (faults : Faults) (path : List Char) (other : Location) :
    Keeps (components path) disk (disk.makeDirectories faults path).2 other := by
  unfold makeDirectories Keeps
  rw [stations_components, List.mem_append]
  split
  · exact .inl rfl
  · exact (at?_makeAlong _ _ other).imp_right fun ⟨hmem, hmade⟩ => ⟨.inr hmem, hmade⟩
  · exact (at?_makeAlong _ _ other).imp_right fun ⟨hmem, hmade⟩ => ⟨.inr hmem, hmade⟩

/-- Directories that have been made are all along the way. -/
theorem at?_makeDirectories_of_done {other : Location}
    (h : (disk.makeDirectories faults path).1 = none)
    (hother : other ∈ stations disk.here (components path)) :
    (disk.makeDirectories faults path).2.at? other = some .directory := by
  rw [stations_components, List.mem_append] at hother
  unfold makeDirectories at h ⊢
  split at h
  · cases h
  · cases h
  · exact at?_makeAlong_of_done h (hother.imp_left eq_start_of_mem_stations_lead)

theorem here_makeDirectories (disk : Disk) (faults : Faults) (path : List Char) :
    (disk.makeDirectories faults path).2.here = disk.here := by
  unfold makeDirectories
  split
  · rfl
  · exact here_makeAlong _ _
  · exact here_makeAlong _ _

theorem here_store (disk : Disk) (place : Location) (content : List UInt8) :
    (disk.store place content).here = disk.here := by
  unfold store
  split <;> rfl

theorem at?_store_of_ne {other : Location} (h : other ≠ place) (content : List UInt8) :
    (disk.store place content).at? other = disk.at? other := by
  unfold store
  split
  · rfl
  · rfl
  · rfl
  · exact at?_put_of_ne h

theorem at?_store (hroot : place ≠ [])
    (hdevice : ∀ entry, disk.at? place = some entry → entry.isDevice = false)
    (content : List UInt8) : (disk.store place content).at? place = some (.file content) := by
  unfold store
  split
  · rename_i h
    cases hdevice _ h
  · rename_i h
    cases hdevice _ h
  · rename_i h
    cases hdevice _ h
  · rw [at?_put, if_neg hroot, if_pos rfl]

theorem here_write (disk : Disk) (faults : Faults) (path : List Char) (content : List UInt8) :
    (disk.write faults path content).2.here = disk.here := by
  unfold write
  split
  · rfl
  · split
    · exact here_store _ _ _
    · exact here_store _ _ _

/-- Writing a file changes its place only, also if it fails half-way. -/
theorem at?_write_of_ne {other : Location} (h : other ≠ placeOf disk.here path) :
    (disk.write faults path content).2.at? other = disk.at? other := by
  unfold write
  split
  · rfl
  · rename_i place hplace
    rw [← (of_locateTarget hplace).1] at h
    split
    · exact at?_store_of_ne h _
    · exact at?_store_of_ne h _

/-- A file that has been written is where its path leads. -/
theorem at?_write (h : (disk.write faults path content).1 = none)
    (hdevice : ∀ entry, disk.at? (placeOf disk.here path) = some entry → entry.isDevice = false) :
    (disk.write faults path content).2.at? (placeOf disk.here path) = some (.file content) := by
  unfold write at h ⊢
  split at h
  · cases h
  · rename_i place hplace
    obtain ⟨rfl, hdirectory⟩ := of_locateTarget hplace
    split at h
    · cases h
    · exact at?_store (fun hroot => hdirectory (by rw [hroot, at?_root])) hdevice content

/-- So it is if directories have been made before. -/
theorem at?_write_of_keeps {way : List Component} {made : Disk} (hhere : made.here = disk.here)
    (hkept : ∀ place, Keeps way disk made place) (h : (made.write faults path content).1 = none)
    (hdevice : ∀ entry, disk.at? (placeOf disk.here path) = some entry → entry.isDevice = false) :
    (made.write faults path content).2.at? (placeOf disk.here path) = some (.file content) := by
  have hmade := (hkept (placeOf disk.here path)).isDevice_eq_false hdevice
  rw [← hhere] at hmade ⊢
  exact at?_write h hmade

/-- The disk with what stands at one place moved to another. -/
def moved (disk : Disk) (old new : Location) (entry : Entry) : Disk :=
  (disk.remove old).put new entry

theorem at?_moved (disk : Disk) (old new other : Location) (entry : Entry) :
    (disk.moved old new entry).at? other =
      if other = [] then some .directory else if other = new then some entry
      else if other = old then none else disk.at? other := by
  simp only [moved, at?_put, at?_remove]
  split <;> rfl

/-- A rename fails and changes nothing, or moves what stands at one place to another, where there is no
directory. -/
theorem rename_cases (disk : Disk) (faults : Faults) (source target : List Char) :
    (∃ fault, disk.rename faults source target = (some fault, disk)) ∨
      ∃ entry, disk.at? (placeOf disk.here source) = some entry ∧
        disk.locate target = .ok (placeOf disk.here target) ∧
        disk.at? (placeOf disk.here target) ≠ some .directory ∧
        disk.rename faults source target =
          (none, disk.moved (placeOf disk.here source) (placeOf disk.here target) entry) := by
  unfold rename
  split
  · exact .inl ⟨_, rfl⟩
  · exact .inl ⟨_, rfl⟩
  · exact .inl ⟨_, rfl⟩
  · rename_i old entry new _ hfind hname
    obtain ⟨rfl, hentry⟩ := of_find hfind
    obtain ⟨hlocate, hnew⟩ := of_locateName hname
    obtain rfl := eq_placeOf_of_locate hlocate
    exact .inr ⟨entry, hentry, hlocate, hnew, rfl⟩

/-- A rename that fails changes nothing. -/
theorem rename_of_fault {fault : Fault} (h : (disk.rename faults source target).1 = some fault) :
    (disk.rename faults source target).2 = disk := by
  rcases rename_cases disk faults source target with ⟨_, heq⟩ | ⟨_, _, _, _, heq⟩
  · rw [heq]
  · rw [heq] at h
    cases h

theorem rename_eq_of_done (h : (disk.rename faults source target).1 = none) :
    ∃ entry, disk.at? (placeOf disk.here source) = some entry ∧
      disk.locate target = .ok (placeOf disk.here target) ∧
      disk.at? (placeOf disk.here target) ≠ some .directory ∧
      (disk.rename faults source target).2 =
        disk.moved (placeOf disk.here source) (placeOf disk.here target) entry := by
  rcases rename_cases disk faults source target with ⟨_, heq⟩ | ⟨entry, hentry, hlocate, hnew, heq⟩
  · rw [heq] at h
    cases h
  · exact ⟨entry, hentry, hlocate, hnew, congrArg Prod.snd heq⟩

/-- A rename takes what stands at the old place to the new one. -/
theorem rename_of_done (h : (disk.rename faults source target).1 = none) :
    ∃ entry, disk.at? (placeOf disk.here source) = some entry ∧
      ∀ place, (disk.rename faults source target).2.at? place =
        if place = [] then some .directory else if place = placeOf disk.here target then some entry
        else if place = placeOf disk.here source then none else disk.at? place := by
  obtain ⟨entry, hentry, -, -, heq⟩ := rename_eq_of_done h
  exact ⟨entry, hentry, fun place => by rw [heq, at?_moved]⟩

/-- A file that has been renamed is found under its new name. -/
theorem find_of_rename (h : (disk.rename faults source target).1 = none)
    (hsource : disk.at? (placeOf disk.here source) = some (.file content)) :
    (disk.rename faults source target).2.find target =
      .ok (placeOf disk.here target, .file content) := by
  obtain ⟨entry, hentry, hlocate, hnew, heq⟩ := rename_eq_of_done h
  cases hsource.symm.trans hentry
  have hroot : placeOf disk.here target ≠ [] := fun hroot => hnew (by rw [hroot, at?_root])
  -- No directory has moved: neither name is one of a directory.
  have hkept : ∀ other, disk.at? other = some .directory →
      (disk.moved (placeOf disk.here source) (placeOf disk.here target)
        (.file content)).at? other = some .directory := by
    intro other hother
    have htarget : other ≠ placeOf disk.here target := by
      rintro rfl
      exact hnew hother
    have hmoved : other ≠ placeOf disk.here source := by
      rintro rfl
      cases hother.symm.trans hsource
    rw [at?_moved, if_neg htarget, if_neg hmoved, hother, ite_self]
  rw [heq]
  refine bind_eq_ok_iff.mpr ⟨_, locate_of_directories hkept rfl hlocate, ?_⟩
  rw [at?_moved, if_neg hroot, if_pos rfl]
  rfl

end Disk

end ContainerCommand.Host
