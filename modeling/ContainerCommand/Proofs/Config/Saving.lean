import ContainerCommand.Config.Storage
import ContainerCommand.Proofs.Host.Disk
import ContainerCommand.Proofs.Path.Extension

/-! Saving a configuration.

The text is written to a file beside the target, which then gets the target's name. The target is touched
by that rename, and by nothing else unless its own place is on the way to its directory: then it may be
made a directory, and the configuration cannot be saved (`save_atomic`, `save_through_target`). Each step
may fail, and leaves behind what it has done by then. -/
namespace ContainerCommand.Config
open Host ContainerCommand.Path

variable {path : List Char} {name : List Char}

/-! ### The file beside the target -/

/-- The name that a configuration has before it gets its own. -/
def temporaryName (name : List Char) : List Char :=
  stemOfName name ++ '.' :: "toml.tmp".toList

theorem temporaryName_ne (name : List Char) : temporaryName name ≠ name :=
  stemOfName_append_ne (by decide) name

theorem components_temporary (hname : fileName? path = some name) :
    components (temporary path) = (components path).dropLast ++ [.normal (temporaryName name)] :=
  components_withExtension hname (by decide) (by decide)

theorem components_of_fileName? (hname : fileName? path = some name) :
    components path = (components path).dropLast ++ [.normal name] :=
  (List.dropLast_append_getLast? _ (fileName?_eq_some_iff.mp hname)).symm

theorem exists_places (here : Location) (hname : fileName? path = some name) :
    ∃ directory : Location, placeOf here path = directory ++ [String.ofList name] ∧
      placeOf here (temporary path) = directory ++ [String.ofList (temporaryName name)] := by
  refine ⟨((components path).dropLast).foldl step here, ?_, ?_⟩
  · rw [placeOf, components_of_fileName? hname, List.foldl_concat, List.dropLast_concat]
    rfl
  · rw [placeOf, components_temporary hname, List.foldl_concat]
    rfl

theorem placeOf_temporary_ne (here : Location) (hname : fileName? path = some name) :
    placeOf here (temporary path) ≠ placeOf here path := by
  obtain ⟨directory, hpath, htemporary⟩ := exists_places here hname
  rw [hpath, htemporary]
  intro heq
  have hnames := List.cons.inj (List.append_cancel_left heq)
  exact temporaryName_ne name (String.ofList_injective hnames.1)

/-! ### One step after the other -/

theorem outcomeOf_of_done {change : Option Fault × Disk} (h : change.1 = none) (action : String) :
    outcomeOf action change = (.ok (), change.2) := by
  obtain ⟨_, disk⟩ := change
  cases h
  rfl

theorem exists_failure_of_fault {change : Option Fault × Disk} (h : change.1 ≠ none)
    (action : String) : ∃ failure, outcomeOf action change = (.error failure, change.2) := by
  obtain ⟨fault, disk⟩ := change
  cases fault with
  | none => exact absurd rfl h
  | some fault => exact ⟨_, rfl⟩

/-- The directory of a path is made along all of its components but the last. -/
theorem makeDirectories_parent (faults : Faults) {path parent : List Char} (disk : Disk)
    (hparent : parent? path = some parent) :
    let made := if parent.isEmpty then (none, disk) else disk.makeDirectories faults parent
    made.2.here = disk.here ∧
      (∀ place, Disk.Keeps (components path).dropLast disk made.2 place) ∧
      (made.1 = none →
        ∀ place ∈ stations disk.here (components path).dropLast, made.2.at? place = some .directory) := by
  rw [← components_parent? hparent]
  dsimp only
  split
  · rename_i hempty
    rw [List.isEmpty_iff.mp hempty]
    exact ⟨rfl, .refl _ disk, fun _ _ hplace => nomatch hplace⟩
  · exact ⟨disk.here_makeDirectories faults parent, disk.keeps_makeDirectories faults parent,
      fun hdone _ hplace => Disk.at?_makeDirectories_of_done hdone hplace⟩

/-- Replacing a file ends before anything is written, with some directories made; or with all of them
made and the file beside it written as far as that went; or when that file has got its name. -/
theorem replace_cases (faults : Faults) (path : String) (contents : List UInt8) (disk : Disk) :
    let way := (components path.toList).dropLast
    ∃ made : Disk, made.here = disk.here ∧ (∀ place, Disk.Keeps way disk made place) ∧
      let written := made.write faults (temporary path.toList) contents
      let renamed := written.2.rename faults (temporary path.toList) path.toList
      ((∃ failure, replace faults path contents disk = (.error failure, made)) ∨
        (∃ failure, replace faults path contents disk = (.error failure, written.2)) ∨
        (∀ place ∈ stations disk.here way, made.at? place = some .directory) ∧
          written.1 = none ∧ renamed.1 = none ∧
          replace faults path contents disk = (.ok (), renamed.2)) := by
  intro way
  unfold replace
  cases hparent : parent? path.toList with
  | none => exact ⟨disk, rfl, .refl way disk, .inl ⟨_, rfl⟩⟩
  | some parent =>
    have hway := makeDirectories_parent faults disk hparent
    dsimp only at hway ⊢
    generalize (if parent.isEmpty then (none, disk) else disk.makeDirectories faults parent) =
      made at hway ⊢
    obtain ⟨hhere, hkept, hdone⟩ := hway
    refine ⟨made.2, hhere, hkept, ?_⟩
    generalize hwritten : made.2.write faults (temporary path.toList) contents = written
    generalize hrenamed : written.2.rename faults (temporary path.toList) path.toList = renamed
    by_cases hdirectories : made.1 = none
    · rw [outcomeOf_of_done hdirectories]
      dsimp only
      rw [hwritten]
      by_cases hwrite : written.1 = none
      · rw [outcomeOf_of_done hwrite]
        dsimp only
        rw [hrenamed]
        by_cases hrename : renamed.1 = none
        · rw [outcomeOf_of_done hrename]
          exact .inr (.inr ⟨hdone hdirectories, hwrite, hrename, rfl⟩)
        · obtain ⟨fault, hfault⟩ := Option.ne_none_iff_exists'.mp hrename
          obtain ⟨failure, hfailure⟩ := exists_failure_of_fault hrename ("replace config " ++ path)
          have hsame : renamed.2 = written.2 := hrenamed ▸ Disk.rename_of_fault (hrenamed ▸ hfault)
          exact .inr (.inl ⟨failure, by rw [hfailure, hsame]⟩)
      · obtain ⟨failure, hfailure⟩ := exists_failure_of_fault hwrite
          ("write temp config " ++ String.ofList (temporary path.toList))
        exact .inr (.inl ⟨failure, by rw [hfailure]⟩)
    · obtain ⟨failure, hfailure⟩ := exists_failure_of_fault hdirectories
        ("create directory " ++ String.ofList parent)
      exact .inl ⟨failure, by rw [hfailure]⟩

/-- What a change leaves behind where one file takes the place of another, and directories are made on
the way there. -/
structure Replaces (contents : List UInt8) (way : List Component) (target beside : Location)
    (before : Disk) (result : Outcome Unit) (after : Disk) : Prop where
  /-- Whatever the result, nothing is changed elsewhere. -/
  others : ∀ place, place ≠ target → place ≠ beside → Disk.Keeps way before after place
  failed : ∀ failure, result = .error failure → Disk.Keeps way before after target
  /-- What is on the way is a directory by the time that the target is looked at. -/
  passed : target ∈ stations before.here way → ∃ failure, result = .error failure
  done : result = .ok () →
    (∀ entry, before.at? beside = some entry → entry.isDevice = false) →
    after.at? target = some (.file contents) ∧ after.at? beside = none

theorem replace_replaces (faults : Faults) {path : String} (contents : List UInt8) (disk : Disk)
    (hname : fileName? path.toList = some name) :
    Replaces contents (components path.toList).dropLast (placeOf disk.here path.toList)
      (placeOf disk.here (temporary path.toList)) disk
      (replace faults path contents disk).1 (replace faults path contents disk).2 := by
  obtain ⟨directory, htarget, hbeside⟩ := exists_places disk.here hname
  have hne := (placeOf_temporary_ne disk.here hname).symm
  obtain ⟨made, hhere, hkept, hcases⟩ := replace_cases faults path contents disk
  have hwritten : ∀ place, place ≠ placeOf disk.here (temporary path.toList) →
      (made.write faults (temporary path.toList) contents).2.at? place = made.at? place :=
    fun place hplace => Disk.at?_write_of_ne (hhere ▸ hplace)
  rcases hcases with ⟨failure, hresult⟩ | ⟨failure, hresult⟩ | ⟨hway, hwrite, hrename, hresult⟩
  · rw [hresult]
    exact ⟨fun place _ _ => hkept place, fun _ _ => hkept _, fun _ => ⟨failure, rfl⟩,
      fun h => by cases h⟩
  · rw [hresult]
    exact ⟨fun place _ hplace => (hkept place).congr (hwritten place hplace),
      fun _ _ => (hkept _).congr (hwritten _ hne), fun _ => ⟨failure, rfl⟩, fun h => by cases h⟩
  · obtain ⟨entry, hentry, hafter⟩ := Disk.rename_of_done hrename
    rw [Disk.here_write, hhere] at hentry hafter
    have hroot : placeOf disk.here path.toList ≠ [] := by simp [htarget]
    have hroot' : placeOf disk.here (temporary path.toList) ≠ [] := by simp [hbeside]
    rw [hresult]
    refine ⟨fun place hplace hplace' => ?_, fun _ h => (by cases h), fun hpassed => ?_,
      fun _ hdevice => ⟨?_, ?_⟩⟩
    · refine (hkept place).congr ?_
      rw [hafter, if_neg hplace, if_neg hplace']
      split
      · rename_i hplace
        exact hplace ▸ rfl
      · exact hwritten place hplace'
    · -- A file has been given the target's name, but there is a directory.
      obtain ⟨_, _, _, hnone, _⟩ := Disk.rename_eq_of_done hrename
      rw [Disk.here_write, hhere, hwritten _ hne, hway _ hpassed] at hnone
      exact absurd rfl hnone
    · -- Nothing but the contents can stand where they have just been written.
      have hcontents := Disk.at?_write_of_keeps hhere hkept hwrite hdevice
      rw [hentry] at hcontents
      rw [hafter, if_neg hroot, if_pos rfl, hcontents]
    · rw [hafter, if_neg hroot', if_neg hne.symm, if_pos rfl]

/-- Only a path that turns back passes its own target on the way. -/
theorem parent_mem_of_mem_stations {here : Location} (hname : fileName? path = some name)
    (h : placeOf here path ∈ stations here (components path).dropLast) :
    .parent ∈ (components path).dropLast := by
  by_contra hparent
  have hplace : placeOf here path =
      (components path).dropLast.foldl step here ++ [String.ofList name] := by
    rw [placeOf, components_of_fileName? hname, List.foldl_concat, List.dropLast_concat]
    rfl
  rw [hplace] at h
  cases hway : (components path).dropLast with
  | nil =>
    rw [hway] at h
    cases h
  | cons c rest =>
    have hdrop : (components path).drop 1 = rest ++ [.normal name] := by
      rw [components_of_fileName? hname, hway]
      rfl
    have hrest : ∀ other ∈ rest, other ≠ .root ∧ other ≠ .parent := by
      intro other hother
      refine ⟨?_, ?_⟩
      · -- Only the first component can be the root.
        rintro rfl
        cases isInner_of_mem_drop Nat.one_ne_zero (hdrop ▸ List.mem_append_left _ hother)
      · rintro rfl
        exact hparent (hway ▸ List.mem_cons_of_mem c hother)
    rw [hway] at h
    -- What is passed from there on lies above the end of the way, and the target below it.
    have habove := (prefix_of_mem_stations hrest h).length_le
    rw [List.length_append, List.foldl_cons, List.length_singleton] at habove
    omega

/-- A configuration that cannot be saved is not brought to the disk. -/
theorem save_cases (faults : Faults) (config : Config) (path : String) (disk : Disk) :
    (∃ failure, save faults config path disk = (.error failure, disk)) ∨
      ∃ contents, config.text = .ok contents ∧
        save faults config path disk = replace faults path (Text.encode contents) disk := by
  cases hvalid : config.validate with
  | error failure => exact .inl ⟨failure, by rw [save, hvalid]⟩
  | ok _ =>
    cases htext : config.text with
    | error failure =>
      refine .inl ⟨⟨failure.cause, "serialize config toml" :: failure.context⟩, ?_⟩
      rw [save, hvalid, htext]
      rfl
    | ok contents =>
      refine .inr ⟨contents, rfl, ?_⟩
      rw [save, hvalid, htext]
      rfl

/-- **Saving a configuration leaves the target whole, unless the way there leads through it.** Where a
path ends in a name, the text is written to another name of the same directory first, whatever extension
the name has. If anything fails, be it the configuration itself or a step on the disk that has done part
of its work by then, the target holds what it held before; if nothing fails, it holds all of the text,
and the file beside it is gone. Nothing else changes, but that directories on the way to the target may
have been made where there was nothing. If the target itself is on the way, which takes a turn back,
then nothing can be saved, and the target may be one of these directories. -/
theorem save_atomic (faults : Faults) (config : Config) (disk : Disk) {path : String}
    (hname : fileName? path.toList = some name) :
    let way := (components path.toList).dropLast
    let target := placeOf disk.here path.toList
    let beside := placeOf disk.here (temporary path.toList)
    let saved := save faults config path disk
    (∃ other, other ≠ name ∧ components path.toList = way ++ [.normal name] ∧
      components (temporary path.toList) = way ++ [.normal other] ∧
      beside.dropLast = target.dropLast ∧ beside ≠ target) ∧
    (∀ place, place ≠ target → place ≠ beside → Disk.Keeps way disk saved.2 place) ∧
    (target ∉ stations disk.here way →
      ∀ failure, saved.1 = .error failure → saved.2.at? target = disk.at? target) ∧
    (target ∈ stations disk.here way →
      .parent ∈ way ∧ (∃ failure, saved.1 = .error failure) ∧ Disk.Keeps way disk saved.2 target) ∧
    (saved.1 = .ok () → ∃ contents, config.text = .ok contents ∧
      ((∀ entry, disk.at? beside = some entry → entry.isDevice = false) →
        saved.2.at? target = some (.file (Text.encode contents)) ∧ saved.2.at? beside = none)) := by
  intro way target beside saved
  refine ⟨?_, ?_⟩
  · obtain ⟨directory, htarget, hbeside⟩ := exists_places disk.here hname
    refine ⟨temporaryName name, temporaryName_ne name, components_of_fileName? hname,
      components_temporary hname, ?_, placeOf_temporary_ne disk.here hname⟩
    rw [show target = _ from htarget, show beside = _ from hbeside, List.dropLast_concat,
      List.dropLast_concat]
  · rcases save_cases faults config path disk with ⟨failure, hsaved⟩ | ⟨contents, htext, hsaved⟩
    · rw [show saved = _ from hsaved]
      exact ⟨fun place _ _ => .refl way disk place, fun _ _ _ => rfl,
        fun hpassed => ⟨parent_mem_of_mem_stations hname hpassed, ⟨failure, rfl⟩, .refl way disk target⟩,
        nofun⟩
    · have h := replace_replaces faults (Text.encode contents) disk hname
      rw [← hsaved] at h
      refine ⟨h.others, fun hclear failure hfailure => ?_, fun hpassed => ?_,
        fun hok => ⟨contents, htext, h.done hok⟩⟩
      · exact (h.failed failure hfailure).resolve_right fun hmade => hclear hmade.1
      · obtain ⟨failure, hfailure⟩ := h.passed hpassed
        exact ⟨parent_mem_of_mem_stations hname hpassed, ⟨failure, hfailure⟩, h.failed failure hfailure⟩

/-- Saved under a name that is all extension, over a file of one byte: without faults the file is
replaced; with a full disk after three bytes it is still that file. -/
theorem save_atomic_over_dotted :
    let disk : Disk := { entries := [([".sifrun"], .file [7])] }
    let full : Faults := { write := some (3, .other 28 "No space left on device") }
    fileName? ".sifrun".toList = some ".sifrun".toList ∧
    (∃ failure, (save full {} ".sifrun" disk).1 = .error failure) ∧
    (save full {} ".sifrun" disk).2.at? [".sifrun"] = some (.file [7]) ∧
    ∃ contents, ({} : Config).text = .ok contents ∧
      (save {} {} ".sifrun" disk).2.at? [".sifrun"] = some (.file (Text.encode contents)) := by
  intro disk full
  have hname : fileName? ".sifrun".toList = some ".sifrun".toList := by decide
  have hplace : placeOf disk.here ".sifrun".toList = [".sifrun"] := by decide
  obtain ⟨failure, hfailure⟩ : ∃ failure, (save full {} ".sifrun" disk).1 = .error failure :=
    exists_eq_error_of_isOk (by decide +kernel)
  obtain ⟨-, -, hfailed, -, -⟩ := save_atomic full {} disk hname
  obtain ⟨-, -, -, -, hdone⟩ := save_atomic {} {} disk hname
  have hkept := hfailed (by decide) failure hfailure
  obtain ⟨contents, htext, hwritten⟩ := hdone (by decide +kernel)
  rw [hplace] at hkept hwritten
  refine ⟨hname, ⟨failure, hfailure⟩, hkept, contents, htext, (hwritten ?_).1⟩
  have hnone : disk.at? (placeOf disk.here (temporary ".sifrun".toList)) = none := by decide
  rw [hnone]
  nofun

/-- The way to a target may lead through the target: with nothing on the disk a configuration cannot be
saved, and its target, where nothing was, has become a directory, so that it cannot be loaded either. -/
theorem save_through_target :
    let disk : Disk := {}
    let saved := save {} {} "new/../new" disk
    placeOf disk.here "new/../new".toList = ["new"] ∧ disk.at? ["new"] = none ∧
      load disk "new/../new" = .ok {} ∧
      (∃ failure, saved.1 = .error failure) ∧ saved.2.at? ["new"] = some .directory ∧
      ∃ failure, load saved.2 "new/../new" = .error failure := by
  intro disk saved
  refine ⟨by decide, by decide, by decide +kernel, exists_eq_error_of_isOk (by decide +kernel),
    by decide +kernel, exists_eq_error_of_isOk (by decide +kernel)⟩

end ContainerCommand.Config
