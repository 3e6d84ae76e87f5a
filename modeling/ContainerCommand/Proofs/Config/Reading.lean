import ContainerCommand.Proofs.Config.Saving
import ContainerCommand.Proofs.TaskFile.Shape
import ContainerCommand.Proofs.Text.Utf8
import ContainerCommand.Proofs.Toml.Writing
import Mathlib.Algebra.Ring.Nat

/-! Loading a configuration.

What a configuration holds is said field by field: a field is the default where the text leaves it out,
and what stands there where it does not (`Config.IsRead`, `parse_eq_ok_iff`). Since all fields
are written and a document is read as it has been written, a configuration that has been saved is loaded
as it was (`load_save`). -/
namespace ContainerCommand
open Document

variable {doc : Document} {entries : List (String × Document)}

/-! ### The launcher -/

namespace Launcher

variable {launcher : Launcher} {binary subcommand debugToken : Option Document}

/-- What a launcher holds, by the entries of its fields. -/
structure IsFilled (binary subcommand debugToken : Option Document) (launcher : Launcher) : Prop where
  binary : Fills (fun doc s => doc = .text s) "singularity" binary launcher.binary
  subcommand : Fills (fun doc s => doc = .text s) "run" subcommand launcher.subcommand
  debugToken : Fills (fun doc s => doc = .text s) "--debug" debugToken launcher.debugToken

/-- A launcher that nothing is said of is the standard one. -/
theorem isFilled_none_iff : IsFilled none none none launcher ↔ launcher = {} := by
  constructor
  · rintro ⟨hbinary, hsubcommand, hdebug⟩
    obtain ⟨binary, subcommand, debugToken⟩ := launcher
    cases hbinary
    cases hsubcommand
    cases hdebug
    rfl
  · rintro rfl
    exact ⟨.missing, .missing, .missing⟩

/-- What a launcher is read from. Its fields are those of a table, or the first items of a list; a moment
has none of them. -/
inductive IsRead : Document → Launcher → Prop
  | table {entries : List (String × Document)} {launcher : Launcher} :
      (∀ name ∈ ["binary", "subcommand", "debug_token"], isRepeated entries name = false) →
      IsFilled (find? entries "binary") (find? entries "subcommand") (find? entries "debug_token")
        launcher → IsRead (.table entries) launcher
  | list {items : List Document} {launcher : Launcher} :
      IsFilled items[0]? items[1]? items[2]? launcher → IsRead (.list items) launcher
  | moment (s : String) : IsRead (.moment s) {}

theorem exists_record?_iff :
    ofDocument? .toml doc = some launcher ↔
      ∃ field, record? .toml ["binary", "subcommand", "debug_token"] doc = some field ∧
        IsFilled (field "binary") (field "subcommand") (field "debug_token") launcher := by
  simp only [ofDocument?, Option.bind_eq_bind, Option.bind_eq_some_iff, Option.pure_def,
    Option.some.injEq, defaulted?_text?_eq_some_iff]
  constructor
  · rintro ⟨field, hfield, binary, hbinary, subcommand, hsubcommand, debugToken, hdebug, rfl⟩
    exact ⟨field, hfield, hbinary, hsubcommand, hdebug⟩
  · rintro ⟨field, hfield, hbinary, hsubcommand, hdebug⟩
    exact ⟨field, hfield, _, hbinary, _, hsubcommand, _, hdebug, rfl⟩

theorem record?_moment (s : String) :
    record? .toml ["binary", "subcommand", "debug_token"] (.moment s) =
      some (find? [(momentKey, .text s)]) := by
  show record? .toml _ (.table [(momentKey, .text s)]) = _
  exact record?_table (List.nodup_singleton _)

theorem ofDocument?_eq_some_iff : ofDocument? .toml doc = some launcher ↔ IsRead doc launcher := by
  rw [exists_record?_iff]
  constructor
  · rintro ⟨field, hfield, h⟩
    cases doc with
    | table entries =>
      obtain ⟨hdistinct, rfl⟩ := record?_table_eq_some_iff.mp hfield
      exact .table hdistinct h
    | list items =>
      cases hfield
      exact .list h
    | moment s =>
      cases (record?_moment s).symm.trans hfield
      rw [isFilled_none_iff.mp h]
      exact .moment s
    | _ => cases hfield
  · intro h
    cases h with
    | table hdistinct h => exact ⟨_, record?_table_eq_some_iff.mpr ⟨hdistinct, rfl⟩, h⟩
    | list h => exact ⟨_, rfl, h⟩
    | moment s => exact ⟨_, record?_moment s, isFilled_none_iff.mpr rfl⟩

end Launcher

/-! ### The configuration -/

namespace Config
open Host

variable {config : Config} {contents : String}

theorem limit?_eq_some_iff {n : Nat} : limit? doc = some n ↔ doc = .int n ∧ n < 2 ^ 64 := by
  have hcount : (Number.wordCount 64 : Int) = 2 ^ 64 := by decide
  rw [limit?, Option.map_eq_some_iff]
  simp only [Option.filter_eq_some_iff, int?_eq_some_iff, Number.fitsUnsigned, Bool.and_eq_true,
    decide_eq_true_eq, hcount]
  constructor
  · rintro ⟨m, ⟨rfl, hm, hlt⟩, rfl⟩
    exact ⟨by rw [Int.toNat_of_nonneg hm], by omega⟩
  · rintro ⟨rfl, hlt⟩
    exact ⟨n, ⟨rfl, by omega, by omega⟩, Int.toNat_natCast n⟩

theorem mounts?_eq_some_iff {mounts : List MountEntry} :
    mounts? doc = some mounts ↔ doc = .list (mounts.map MountEntry.toDocument) := by
  simp only [mounts?, Option.bind_eq_some_iff, items?_eq_some_iff, TaskFile.mapM_mount_eq_some_iff]
  constructor
  · rintro ⟨_, rfl, rfl⟩
    rfl
  · rintro rfl
    exact ⟨_, rfl, rfl⟩

/-- What a configuration is read from, by the entries of a table. Other entries say nothing. -/
structure IsRead (entries : List (String × Document)) (config : Config) : Prop where
  distinct : ∀ name ∈ ["output_limit_bytes", "mounts", "runtime"], isRepeated entries name = false
  outputLimit : Fills (fun doc n => doc = .int (n : Nat) ∧ n < 2 ^ 64) 1000000
    (find? entries "output_limit_bytes") config.outputLimit
  /-- Each mount stands at its place, as one text or as a pair. -/
  mounts : Fills (fun doc mounts => doc = .list (mounts.map MountEntry.toDocument)) []
    (find? entries "mounts") config.mounts
  launcher : Fills Launcher.IsRead {} (find? entries "runtime") config.launcher

theorem ofDocument?_eq_some_iff :
    ofDocument? .toml (.table entries) = some config ↔ IsRead entries config := by
  simp only [ofDocument?, Option.bind_eq_bind, Option.bind_eq_some_iff, Option.pure_def,
    Option.some.injEq, record?_table_eq_some_iff]
  constructor
  · rintro ⟨_, ⟨hdistinct, rfl⟩, limit, hlimit, mounts, hmounts, launcher, hlauncher, rfl⟩
    exact ⟨hdistinct, (defaulted?_eq_some_iff limit?_eq_some_iff).mp hlimit,
      (defaulted?_eq_some_iff mounts?_eq_some_iff).mp hmounts,
      (defaulted?_eq_some_iff Launcher.ofDocument?_eq_some_iff).mp hlauncher⟩
  · rintro ⟨hdistinct, hlimit, hmounts, hlauncher⟩
    exact ⟨_, ⟨hdistinct, rfl⟩, _, (defaulted?_eq_some_iff limit?_eq_some_iff).mpr hlimit,
      _, (defaulted?_eq_some_iff mounts?_eq_some_iff).mpr hmounts,
      _, (defaulted?_eq_some_iff Launcher.ofDocument?_eq_some_iff).mpr hlauncher, rfl⟩

theorem parse_eq_ok_iff :
    parse contents = .ok config ↔
      ∃ entries, Toml.read? contents.toList = some (.table entries) ∧ IsRead entries config := by
  rw [parse, Outcome.ofOption_eq_ok_iff, Option.bind_eq_some_iff]
  constructor
  · rintro ⟨doc, hdoc, h⟩
    obtain ⟨entries, rfl⟩ := Toml.exists_table_of_read? hdoc
    exact ⟨entries, hdoc, ofDocument?_eq_some_iff.mp h⟩
  · rintro ⟨entries, hdoc, h⟩
    exact ⟨_, hdoc, ofDocument?_eq_some_iff.mpr h⟩

/-! ### What is written -/

/-- The entries of a configuration that are no tables. -/
def ownEntries (config : Config) : List (String × Document) :=
  [("output_limit_bytes", .int config.outputLimit),
    ("mounts", .list (config.mounts.map MountEntry.toDocument))]

/-- The entries of its launcher. -/
def launcherEntries (launcher : Launcher) : List (String × Document) :=
  [("binary", .text launcher.binary), ("subcommand", .text launcher.subcommand),
    ("debug_token", .text launcher.debugToken)]

/-- A configuration as its entries and one section. -/
def writtenEntries (config : Config) : List (String × Document) :=
  config.ownEntries ++ [("runtime", launcherEntries config.launcher)].map Toml.Section.toEntry

theorem text_eq (h : Number.fitsWord config.outputLimit = true) :
    config.text = .ok (Toml.write config.writtenEntries ++ "\n") := by
  rw [text, if_pos h]
  rfl

theorem nodup_writtenEntries (config : Config) : (config.writtenEntries.map Prod.fst).Nodup := by
  show ["output_limit_bytes", "mounts", "runtime"].Nodup
  decide

theorem nodup_launcherEntries (launcher : Launcher) :
    ((launcherEntries launcher).map Prod.fst).Nodup := by
  show ["binary", "subcommand", "debug_token"].Nodup
  decide

theorem isRead_writtenEntries (h : config.outputLimit < 2 ^ 64) :
    IsRead config.writtenEntries config where
  distinct name _ := isRepeated_eq_false (nodup_writtenEntries config) name
  outputLimit := .present ⟨rfl, h⟩
  mounts := .present rfl
  launcher := .present (.table
    (fun name _ => isRepeated_eq_false (nodup_launcherEntries config.launcher) name)
    ⟨.present rfl, .present rfl, .present rfl⟩)

theorem exact_mount (entry : MountEntry) (depth : Nat) :
    Toml.Exact (depth + 1) entry.toDocument := by
  cases entry with
  | joined entry => exact .text entry
  | pair host container => exact .list (by simpa using ⟨.text host, .text container⟩)

/-- What is written is read as the entries that it has been written from. -/
theorem read?_writtenEntries (h : Number.fitsWord config.outputLimit = true) :
    Toml.read? (Toml.write config.writtenEntries ++ "\n").toList =
      some (.table config.writtenEntries) := by
  have hmounts : Toml.Exact Toml.depthLimit (.list (config.mounts.map MountEntry.toDocument)) :=
    .list (List.forall_mem_map.mpr fun entry _ => exact_mount entry _)
  apply Toml.read?_write
  · simp only [ownEntries, List.forall_mem_cons, List.not_mem_nil]
    exact ⟨⟨by decide, .int h⟩, ⟨by decide, hmounts⟩, nofun⟩
  · simp only [List.forall_mem_singleton]
    refine ⟨by decide, ?_⟩
    simp only [launcherEntries, List.forall_mem_cons, List.not_mem_nil]
    exact ⟨⟨by decide, .text _⟩, ⟨by decide, .text _⟩, ⟨by decide, .text _⟩, nofun⟩
  · exact nodup_writtenEntries config
  · exact List.forall_mem_singleton.mpr (nodup_launcherEntries config.launcher)

/-- A configuration that is written is read as it was. -/
theorem exists_text (h : config.outputLimit ≤ 2 ^ 63 - 1) :
    ∃ contents, config.text = .ok contents ∧ parse contents = .ok config := by
  have hword : Number.fitsWord config.outputLimit = true := Number.fitsWord_iff.mpr (by omega)
  exact ⟨_, text_eq hword,
    parse_eq_ok_iff.mpr ⟨_, read?_writtenEntries hword, isRead_writtenEntries (by omega)⟩⟩

/-! ### Saving and loading -/

variable {disk : Disk} {faults : Faults} {path : String} {bytes : List UInt8}

theorem load_of_find {place : Location} (hfind : disk.find path.toList = .ok (place, .file bytes))
    (hbytes : Text.decode? bytes = some contents) (hparse : parse contents = .ok config)
    (hvalid : config.validate = .ok ()) : load disk path = .ok config := by
  have hexists : disk.exists? path.toList = true := by
    rw [Disk.exists?, hfind]
    rfl
  have hread : disk.readText path = .ok contents := by
    rw [Disk.readText, Disk.read, hfind]
    exact Outcome.ofOption_eq_ok_iff.mpr hbytes
  rw [load, hexists, hread, Outcome.during, if_neg (by simp)]
  simp only [bind, Except.bind, hparse, Outcome.during, hvalid]
  rfl

/-- A file that has been replaced is found with the contents. -/
theorem find_of_replace (h : (replace faults path bytes disk).1 = .ok ())
    (hdevice : ∀ entry, disk.at? (placeOf disk.here (temporary path.toList)) = some entry →
      entry.isDevice = false) :
    ∃ place, (replace faults path bytes disk).2.find path.toList = .ok (place, .file bytes) := by
  obtain ⟨made, hhere, hkept, ⟨failure, hresult⟩ | ⟨failure, hresult⟩ | ⟨-, hwrite, hrename, hresult⟩⟩ :=
    replace_cases faults path bytes disk
  · rw [hresult] at h
    cases h
  · rw [hresult] at h
    cases h
  · have hcontents := Disk.at?_write_of_keeps hhere hkept hwrite hdevice
    rw [← hhere, ← Disk.here_write made faults (temporary path.toList) bytes] at hcontents
    rw [hresult]
    exact ⟨_, Disk.find_of_rename hrename hcontents⟩

/-- **A configuration that has been saved is loaded as it was, and one that is written in part is
completed.** A valid configuration whose limit is a signed word has a text, which is read as that
configuration, and the file that it is saved to is loaded as that configuration, which is checked again.
And a text holds a configuration exactly if each of its fields, also of those in the table of the
launcher, either is left out and has its default or stands there as it would be written. -/
theorem load_save :
    (∀ config : Config, config.validate = .ok () → config.outputLimit ≤ 2 ^ 63 - 1 →
      (∃ contents, config.text = .ok contents ∧ parse contents = .ok config) ∧
      ∀ (faults : Faults) (disk : Disk) (path : String),
        (∀ entry, disk.at? (placeOf disk.here (temporary path.toList)) = some entry →
          entry.isDevice = false) →
        (save faults config path disk).1 = .ok () →
        load (save faults config path disk).2 path = .ok config) ∧
    ∀ contents config, parse contents = .ok config ↔
      ∃ entries, Toml.read? contents.toList = some (.table entries) ∧ IsRead entries config := by
  refine ⟨fun config hvalid hlimit => ?_, fun contents config => parse_eq_ok_iff⟩
  obtain ⟨contents, htext, hparse⟩ := exists_text hlimit
  refine ⟨⟨contents, htext, hparse⟩, fun faults disk path hdevice hsaved => ?_⟩
  rcases save_cases faults config path disk with ⟨failure, hfailed⟩ | ⟨written, hwritten, hreplaced⟩
  · rw [hfailed] at hsaved
    cases hsaved
  · cases hwritten.symm.trans htext
    rw [hreplaced] at hsaved ⊢
    obtain ⟨place, hfind⟩ := find_of_replace hsaved hdevice
    exact load_of_find hfind (Text.decode?_encode contents) hparse hvalid

/-- A configuration with a mount of each shape, saved to a directory and loaded; and a text that names
the program of the launcher only. -/
theorem load_save_mixed :
    let config : Config := { mounts := [.joined "/archive:/archive", .pair "/scratch" "/work"] }
    let disk : Disk := { entries := [(["etc"], .directory)] }
    let contents := "[runtime]\nbinary = \"apptainer\"\n"
    config.validate = .ok () ∧
      (save {} config "/etc/sifrun.toml" disk).1 = .ok () ∧
      load (save {} config "/etc/sifrun.toml" disk).2 "/etc/sifrun.toml" = .ok config ∧
      parse contents = .ok { launcher := { binary := "apptainer" } } := by
  intro config disk contents
  obtain ⟨⟨⟩, hvalid⟩ := exists_eq_ok_of_isOk (by decide +kernel : config.validate.isOk = true)
  obtain ⟨⟨⟩, hsaved⟩ := exists_eq_ok_of_isOk
    (by decide +kernel : (save {} config "/etc/sifrun.toml" disk).1.isOk = true)
  have hdevice : ∀ entry, disk.at? (placeOf disk.here (temporary "/etc/sifrun.toml".toList)) =
      some entry → entry.isDevice = false := by
    have hnone : disk.at? (placeOf disk.here (temporary "/etc/sifrun.toml".toList)) = none := by
      decide
    rw [hnone]
    nofun
  obtain ⟨-, hloaded⟩ := load_save.1 config hvalid (by decide)
  exact ⟨hvalid, hsaved, hloaded {} disk _ hdevice hsaved, by decide +kernel⟩

end Config

end ContainerCommand
