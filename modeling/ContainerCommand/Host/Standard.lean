import ContainerCommand.Host.Disk

/-! The disk of a host on which nothing has been done yet. -/
namespace ContainerCommand.Host.Disk

/-- The programs of a host, by name. -/
def tools : List (String × Program) :=
  [("sh", .shell), ("echo", .echo), ("printf", .printf), ("cat", .cat), ("true", .succeed),
    ("false", .fail)]

/-- The devices of a host, by name. -/
def devices : List (String × Entry) :=
  [("null", .sink), ("full", .full), ("stdin", .stream 0), ("stdout", .stream 1),
    ("stderr", .stream 2)]

/-- A disk with the usual programs and a directory for work, which is the working directory. -/
def standard : Disk :=
  let directories : List Location :=
    [["bin"], ["dev"], ["etc"], ["home"], ["lib"], ["opt"], ["proc"], ["root"], ["sbin"], ["sys"],
      ["tmp"], ["usr"], ["usr", "bin"], ["usr", "lib"], ["usr", "local"], ["var"],
      ["tmp", "work"]]
  { entries :=
      directories.map (fun place => (place, Entry.directory)) ++
      devices.map (fun (name, entry) => (["dev", name], entry)) ++
      tools.map (fun (name, p) => (["bin", name], .program p)) ++
      tools.map (fun (name, p) => (["usr", "bin", name], .program p))
    here := ["tmp", "work"] }

/-- The disk with a file and the directories above it. -/
def withFile (disk : Disk) (path : String) (content : List UInt8) : Disk :=
  let disk := match Path.parent? path.toList with
    | some parent => (disk.makeDirectories {} parent).2
    | none => disk
  (disk.write {} path.toList content).2

end ContainerCommand.Host.Disk
