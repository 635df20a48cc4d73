/-
# The command line

The program as it is started.  It reads the part of the disk that its arguments call for into a
volume, runs, and writes what the run has to say.  A scan takes the list of tracked files from
standard input, one path a line, as version control prints it.
-/
import PhpCatalog.Calendar
import PhpCatalog.Command.Consulted
import PhpCatalog.Command.Run
import PhpCatalog.Php.Outline
import Std.Time.DateTime.Timestamp

namespace PhpCatalog

/-- What a path leads to on the disk, directories without their entries. -/
def look (path : String) : IO (Option Entry) := do
  try
    return some (.file (← IO.FS.readBinFile path))
  catch _ =>
    try
      discard <| IO.FS.Handle.mk (path ++ "/.") .read
      return some (.directory [])
    catch _ =>
      return none

/-- A snapshot of some paths of the disk. -/
def snapshot (here : List String) (paths : List Path) : IO Volume := do
  let mut v : Volume := { root := Entry.put (.directory []) here (.directory []), here }
  for path in paths do
    v := Command.note v path (← look path.text)
  return v

/-- The tracked files of a project, if the arguments ask for a scan. -/
def askListing (args : List String) : IO Listing := do
  if args.contains "scan" then
    let input ← IO.getStdin
    return .output 0 (← input.readToEnd)
  else
    return .unavailable

end PhpCatalog

/-- Runs the program on its arguments. -/
def main (args : List String) : IO UInt32 := do
  let here := (PhpCatalog.Path.ofString (toString (← IO.currentDir))).parts
  let listing ← PhpCatalog.askListing args
  let volume ← PhpCatalog.snapshot here (PhpCatalog.Command.consulted here listing args)
  let seconds := (← Std.Time.Timestamp.now).toSecondsSinceUnixEpoch.val
  let now := PhpCatalog.momentText seconds.toNat
  let surroundings : PhpCatalog.Command.Surroundings :=
    { volume, listing, now, read := PhpCatalog.Php.outline }
  let outcome := PhpCatalog.Command.run surroundings args
  IO.print outcome.stdout
  IO.eprint outcome.stderr
  if let some crash := outcome.crash then
    IO.eprintln crash.message
  return outcome.exitCode.toNat.toUInt32
