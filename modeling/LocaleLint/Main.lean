import LocaleLint.CommandLine.Run
import Std.Time.DateTime

/-!
# The program

Runs the command line on the files of the system, with its clock. All that is decided is
decided by the command line; here it is only read, written and printed.
-/

set_option autoImplicit false

namespace LocaleLint

/-- The fault of an error number; some systems count these downwards from zero. -/
def FileFault.ofNumber? (code : UInt32) : Option FileFault :=
  match min code.toNat (4294967296 - code.toNat) with
  | 20 => some .notDirectory
  | 21 => some .isDirectory
  | 36 => some .nameTooLong
  | 40 => some .linkLoop
  | _ => none

/-- The fault that an error of the system stands for. -/
def FileFault.ofError (error : IO.Error) : FileFault :=
  match error with
  | .noFileOrDirectory .. => .notFound
  | .permissionDenied .. => .permissionDenied
  | .alreadyExists .. => .alreadyExists
  | .inappropriateType _ code _ => (ofNumber? code).getD (.other (toString error))
  | .invalidArgument _ code _ => (ofNumber? code).getD (.other (toString error))
  | .resourceExhausted _ code _ => (ofNumber? code).getD (.other (toString error))
  | _ => .other (toString error)

/-- The result of an action on files. -/
def faulty {α : Type} (action : IO α) : IO (Except FileFault α) := do
  match ← action.toBaseIO with
  | .ok value => return .ok value
  | .error error => return .error (FileFault.ofError error)

/-- The result of an action, if it has one. -/
def resultOf? {α : Type} (action : IO α) : IO (Option α) := do
  return (← action.toBaseIO).toOption

/-- The files below a directory; `around` is the path from where the listing started. -/
partial def listFiles (around directory : String) : IO (List String) := do
  let mut found : List String := []
  for entry in ← (← IO.FS.realPath directory).readDir do
    let path := PathText.join around entry.fileName
    let metadata? ← resultOf? entry.path.symlinkMetadata
    match metadata?.map (·.type) with
    | some IO.FS.FileType.file => found := path :: found
    | some IO.FS.FileType.dir =>
      let below? ← resultOf? (listFiles path entry.path.toString)
      found := below?.getD [] ++ found
    | _ => pure ()
  return found

/-- The files below a path; a file that is no link is below itself, by the empty path. -/
def filesBelowPath (path : String) : IO (List String) := do
  let target ← IO.FS.realPath path
  if ← target.isDir then listFiles "" path
  else return if target.toString = path then [""] else []

instance : Host IO where
  read path := faulty do return (← IO.FS.readBinFile path).toList
  write path bytes := faulty (IO.FS.writeBinFile path ⟨bytes.toArray⟩)
  makeDirectory path := faulty (IO.FS.createDir path)
  isDirectory path := do
    match ← resultOf? (IO.FS.realPath path) with
    | some target => target.isDir
    | none => return false
  isPresent path := return (← resultOf? (IO.FS.realPath path)).isSome
  canonical? path := return (← resultOf? (IO.FS.realPath path)).map (·.toString)
  filesBelow path := return (← resultOf? (filesBelowPath path)).getD []
  now := do
    let moment ← Std.Time.Timestamp.now
    return Timestamp.ofNanoseconds moment.toNanosecondsSinceUnixEpoch.toInt.toNat

/-- Whether the listing is printed in color: if the terminal can show it, or if it is asked
for. -/
def wantsColor : IO Bool := do
  let forced := ((← IO.getEnv "CLICOLOR_FORCE").getD "0") != "0"
  let allowed := ((← IO.getEnv "CLICOLOR").getD "1") != "0"
  let plain := (← IO.getEnv "NO_COLOR").isSome
  let terminal := ((← IO.getEnv "TERM").getD "dumb") != "dumb"
  let stdout ← IO.getStdout
  return forced || ((← stdout.isTty) && allowed && terminal && !plain)

end LocaleLint

/-- Runs the program on its arguments. -/
def main (arguments : List String) : IO UInt32 := do
  let color ← LocaleLint.wantsColor
  let result : LocaleLint.CommandLine.Exit ← LocaleLint.CommandLine.run arguments color
  IO.print result.stdout
  IO.eprint result.stderr
  return UInt32.ofNat result.code
