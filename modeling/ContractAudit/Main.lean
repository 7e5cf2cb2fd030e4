import ContractAudit.Command.Decoders
import ContractAudit.Command.Run
import Std.Time.DateTime.Timestamp

namespace ContractAudit.Command

def ioError : IO.Error → IoError
  | .noFileOrDirectory _ _ _ => .notFound
  | .inappropriateType _ 20 _ => .notADirectory
  | .inappropriateType _ 21 _ => .isDirectory
  | .invalidArgument _ 36 _ => .nameTooLong
  | e => .other (toString e)

partial def readEntry (path : String) : IO (Except IoError Entry) := do
  try
    return .ok (.file (← IO.FS.readBinFile path))
  catch e =>
    match ioError e with
    | .isDirectory =>
      try
        let listed ← ((← IO.currentDir) / path).readDir
        let entries ← listed.toList.filterMapM fun listed ↦ do
          match ← readEntry (Path.join path listed.fileName) with
          | .ok entry => return some (listed.fileName, entry)
          | .error _ => return none
        return .ok (.directory entries)
      catch e => return .error (ioError e)
    | cause => return .error cause

def readDisk (paths : List String) : IO Disk := do
  let known ← paths.mapM fun path ↦ return (path, ← readEntry path)
  return ⟨fun path ↦ (known.lookup path).getD (.error .notFound)⟩

def readGrammar (disk : Disk) (files : List String) : IO Grammar := do
  let trees ← files.filterMapM fun file ↦ do
    let beside ← readDisk [file ++ ".cst"]
    let tree := (beside.readText (file ++ ".cst")).toOption.bind fun text ↦
      (Json.parse? text).bind Concrete.Tree.ofJson?
    return (disk.readText file).toOption.bind fun source ↦ tree.map (source, ·)
  return ⟨fun source ↦
    match trees.lookup source with
    | some tree => .ok tree
    | none => .error "the source has no syntax tree"⟩

/-- What an audit looks at: its path and the files that it covers, the configuration, and the
narrative analysis that the configuration names. -/
def readWorld (env : Environment) (now : Timestamp) : Option Request → IO World
  | some (.audit options) => do
    let paths := options.path :: options.config.toList
    let disk ← readDisk paths
    let files := (disk.solidityFiles options.path).toOption.getD []
    let narrative := match loadConfig decodeSettings disk env options with
      | .ok config => narrativeFile? config.narrative
      | .error _ => none
    let started ← IO.monoMsNow
    let _ ← readDisk narrative.toList
    let elapsedMs := (← IO.monoMsNow) - started
    let disk ← readDisk (paths ++ files ++ narrative.toList)
    let grammar ← readGrammar disk files
    return ⟨disk, grammar, decodeSettings, decodeAnalysis, env, now, fun _ ↦ elapsedMs⟩
  | _ =>
    return ⟨⟨fun _ ↦ .error .notFound⟩, ⟨fun _ ↦ .error "no source"⟩, decodeSettings,
      decodeAnalysis, env, now, fun _ ↦ 0⟩

def writeFile (path content : String) : IO (Option IoError) := do
  try
    IO.FS.writeFile path content
    return none
  catch e => return some (ioError e)

end ContractAudit.Command

open ContractAudit in
def main (args : List String) : IO UInt32 := do
  let env : Environment :=
    ⟨← IO.getEnv "VERISECURE_DETECTORS", ← IO.getEnv "VERISECURE_ISOLATE_FAULTS"⟩
  let clock ← Std.Time.Timestamp.now
  let now := (Timestamp.ofNanoseconds? clock.toNanosecondsSinceUnixEpoch.val).getD .epoch
  let world ← Command.readWorld env now (Command.Request.parse? args)
  let outcome ← Command.run world Command.writeFile args
  IO.print (Command.printed outcome.output)
  IO.eprint (Command.printed outcome.complaints)
  return outcome.status.toUInt32
