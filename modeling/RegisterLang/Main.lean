import RegisterLang.Command.Run

/-!
# The command-line program

Looks at the files that an invocation names, runs the command as on an interpreter with four
gigabytes of memory, and carries out its outcome.
-/

namespace RegisterLang.Command

/-- What a path leads to on the machine. -/
def look (path : String) : IO PathStatus := do
  let place := (← IO.currentDir) / path
  if path = "" then return .refused .noSuchFile
  match ← place.metadata.toBaseIO with
  | .error _ => return .refused .noSuchFile
  | .ok info =>
    match info.type with
    | .dir => return .directory
    | .other => return .device
    | _ =>
      match ← (IO.FS.readBinFile place).toBaseIO with
      | .ok bytes => return .file bytes.toList
      | .error _ => return .refused .noSuchFile

/-- The variables that the options read, as they are set on the machine. -/
def environment : IO Environment := do
  let names := CommandOption.all.flatMap CommandOption.variableNames
  let values ← names.mapM fun name => return (name, ← IO.getEnv name)
  return fun name => (values.lookup name).join

end RegisterLang.Command

open RegisterLang.Command in
/-- Runs the command with the arguments of the program. -/
def main (arguments : List String) : IO UInt32 := do
  let invocation : Invocation := ⟨arguments, ← environment⟩
  let seen ← (paths invocation).mapM fun path => return (path, ← look path)
  let files path := (seen.lookup path).getD (.refused .noSuchFile)
  match run (.standard 0x100000000) invocation files with
  | .error (.file fault) =>
    (← IO.getStderr).putStr (fault.message ++ "\n")
    return 1
  | .error (.machine fault) =>
    (← IO.getStderr).putStr (fault.name ++ "\n")
    return 1
  | .ok outcome =>
    (← IO.getStdout).putStr outcome.stdout
    (← IO.getStderr).putStr outcome.stderr
    if let some (path, text) := outcome.output then IO.FS.writeFile path text
    return outcome.status.toUInt32
