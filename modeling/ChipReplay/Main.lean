import ChipReplay.CommandLine.Program
/-!
# The program on a real file system

Reads what the arguments name, carries out the plan and prints. All decisions are made by
`ChipReplay.CommandLine`.
-/

namespace ChipReplay.CommandLine.System

/-- The failure that the system numbers `code`, which `details` tell of. -/
def storageErrorOfCode (code : UInt32) (details : String) : StorageError :=
  if code = 2 then .notFound
  else if code = 13 then .permissionDenied
  else if code = 17 then .alreadyExists
  else if code = 20 then .notDirectory
  else if code = 21 then .isDirectory
  else if code = 36 then .nameTooLong
  else .other (details ++ " (os error " ++ toString code ++ ")")

/-- The failure that a file operation of the system ended with. -/
def storageErrorOf : IO.Error → StorageError
  | .noFileOrDirectory _ code details | .interrupted _ code details
  | .alreadyExists _ code details | .invalidArgument _ code details
  | .permissionDenied _ code details | .resourceExhausted _ code details
  | .inappropriateType _ code details | .noSuchThing _ code details
  | .otherError code details | .resourceBusy code details
  | .resourceVanished code details | .unsupportedOperation code details
  | .hardwareFault code details | .unsatisfiedConstraints code details
  | .illegalOperation code details | .protocolError code details
  | .timeExpired code details => storageErrorOfCode code details
  | e => .other (toString e)

/-- What an action of the system ends with. -/
def attempt {α : Type} (action : IO α) : IO (Except StorageError α) := do
  match ← action.toBaseIO with
  | .ok a => return .ok a
  | .error e => return .error (storageErrorOf e)

/-- The full name of a file, or `path` itself if it has none. -/
def fullName (path : String) : IO String := do
  match ← attempt (IO.FS.realPath path) with
  | .ok name => return name.toString
  | .error _ => return path

/-- The name and the contents of the input that `path` names. -/
def readInput (path : String) : IO (Except Failure (String × ByteArray)) := do
  if isStandardInput path then
    return .ok (standardInputName, ← (← IO.getStdin).readBinToEnd)
  match ← attempt (IO.FS.Handle.mk path .read) with
  | .error e => return .error (openFailure path e)
  | .ok handle =>
    match ← attempt handle.readBinToEnd with
    | .error e => return .error (readFailure path e)
    | .ok data => return .ok (← fullName path, data)

/-- Whether `path` leads to a directory, in which the directory itself can be opened. -/
def isDirectory (path : String) : IO Bool := do
  return (← attempt (IO.FS.Handle.mk (Path.join path ".") .read)) matches .ok _

/-- Carries out one effect. -/
def perform (effect : Effect) : IO (Option Failure) := do
  let done ←
    match effect with
    | .writeFile path data => attempt (IO.FS.writeBinFile path data)
    | .createDirectory path =>
      makeDirectories (attempt <| IO.FS.createDir ·) isDirectory
        (path :: (Path.ofText path).parents)
  match done with
  | .ok () => return none
  | .error e => return some (effect.failure e)

/-- Carries out effects in order, up to the first that fails. -/
def performAll : List Effect → IO (Option Failure)
  | [] => return none
  | effect :: rest => do
    match ← perform effect with
    | none => performAll rest
    | some failure => return some failure

/-- Prints an outcome. -/
def finish (outcome : Outcome) : IO UInt32 := do
  for line in outcome.out do IO.println line
  for line in outcome.err do IO.eprintln line
  return outcome.exit.toUInt32

end ChipReplay.CommandLine.System

open ChipReplay.CommandLine ChipReplay.CommandLine.System in
/-- Runs the program. -/
def main (args : List String) : IO UInt32 := do
  match readArguments args with
  | .error stop => finish stop.outcome
  | .ok (verb, settings) =>
    match ← System.readInput (inputOf settings) with
    | .error failure => finish failure.outcome
    | .ok (name, raw) =>
      match (Task.ofSettings verb settings).plan name raw with
      | .error failure => finish failure.outcome
      | .ok plan =>
        match ← performAll plan.effects with
        | none => finish { exit := 0, out := plan.lines }
        | some failure => finish failure.outcome
