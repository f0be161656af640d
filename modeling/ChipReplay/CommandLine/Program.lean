import ChipReplay.CommandLine.Help
import ChipReplay.CommandLine.Report
import ChipReplay.CommandLine.Storage
import ChipReplay.Gzip.Member
/-!
# The program

A command line becomes a task, a task with its input becomes a plan, and a plan is what to write
and what to print. Only carrying out a plan touches files, so `run` gives the whole program as a
function of its arguments, its input and the files it finds.
-/

namespace ChipReplay.CommandLine

/-- How a playback is simulated. -/
structure SimulateOptions where
  loops : UInt32 := 1
  mask : ChannelSet := .all
  pitchFilter : Bool := false
  mutePcm : Bool := false
  busyEvery : Nat := 0
  maxSeconds : Nat := 600
  traceWrites : Bool := false
deriving DecidableEq

/-- What the program does. -/
inductive Task where
  | info
  | prepare (output : String) (pcmDir : Option String)
  | simulate (options : SimulateOptions)
deriving DecidableEq

/-- The options with one more setting. -/
def SimulateOptions.with (o : SimulateOptions) : Setting → SimulateOptions
  | .loops loops => { o with loops }
  | .mask mask => { o with mask }
  | .busyEvery busyEvery => { o with busyEvery }
  | .maxSeconds maxSeconds => { o with maxSeconds }
  | .pitchFilter => { o with pitchFilter := true }
  | .mutePcm => { o with mutePcm := true }
  | .traceWrites => { o with traceWrites := true }
  | .file _ | .output _ | .pcmDir _ | .verbose => o

/-- The input among the settings. -/
def inputOf (settings : List Setting) : String :=
  (settings.findSome? fun | .file path => some path | _ => none).getD ""

/-- The task that a verb and its settings make. -/
def Task.ofSettings (verb : Verb) (settings : List Setting) : Task :=
  match verb with
  | .info => .info
  | .prepare =>
    .prepare ((settings.findSome? fun | .output path => some path | _ => none).getD "")
      (settings.findSome? fun | .pcmDir path => some path | _ => none)
  | .simulate => .simulate (settings.foldl SimulateOptions.with {})

/-- Why a task fails: what was attempted, and what went wrong, outermost first. -/
structure Failure where
  context : String
  causes : List String
deriving DecidableEq

/-- The lines that tell of a failure. Causes are numbered if there are several. -/
def Failure.lines (f : Failure) : List String :=
  ("Error: " ++ f.context).splitOn "\n"
    ++ match f.causes with
      | [] => []
      | [cause] => ["", "Caused by:", "    " ++ cause]
      | causes =>
        "" :: "Caused by:" ::
          causes.zipIdx.map fun (cause, i) => "    " ++ toString i ++ ": " ++ cause

/-- A change to the stored files. -/
inductive Effect where
  | writeFile (path : String) (data : ByteArray)
  | createDirectory (path : String)

/-- What a failed effect is reported as. -/
def Effect.failure (e : StorageError) : Effect → Failure
  | writeFile path _ => ⟨"failed to write " ++ path, [e.message]⟩
  | createDirectory path => ⟨"failed to create " ++ path, [e.message]⟩

/-- What a task comes to: effects in order, then lines to print. -/
structure Plan where
  effects : List Effect
  lines : List String

/-! ## Plans -/

/-- The error `e`, told by `causes`, in the given context. -/
def inContext {ε α : Type} (context : String) (causes : ε → List String) :
    Except ε α → Except Failure α
  | .ok a => .ok a
  | .error e => .error ⟨context, causes e⟩

/-- The data of an input, inflated if it is a gzip file. -/
def unpack (raw : ByteArray) : Except Failure ByteArray :=
  if Gzip.isGzip raw then
    inContext "failed to decompress gzip input" (fun e => [e.message]) (Gzip.decompress raw)
  else .ok raw

/-- The plan that shows what is in the file called `name`. -/
def planInfo (name : String) (data : ByteArray) : Except Failure Plan := do
  let header ← inContext "failed to parse VGM header" HeaderError.causes (Header.read data)
  let prepared ← inContext "failed to walk VGM commands" PrepareError.causes (prepare data)
  return ⟨[], infoLines name header prepared⟩

/-- The file name of a sample block: its kind and its offset in sample memory. -/
def blockFileName (b : SampleBlock) : String :=
  (match b.kind with
    | .a => "adpcm-a"
    | .b => "adpcm-b")
    ++ "_" ++ Hex.padTo 6 (Hex.upper b.offset) ++ ".bin"

/-- The effects that put every sample block into a file of its own in `dir`. -/
def exportEffects (dir : String) (blocks : List SampleBlock) : List Effect :=
  .createDirectory dir :: blocks.map fun b => .writeFile (Path.join dir (blockFileName b)) b.data

/-- The plan that prepares a file. -/
def planPrepare (output : String) (pcmDir : Option String) (data : ByteArray) :
    Except Failure Plan := do
  let prepared ← inContext "failed to preprocess VGM" PrepareError.causes (prepare data)
  let exports :=
    match pcmDir with
    | some dir => exportEffects dir prepared.blocks
    | none => []
  return ⟨.writeFile output prepared.data :: exports, (blockTable prepared.blocks).lines⟩

/-- The bench that simulates the playback of a file. -/
def SimulateOptions.bench (o : SimulateOptions) (p : Prepared) : Bench :=
  let limit := min (o.maxSeconds * sampleRate) largestLong
  let b := Bench.new { logWrites := o.traceWrites, initialMask := o.mask }
    { loops := o.loops, maxTicks := limit, busyEvery := o.busyEvery } (.ofPrepared p)
  let b := if o.pitchFilter then b.onDevice (Device.live · (.setPitchFilter true)) else b
  if o.mutePcm then b.onDevice (Device.live · (.setPcmMuted true)) else b

/-- The plan that simulates the playback of a file. -/
def planSimulate (o : SimulateOptions) (data : ByteArray) : Except Failure Plan := do
  let prepared ← inContext "failed to preprocess VGM" PrepareError.causes (prepare data)
  match (o.bench prepared).run Bench.patience with
  | (.ended, b) => return ⟨[], (reportTable b.report).lines⟩
  | (.failed e, _) => throw ⟨"simulation aborted", e.causes⟩
  | (.unfinished, _) => throw ⟨"simulation aborted", ["the playback does not end"]⟩

/-- The plan of a task for the input `raw`, which is called `name`. -/
def Task.plan (t : Task) (name : String) (raw : ByteArray) : Except Failure Plan := do
  let data ← unpack raw
  match t with
  | info => planInfo name data
  | prepare output pcmDir => planPrepare output pcmDir data
  | simulate options => planSimulate options data

/-! ## Running -/

/-- What the program ends with. -/
structure Outcome where
  exit : UInt8
  out : List String := []
  err : List String := []
deriving DecidableEq

/-- The program's name and version. -/
def versionLine : String := "ymstream 0.3.0"

/-- The outcome when the arguments name no task. -/
def Stop.outcome : Stop → Outcome
  | help topic => { exit := 0, out := topic.lines }
  | version => { exit := 0, out := [versionLine] }
  | bare => { exit := 2, err := HelpTopic.program.lines }
  | usage e =>
    { exit := 2
      err := ("error: " ++ e.message).splitOn "\n"
        ++ ["", "For more information, try '--help'."] }

/-- The outcome of a failed task. -/
def Failure.outcome (f : Failure) : Outcome := { exit := 1, err := f.lines }

/-- The name that stands for standard input. -/
def standardInput : String := "-"

/-- Whether `path` stands for standard input. -/
def isStandardInput (path : String) : Bool := (Path.ofText path).isName standardInput

/-- What standard input is called in reports. -/
def standardInputName : String := "<stdin>"

/-- What a failure to open the input is reported as. -/
def openFailure (path : String) (e : StorageError) : Failure :=
  ⟨"failed to open input file: " ++ path, [e.message]⟩

/-- What a failure to read the input is reported as. -/
def readFailure (path : String) (e : StorageError) : Failure :=
  ⟨"failed to read input file: " ++ path, [e.message]⟩

namespace Storage

/-- The name and the contents of the input that `path` names. -/
def readInput (s : Storage) (stdin : ByteArray) (path : String) :
    Except Failure (String × ByteArray) :=
  if isStandardInput path then .ok (standardInputName, stdin)
  else
    match s.open? path with
    | .error e => .error (openFailure path e)
    | .ok (_, .directory _) => .error (readFailure path .isDirectory)
    | .ok (place, .file data) => .ok (place.text, data)

/-- One effect is carried out. -/
def apply (s : Storage) : Effect → Except StorageError Unit × Storage
  | .writeFile path data =>
    match s.writeFile path data with
    | .ok s => (.ok (), s)
    | .error e => (.error e, s)
  | .createDirectory path => s.createDirectory path

/-- Effects are carried out in order, up to the first that fails. -/
def applyAll (s : Storage) : List Effect → Option Failure × Storage
  | [] => (none, s)
  | effect :: rest =>
    match s.apply effect with
    | (.ok (), s) => s.applyAll rest
    | (.error e, s) => (some (effect.failure e), s)

end Storage

/-- The whole program: from arguments, standard input and stored files to an outcome and the
files after it. -/
def run (args : List String) (stdin : ByteArray) (s : Storage) : Outcome × Storage :=
  match readArguments args with
  | .error stop => (stop.outcome, s)
  | .ok (verb, settings) =>
    let planned := do
      let (name, raw) ← s.readInput stdin (inputOf settings)
      (Task.ofSettings verb settings).plan name raw
    match planned with
    | .error f => (f.outcome, s)
    | .ok plan =>
      match s.applyAll plan.effects with
      | (none, s) => ({ exit := 0, out := plan.lines }, s)
      | (some f, s) => (f.outcome, s)

end ChipReplay.CommandLine
