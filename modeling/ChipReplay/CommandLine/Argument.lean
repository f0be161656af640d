import ChipReplay.CommandLine.Value
import ChipReplay.Text.Plain
/-!
# Arguments

The command line is a verb with its parameters. A parameter is named by a long or a short
switch, and its value follows as the next argument or behind an equals sign; short switches may
share one dash. A value is checked when the argument after it is looked at, and not at all if
that one is unknown.
-/

namespace ChipReplay.CommandLine

/-- What the program is asked to do. -/
inductive Verb where
  | info
  | prepare
  | simulate
deriving DecidableEq

namespace Verb

/-- All verbs. -/
def all : List Verb := [info, prepare, simulate]

/-- The verb as it is written. -/
def name : Verb → String
  | info => "info"
  | prepare => "preprocess"
  | simulate => "simulate"

/-- The verb that is written `text`. -/
def ofName? (text : String) : Option Verb := all.find? fun v => v.name == text

end Verb

/-- Something an argument can set. -/
inductive Parameter where
  /-- The input. -/
  | file
  | verbose
  | output
  | pcmDir
  | loops
  | mask
  | pitchFilter
  | mutePcm
  | busyEvery
  | maxSeconds
  | traceWrites
  | help
  | version
deriving DecidableEq

namespace Parameter

/-- The name behind two dashes. -/
def long : Parameter → String
  | file => "file"
  | verbose => "verbose"
  | output => "output"
  | pcmDir => "pcm-dir"
  | loops => "loops"
  | mask => "mask"
  | pitchFilter => "pitch-filter"
  | mutePcm => "mute-pcm"
  | busyEvery => "busy-every"
  | maxSeconds => "max-seconds"
  | traceWrites => "trace-writes"
  | help => "help"
  | version => "version"

/-- The letter behind one dash. -/
def short? : Parameter → Option Char
  | verbose => some 'v'
  | output => some 'o'
  | loops => some 'l'
  | mask => some 'm'
  | help => some 'h'
  | version => some 'V'
  | _ => none

/-- What stands for the value, if the parameter has one. -/
def valueName? : Parameter → Option String
  | file => some "FILE"
  | output => some "OUTPUT"
  | pcmDir => some "PCM_DIR"
  | loops => some "LOOPS"
  | mask => some "MASK"
  | busyEvery => some "BUSY_EVERY"
  | maxSeconds => some "MAX_SECONDS"
  | _ => none

/-- The parameter as errors show it. -/
def display (p : Parameter) : String :=
  match p, p.valueName? with
  | file, some value => "<" ++ value ++ ">"
  | verbose, _ => "--" ++ p.long ++ "..."
  | _, some value => "--" ++ p.long ++ " <" ++ value ++ ">"
  | _, none => "--" ++ p.long

/-- The switches before the verb, in the order in which help lists them. -/
def common : List Parameter := [verbose, help, version]

/-- The switches behind a verb, in the order in which help lists them. -/
def ofVerb : Verb → List Parameter
  | .info => [verbose, help]
  | .prepare => [output, verbose, pcmDir, help]
  | .simulate =>
    [loops, verbose, mask, pitchFilter, mutePcm, busyEvery, maxSeconds, traceWrites, help]

/-- The parameters a verb cannot do without. -/
def required : Verb → List Parameter
  | .prepare => [output, file]
  | .info | .simulate => [file]

end Parameter

/-- A parameter with its value. -/
inductive Setting where
  | file (path : String)
  | output (path : String)
  | pcmDir (path : String)
  | loops (n : UInt32)
  | mask (channels : ChannelSet)
  | busyEvery (n : Nat)
  | maxSeconds (n : Nat)
  | pitchFilter
  | mutePcm
  | traceWrites
  | verbose
deriving DecidableEq

/-- What is wrong with a command line. -/
inductive UsageError where
  | valueMissing (p : Parameter)
  | repeated (p : Parameter)
  | unexpectedValue (value : String) (p : Parameter)
  | unexpectedArgument (argument : String)
  | unknownVerb (argument : String)
  | invalidValue (value : String) (p : Parameter) (reason : String)
  | missingParameters (ps : List Parameter)
  | missingVerb
deriving DecidableEq

/-- What the user wrote, as errors quote it: plain, so that it cannot command a terminal that
shows the error. -/
def quoteArgument (text : String) : String := "'" ++ Text.plain text ++ "'"

/-- The wording of a usage error. -/
def UsageError.message : UsageError → String
  | valueMissing p => "a value is required for '" ++ p.display ++ "' but none was supplied"
  | repeated p => "the argument '" ++ p.display ++ "' cannot be used multiple times"
  | unexpectedValue value p =>
    "unexpected value " ++ quoteArgument value ++ " for '" ++ p.display
      ++ "' found; no more were expected"
  | unexpectedArgument argument => "unexpected argument " ++ quoteArgument argument ++ " found"
  | unknownVerb argument => "unrecognized subcommand " ++ quoteArgument argument
  | invalidValue value p reason =>
    "invalid value " ++ quoteArgument value ++ " for '" ++ p.display ++ "': " ++ reason
  | missingParameters ps =>
    "the following required arguments were not provided:"
      ++ String.join (ps.map fun p => "\n  " ++ p.display)
  | missingVerb => "'ymstream' requires a subcommand but one was not provided"

/-- What help can be given on. -/
inductive HelpTopic where
  | program
  | verb (v : Verb)
  /-- The request for help. -/
  | help
deriving DecidableEq

/-- Why the arguments are not read to their end. -/
inductive Stop where
  | usage (e : UsageError)
  /-- There are no arguments. -/
  | bare
  | help (topic : HelpTopic)
  | version
deriving DecidableEq

/-- Reads the value of a path. -/
def readPath (p : Parameter) (make : String → Setting) (text : String) : Except Stop Setting :=
  if text = "" then .error (.usage (.valueMissing p)) else .ok (make text)

/-- Reads the value of `p` with `read`. -/
def readWith {α : Type} (p : Parameter) (read : String → Except String α) (make : α → Setting)
    (text : String) : Except Stop Setting :=
  match read text with
  | .ok a => .ok (make a)
  | .error reason => .error (.usage (.invalidValue text p reason))

/-- The setting of `p` to the value `text`. Help is given on `topic`. -/
def Parameter.read (p : Parameter) (topic : HelpTopic) (text : String) : Except Stop Setting :=
  match p with
  | file => readPath p .file text
  | output => readPath p .output text
  | pcmDir => readPath p .pcmDir text
  | loops => readWith p readWord .loops text
  | mask => readWith p readMask .mask text
  | busyEvery => readWith p (readLong 2) .busyEvery text
  | maxSeconds => readWith p (readLong 0) .maxSeconds text
  | pitchFilter => .ok .pitchFilter
  | mutePcm => .ok .mutePcm
  | traceWrites => .ok .traceWrites
  | verbose => .ok .verbose
  | help => .error (.help topic)
  | version => .error .version

/-- Arguments read so far. -/
structure Scan where
  /-- What they belong to. -/
  topic : HelpTopic := .program
  /-- What they set, newest first. -/
  settings : List Setting := []
  /-- The parameters that were set. -/
  seen : List Parameter := []
  /-- A parameter that has not been checked, with its value if that has come. -/
  pending : Option (Parameter × Option String) := none
  /-- Whether only inputs can follow. -/
  trailing : Bool := false
  /-- Whether the input has come. -/
  hasFile : Bool := false

namespace Scan

/-- `p` is set to the value `text`. -/
def set (s : Scan) (p : Parameter) (text : String) : Except Stop Scan :=
  if p ∈ s.seen ∧ p ≠ .verbose then .error (.usage (.repeated p))
  else do
    let setting ← p.read s.topic text
    return { s with settings := setting :: s.settings, seen := p :: s.seen }

/-- The pending parameter is checked. -/
def settle (s : Scan) : Except Stop Scan :=
  match s.pending with
  | none => .ok s
  | some (p, none) => .error (.usage (.valueMissing p))
  | some (p, some text) => { s with pending := none }.set p text

/-- An input that no parameter takes. -/
def unexpected (argument : String) : Except Stop Scan :=
  .error (.usage (.unexpectedArgument argument))

/-- The switch `p` came, with a value if one was attached. -/
def switch (s : Scan) (p : Parameter) (attached : Option String) : Except Stop Scan :=
  match p.valueName?, attached with
  | some _, some text => do (← s.settle).set p text
  | some _, none => do return { ← s.settle with pending := some (p, none) }
  | none, some text => .error (.usage (.unexpectedValue text p))
  | none, none => do (← s.settle).set p ""

/-- The argument without its two dashes is `name`, and `attached` stood behind an equals
sign. -/
def longSwitch (allowed : List Parameter) (s : Scan) (name : String) (attached : Option String) :
    Except Stop Scan :=
  match allowed.find? fun p => p.long == name with
  | some p => s.switch p attached
  | none => unexpected ("--" ++ name)

/-- Short switches that shared one dash. What stands behind one with a value is the value. -/
def shortSwitches (allowed : List Parameter) (s : Scan) : List Char → Except Stop Scan
  | [] => .ok s
  | c :: rest =>
    match allowed.find? fun p => p.short? == some c with
    | none => unexpected ("-" ++ String.singleton c)
    | some p =>
      if p.valueName?.isSome then
        match rest with
        | [] => s.switch p none
        | '=' :: value => s.switch p (some (String.ofList value))
        | value => s.switch p (some (String.ofList value))
      else
        match s.switch p none with
        | .ok s => s.shortSwitches allowed rest
        | .error e => .error e

/-- The name and the attached value of a long switch. -/
def splitLong (cs : List Char) : String × Option String :=
  (String.ofList (cs.takeWhile (· ≠ '=')),
    match cs.dropWhile (· ≠ '=') with
    | _ :: value => some (String.ofList value)
    | [] => none)

/-- An argument that is no switch: the value that is waited for, or the input. -/
def plain (s : Scan) (argument : String) : Except Stop Scan :=
  match s.pending, s.trailing with
  | some (p, none), false => .ok { s with pending := some (p, some argument) }
  | _, _ =>
    if s.hasFile then unexpected argument
    else do
      return { ← s.settle with pending := some (.file, some argument), hasFile := true }

/-- Reads one argument behind a verb. -/
def argument (allowed : List Parameter) (s : Scan) (text : String) : Except Stop Scan :=
  if s.trailing then s.plain text
  else
    match text.toList with
    | ['-', '-'] => .ok { s with trailing := true }
    | '-' :: '-' :: cs => s.longSwitch allowed (splitLong cs).1 (splitLong cs).2
    | '-' :: c :: cs => s.shortSwitches allowed (c :: cs)
    | _ => s.plain text

/-- Reads the arguments behind `verb`. -/
def arguments (verb : Verb) (s : Scan) : List String → Except Stop Scan
  | [] => s.settle
  | text :: rest => do (← s.argument (Parameter.ofVerb verb) text).arguments verb rest

end Scan

/-- The verb that asks for help. -/
def helpVerb : String := "help"

/-- Whether `text` is a verb, the request for help counting as one. -/
def isVerb (text : String) : Bool := (Verb.ofName? text).isSome || text == helpVerb

/-- The topic that is called `text`. -/
def HelpTopic.ofName? (text : String) : Option HelpTopic :=
  if text == helpVerb then some .help else (Verb.ofName? text).map .verb

/-- What a request for help on the given words ends with. Help is given on one topic at most. -/
def readHelp : List String → Stop
  | [] => .help .program
  | text :: rest =>
    match HelpTopic.ofName? text, rest with
    | some topic, [] => .help topic
    | some _, text :: _ => .usage (.unknownVerb text)
    | none, _ => .usage (.unknownVerb text)

/-- Reads the arguments in front of the verb, and the verb. -/
def readVerb (s : Scan) : List String → Except Stop (Verb × List String)
  | [] => .error (if s.seen.isEmpty then .bare else .usage .missingVerb)
  | text :: rest =>
    if s.trailing then
      .error (.usage (if isVerb text then .unexpectedArgument text else .unknownVerb text))
    else
      match Verb.ofName? text with
      | some verb => .ok (verb, rest)
      | none =>
        if text = helpVerb then .error (readHelp rest)
        else
          match text.toList with
          | '-' :: _ :: _ =>
            match s.argument Parameter.common text with
            | .ok s => readVerb s rest
            | .error e => .error e
          | _ => .error (.usage (.unknownVerb text))

/-- The verb and the settings that the arguments make. -/
def readArguments (args : List String) : Except Stop (Verb × List Setting) := do
  let (verb, rest) ← readVerb {} args
  let s ← Scan.arguments verb { topic := .verb verb } rest
  let missing := (Parameter.required verb).filter fun p => p ∉ s.seen
  if !missing.isEmpty then throw (.usage (.missingParameters missing))
  return (verb, s.settings.reverse)

end ChipReplay.CommandLine
