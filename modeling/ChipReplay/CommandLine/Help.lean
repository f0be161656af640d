import ChipReplay.CommandLine.Argument
/-!
# Help

What the program tells about itself, about a verb and about the request for help: a meaning, how
the command line is written, and lists of what can stand in it.
-/

namespace ChipReplay.CommandLine

/-- What a verb does. -/
def Verb.meaning : Verb → String
  | info => "Show header fields and command statistics"
  | prepare => "Strip ADPCM data blocks and rewrite the header for streaming"
  | simulate => "Stream a file through the firmware with simulated hardware"

namespace Parameter

/-- What a parameter is for. -/
def meaning : Parameter → String
  | file => "Input VGM/VGZ file, or `-` for stdin"
  | verbose => "Log more (-v info, -vv debug, -vvv trace). RUST_LOG takes precedence"
  | output => "Output path for the stripped stream"
  | pcmDir => "Directory to write each sample block to"
  | loops => "Stop after the stream has ended this many times"
  | mask => "FM channels the log may key on, e.g. `1,2,6`, `all` or `none`"
  | pitchFilter => "Drop pitch writes for channels outside the mask"
  | mutePcm => "Silence ADPCM from the start"
  | busyEvery => "Report the chip busy on every Nth readiness check"
  | maxSeconds => "Give up after this much playback time"
  | traceWrites => "Log every register write the player issues"
  | help => "Print help"
  | version => "Print version"

/-- The value of a parameter that is not given. -/
def initial? : Parameter → Option String
  | loops => some "1"
  | mask => some "all"
  | maxSeconds => some "600"
  | _ => none

/-- The meaning of a parameter, and its value if it is not given. -/
def explanation (p : Parameter) : String :=
  match p.initial? with
  | some value => p.meaning ++ " [default: " ++ value ++ "]"
  | none => p.meaning

/-- A switch in both its forms. Where there is no short one, its place stays free. -/
def forms (p : Parameter) : String :=
  match p.short? with
  | some c => "-" ++ String.singleton c ++ ", " ++ p.display
  | none => "    " ++ p.display

end Parameter

/-- A list of names with their meanings, which begin in one column. -/
def listing (title : String) (entries : List (String × String)) : List String :=
  let width := entries.foldl (fun w entry => max w entry.1.length) 0
  "" :: title :: entries.map fun (name, meaning) =>
    "  " ++ name ++ "".pushn ' ' (width - name.length) ++ "  " ++ meaning

/-- The listing of the switches `ps`. -/
def switchListing (ps : List Parameter) : List String :=
  listing "Options:" (ps.map fun p => (p.forms, p.explanation))

/-- What the request for help does. -/
def helpMeaning : String := "Print this message or the help of the given subcommand(s)"

/-- How the command line of `verb` is written. -/
def Verb.form (verb : Verb) : String :=
  verb.name ++ " [OPTIONS]"
    ++ String.join ((Parameter.required verb).map fun p => " " ++ p.display)

/-- The lines of help that open with a meaning and tell how the command line is written. -/
def helpOpening (meaning form : String) : List String :=
  [meaning, "", "Usage: ymstream " ++ form]

/-- The help on a topic. -/
def HelpTopic.lines : HelpTopic → List String
  | program =>
    helpOpening "Inspect, preprocess and simulate VGM streaming for ymstream devices"
        "[OPTIONS] <COMMAND>"
      ++ listing "Commands:"
        ((Verb.all.map fun v => (v.name, v.meaning)) ++ [(helpVerb, helpMeaning)])
      ++ switchListing Parameter.common
  | verb v =>
    helpOpening v.meaning v.form
      ++ listing "Arguments:" [(Parameter.file.display, Parameter.file.explanation)]
      ++ switchListing (Parameter.ofVerb v)
  | help =>
    helpOpening helpMeaning (helpVerb ++ " [COMMAND]...")
      ++ listing "Arguments:" [("[COMMAND]...", "Print help for the subcommand(s)")]

end ChipReplay.CommandLine
