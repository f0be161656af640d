import ChipReplay.Device.Live
import ChipReplay.Device.Poll
import ChipReplay.Host
/-!
# Device and host together

The bench plays a stream on a device whose host sits beside it. Time passes only between two
rounds, when the wait is over at once, so every upload completes between two updates of the
player. A run ends after a number of loops or of samples, or when the playback fails; a stream
that neither waits nor ends may have no end, so a run is given a number of rounds and says
whether it came to its end in them.
-/

namespace ChipReplay

/-- Samples in a second. -/
def sampleRate : Nat := 44100

/-- Limits of a run, and how the chip behaves in it. -/
structure BenchConfig where
  /-- The run ends when the stream has ended this often. -/
  loops : UInt32 := 1
  /-- The run ends after this many samples. -/
  maxTicks : Nat := 10 * 60 * sampleRate
  /-- The chip refuses every readiness check whose number this divides; below 2 it refuses
  none. -/
  busyEvery : Nat := 0
  /-- Whether the chip keeps its writes. -/
  recordWrites : Bool := false
deriving DecidableEq

/-- Why a run stops short. -/
inductive BenchError where
  /-- The device refused a request. -/
  | refused (cause : UploadError)
  /-- The device stopped taking data in the middle of an upload. -/
  | uploadStalled (offset remaining : Nat)
deriving DecidableEq

/-- What happened in a run. -/
structure BenchReport where
  loops : UInt32
  /-- Samples played. -/
  ticks : Nat
  /-- Writes the chip took. -/
  chipWrites : Nat
  refillsServed : Nat
  /-- Refill requests that came with another number than the host expected. -/
  refillsIgnored : Nat
  stats : DeviceStats
  /-- The error that ended the playback. -/
  error : Option PlayError

/-- A device and its host. -/
structure Bench where
  config : BenchConfig
  device : Device
  host : Host

namespace Bench

/-- A device at power-on beside `host`. -/
def new (deviceConfig : DeviceConfig) (config : BenchConfig) (host : Host) : Bench where
  config := config
  device := .new deviceConfig
    (.fresh (Recorder.refuseEvery config.busyEvery) config.recordWrites) { manual := true }
  host := host

/-- The device is changed by `f`. -/
def onDevice (b : Bench) (f : Device → Device) : Bench := { b with device := f b.device }

/-- What an activity of the bench ends with: an error or none, and the bench after it. -/
abbrev Progress := Option BenchError × Bench

/-- `next` follows unless there was an error. -/
def Progress.andThen (p : Progress) (next : Bench → Progress) : Progress :=
  match p with
  | (none, b) => next b
  | (some e, b) => (some e, b)

/-- The host makes a request. -/
def request (b : Bench) (r : Request) : Progress :=
  match b.device.request r with
  | (.error e, device) => (some (.refused e), { b with device })
  | (.ok _, device) => (none, { b with device })

/-- How many polls an upload may take. -/
def uploadPollLimit : Nat := 0x100000

/-- Polls while an upload is active, at most `limit` times. Answers whether it was found
complete. -/
def finishUpload : Nat → Device → Bool × Device
  | 0, d => (false, d)
  | limit + 1, d => if d.session.active then finishUpload limit d.poll else (true, d)

/-- Sends the bytes of an upload that was opened. -/
def send (b : Bench) (u : Upload) : Progress :=
  let b := b.onDevice fun d => { d with endpoint := d.endpoint.pushBulk u.data }
  match finishUpload uploadPollLimit b.device with
  | (true, device) => (none, { b with device })
  | (false, device) =>
    (some (.uploadStalled u.offset.toNat device.session.remaining), { b with device })

/-- Makes an upload from its request to its last byte. -/
def upload (b : Bench) (u : Upload) : Progress :=
  Progress.andThen (b.request u.request) (send · u)

/-- Makes every upload, whatever became of those before it. What each ended with is put on top of
`done`. -/
def uploadEachOnto (done : List (Option BenchError)) (b : Bench) :
    List Upload → List (Option BenchError) × Bench
  | [] => (done, b)
  | u :: rest =>
    let (e, b) := b.upload u
    uploadEachOnto (e :: done) b rest

/-- Makes every upload, whatever became of those before it. -/
def uploadEach (b : Bench) (us : List Upload) : List (Option BenchError) × Bench :=
  let (done, b) := uploadEachOnto [] b us
  (done.reverse, b)

/-- Makes uploads one after the other. -/
def uploadAll (b : Bench) : List Upload → Progress
  | [] => (none, b)
  | u :: rest => Progress.andThen (b.upload u) (uploadAll · rest)

/-- Asks for the playback, and polls until it has started. -/
def start (b : Bench) : Progress :=
  Progress.andThen (b.request .startPlayback) fun b =>
    (none, { b with host := b.host.resetSequence, device := b.device.poll })

/-- The host reads a notification, if there is one, and answers it. -/
def serve (b : Bench) : Progress :=
  match b.device.endpoint.takeIn with
  | (none, _) => (none, b)
  | (some message, endpoint) =>
    let b := b.onDevice fun d => { d with endpoint }
    match b.host.answer message with
    | (some u, host) => upload { b with host } u
    | (none, host) => (none, { b with host })

/-- One round: the wait is over, the device is polled, and a notification is answered. -/
def round (b : Bench) : Progress :=
  (b.onDevice Device.tick).serve

/-- Rounds, until one ends with an error. -/
def rounds (b : Bench) : Nat → Progress
  | 0 => (none, b)
  | n + 1 => Progress.andThen b.round (rounds · n)

/-- Whether the run is over: the playback has ended, or a limit is reached. -/
def isOver (b : Bench) : Bool :=
  !b.device.active || b.config.loops ≤ b.device.player.loopCount
    || b.config.maxTicks ≤ b.device.timer.total

/-- How a run stands. -/
inductive RunState where
  /-- It came to its end. -/
  | ended
  | failed (e : BenchError)
  /-- It took all the rounds it was given. -/
  | unfinished
deriving DecidableEq

/-- Rounds until the run is over, at most `limit` of them. -/
def play (b : Bench) : Nat → RunState × Bench
  | 0 => (if b.isOver then .ended else .unfinished, b)
  | limit + 1 =>
    if b.isOver then (.ended, b)
    else
      match b.round with
      | (none, b) => b.play limit
      | (some e, b) => (.failed e, b)

/-- Everything before the first round: the device is configured, takes the initial uploads, and
starts. -/
def setUp (b : Bench) : Progress :=
  let b := b.onDevice Device.configure
  Progress.andThen (b.uploadAll b.host.initialUploads) start

/-- A whole run of at most `limit` rounds. -/
def run (b : Bench) (limit : Nat) : RunState × Bench :=
  match b.setUp with
  | (none, b) => b.play limit
  | (some e, b) => (.failed e, b)

/-- More rounds than any machine gets through. -/
def patience : Nat := 0x4000000000000000

/-- What happened so far. -/
def report (b : Bench) : BenchReport where
  loops := b.device.player.loopCount
  ticks := b.device.timer.total
  chipWrites := b.device.chip.taken
  refillsServed := b.host.served
  refillsIgnored := b.host.ignored
  stats := b.device.stats
  error := b.device.lastError

end Bench
end ChipReplay
