import ChipReplay.CommandLine.Table
import ChipReplay.Decimal.Rounding
import ChipReplay.Text.Message
/-!
# Reports

What the program prints about a file, its sample blocks and a simulated playback.
-/

namespace ChipReplay.CommandLine

/-- `n` as a hexadecimal number with its mark. -/
def marked (n : Nat) : String := "0x" ++ Hex.upper n

/-- The name of a kind of sample. -/
def kindName : SampleKind → String
  | .a => "ADPCM-A"
  | .b => "ADPCM-B"

/-- The table of sample blocks. -/
def blockTable (blocks : List SampleBlock) : Table where
  heading := ["Type", "ROM offset", "Memory offset", "Size", "ROM size"]
  rows := blocks.map fun b =>
    [kindName b.kind, marked b.romOffset, marked b.offset, marked b.data.size,
      marked b.romSize.toNat]

/-- The table about a file called `name`. -/
def infoTable (name : String) (h : Header) (p : Prepared) : Table where
  heading := ["Field", "Value"]
  rows := [
    ["File", name],
    ["Version", h.versionText],
    ["Chip", (if h.isVariantB then "YM2610B" else "YM2610") ++ " @ "
      ++ toString h.clockHz.toNat ++ " Hz"],
    ["Total samples", toString h.totalSamples.toNat],
    ["Data offset", marked h.start.toNat],
    ["Loop", if h.hasLoop then
        marked h.loop.toNat ++ " (" ++ toString h.loopSamples.toNat ++ " samples)"
      else "none"],
    ["Port 0 writes", toString p.stats.portAWrites],
    ["Port 1 writes", toString p.stats.portBWrites],
    ["Waits", toString p.stats.waits ++ " (" ++ toString p.stats.waitSamples ++ " samples)"],
    ["Data blocks", toString p.stats.dataBlocks ++ " (" ++ toString p.stats.mergedBlocks
      ++ " merged)"],
    ["Bank writes", toString p.stats.bankWrites ++ " (" ++ toString p.stats.remappedBankWrites
      ++ " remapped)"],
    ["Stream size", marked p.data.size ++ " (" ++ marked (p.data.size - linearEnd)
      ++ " refilled)"]]
    ++ if p.stats.endOfStream then [] else [["Warning", "no end of stream"]]

/-- The lines about a file called `name`. -/
def infoLines (name : String) (h : Header) (p : Prepared) : List String :=
  (infoTable name h p).lines
    ++ if p.blocks.isEmpty then [] else "" :: (blockTable p.blocks).lines

end CommandLine

/-- The playing time in seconds. -/
def BenchReport.seconds (r : BenchReport) : Float :=
  Float.ofNat r.ticks / Float.ofNat sampleRate

/-- The playing time in seconds, with two decimal places. -/
def BenchReport.secondsText (r : BenchReport) : String := Decimal.ofFloat 2 r.seconds

namespace CommandLine

/-- The table about a simulated playback. -/
def reportTable (r : BenchReport) : Table where
  heading := ["Counter", "Value"]
  rows := [
    ["Loops", toString r.loops.toNat],
    ["Playback", r.secondsText ++ "s"],
    ["Chip writes", toString r.chipWrites],
    ["Chip busy", toString r.stats.chipBusy],
    ["Refills served", toString r.refillsServed],
    ["Notifications ignored", toString r.refillsIgnored],
    ["Buffering requests", toString r.stats.refillRequests],
    ["Notify busy", toString r.stats.notifyBusy],
    ["Packets", toString r.stats.packets],
    ["Bytes received", toString r.stats.bytesReceived],
    ["Protocol errors", toString r.stats.overruns],
    ["Error", (r.error.map PlayError.message).getD "none"]]

end ChipReplay.CommandLine
