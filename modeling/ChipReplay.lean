import ChipReplay.Main
import ChipReplay.Proofs.Bytes.Contents
import ChipReplay.Proofs.Player.Bounds
import ChipReplay.Proofs.Stream.Flat
import ChipReplay.Proofs.Stream.Settled
import ChipReplay.Proofs.Stream.Shows
import ChipReplay.Proofs.Stream.Simulation
import ChipReplay.Proofs.Stream.Refinement
import ChipReplay.Proofs.Vgm.Header
import ChipReplay.Proofs.Player.History
import ChipReplay.Proofs.Player.Tiling
import ChipReplay.Proofs.Device.Bounds
import ChipReplay.Proofs.Notification.Codec
import ChipReplay.Proofs.Notification.Numbering
import ChipReplay.Proofs.Device.Link
import ChipReplay.Proofs.Bytes.Words
import ChipReplay.Proofs.Bytes.LittleEndian
import ChipReplay.Proofs.Upload.Descriptors
import ChipReplay.Proofs.Upload.InStep
import ChipReplay.Proofs.Upload.Storing
import ChipReplay.Proofs.Upload.Delivery
import ChipReplay.Proofs.Upload.Sequence
import ChipReplay.Proofs.Upload.Starting
import ChipReplay.Proofs.Preparation.Merging
import ChipReplay.Proofs.Preparation.Grouping
import ChipReplay.Proofs.Preparation.Reading
import ChipReplay.Proofs.Preparation.Addresses
import ChipReplay.Proofs.Preparation.Output
import ChipReplay.Proofs.Preparation.Stripping
import ChipReplay.Proofs.Preparation.Samples
import ChipReplay.Proofs.Upload.Confinement
import ChipReplay.Proofs.Upload.Overrun
import ChipReplay.Proofs.Chip.Keys
import ChipReplay.Proofs.Player.Writes
import ChipReplay.Proofs.Device.Ownership
import ChipReplay.Proofs.Preparation.Passes
import ChipReplay.Proofs.Preparation.Playable
import ChipReplay.Proofs.Stream.Passing
import ChipReplay.Proofs.Preparation.Playing
import ChipReplay.Proofs.Player.Signals
import ChipReplay.Proofs.Device.Ordering
import ChipReplay.Proofs.Player.Filtering
import ChipReplay.Proofs.Bench.Uploads
import ChipReplay.Proofs.Bench.Course
import ChipReplay.Proofs.Bench.Serving
import ChipReplay.Proofs.Bench.Faithful
import ChipReplay.Proofs.Stream.Staying
import ChipReplay.Proofs.Bench.Staying
import ChipReplay.Proofs.Bench.Ahead
import ChipReplay.Proofs.Player.Phases
import ChipReplay.Proofs.Device.Coherence
import ChipReplay.Proofs.Device.Replacement
import ChipReplay.Proofs.Device.Countdown
import ChipReplay.Proofs.Stream.Trailing
import ChipReplay.Proofs.Stream.Accounts
import ChipReplay.Proofs.Stream.Unended
import ChipReplay.Proofs.Preparation.Unended
import ChipReplay.Proofs.Preparation.Skipping
import ChipReplay.Proofs.Preparation.Looping
import ChipReplay.Proofs.Preparation.Idempotent
import ChipReplay.Proofs.Preparation.Writing
import ChipReplay.Proofs.Preparation.Segments
import ChipReplay.Proofs.Preparation.Overlapping
import ChipReplay.Proofs.Preparation.Guarded
import ChipReplay.Proofs.Player.Deeds
import ChipReplay.Proofs.Player.Limits
import ChipReplay.Proofs.Player.Levels
import ChipReplay.Proofs.Device.Muting
import ChipReplay.Proofs.Upload.Language
import ChipReplay.Proofs.Vgm.Readers
import ChipReplay.Proofs.Device.Counting
import ChipReplay.Proofs.Bench.Completion
import ChipReplay.Proofs.Bench.Recording
import ChipReplay.Proofs.Bench.Timing
import ChipReplay.Proofs.Notification.Format
import ChipReplay.Proofs.Preparation.Joining
import ChipReplay.Proofs.Midi.Grammar
import ChipReplay.Proofs.CommandLine.Export
