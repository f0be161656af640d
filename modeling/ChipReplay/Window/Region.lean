/-!
# Regions of the window

The device plays out of a window of `0x18000` bytes. The linear region takes the first `0x12000`
bytes of the stream and is never refilled. Behind it lie the loop region, filled once when the
loop point comes up, and the regions A and B, which alternate and are refilled when the cursor
leaves them.
-/

namespace ChipReplay

/-- Bytes in the window. -/
def windowSize : Nat := 0x18000

/-- Bytes in each region that is refilled. -/
def regionSize : Nat := 0x2000

/-- End of the linear region, which is also the stream offset where the refilled part begins. -/
def linearEnd : Nat := 0x12000

/-- A fixed part of the window. -/
inductive Region where
  | linear
  | loop
  | a
  | b
deriving DecidableEq

namespace Region

/-- The first byte of the region. -/
def start : Region → Nat
  | linear => 0
  | loop => 0x12000
  | a => 0x14000
  | b => 0x16000

/-- One past the last byte of the region. -/
def stop : Region → Nat
  | linear => 0x12000
  | loop => 0x14000
  | a => 0x16000
  | b => 0x18000

/-- The region the cursor moves into when it leaves this one. -/
def next : Region → Region
  | linear | loop | b => a
  | a => b

/-- Whether the region is handed back for a refill when the cursor leaves it. -/
def isRefilled : Region → Bool
  | a | b => true
  | linear | loop => false

/-- All regions, in the order they lie in. -/
def all : List Region := [linear, loop, a, b]

/-- The region that window offset `i` lies in. -/
def containing? (i : Nat) : Option Region :=
  all.find? fun r => decide (r.start ≤ i) && decide (i < r.stop)

theorem start_lt_stop (r : Region) : r.start < r.stop := by cases r <;> decide

theorem stop_le_windowSize (r : Region) : r.stop ≤ windowSize := by cases r <;> decide

end Region
end ChipReplay
