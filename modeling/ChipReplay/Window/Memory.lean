import ChipReplay.Bytes.Basic
import ChipReplay.Upload.Destination
import ChipReplay.Window.Region
/-!
# Window memory

The memory the player reads commands from. Its size is fixed by its type; a write that does not
fit is refused whole.
-/

namespace ChipReplay

/-- The window's `windowSize` bytes. -/
structure Window where
  bytes : ByteArray
  size_eq : bytes.size = windowSize

namespace Window

/-- A window of zeros. -/
def zero : Window := ⟨Bytes.zeros windowSize, Bytes.size_zeros _⟩

/-- The byte at window offset `i`, and zero past the end. -/
def byte (w : Window) (i : Nat) : UInt8 := Bytes.peek w.bytes i

/-- The byte at window offset `i`, if it lies in the window. -/
def byte? (w : Window) (i : Nat) : Option UInt8 :=
  if i < windowSize then some (w.byte i) else none

/-- `data`, which fits, is written from `offset` on. -/
def put (w : Window) (offset : Nat) (data : ByteArray) (h : offset + data.size ≤ windowSize) :
    Window :=
  ⟨Bytes.overwrite w.bytes offset data,
    (Bytes.size_overwrite (w.size_eq.symm ▸ h)).trans w.size_eq⟩

/-- `data` is written from `offset` on, unless it would run past the end. -/
def write (w : Window) (offset : Nat) (data : ByteArray) : Except UploadError Window :=
  if h : offset + data.size ≤ windowSize then .ok (w.put offset data h)
  else .error (.outOfBounds offset data.size windowSize)

end Window
end ChipReplay
