import ChipReplay.Fifo
/-!
# Registers of the sound chip

The chip has two register ports. A register address has nine bits: bit 8 is the port, the low
eight bits the register in it. This module names the addresses the program gives a meaning to,
and holds the queue of register writes that wait for the chip.
-/

namespace ChipReplay

/-- One of the chip's two register ports. -/
inductive Port where
  /-- SSG, ADPCM-B and FM channels 1 to 3. -/
  | a
  /-- ADPCM-A and FM channels 4 to 6. -/
  | b
deriving DecidableEq

namespace Port

/-- The port that bit 8 of `address` selects. -/
def ofAddress (address : UInt16) : Port :=
  if address &&& 0x100 = 0 then .a else .b

/-- The port's number. -/
def index : Port → UInt8
  | a => 0
  | b => 1

/-- The nine-bit address of `register` in the port. -/
def address (port : Port) (register : UInt8) : UInt16 :=
  port.index.toUInt16 <<< 8 ||| register.toUInt16

end Port

/-- A byte for a register. -/
structure RegisterWrite where
  /-- Nine-bit register address. -/
  address : UInt16
  /-- The byte written. -/
  data : UInt8
deriving DecidableEq

namespace Register

/-- FM key on and off. -/
def fmKey : UInt16 := 0x028

/-- SSG mixer. -/
def ssgMixer : UInt16 := 0x007

/-- ADPCM-B start and reset. -/
def adpcmBControl : UInt16 := 0x010

/-- ADPCM-A key on and dump. -/
def adpcmAKey : UInt16 := 0x100

/-- ADPCM-A total level. -/
def adpcmALevel : UInt16 := 0x101

end Register

/-- The address bits a register write keeps while it waits. -/
def RegisterWrite.masked (w : RegisterWrite) : RegisterWrite :=
  { w with address := w.address &&& 0x1FF }

/-- Register writes that wait for the chip, oldest first. Addresses are cut to nine bits. -/
abbrev WriteQueue := Fifo RegisterWrite

/-- `w` joins the queue. -/
def WriteQueue.add (q : WriteQueue) (w : RegisterWrite) : WriteQueue := q.push w.masked

/-- The writes of `ws` join the queue in order. -/
def WriteQueue.addAll (q : WriteQueue) (ws : List RegisterWrite) : WriteQueue :=
  Fifo.pushAll q (ws.map RegisterWrite.masked)

theorem WriteQueue.toList_addAll (q : WriteQueue) (ws : List RegisterWrite) :
    (WriteQueue.addAll q ws).toList = q.toList ++ ws.map RegisterWrite.masked :=
  Fifo.toList_pushAll q _

end ChipReplay
