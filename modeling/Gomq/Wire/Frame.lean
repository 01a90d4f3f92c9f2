import Gomq.Wire.Codec

/-!
# Frames

`Framer.NextFrame` over a buffered reader: `Peek` of more bytes than the reader's buffer holds
fails, whatever the peer sends.
-/

namespace Gomq.Wire

def frameMethod : UInt8 := 1
def frameHeader : UInt8 := 2
def frameBody : UInt8 := 3
def frameHeartbeat : UInt8 := 8
def frameEnd : UInt8 := 0xCE
def frameMinSize : ℕ := 4096
def frameMaxDefault : ℕ := 131072

structure Frame where
  type : UInt8
  channel : UInt16
  payload : Bytes
  deriving DecidableEq

def isValidFrameType (t : UInt8) : Bool :=
  t == frameMethod || t == frameHeader || t == frameBody || t == frameHeartbeat

inductive FrameError where
  | eof
  | bufferFull
  /-- `invalid frame type %d` -/
  | invalidFrameType (t : UInt8)
  /-- `frame payload %d exceeds max %d` -/
  | payloadExceedsMax (length max : ℕ)
  /-- `frame end 0x%02X, want 0x%02X` -/
  | badFrameEnd (b : UInt8)
  deriving DecidableEq

def encodeFrame (f : Frame) : Except FrameError Bytes :=
  if isValidFrameType f.type then
    .ok (writeUint8 f.type ++ writeUint16 f.channel ++
      writeUint32 (UInt32.ofNat f.payload.length) ++ f.payload ++ writeUint8 frameEnd)
  else .error (.invalidFrameType f.type)

/-- The buffer size of `bufio.NewReader`. -/
def defaultBufSize : ℕ := 4096

/-- `bufio.Reader.Peek` on the bytes the peer will still send. -/
def peek (bufSize n : ℕ) (bs : Bytes) : Except FrameError Bytes :=
  if bufSize < n then .error .bufferFull
  else if n ≤ bs.length then .ok (bs.take n)
  else .error .eof

/-- `Framer.NextFrame`: the frame and the bytes after it. -/
def nextFrame (bufSize maxSize : ℕ) (bs : Bytes) : Except FrameError (Frame × Bytes) := do
  let header ← peek bufSize 7 bs
  let ft := header.headD 0
  if !isValidFrameType ft then throw (.invalidFrameType ft)
  let length := ofBe (header.drop 3)
  if maxSize < length then throw (.payloadExceedsMax length maxSize)
  let total := 7 + length + 1
  let data ← peek bufSize total bs
  let fin := data.getD (total - 1) 0
  if fin ≠ frameEnd then throw (.badFrameEnd fin)
  pure (⟨ft, UInt16.ofNat (ofBe ((data.drop 1).take 2)), (data.drop 7).take length⟩, bs.drop total)

end Gomq.Wire
