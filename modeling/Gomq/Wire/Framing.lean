import Mathlib.Data.List.TakeWhile
import Gomq.Wire.Language

/-!
# A stream of frames

What `Connection.readFrame` makes of frames written one after the other. A frame is on the wire as
seven bytes of header, the payload and one byte at the end. `NextFrame` peeks at all of it at once,
so a frame that does not fit in the reader's buffer is refused although it is well formed and below
the limit that the framer itself checks (`readFrame_append`). On a stream, the reader gets as far
as the first such frame and no further (`readFrames_encodeFrames`).
-/

namespace Gomq.Wire

open List

/-- `Connection.readFrame`: a framer on the connection's reader, with the default limit. -/
def readFrame (bs : Bytes) : Except FrameError (Frame × Bytes) :=
  nextFrame defaultBufSize frameMaxDefault bs

/-- Up to `n` calls of `readFrame`, ending with the first that fails: the frames that came, and the
error. -/
def readFrames : ℕ → Bytes → List Frame × Option FrameError
  | 0, _ => ([], none)
  | n + 1, bs =>
    match readFrame bs with
    | .ok (f, rest) => (f :: (readFrames n rest).1, (readFrames n rest).2)
    | .error e => ([], some e)

def encodeFrames : List Frame → Except FrameError Bytes
  | [] => .ok []
  | f :: fs =>
    match encodeFrame f with
    | .error e => .error e
    | .ok b =>
      match encodeFrames fs with
      | .error e => .error e
      | .ok bs => .ok (b ++ bs)

namespace Frame

def fits (f : Frame) : Bool := decide (7 + f.payload.length + 1 ≤ defaultBufSize)

/-- A frame of a known type whose payload is within the limit the framer checks. -/
def Valid (f : Frame) : Prop :=
  isValidFrameType f.type = true ∧ f.payload.length ≤ frameMaxDefault

end Frame

theorem readFrame_append {f : Frame} {b : Bytes} (hf : f.Valid) (h : encodeFrame f = .ok b)
    (rest : Bytes) :
    readFrame (b ++ rest) = if f.fits then .ok (f, rest) else .error .bufferFull := by
  obtain ⟨htype, hmax⟩ := hf
  have hwithin : f.Within frameMaxDefault := ⟨hmax, hmax.trans_lt (by decide)⟩
  rw [(encodeFrame_eq_ok_iff.mp h).2, readFrame, nextFrame_wire (by decide) htype hwithin]
  unfold Frame.fits
  by_cases hfit : 7 + f.payload.length + 1 ≤ defaultBufSize
  · rw [if_neg (not_lt.mpr hfit), if_pos (decide_eq_true hfit)]
  · rw [if_pos (not_le.mp hfit), if_neg (by rwa [decide_eq_true_iff])]

theorem encodeFrame_valid {f : Frame} (h : isValidFrameType f.type = true) :
    ∃ b, encodeFrame f = .ok b :=
  ⟨f.wire, encodeFrame_of_valid h⟩

theorem encodeFrames_valid {fs : List Frame} (h : ∀ f ∈ fs, f.Valid) :
    ∃ bs, encodeFrames fs = .ok bs := by
  induction fs with
  | nil => exact ⟨[], rfl⟩
  | cons f fs ih =>
    obtain ⟨b, henc⟩ := encodeFrame_valid (h f (by simp)).1
    obtain ⟨bs, hbs⟩ := ih fun g hg => h g (by simp [hg])
    unfold encodeFrames
    rw [henc, hbs]
    exact ⟨_, rfl⟩

theorem readFrames_encodeFrames {fs : List Frame} {bs : Bytes} (h : ∀ f ∈ fs, f.Valid)
    (henc : encodeFrames fs = .ok bs) :
    readFrames (fs.length + 1) bs =
      (fs.takeWhile Frame.fits, some (if fs.all Frame.fits then .eof else .bufferFull)) := by
  induction fs generalizing bs with
  | nil =>
    cases henc
    rfl
  | cons f fs ih =>
    obtain ⟨hf, hfs⟩ := forall_mem_cons.mp h
    obtain ⟨rest, hrest⟩ := encodeFrames_valid hfs
    obtain ⟨b, hone⟩ := encodeFrame_valid hf.1
    have hread := readFrame_append hf hone rest
    unfold encodeFrames at henc
    rw [hone, hrest] at henc
    cases henc
    rw [length_cons, readFrames, hread, takeWhile_cons, all_cons]
    cases f.fits with
    | false => rfl
    | true => simp [ih hfs hrest]

theorem readFrame_fits {bs rest : Bytes} {f : Frame} (h : readFrame bs = .ok (f, rest)) :
    f.fits = true :=
  decide_eq_true (nextFrame_eq_ok_iff.mp h).2.2.1

theorem readFrames_fits (n : ℕ) (bs : Bytes) : ∀ f ∈ (readFrames n bs).1, f.fits = true := by
  induction n generalizing bs with
  | zero => exact forall_mem_nil _
  | succ n ih =>
    unfold readFrames
    cases hread : readFrame bs with
    | error e => exact forall_mem_nil _
    | ok p => exact forall_mem_cons.mpr ⟨readFrame_fits hread, ih p.2⟩

/-- Every stream of valid frames is read back, up to the end of the input, exactly if each frame
with its eight bytes around the payload fits in the buffer. -/
theorem readFrames_all_iff (fs : List Frame)
    (h : ∀ f ∈ fs, isValidFrameType f.type = true ∧ f.payload.length ≤ frameMaxDefault) :
    ∃ bs, encodeFrames fs = .ok bs ∧
      (readFrames (fs.length + 1) bs = (fs, some .eof) ↔
        ∀ f ∈ fs, 7 + f.payload.length + 1 ≤ defaultBufSize) := by
  obtain ⟨bs, henc⟩ := encodeFrames_valid h
  refine ⟨bs, henc, ?_⟩
  have hfit : fs.all Frame.fits = true ↔ ∀ f ∈ fs, 7 + f.payload.length + 1 ≤ defaultBufSize := by
    simp [all_eq_true, Frame.fits]
  rw [readFrames_encodeFrames h henc, ← hfit]
  constructor
  · intro hread
    by_contra hno
    rw [if_neg hno] at hread
    cases (Prod.mk.inj hread).2
  · intro hall
    rw [if_pos hall, takeWhile_eq_self_iff.mpr (all_eq_true.mp hall)]

theorem readFrames_all_iff_two_frames :
    ∃ bs, encodeFrames [⟨frameMethod, 1, [0, 60, 0, 40]⟩, ⟨frameHeartbeat, 0, []⟩] = .ok bs ∧
      (readFrames 3 bs = ([⟨frameMethod, 1, [0, 60, 0, 40]⟩, ⟨frameHeartbeat, 0, []⟩], some .eof) ↔
        ∀ f ∈ [(⟨frameMethod, 1, [0, 60, 0, 40]⟩ : Frame), ⟨frameHeartbeat, 0, []⟩],
          7 + f.payload.length + 1 ≤ defaultBufSize) :=
  readFrames_all_iff [⟨frameMethod, 1, [0, 60, 0, 40]⟩, ⟨frameHeartbeat, 0, []⟩] (by decide)

/-- A body of 4089 bytes is far below the limit of the framer and one byte too long for the
buffer: nothing is read. -/
theorem readFrames_body_of_4089_bytes :
    ∃ bs, encodeFrames [⟨frameBody, 1, List.replicate 4089 0⟩] = .ok bs ∧
      readFrames 2 bs = ([], some .bufferFull) := by
  have hvalid : ∀ f ∈ [(⟨frameBody, 1, List.replicate 4089 0⟩ : Frame)], f.Valid := by
    simp only [mem_singleton, forall_eq, Frame.Valid, length_replicate]
    decide
  have hbig : (⟨frameBody, 1, List.replicate 4089 0⟩ : Frame).fits = false := by
    simp only [Frame.fits, length_replicate]
    decide
  obtain ⟨bs, henc⟩ := encodeFrames_valid hvalid
  refine ⟨bs, henc, ?_⟩
  have hread := readFrames_encodeFrames hvalid henc
  rwa [takeWhile_cons, all_cons, hbig] at hread

end Gomq.Wire
