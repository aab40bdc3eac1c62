/-
InfinitagNow/PushFrames.lean

What both ends of a firmware push share: the control packets, the raw frames,
and how an image is cut into frames of 242 bytes and windows of 16 frames
(`src/EspNowPush.{h,cpp}`).

The code computes with 32-bit numbers that wrap; the lemmas here say what is
computed as long as the frames asked about lie inside an image of at most
16 MiB.
-/
import InfinitagNow.Chunks
import InfinitagNow.Protocol

namespace InfinitagNow

/-! ### Control packets -/

def beginPacket (b : PushBegin) : Packet :=
  { Packet.init msgPushBegin 0 with payload := encodePushBegin b }

def endPacket : Packet := Packet.init msgPushEnd 0

def ackPacket (a : PushAck) : Packet :=
  { Packet.init msgPushAck 0 with payload := encodePushAck a }

@[simp] theorem beginPacket_msgType (b : PushBegin) :
    (beginPacket b).msgType = msgPushBegin := rfl

@[simp] theorem decode_beginPacket (b : PushBegin) :
    decodePushBegin (beginPacket b).payload = b :=
  decode_encodePushBegin b

@[simp] theorem endPacket_msgType : endPacket.msgType = msgPushEnd := rfl

@[simp] theorem ackPacket_msgType (a : PushAck) : (ackPacket a).msgType = msgPushAck := rfl

@[simp] theorem decode_ackPacket (a : PushAck) : decodePushAck (ackPacket a).payload = a :=
  decode_encodePushAck a

/-- A packet that tells the box the image is installed. -/
def FinalOk (p : Packet) : Prop :=
  p.msgType = msgPushAck ∧ (decodePushAck p.payload).status = pushAckFinalOk

instance : DecidablePred FinalOk := fun _ => inferInstanceAs (Decidable (_ ∧ _))

theorem not_finalOk_ack {a : PushAck} (h : a.status ≠ pushAckFinalOk) :
    ¬ FinalOk (ackPacket a) := by
  rintro ⟨-, hst⟩
  exact h (by simpa using hst)

/-! ### Raw frames -/

/-- 'I' 'N' 'W' 'D' -/
def rawMagic : List UInt8 := [0x49, 0x4E, 0x57, 0x44]

def rawHdr : ℕ := 8

/-- The bytes of a raw frame. -/
def rawBytes (frameIdx : UInt32) (data : List UInt8) : List UInt8 :=
  rawMagic ++ (putU32 frameIdx).toList ++ data

theorem getU32_rawBytes (idx : UInt32) (data : List UInt8) :
    getU32 ((rawBytes idx data).getD 4 0) ((rawBytes idx data).getD 5 0)
      ((rawBytes idx data).getD 6 0) ((rawBytes idx data).getD 7 0) = idx := getU32_putU32 idx

/-- A frame tells its number. -/
theorem rawBytes_idx_inj {idx idx' : UInt32} {data data' : List UInt8}
    (h : rawBytes idx data = rawBytes idx' data') : idx = idx' := by
  rw [← getU32_rawBytes idx data, h, getU32_rawBytes]

/-- A raw frame as queued: header and at most 242 data bytes. -/
structure RawFrame where
  bytes : List UInt8
  hdr_le : rawHdr ≤ bytes.length
  le_max : bytes.length ≤ 250
  deriving DecidableEq, Repr

instance : Inhabited RawFrame := ⟨⟨.replicate 8 0, by simp [rawHdr], by simp⟩⟩

namespace RawFrame

def frameIdx (f : RawFrame) : UInt32 :=
  getU32 (f.bytes.getD 4 0) (f.bytes.getD 5 0) (f.bytes.getD 6 0) (f.bytes.getD 7 0)

def data (f : RawFrame) : List UInt8 := f.bytes.drop rawHdr

theorem length_data_le (f : RawFrame) : f.data.length ≤ 242 := by
  have := f.le_max
  simp [data, rawHdr]
  omega

/-- What is read back from a frame. -/
theorem frameIdx_of_bytes {f : RawFrame} {idx : UInt32} {data : List UInt8}
    (h : f.bytes = rawBytes idx data) : f.frameIdx = idx := by
  rw [frameIdx, h, getU32_rawBytes]

theorem data_of_bytes {f : RawFrame} {idx : UInt32} {data : List UInt8}
    (h : f.bytes = rawBytes idx data) : f.data = data := by
  rw [RawFrame.data, h]
  rfl

end RawFrame

/-! ### Windows -/

/-- The first frame of a window. -/
def firstFrame (window : UInt16) : UInt32 := window.toUInt32 * pushWindowFrames

/-- Frames from `first` on, at most one window. -/
def framesLeft (totalFrames first : UInt32) : UInt32 :=
  let remain := totalFrames - first
  if remain > pushWindowFrames then pushWindowFrames else remain

/-- The full mask of a window (the last one may be partial). -/
def frameMask (totalFrames first : UInt32) : UInt32 :=
  if framesLeft totalFrames first ≥ 32 then 0xFFFFFFFF else lowMask (framesLeft totalFrames first)

/-- How many bytes of frame `frameIdx` belong to the image. -/
def frameLen (size frameIdx : UInt32) : UInt32 :=
  if (frameIdx + 1) * pushFrameData > size then size - frameIdx * pushFrameData
  else pushFrameData

/-- The frames of an image of `size` bytes as computed, and as they should be,
with their windows. -/
def totalFramesOf (size : UInt32) : UInt32 := (size + pushFrameData - 1) / pushFrameData

def frameCount (size : ℕ) : ℕ := (size + 241) / 242

def windowCount (size : ℕ) : ℕ := (frameCount size + 15) / 16

theorem firstFrame_toNat (window : UInt16) : (firstFrame window).toNat = window.toNat * 16 := by
  have := window.toNat_lt
  simp only [firstFrame, pushWindowFrames, UInt32.toNat_mul, UInt16.toNat_toUInt32]
  simp
  omega

/-- The number of a window's frame does not wrap. -/
theorem firstFrame_add_toNat (window : UInt16) {i : ℕ} (hi : i < 16) :
    (firstFrame window + UInt32.ofNat i).toNat = window.toNat * 16 + i := by
  have := window.toNat_lt
  have := firstFrame_toNat window
  rw [UInt32.toNat_add, UInt32.toNat_ofNat']
  omega

/-- Within an image no window number wraps. -/
theorem window_succ_toNat {size : ℕ} (hle : size ≤ 2 ^ 24) {window : UInt16}
    (hlt : window.toNat < windowCount size) : (window + 1).toNat = window.toNat + 1 := by
  unfold windowCount frameCount at hlt
  rw [UInt16.toNat_add, UInt16.toNat_one, Nat.mod_eq_of_lt (by omega)]

theorem framesLeft_le (total first : UInt32) : (framesLeft total first).toNat ≤ 16 := by
  unfold framesLeft
  dsimp only
  split
  · decide
  · rename_i h
    simpa [pushWindowFrames, UInt32.le_iff_toNat_le] using h

theorem framesLeft_toNat {total first : UInt32} (h : first ≤ total) :
    (framesLeft total first).toNat = min 16 (total.toNat - first.toNat) := by
  have hsub := UInt32.toNat_sub_of_le _ _ h
  unfold framesLeft
  dsimp only
  split
  · rename_i hgt
    have : (16 : ℕ) < (total - first).toNat := by
      simpa [pushWindowFrames, UInt32.lt_iff_toNat_lt] using hgt
    simp only [pushWindowFrames]
    simp
    omega
  · rename_i hle
    have : ¬ (16 : ℕ) < (total - first).toNat := by
      simpa [pushWindowFrames, UInt32.lt_iff_toNat_lt] using hle
    omega

/-- The bits of a full mask are the frames left for the window. -/
theorem bit_frameMask_left (total first : UInt32) (i : ℕ) :
    bit (frameMask total first) i = decide (i < (framesLeft total first).toNat) := by
  have hle := framesLeft_le total first
  have hlt : ¬ framesLeft total first ≥ 32 := by
    rw [ge_iff_le, UInt32.le_iff_toNat_le]
    simp
    omega
  rw [frameMask, if_neg hlt, bit_lowMask (by omega)]

theorem bit_frameMask {total first : UInt32} (h : first ≤ total) (i : ℕ) :
    bit (frameMask total first) i = decide (i < min 16 (total.toNat - first.toNat)) := by
  rw [bit_frameMask_left, framesLeft_toNat h]

/-! ### Frames of an image -/

/-- A frame of an image, as sent. -/
def imageFrame (image : List UInt8) (idx : UInt32) : List UInt8 :=
  rawBytes idx (chunk 242 image idx.toNat)

/-- The bytes are a frame of the image. -/
def FrameOf (image bytes : List UInt8) : Prop :=
  ∃ idx : UInt32, idx.toNat < frameCount image.length ∧ bytes = imageFrame image idx

/-- A BEGIN announces an image by its size and CRC. -/
def Announces (image : List UInt8) (b : PushBegin) : Prop :=
  b.size.toNat = image.length ∧ b.crc32 = crc32 0 image

/-- The frame count of an image does not wrap. -/
theorem totalFramesOf_toNat {size : UInt32} (h : size.toNat ≤ 2 ^ 24) :
    (totalFramesOf size).toNat = frameCount size.toNat := by
  simp only [totalFramesOf, pushFrameData, UInt32.toNat_div, frameCount]
  rw [UInt32.toNat_sub_of_le]
  · rw [UInt32.toNat_add]
    simp
    omega
  · rw [UInt32.le_iff_toNat_le, UInt32.toNat_add]
    simp
    omega

section FrameLen

variable {size idx : UInt32}

theorem frameOffset_toNat (hidx : idx.toNat < 2 ^ 20) :
    (idx * pushFrameData).toNat = idx.toNat * 242 ∧
      ((idx + 1) * pushFrameData).toNat = (idx.toNat + 1) * 242 := by
  constructor
  · rw [UInt32.toNat_mul]
    simp [pushFrameData]
    omega
  · rw [UInt32.toNat_mul, UInt32.toNat_add]
    simp [pushFrameData]
    omega

/-- The length of a frame that starts inside the image. -/
theorem frameLen_of_le (hidx : idx.toNat < 2 ^ 20) (h : idx.toNat * 242 ≤ size.toNat) :
    (frameLen size idx).toNat = min 242 (size.toNat - idx.toNat * 242) := by
  obtain ⟨hmul, hnext⟩ := frameOffset_toNat hidx
  have hlt := size.toNat_lt
  simp only [frameLen, gt_iff_lt, UInt32.lt_iff_toNat_lt, hnext]
  split
  · rw [UInt32.toNat_sub, hmul]
    omega
  · simp [pushFrameData]
    omega

/-- A frame of the image has between 1 and 242 bytes, whatever its size. -/
theorem frameLen_of_lt (h : idx < totalFramesOf size) :
    idx.toNat * 242 < size.toNat ∧
      (frameLen size idx).toNat = min 242 (size.toNat - idx.toNat * 242) := by
  have h242 : pushFrameData.toNat = 242 := rfl
  have hsum : (size + pushFrameData - 1).toNat = (size.toNat + 241) % 2 ^ 32 := by
    rw [UInt32.toNat_sub, UInt32.toNat_add]
    simp [pushFrameData]
    omega
  have hidx := UInt32.lt_iff_toNat_lt.1 h
  rw [totalFramesOf, UInt32.toNat_div, hsum, h242] at hidx
  -- near 2^32 the sum wraps and the image has no frames
  have hbound : ∀ i s : ℕ, s < 2 ^ 32 → i < (s + 241) % 2 ^ 32 / 242 →
      i * 242 < s ∧ i * 242 < 2 ^ 32 ∧ i + 1 < 2 ^ 32 ∧ (i + 1) * 242 < 2 ^ 32 := by
    intro i s hs hi
    omega
  obtain ⟨hstart, hoff, hsucc, hend⟩ := hbound _ _ size.toNat_lt hidx
  have hmul : (idx * pushFrameData).toNat = idx.toNat * 242 := by
    rw [UInt32.toNat_mul, h242, Nat.mod_eq_of_lt hoff]
  have hnext : ((idx + 1) * pushFrameData).toNat = (idx.toNat + 1) * 242 := by
    rw [UInt32.toNat_mul, UInt32.toNat_add, UInt32.toNat_one, h242, Nat.mod_eq_of_lt hsucc,
      Nat.mod_eq_of_lt hend]
  have hlt := size.toNat_lt
  refine ⟨hstart, ?_⟩
  simp only [frameLen, gt_iff_lt, UInt32.lt_iff_toNat_lt, hnext]
  split
  · rw [UInt32.toNat_sub, hmul]
    omega
  · simp [pushFrameData]
    omega

/-- A length that fits the image is a frame that starts inside it; otherwise the
subtraction has wrapped. -/
theorem le_of_frameLen_le (hidx : idx.toNat < 2 ^ 20)
    (h : (frameLen size idx).toNat ≤ size.toNat) : idx.toNat * 242 ≤ size.toNat := by
  obtain ⟨hmul, hnext⟩ := frameOffset_toNat hidx
  have hlt := size.toNat_lt
  simp only [frameLen, gt_iff_lt, UInt32.lt_iff_toNat_lt, hnext] at h
  split at h
  · rw [UInt32.toNat_sub, hmul] at h
    omega
  · omega

/-- Frame `idx` of an image is as long as the code computes. -/
theorem length_chunk_frame {image : List UInt8} (hsize : size.toNat = image.length)
    (hle : image.length ≤ 2 ^ 24) (hidx : idx.toNat < frameCount image.length) :
    (chunk 242 image idx.toNat).length = (frameLen size idx).toNat := by
  unfold frameCount at hidx
  rw [length_chunk, frameLen_of_le (by omega) (by omega), hsize, Nat.mul_comm]

end FrameLen

end InfinitagNow
