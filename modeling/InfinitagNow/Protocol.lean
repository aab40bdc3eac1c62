/-
InfinitagNow/Protocol.lean

The packet format and the payloads of the firmware push (`src/InfinitagNow.{h,cpp}`,
`src/EspNowService.h`), as far as the push uses them.

Numbers travel little-endian.  The receiver hashes an image chunk by chunk;
`crc32_append` says this is the hash of the whole.
-/
import InfinitagNow.Bytes

namespace InfinitagNow

/-! ### Constants -/

def protocolVersion : UInt8 := 0x03

def msgPushBegin : UInt8 := 0xF4
def msgPushAck : UInt8 := 0xF5
def msgPushEnd : UInt8 := 0xF6

def pushFrameData : UInt32 := 242
def pushWindowFrames : UInt32 := 16

-- PushAckStatus
def pushAckWindow : UInt8 := 0
def pushAckFinalOk : UInt8 := 1
def pushAckFinalCrc : UInt8 := 2
def pushAckFinalFlash : UInt8 := 3
def pushAckBusy : UInt8 := 4

/-! ### Packets -/

abbrev Payload := Vector UInt8 26

/-- The fixed 36 bytes on the wire. -/
structure Packet where
  version : UInt8
  msgType : UInt8
  deviceType : UInt8
  flags : UInt8
  token : UInt8
  reserved : Vector UInt8 3
  payload : Payload
  crc16 : UInt16
  deriving DecidableEq, Repr

def Packet.init (msgType deviceType : UInt8) : Packet where
  version := protocolVersion
  msgType := msgType
  deviceType := deviceType
  flags := 0
  token := 0
  reserved := .replicate 3 0
  payload := .replicate 26 0
  crc16 := 0

/-- A received packet with its sender. -/
structure RxPacket where
  mac : Mac
  pkt : Packet
  deriving DecidableEq, Repr

/-! ### Little-endian numbers -/

def putU16 (v : UInt16) : Vector UInt8 2 := #v[(v &&& 0xFF).toUInt8, (v >>> 8).toUInt8]

def getU16 (b₀ b₁ : UInt8) : UInt16 := b₀.toUInt16 ||| (b₁.toUInt16 <<< 8)

def putU32 (v : UInt32) : Vector UInt8 4 :=
  #v[(v &&& 0xFF).toUInt8, ((v >>> 8) &&& 0xFF).toUInt8, ((v >>> 16) &&& 0xFF).toUInt8,
    ((v >>> 24) &&& 0xFF).toUInt8]

def getU32 (b₀ b₁ b₂ b₃ : UInt8) : UInt32 :=
  b₀.toUInt32 ||| (b₁.toUInt32 <<< 8) ||| (b₂.toUInt32 <<< 16) ||| (b₃.toUInt32 <<< 24)

/-- The bytes of a 16-bit word, as numbers. -/
theorem toNat_bytes16 (v : UInt16) :
    (v &&& 0xFF).toUInt8.toNat = v.toNat % 256 ∧ (v >>> 8).toUInt8.toNat = v.toNat / 256 := by
  have hv := v.toNat_lt
  have hand : v.toNat &&& 255 = v.toNat % 256 := Nat.and_two_pow_sub_one_eq_mod v.toNat 8
  constructor
  · show (v.toNat &&& 255) % 2 ^ 8 = _
    rw [hand]
    omega
  · show (v.toNat >>> 8) % 2 ^ 8 = _
    rw [Nat.shiftRight_eq_div_pow]
    omega

theorem getU16_toNat (b₀ b₁ : UInt8) : (getU16 b₀ b₁).toNat = 256 * b₁.toNat + b₀.toNat := by
  have h₀ := b₀.toNat_lt
  have h₁ := b₁.toNat_lt
  have hor := Nat.two_pow_add_eq_or_of_lt (i := 8) h₀ b₁.toNat
  rw [getU16, UInt16.toNat_or, UInt16.toNat_shiftLeft, Nat.lor_comm]
  simp only [UInt8.toNat_toUInt16]
  rw [Nat.shiftLeft_eq]
  simp
  rw [Nat.mod_eq_of_lt (by omega), Nat.mul_comm]
  exact hor.symm

theorem getU16_putU16 (v : UInt16) : getU16 (putU16 v)[0] (putU16 v)[1] = v := by
  obtain ⟨hlow, hhigh⟩ := toNat_bytes16 v
  apply UInt16.toNat_inj.1
  show (getU16 (v &&& 0xFF).toUInt8 (v >>> 8).toUInt8).toNat = v.toNat
  rw [getU16_toNat, hlow, hhigh]
  exact Nat.div_add_mod v.toNat 256

/-- The other way round: two bytes read as a number are written as they were. -/
theorem putU16_getU16 (b₀ b₁ : UInt8) : putU16 (getU16 b₀ b₁) = #v[b₀, b₁] := by
  have hnum := getU16_toNat b₀ b₁
  have h₀ := b₀.toNat_lt
  obtain ⟨hlow, hhigh⟩ := toNat_bytes16 (getU16 b₀ b₁)
  have hb₀ : (getU16 b₀ b₁ &&& 0xFF).toUInt8 = b₀ := by
    apply UInt8.toNat_inj.1
    omega
  have hb₁ : (getU16 b₀ b₁ >>> 8).toUInt8 = b₁ := by
    apply UInt8.toNat_inj.1
    omega
  show #v[(getU16 b₀ b₁ &&& 0xFF).toUInt8, (getU16 b₀ b₁ >>> 8).toUInt8] = _
  rw [hb₀, hb₁]

/-- A byte of a 32-bit word, as a number. -/
theorem toNat_byte (v s : UInt32) :
    ((v >>> s) &&& 0xFF).toUInt8.toNat = v.toNat / 2 ^ (s.toNat % 32) % 256 := by
  have hand : (v >>> s).toNat &&& 255 = (v >>> s).toNat % 256 :=
    Nat.and_two_pow_sub_one_eq_mod (v >>> s).toNat 8
  show ((v >>> s).toNat &&& 255) % 2 ^ 8 = _
  rw [hand, UInt32.toNat_shiftRight, Nat.shiftRight_eq_div_pow]
  omega

theorem toNat_bytes32 (v : UInt32) :
    (v &&& 0xFF).toUInt8.toNat = v.toNat % 2 ^ 8 ∧
      ((v >>> 8) &&& 0xFF).toUInt8.toNat = v.toNat / 2 ^ 8 % 2 ^ 8 ∧
      ((v >>> 16) &&& 0xFF).toUInt8.toNat = v.toNat / 2 ^ 16 % 2 ^ 8 ∧
      ((v >>> 24) &&& 0xFF).toUInt8.toNat = v.toNat / 2 ^ 24 % 2 ^ 8 := by
  refine ⟨?_, toNat_byte v 8, toNat_byte v 16, toNat_byte v 24⟩
  have h := toNat_byte v 0
  rwa [UInt32.shiftRight_zero, show (0 : UInt32).toNat % 32 = 0 from rfl, pow_zero,
    Nat.div_one] at h

/-- A byte enters above the bytes below it. -/
theorem or_byte_shift {x : UInt32} {k : ℕ} (hk : k + 8 ≤ 32) (hx : x.toNat < 2 ^ k) (b : UInt8) :
    (x ||| (b.toUInt32 <<< UInt32.ofNat k)).toNat = 2 ^ k * b.toNat + x.toNat := by
  have hb := b.toNat_lt
  have hmod : (UInt32.ofNat k).toNat % 32 = k := by
    rw [UInt32.toNat_ofNat']
    omega
  have hlt : 2 ^ k * b.toNat < 2 ^ 32 := by
    calc 2 ^ k * b.toNat < 2 ^ k * 2 ^ 8 := Nat.mul_lt_mul_of_pos_left hb (by positivity)
      _ = 2 ^ (k + 8) := (pow_add 2 k 8).symm
      _ ≤ 2 ^ 32 := Nat.pow_le_pow_right (by decide) hk
  rw [UInt32.toNat_or, UInt32.toNat_shiftLeft, hmod, UInt8.toNat_toUInt32, Nat.shiftLeft_eq,
    Nat.mul_comm, Nat.mod_eq_of_lt hlt, Nat.lor_comm]
  exact (Nat.two_pow_add_eq_or_of_lt hx b.toNat).symm

theorem getU32_toNat (b₀ b₁ b₂ b₃ : UInt8) : (getU32 b₀ b₁ b₂ b₃).toNat =
    2 ^ 24 * b₃.toNat + (2 ^ 16 * b₂.toNat + (2 ^ 8 * b₁.toNat + b₀.toNat)) := by
  have h₀ : b₀.toUInt32.toNat = b₀.toNat := UInt8.toNat_toUInt32 b₀
  have hlt₀ := b₀.toNat_lt
  have hlt₁ := b₁.toNat_lt
  have hlt₂ := b₂.toNat_lt
  have h₁ : (b₀.toUInt32 ||| b₁.toUInt32 <<< 8).toNat = 2 ^ 8 * b₁.toNat + b₀.toUInt32.toNat :=
    or_byte_shift (k := 8) (by decide) (by omega) b₁
  have h₂ : (b₀.toUInt32 ||| b₁.toUInt32 <<< 8 ||| b₂.toUInt32 <<< 16).toNat =
      2 ^ 16 * b₂.toNat + (b₀.toUInt32 ||| b₁.toUInt32 <<< 8).toNat :=
    or_byte_shift (k := 16) (by decide) (by omega) b₂
  have h₃ : (getU32 b₀ b₁ b₂ b₃).toNat = 2 ^ 24 * b₃.toNat +
      (b₀.toUInt32 ||| b₁.toUInt32 <<< 8 ||| b₂.toUInt32 <<< 16).toNat :=
    or_byte_shift (k := 24) (by decide) (by omega) b₃
  rw [h₃, h₂, h₁, h₀]

theorem getU32_putU32 (v : UInt32) :
    getU32 (putU32 v)[0] (putU32 v)[1] (putU32 v)[2] (putU32 v)[3] = v := by
  have hv := v.toNat_lt
  obtain ⟨h₀, h₁, h₂, h₃⟩ := toNat_bytes32 v
  apply UInt32.toNat_inj.1
  show (getU32 (v &&& 0xFF).toUInt8 ((v >>> 8) &&& 0xFF).toUInt8 ((v >>> 16) &&& 0xFF).toUInt8
    ((v >>> 24) &&& 0xFF).toUInt8).toNat = v.toNat
  rw [getU32_toNat, h₀, h₁, h₂, h₃]
  omega

theorem putU32_getU32 (b₀ b₁ b₂ b₃ : UInt8) :
    putU32 (getU32 b₀ b₁ b₂ b₃) = #v[b₀, b₁, b₂, b₃] := by
  have hnum := getU32_toNat b₀ b₁ b₂ b₃
  have hlt₀ := b₀.toNat_lt
  have hlt₁ := b₁.toNat_lt
  have hlt₂ := b₂.toNat_lt
  have hlt₃ := b₃.toNat_lt
  generalize getU32 b₀ b₁ b₂ b₃ = v at hnum ⊢
  obtain ⟨h₀, h₁, h₂, h₃⟩ := toNat_bytes32 v
  have hb₀ : (v &&& 0xFF).toUInt8 = b₀ := UInt8.toNat_inj.1 (by omega)
  have hb₁ : ((v >>> 8) &&& 0xFF).toUInt8 = b₁ := UInt8.toNat_inj.1 (by omega)
  have hb₂ : ((v >>> 16) &&& 0xFF).toUInt8 = b₂ := UInt8.toNat_inj.1 (by omega)
  have hb₃ : ((v >>> 24) &&& 0xFF).toUInt8 = b₃ := UInt8.toNat_inj.1 (by omega)
  unfold putU32
  simp only [hb₀, hb₁, hb₂, hb₃]

/-! ### Push payloads -/

structure PushBegin where
  size : UInt32 := 0
  crc32 : UInt32 := 0
  major : UInt8 := 0
  minor : UInt8 := 0
  patch : UInt8 := 0
  deriving DecidableEq, Repr

structure PushAck where
  window : UInt16 := 0
  missing : UInt32 := 0
  status : UInt8 := pushAckWindow
  detail : UInt8 := 0
  deriving DecidableEq, Repr

def encodePushBegin (b : PushBegin) : Payload :=
  let size := putU32 b.size
  let crc := putU32 b.crc32
  #v[size[0], size[1], size[2], size[3], crc[0], crc[1], crc[2], crc[3], b.major, b.minor,
    b.patch, pushFrameData.toUInt8, pushWindowFrames.toUInt8, 0, 0, 0, 0, 0, 0, 0, 0, 0, 0, 0, 0, 0]

def decodePushBegin (p : Payload) : PushBegin where
  size := getU32 p[0] p[1] p[2] p[3]
  crc32 := getU32 p[4] p[5] p[6] p[7]
  major := p[8]
  minor := p[9]
  patch := p[10]

def encodePushAck (a : PushAck) : Payload :=
  let window := putU16 a.window
  let missing := putU32 a.missing
  #v[window[0], window[1], missing[0], missing[1], missing[2], missing[3], a.status, a.detail,
    0, 0, 0, 0, 0, 0, 0, 0, 0, 0, 0, 0, 0, 0, 0, 0, 0, 0]

def decodePushAck (p : Payload) : PushAck where
  window := getU16 p[0] p[1]
  missing := getU32 p[2] p[3] p[4] p[5]
  status := p[6]
  detail := p[7]

@[simp] theorem decode_encodePushBegin (b : PushBegin) :
    decodePushBegin (encodePushBegin b) = b := by
  have hsize := getU32_putU32 b.size
  have hcrc := getU32_putU32 b.crc32
  simp only [decodePushBegin, encodePushBegin]
  cases b
  simpa using ⟨hsize, hcrc⟩

@[simp] theorem decode_encodePushAck (a : PushAck) : decodePushAck (encodePushAck a) = a := by
  have hwindow := getU16_putU16 a.window
  have hmissing := getU32_putU32 a.missing
  simp only [decodePushAck, encodePushAck]
  cases a
  simpa using ⟨hwindow, hmissing⟩

/-! ### CRC-32 -/

/-- One bit of the division. -/
def crc32Bit (crc : UInt32) : UInt32 := (crc >>> 1) ^^^ (0xEDB88320 &&& (0 - (crc &&& 1)))

def crc32Byte (crc : UInt32) (b : UInt8) : UInt32 := crc32Bit^[8] (crc ^^^ b.toUInt32)

def crc32 (crc : UInt32) (data : List UInt8) : UInt32 := ~~~(data.foldl crc32Byte (~~~crc))

@[simp] theorem crc32_nil (crc : UInt32) : crc32 crc [] = crc := by
  simp [crc32]

/-- Hashing goes on where it stopped. -/
theorem crc32_append (crc : UInt32) (xs ys : List UInt8) :
    crc32 (crc32 crc xs) ys = crc32 crc (xs ++ ys) := by
  simp [crc32]

-- the check vector of CRC-32/IEEE, "123456789"
example : crc32 0 [0x31, 0x32, 0x33, 0x34, 0x35, 0x36, 0x37, 0x38, 0x39] = 0xCBF43926 := by
  decide +kernel

end InfinitagNow
