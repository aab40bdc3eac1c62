/-
InfinitagNow/PacketFormat.lean

The fixed 36-byte packet as bytes: layout, CRC-16, `seal` and `validate`
(`src/InfinitagNow.{h,cpp}`).

`crc16_toBitVec` says the CRC is the 16-bit register of `Crc` with the
polynomial x^16+x^12+x^5+1.  It is computed most significant bit first and
stored low byte first, behind the 34 bytes it covers.
-/
import InfinitagNow.Crc
import InfinitagNow.Protocol

namespace InfinitagNow

/-! ### CRC-16 -/

def crc16Bit (crc : UInt16) : UInt16 :=
  if crc &&& 0x8000 ≠ 0 then (crc <<< 1) ^^^ 0x1021 else crc <<< 1

def crc16Byte (crc : UInt16) (b : UInt8) : UInt16 := crc16Bit^[8] (crc ^^^ (b.toUInt16 <<< 8))

def crc16 (data : List UInt8) : UInt16 := data.foldl crc16Byte 0xFFFF

-- the check vector of the header, "123456789"
example : crc16 [0x31, 0x32, 0x33, 0x34, 0x35, 0x36, 0x37, 0x38, 0x39] = 0x29B1 := by
  decide +kernel

/-- x^12 + x^5 + 1 -/
def ccitt : BitVec 16 := 0x1021#16

theorem crc16Bit_toBitVec (crc : UInt16) :
    (crc16Bit crc).toBitVec = crcBit ccitt crc.toBitVec := by
  have htop : (crc &&& 0x8000 ≠ 0) ↔ crc.toBitVec.msb = true := by
    have hand : (crc &&& 0x8000).toBitVec = crc.toBitVec &&& BitVec.twoPow 16 15 := rfl
    rw [ne_eq, ← UInt16.toBitVec_inj, hand, BitVec.and_twoPow, BitVec.msb_eq_getLsbD_last]
    cases crc.toBitVec.getLsbD 15 <;> simp
  unfold crc16Bit crcBit
  by_cases h : crc.toBitVec.msb = true
  · rw [if_pos (htop.2 h), if_pos h]
    simp [ccitt]
  · rw [if_neg (mt htop.1 h), if_neg h]
    simp

theorem crc16Byte_toBitVec (crc : UInt16) (b : UInt8) :
    (crc16Byte crc b).toBitVec = crcByte ccitt crc.toBitVec b.toBitVec := by
  have hiter : ∀ (k : ℕ) (x : UInt16),
      (crc16Bit^[k] x).toBitVec = (crcBit ccitt)^[k] x.toBitVec := by
    intro k
    induction k with
    | zero => exact fun x => rfl
    | succ k ih =>
      intro x
      rw [Function.iterate_succ_apply, ih, crc16Bit_toBitVec]
      rfl
  rw [crc16Byte, hiter, crcByte]
  congr 1

theorem crc16_toBitVec (data : List UInt8) :
    (crc16 data).toBitVec = crcBytes ccitt 0xFFFF#16 (data.map UInt8.toBitVec) := by
  have hfold : ∀ crc : UInt16, (data.foldl crc16Byte crc).toBitVec =
      crcBytes ccitt crc.toBitVec (data.map UInt8.toBitVec) := by
    induction data with
    | nil => exact fun crc => rfl
    | cons b data ih =>
      intro crc
      rw [List.foldl_cons, ih, crc16Byte_toBitVec]
      rfl
  exact hfold 0xFFFF

/-! ### The bytes of a packet -/

namespace Packet

/-- The bytes the CRC covers. -/
def body (p : Packet) : List UInt8 :=
  [p.version, p.msgType, p.deviceType, p.flags, p.token] ++ p.reserved.toList ++ p.payload.toList

/-- The packet in memory, and on the wire. -/
def bytes (p : Packet) : List UInt8 := p.body ++ (putU16 p.crc16).toList

/-- `memcpy` of 36 bytes into a packet. -/
def ofBytes (data : List UInt8) : Packet where
  version := data.getD 0 0
  msgType := data.getD 1 0
  deviceType := data.getD 2 0
  flags := data.getD 3 0
  token := data.getD 4 0
  reserved := .ofFn fun i => data.getD (5 + i) 0
  payload := .ofFn fun i => data.getD (8 + i) 0
  crc16 := getU16 (data.getD 34 0) (data.getD 35 0)

@[simp] theorem length_body (p : Packet) : p.body.length = 34 := by simp [body]

@[simp] theorem length_bytes (p : Packet) : p.bytes.length = 36 := by simp [bytes]

@[simp] theorem take_bytes (p : Packet) : p.bytes.take 34 = p.body := by simp [bytes]

/-- Reading inside the middle of three parts. -/
theorem getD_middle (as bs cs : List UInt8) {n i : ℕ} (hn : as.length = n)
    (hi : i < bs.length) : (as ++ bs ++ cs).getD (n + i) 0 = bs.getD i 0 := by
  subst hn
  rw [List.getD_append _ _ _ _ (by simpa using hi), List.getD_append_right _ _ _ _ (by simp),
    Nat.add_sub_cancel_left]

theorem getD_bytes_reserved (p : Packet) (i : Fin 3) : p.bytes.getD (5 + i) 0 = p.reserved[i] := by
  have h := getD_middle [p.version, p.msgType, p.deviceType, p.flags, p.token] p.reserved.toList
    (p.payload.toList ++ (putU16 p.crc16).toList) (i := i) rfl (by simp)
  rw [← List.append_assoc] at h
  exact h.trans (by simp)

theorem getD_bytes_payload (p : Packet) (i : Fin 26) : p.bytes.getD (8 + i) 0 = p.payload[i] := by
  have h := getD_middle ([p.version, p.msgType, p.deviceType, p.flags, p.token] ++
    p.reserved.toList) p.payload.toList (putU16 p.crc16).toList (n := 8) (i := i) (by simp)
      (by simp)
  exact h.trans (by simp)

theorem getU16_bytes (p : Packet) :
    getU16 (p.bytes.getD 34 0) (p.bytes.getD 35 0) = p.crc16 := by
  have hcrc : ∀ i (hi : i < 2), p.bytes.getD (34 + i) 0 = (putU16 p.crc16)[i] := by
    intro i hi
    have h := getD_middle p.body (putU16 p.crc16).toList [] p.length_body (by simpa using hi)
    rw [List.append_nil] at h
    exact h.trans (by simp [hi])
  calc getU16 (p.bytes.getD 34 0) (p.bytes.getD 35 0)
      = getU16 (putU16 p.crc16)[0] (putU16 p.crc16)[1] := 
        congrArg₂ getU16 (hcrc 0 (by decide)) (hcrc 1 (by decide))
    _ = p.crc16 := getU16_putU16 p.crc16

/-- Copying the bytes of a packet gives the packet. -/
theorem ofBytes_bytes (p : Packet) : ofBytes p.bytes = p := by
  have hreserved : Vector.ofFn (fun i : Fin 3 => p.bytes.getD (5 + i) 0) = p.reserved := by
    apply Vector.ext
    intro i hi
    rw [Vector.getElem_ofFn]
    exact getD_bytes_reserved p ⟨i, hi⟩
  have hpayload : Vector.ofFn (fun i : Fin 26 => p.bytes.getD (8 + i) 0) = p.payload := by
    apply Vector.ext
    intro i hi
    rw [Vector.getElem_ofFn]
    exact getD_bytes_payload p ⟨i, hi⟩
  show (⟨p.version, p.msgType, p.deviceType, p.flags, p.token, _, _, _⟩ : Packet) = p
  rw [hreserved, hpayload, getU16_bytes]

/-- A stretch of a list, read item by item. -/
theorem ofFn_getD (data : List UInt8) {k n : ℕ} (h : k + n ≤ data.length) :
    List.ofFn (fun i : Fin n => data.getD (k + i) 0) = (data.drop k).take n := by
  refine List.ext_getElem ?_ fun i hi hi' => ?_
  · rw [List.length_ofFn, List.length_take, List.length_drop]
    omega
  · rw [List.length_ofFn] at hi
    rw [List.getElem_ofFn, List.getElem_take, List.getElem_drop, List.getD_eq_getElem]

/-- A packet in memory holds the 36 bytes copied into it. -/
theorem bytes_ofBytes {data : List UInt8} (h : data.length = 36) :
    (ofBytes data).bytes = data := by
  have hhead : [data.getD 0 0, data.getD 1 0, data.getD 2 0, data.getD 3 0, data.getD 4 0] =
      data.take 5 := by
    have hofFn := ofFn_getD data (k := 0) (n := 5) (by omega)
    simpa [List.ofFn_succ] using hofFn
  have hcrc : (putU16 (getU16 (data.getD 34 0) (data.getD 35 0))).toList = data.drop 34 := by
    have hofFn := ofFn_getD data (k := 34) (n := 2) (by omega)
    rw [putU16_getU16, ← List.take_of_length_le (i := 2) (l := data.drop 34) (by simp [h]), ← hofFn]
    simp [List.ofFn_succ]
  show [data.getD 0 0, data.getD 1 0, data.getD 2 0, data.getD 3 0, data.getD 4 0] ++
    (Vector.ofFn fun i : Fin 3 => data.getD (5 + i) 0).toList ++
      (Vector.ofFn fun i : Fin 26 => data.getD (8 + i) 0).toList ++
        (putU16 (getU16 (data.getD 34 0) (data.getD 35 0))).toList = data
  rw [Vector.toList_ofFn, Vector.toList_ofFn, hhead, hcrc, ofFn_getD data (by omega),
    ofFn_getD data (by omega), ← List.take_add, ← List.take_add, List.take_append_drop]

end Packet

/-! ### Sealing and checking -/

def Packet.seal (p : Packet) : Packet := { p with crc16 := InfinitagNow.crc16 (p.bytes.take 34) }

-- MsgType, the rescue messages
def msgDiscoverReq : UInt8 := 0x01
def msgDiscoverReply : UInt8 := 0x02
def msgUpdateBegin : UInt8 := 0xF2
def msgUpdateAck : UInt8 := 0xF3

/-- The messages accepted from any protocol version. -/
def isRescueMsg (msgType : UInt8) : Bool :=
  msgType = msgDiscoverReq ∨ msgType = msgDiscoverReply ∨ msgType = msgUpdateBegin ∨
    msgType = msgUpdateAck

/-- Length, version and CRC check. -/
def validate (data : List UInt8) : Bool :=
  if data.length ≠ 36 then false
  else if data.getD 0 0 ≠ protocolVersion ∧ ¬ isRescueMsg (data.getD 1 0) then false
  else getU16 (data.getD 34 0) (data.getD 35 0) = crc16 (data.take 34)

theorem validate_iff {data : List UInt8} :
    validate data = true ↔ data.length = 36 ∧
      (data.getD 0 0 = protocolVersion ∨ isRescueMsg (data.getD 1 0) = true) ∧
      getU16 (data.getD 34 0) (data.getD 35 0) = crc16 (data.take 34) := by
  unfold validate
  split
  · rename_i hlen
    simp [hlen]
  · rename_i hlen
    split
    · rename_i hversion
      have hbad : ¬ (data.getD 0 0 = protocolVersion ∨ isRescueMsg (data.getD 1 0) = true) := by
        rintro (h | h)
        · exact hversion.1 h
        · exact hversion.2 h
      exact ⟨fun h => absurd h (by decide), fun h => absurd h.2.1 hbad⟩
    · rename_i hversion
      have hversion : data.getD 0 0 = protocolVersion ∨ isRescueMsg (data.getD 1 0) = true := by
        by_contra h
        exact hversion (by simpa [not_or] using h)
      rw [decide_eq_true_iff]
      exact ⟨fun h => ⟨not_not.1 hlen, hversion, h⟩, fun h => h.2.2⟩

@[simp] theorem Packet.body_seal (p : Packet) : p.seal.body = p.body := rfl

/-- **A sealed packet is valid** when its version is, or does not matter. -/
theorem validate_seal {p : Packet} (h : p.version = protocolVersion ∨ isRescueMsg p.msgType) :
    validate p.seal.bytes = true := by
  rw [validate_iff]
  refine ⟨Packet.length_bytes _, h, ?_⟩
  rw [Packet.getU16_bytes, Packet.take_bytes, Packet.body_seal, Packet.seal, Packet.take_bytes]

end InfinitagNow
