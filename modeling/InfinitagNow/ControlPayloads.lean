/-
InfinitagNow/ControlPayloads.lean

The four control payloads in both directions: PUSH_BEGIN, PUSH_ACK, HIT_REPORT
and DISCOVER_REPLY (`src/InfinitagNow.cpp`).

`Codec` says what is asked of a pair of encoder and decoder.  A value may lose
something when it is sent (`value`: only a reply does, the part of its blob
behind the length), and a payload is written back as the bytes its format
defines (`bytes`).  Both are reached after one round.

A decoder is handed a pointer.  The `read...` functions are the decoders over a
buffer of which every byte has to be there: they answer `none` where the code
would read past the end.
-/
import InfinitagNow.Configs
import InfinitagNow.ShotToHit

namespace InfinitagNow

/-! ### Decoding a buffer of any length -/

def readU16 (buf : List UInt8) (i : ℕ) : Option UInt16 := do
  return getU16 (← buf[i]?) (← buf[i + 1]?)

def readU32 (buf : List UInt8) (i : ℕ) : Option UInt32 := do
  return getU32 (← buf[i]?) (← buf[i + 1]?) (← buf[i + 2]?) (← buf[i + 3]?)

def readPushBegin (buf : List UInt8) : Option PushBegin := do
  let size ← readU32 buf 0
  let crc32 ← readU32 buf 4
  let major ← buf[8]?
  let minor ← buf[9]?
  let patch ← buf[10]?
  return ⟨size, crc32, major, minor, patch⟩

def readPushAck (buf : List UInt8) : Option PushAck := do
  let window ← readU16 buf 0
  let missing ← readU32 buf 2
  let status ← buf[6]?
  let detail ← buf[7]?
  return ⟨window, missing, status, detail⟩

def readHitReport (buf : List UInt8) : Option (UInt8 × UInt8 × UInt8) := do
  let shooterId ← buf[0]?
  let soundId ← buf[1]?
  let damage ← buf[2]?
  return (shooterId, soundId, damage)

/-- `memcpy` of `n` bytes from byte `i` on into a zeroed blob of 19, with room
for all of them. -/
def readBlob (buf : List UInt8) (i n : ℕ) : Option (Vector UInt8 19) := do
  let src ← (List.range n).mapM fun k => buf[i + k]?
  if n ≤ 19 then return .ofFn fun k => src.getD k 0 else none

def readDiscoverReply (buf : List UInt8) : Option DiscoverReply := do
  let fwMajor ← buf[0]?
  let fwMinor ← buf[1]?
  let fwPatch ← buf[2]?
  let rssiSelf ← buf[3]?
  let uptimeMin ← readU16 buf 4
  let configBlobLen ← buf[6]?
  let configBlob ← readBlob buf 7 (blobLen configBlobLen).toNat
  return ⟨fwMajor, fwMinor, fwPatch, rssiSelf.toInt8, uptimeMin, blobLen configBlobLen, configBlob⟩

/-! ### Encoder and decoder -/

/-- What a payload format promises. -/
structure Codec {V : Type*} (encode : V → Payload) (decode : Payload → V)
    (read : List UInt8 → Option V) (value : V → V)
    (bytes : Payload → ∀ i, i < 26 → UInt8) :
    Prop where
  decode_encode : ∀ v, decode (encode v) = value v
  readsInside : ∀ p, read p.toList = some (decode p)
  encode_decode : ∀ p i (hi : i < 26), (encode (decode p))[i] = bytes p i hi
  stable : ∀ p, decode (encode (decode p)) = decode p

theorem getD_eq_getElem (p : Payload) {i : ℕ} (hi : i < 26) : p.getD i 0 = p[i] := by
  simp [Vector.getD, hi]

theorem getElem?_toList (p : Payload) {i : ℕ} (hi : i < 26) : p.toList[i]? = some p[i] := by
  simp [hi]

theorem readU16_toList (p : Payload) {i : ℕ} (hi : i + 1 < 26) :
    readU16 p.toList i = some (getU16 p[i] p[i + 1]) := by
  rw [readU16, getElem?_toList p (by omega), getElem?_toList p hi]
  rfl

theorem readU32_toList (p : Payload) {i : ℕ} (hi : i + 3 < 26) :
    readU32 p.toList i = some (getU32 p[i] p[i + 1] p[i + 2] p[i + 3]) := by
  rw [readU32, getElem?_toList p (by omega), getElem?_toList p (by omega),
    getElem?_toList p (by omega), getElem?_toList p hi]
  rfl

/-! ### The push payloads -/

theorem codec_pushBegin :
    Codec encodePushBegin decodePushBegin readPushBegin id fun p i hi =>
      if i < 11 then p[i] else if i = 11 then 242 else if i = 12 then 16 else 0 where
  decode_encode := decode_encodePushBegin
  readsInside p := by
    rw [readPushBegin, readU32_toList p (by decide), readU32_toList p (by decide),
      getElem?_toList p (by decide), getElem?_toList p (by decide), getElem?_toList p (by decide)]
    rfl
  encode_decode p i hi := by
    have hsize : putU32 (decodePushBegin p).size = #v[p[0], p[1], p[2], p[3]] :=
      putU32_getU32 _ _ _ _
    have hcrc : putU32 (decodePushBegin p).crc32 = #v[p[4], p[5], p[6], p[7]] :=
      putU32_getU32 _ _ _ _
    simp only [encodePushBegin, hsize, hcrc]
    interval_cases i <;> rfl
  stable p := decode_encodePushBegin _

theorem codec_pushAck :
    Codec encodePushAck decodePushAck readPushAck id fun p i hi =>
      if i < 8 then p[i] else 0 where
  decode_encode := decode_encodePushAck
  readsInside p := by
    rw [readPushAck, readU16_toList p (by decide), readU32_toList p (by decide),
      getElem?_toList p (by decide), getElem?_toList p (by decide)]
    rfl
  encode_decode p i hi := by
    have hwindow : putU16 (decodePushAck p).window = #v[p[0], p[1]] := putU16_getU16 _ _
    have hmissing : putU32 (decodePushAck p).missing = #v[p[2], p[3], p[4], p[5]] :=
      putU32_getU32 _ _ _ _
    simp only [encodePushAck, hwindow, hmissing]
    interval_cases i <;> rfl
  stable p := decode_encodePushAck _

/-! ### The hit report -/

theorem decodeHitReport_eq (p : Payload) :
    decodeHitReport p = (p.get 0, p.get 1, p.get 2) := by
  rw [decodeHitReport, getD_eq_getElem p (by decide), getD_eq_getElem p (by decide),
    getD_eq_getElem p (by decide)]
  rfl

theorem codec_hitReport :
    Codec (fun v => encodeHitReport v.1 v.2.1 v.2.2) decodeHitReport readHitReport id fun p i hi =>
      if i < 3 then p[i] else 0 where
  decode_encode v := decode_encodeHitReport v.1 v.2.1 v.2.2
  readsInside p := by
    rw [readHitReport, getElem?_toList p (by decide), getElem?_toList p (by decide),
      getElem?_toList p (by decide), decodeHitReport_eq]
    rfl
  encode_decode p i hi := by
    rw [decodeHitReport_eq]
    interval_cases i <;> rfl
  stable p := decode_encodeHitReport _ _ _

/-! ### The reply -/

theorem blobLen_eq_min (n : UInt8) : blobLen n = min n 19 := by
  have hmin : min n 19 = if n ≤ 19 then n else 19 := rfl
  rw [blobLen, hmin]
  by_cases h : n ≤ 19
  · rw [if_pos h, if_neg (UInt8.not_lt.2 h)]
  · rw [if_neg h, if_pos (UInt8.not_le.1 h)]

theorem blobLen_toNat_le (n : UInt8) : (blobLen n).toNat ≤ 19 := by
  unfold blobLen
  split
  · decide
  · rename_i h
    exact UInt8.le_iff_toNat_le.1 (UInt8.not_lt.1 h)

theorem mapM_of_forall {α β : Type*} {f : α → Option β} {g : α → β} {l : List α}
    (h : ∀ a ∈ l, f a = some (g a)) : l.mapM f = some (l.map g) := by
  induction l with
  | nil => rfl
  | cons a l ih =>
    rw [List.mapM_cons, h a List.mem_cons_self, ih fun b hb => h b (List.mem_cons_of_mem a hb)]
    rfl

theorem getElem_copyBlob (blob : List UInt8) (n : UInt8) {i : ℕ} (hi : i < 19) :
    (copyBlob blob n)[i] = if i < n.toNat then blob.getD i 0 else 0 := by
  rw [copyBlob, Vector.getElem_ofFn]

theorem readBlob_toList (p : Payload) {n : UInt8} (hn : n.toNat ≤ 19) :
    readBlob p.toList 7 n.toNat = some (copyBlob (p.toList.drop 7) n) := by
  have hsrc : (List.range n.toNat).mapM (fun k => p.toList[7 + k]?) =
      some ((List.range n.toNat).map fun k => p.toList.getD (7 + k) 0) := by
    refine mapM_of_forall fun k hk => ?_
    have hlt : k < n.toNat := List.mem_range.1 hk
    rw [getElem?_toList p (by omega)]
    simp [show 7 + k < 26 by omega]
  rw [readBlob, hsrc]
  show (if n.toNat ≤ 19 then some _ else none) = _
  rw [if_pos hn, Option.some_inj]
  apply Vector.ext
  intro i hi
  rw [getElem_copyBlob _ _ hi, Vector.getElem_ofFn]
  by_cases hlt : i < n.toNat
  · simp [hlt]
  · simp [hlt]

theorem decodeDiscoverReply_eq (p : Payload) :
    decodeDiscoverReply p =
      ⟨p.get 0, p.get 1, p.get 2, (p.get 3).toInt8, getU16 (p.get 4) (p.get 5), blobLen (p.get 6),
        copyBlob (p.toList.drop 7) (blobLen (p.get 6))⟩ := by
  rw [decodeDiscoverReply, getD_eq_getElem p (by decide), getD_eq_getElem p (by decide),
    getD_eq_getElem p (by decide), getD_eq_getElem p (by decide), getD_eq_getElem p (by decide),
    getD_eq_getElem p (by decide), getD_eq_getElem p (by decide)]
  rfl

/-- A reply as it arrives. -/
def DiscoverReply.clamped (r : DiscoverReply) : DiscoverReply :=
  { r with
    configBlobLen := min r.configBlobLen 19
    configBlob := .ofFn fun i =>
      if i < (min r.configBlobLen 19).toNat then r.configBlob[i] else 0 }

theorem clamped_eq (r : DiscoverReply) :
    r.clamped =
      { r with
        configBlobLen := blobLen r.configBlobLen
        configBlob := copyBlob r.configBlob.toList (blobLen r.configBlobLen) } := by
  have hblob : (Vector.ofFn fun i : Fin 19 =>
      if i < (min r.configBlobLen 19).toNat then r.configBlob[i] else 0) =
      copyBlob r.configBlob.toList (blobLen r.configBlobLen) := by
    apply Vector.ext
    intro i hi
    rw [getElem_copyBlob _ _ hi, Vector.getElem_ofFn, blobLen_eq_min]
    simp [hi]
  rw [DiscoverReply.clamped, hblob, blobLen_eq_min]

theorem codec_discoverReply :
    Codec encodeDiscoverReply decodeDiscoverReply readDiscoverReply DiscoverReply.clamped
      fun p i hi =>
        if i < 6 then p[i] else if i = 6 then min p[6] 19
        else if i < 7 + (min p[6] 19).toNat then p[i] else 0 where
  decode_encode r := by rw [decode_encodeDiscoverReply, clamped_eq]
  readsInside p := by
    rw [readDiscoverReply, readU16_toList p (by decide), getElem?_toList p (by decide),
      getElem?_toList p (by decide), getElem?_toList p (by decide), getElem?_toList p (by decide),
      getElem?_toList p (by decide), decodeDiscoverReply_eq]
    show (readBlob p.toList 7 (blobLen p[6]).toNat).bind _ = _
    rw [readBlob_toList p (blobLen_toNat_le _)]
    rfl
  encode_decode p i hi := by
    have huptime : putU16 (getU16 (p.get 4) (p.get 5)) = #v[p.get 4, p.get 5] := putU16_getU16 _ _
    have hlen : p.get 6 = p[6] := rfl
    rw [decodeDiscoverReply_eq, encodeDiscoverReply]
    simp only [huptime, hlen, blobLen_blobLen, copyBlob_copyBlob, ← blobLen_eq_min]
    by_cases hhead : i < 7
    · rw [Vector.getElem_append_left hhead]
      interval_cases i <;> rfl
    · -- the tail: the blob up to its length, zeros behind it
      have htail : (p.toList.drop 7).getD (i - 7) 0 = p[i] := by
        have hback : 7 + (i - 7) = i := by omega
        simp [hback, hi]
      have hlt : i < 7 + (blobLen p[6]).toNat ↔ i - 7 < (blobLen p[6]).toNat := by omega
      rw [Vector.getElem_append_right hi (by omega), getElem_copyBlob _ _ (by omega),
        htail, if_neg (show ¬ i < 6 by omega), if_neg (show ¬ i = 6 by omega)]
      simp only [hlt]
  stable p := by
    rw [decode_encodeDiscoverReply, decodeDiscoverReply_eq]
    simp only [blobLen_blobLen, copyBlob_copyBlob]

/-- **All control payloads round-trip**, values and payloads alike. -/
theorem control_payloads_round_trip :
    Codec encodePushBegin decodePushBegin readPushBegin id (fun p i hi =>
      if i < 11 then p[i] else if i = 11 then 242 else if i = 12 then 16 else 0) ∧
    Codec encodePushAck decodePushAck readPushAck id (fun p i hi => if i < 8 then p[i] else 0) ∧
    Codec (fun v => encodeHitReport v.1 v.2.1 v.2.2) decodeHitReport readHitReport id
      (fun p i hi => if i < 3 then p[i] else 0) ∧
    Codec encodeDiscoverReply decodeDiscoverReply readDiscoverReply DiscoverReply.clamped
      (fun p i hi =>
        if i < 6 then p[i] else if i = 6 then min p[6] 19
        else if i < 7 + (min p[6] 19).toNat then p[i] else 0) :=
  ⟨codec_pushBegin, codec_pushAck, codec_hitReport, codec_discoverReply⟩

end InfinitagNow
