/-
InfinitagNow/Configs.lean

The configurations of station and target as blobs, and the reply that carries a
blob to the config box (`src/InfinitagNow.{h,cpp}`).

A decoder starts from the defaults and overwrites the fields the blob contains;
for some fields zero means "not set".  What it yields is therefore in a normal
form (`Normal`) that encoding does not lose: a config that was read can be
written back (`config_read_write_back`).
-/
import InfinitagNow.PacketFormat

namespace InfinitagNow

-- LedChannel, LaserMode
def ledR : UInt8 := 0x01
def ledG : UInt8 := 0x02
def laserModeGlow : UInt8 := 3

/-! ### Station -/

structure StationConfig where
  volumePct : UInt8 := 80
  ledReady : UInt8 := ledG
  ledBusy : UInt8 := ledR
  laserMode : UInt8 := laserModeGlow
  laserGlow : UInt8 := 1
  irId : UInt8 := 0
  ledBrightPct : UInt8 := 100
  deriving DecidableEq, Repr

def encodeStationConfig (c : StationConfig) : Vector UInt8 16 :=
  #v[c.volumePct, c.ledReady, c.ledBusy, c.laserMode, c.laserGlow, c.irId, c.ledBrightPct,
    0, 0, 0, 0, 0, 0, 0, 0, 0]

def decodeStationConfig (blob : List UInt8) (len : ℕ) : StationConfig :=
  let c : StationConfig := {}
  { volumePct := if len ≥ 1 then blob.getD 0 0 else c.volumePct
    -- 0 = field not set (e.g. short blob / old sender) -> keep the default
    ledReady := if len ≥ 2 ∧ blob.getD 1 0 ≠ 0 then blob.getD 1 0 else c.ledReady
    ledBusy := if len ≥ 3 ∧ blob.getD 2 0 ≠ 0 then blob.getD 2 0 else c.ledBusy
    laserMode := if len ≥ 4 ∧ blob.getD 3 0 ≠ 0 then blob.getD 3 0 else c.laserMode
    laserGlow := if len ≥ 5 ∧ blob.getD 4 0 ≠ 0 then blob.getD 4 0 else c.laserGlow
    -- ir_id 0 is a valid value (factory group), no unset semantics here
    irId := if len ≥ 6 then blob.getD 5 0 &&& 0x0F else c.irId
    ledBrightPct := if len ≥ 7 ∧ blob.getD 6 0 ≠ 0 then blob.getD 6 0 else c.ledBrightPct }

namespace StationConfig

/-- What a decoder can yield. -/
structure Normal (c : StationConfig) : Prop where
  ledReady_ne : c.ledReady ≠ 0
  ledBusy_ne : c.ledBusy ≠ 0
  laserMode_ne : c.laserMode ≠ 0
  laserGlow_ne : c.laserGlow ≠ 0
  irId_le : c.irId &&& 0x0F = c.irId
  ledBrightPct_ne : c.ledBrightPct ≠ 0

theorem normal_decode (blob : List UInt8) (len : ℕ) : (decodeStationConfig blob len).Normal := by
  have hset : ∀ (p : Prop) [Decidable p] (x d : UInt8), d ≠ 0 →
      (if p ∧ x ≠ 0 then x else d) ≠ 0 := by
    intro p _ x d hd
    split
    · rename_i h
      exact h.2
    · exact hd
  constructor
  · exact hset _ _ _ (by decide)
  · exact hset _ _ _ (by decide)
  · exact hset _ _ _ (by decide)
  · exact hset _ _ _ (by decide)
  · show (if len ≥ 6 then blob.getD 5 0 &&& 0x0F else 0) &&& 0x0F =
      if len ≥ 6 then blob.getD 5 0 &&& 0x0F else 0
    split
    · rw [UInt8.and_assoc, UInt8.and_self]
    · rfl
  · exact hset _ _ _ (by decide)

/-- Encoding loses nothing of a config in normal form. -/
theorem decode_encode {c : StationConfig} (h : c.Normal) (rest : List UInt8) {len : ℕ}
    (hlen : 16 ≤ len) :
    decodeStationConfig ((encodeStationConfig c).toList ++ rest) len = c := by
  obtain ⟨h1, h2, h3, h4, h5, h6⟩ := h
  have hk : ∀ k ≤ 16, k ≤ len := fun k hk => hk.trans hlen
  cases c
  simp_all [decodeStationConfig, encodeStationConfig]

end StationConfig

/-! ### Target -/

structure TargetConfig where
  soundId : UInt8 := 1
  hitTimeMs : UInt16 := 10000
  cooldownMs : UInt16 := 2000
  swAnimation : UInt8 := 0
  swChannels : UInt8 := 0b00000111
  ledBrightPct : UInt8 := 100
  deriving DecidableEq, Repr

def encodeTargetConfig (c : TargetConfig) : Vector UInt8 16 :=
  let hitTime := putU16 c.hitTimeMs
  let cooldown := putU16 c.cooldownMs
  #v[c.soundId, hitTime.getD 0 0, hitTime.getD 1 0, cooldown.getD 0 0, cooldown.getD 1 0,
    c.swAnimation, c.swChannels, c.ledBrightPct, 0, 0, 0, 0, 0, 0, 0, 0]

def decodeTargetConfig (blob : List UInt8) (len : ℕ) : TargetConfig :=
  let c : TargetConfig := {}
  { soundId := if len ≥ 1 then blob.getD 0 0 else c.soundId
    hitTimeMs := if len ≥ 3 then getU16 (blob.getD 1 0) (blob.getD 2 0) else c.hitTimeMs
    cooldownMs := if len ≥ 5 then getU16 (blob.getD 3 0) (blob.getD 4 0) else c.cooldownMs
    swAnimation := if len ≥ 6 then blob.getD 5 0 else c.swAnimation
    swChannels := if len ≥ 7 then blob.getD 6 0 else c.swChannels
    ledBrightPct := if len ≥ 8 ∧ blob.getD 7 0 ≠ 0 then blob.getD 7 0 else c.ledBrightPct }

namespace TargetConfig

def Normal (c : TargetConfig) : Prop := c.ledBrightPct ≠ 0

theorem normal_decode (blob : List UInt8) (len : ℕ) : (decodeTargetConfig blob len).Normal := by
  show (if len ≥ 8 ∧ blob.getD 7 0 ≠ 0 then blob.getD 7 0 else 100) ≠ 0
  split
  · rename_i h
    exact h.2
  · decide

theorem decode_encode {c : TargetConfig} (h : c.Normal) (rest : List UInt8) {len : ℕ}
    (hlen : 16 ≤ len) :
    decodeTargetConfig ((encodeTargetConfig c).toList ++ rest) len = c := by
  have hhit : getU16 ((putU16 c.hitTimeMs).getD 0 0) ((putU16 c.hitTimeMs).getD 1 0) =
      c.hitTimeMs := getU16_putU16 c.hitTimeMs
  have hcool : getU16 ((putU16 c.cooldownMs).getD 0 0) ((putU16 c.cooldownMs).getD 1 0) =
      c.cooldownMs := getU16_putU16 c.cooldownMs
  have hk : ∀ k ≤ 16, k ≤ len := fun k hk => hk.trans hlen
  cases c
  simp_all [decodeTargetConfig, encodeTargetConfig, Normal]

end TargetConfig

/-! ### The reply that carries a blob -/

structure DiscoverReply where
  fwMajor : UInt8 := 0
  fwMinor : UInt8 := 0
  fwPatch : UInt8 := 0
  rssiSelf : Int8 := 0
  uptimeMin : UInt16 := 0
  configBlobLen : UInt8 := 0
  configBlob : Vector UInt8 19 := .replicate 19 0
  deriving DecidableEq, Repr

/-- `config_blob_len`, at most CONFIG_BLOB_MAX. -/
def blobLen (n : UInt8) : UInt8 := if n > 19 then 19 else n

/-- `memcpy` of `n` bytes over zeros. -/
def copyBlob (blob : List UInt8) (n : UInt8) : Vector UInt8 19 :=
  .ofFn fun i => if i < n.toNat then blob.getD i 0 else 0

def encodeDiscoverReply (r : DiscoverReply) : Payload :=
  let uptime := putU16 r.uptimeMin
  let n := blobLen r.configBlobLen
  #v[r.fwMajor, r.fwMinor, r.fwPatch, r.rssiSelf.toUInt8, uptime.getD 0 0, uptime.getD 1 0, n] ++
    copyBlob r.configBlob.toList n

def decodeDiscoverReply (p : Payload) : DiscoverReply where
  fwMajor := p.getD 0 0
  fwMinor := p.getD 1 0
  fwPatch := p.getD 2 0
  rssiSelf := (p.getD 3 0).toInt8
  uptimeMin := getU16 (p.getD 4 0) (p.getD 5 0)
  configBlobLen := blobLen (p.getD 6 0)
  configBlob := copyBlob (p.toList.drop 7) (blobLen (p.getD 6 0))

theorem blobLen_blobLen (n : UInt8) : blobLen (blobLen n) = blobLen n := by
  unfold blobLen
  split
  · rfl
  · rfl

theorem copyBlob_copyBlob (blob : List UInt8) (n : UInt8) :
    copyBlob (copyBlob blob n).toList n = copyBlob blob n := by
  apply Vector.ext
  intro i hi
  by_cases hn : i < n.toNat
  · simp [copyBlob, hn]
  · simp [copyBlob, hn]

/-- A payload in two parts: the fields and the blob. -/
theorem decode_append (v : Vector UInt8 7) (blob : Vector UInt8 19) :
    decodeDiscoverReply (v ++ blob) =
      ⟨v.getD 0 0, v.getD 1 0, v.getD 2 0, (v.getD 3 0).toInt8,
        getU16 (v.getD 4 0) (v.getD 5 0), blobLen (v.getD 6 0),
        copyBlob blob.toList (blobLen (v.getD 6 0))⟩ := by
  have hget : ∀ i < 7, (v ++ blob).getD i 0 = v.getD i 0 := by
    intro i hi
    have hv : (v ++ blob)[i] = v[i] := Vector.getElem_append_left hi
    simpa [Vector.getD, hi, Nat.lt_add_right 19 hi] using hv
  have hblob : (v ++ blob).toList.drop 7 = blob.toList := by
    rw [Vector.toList_append, List.drop_left' (by simp)]
  have hlen : blobLen ((v ++ blob).getD 6 0) = blobLen (v.getD 6 0) :=
    congrArg blobLen (hget 6 (by decide))
  rw [decodeDiscoverReply, DiscoverReply.mk.injEq]
  exact ⟨hget 0 (by decide), hget 1 (by decide), hget 2 (by decide),
    congrArg UInt8.toInt8 (hget 3 (by decide)),
    congrArg₂ getU16 (hget 4 (by decide)) (hget 5 (by decide)), hlen,
    congrArg₂ copyBlob hblob hlen⟩

/-- A reply arrives with its blob cut to the length that is sent. -/
theorem decode_encodeDiscoverReply (r : DiscoverReply) :
    decodeDiscoverReply (encodeDiscoverReply r) =
      { r with
        configBlobLen := blobLen r.configBlobLen
        configBlob := copyBlob r.configBlob.toList (blobLen r.configBlobLen) } := by
  have huptime : getU16 ((putU16 r.uptimeMin).getD 0 0) ((putU16 r.uptimeMin).getD 1 0) =
      r.uptimeMin := getU16_putU16 r.uptimeMin
  rw [encodeDiscoverReply, decode_append]
  cases r
  simpa [blobLen_blobLen, copyBlob_copyBlob] using huptime

/-! ### There and back -/

def replyPacket (deviceType flags token : UInt8) (r : DiscoverReply) : Packet :=
  { Packet.init msgDiscoverReply deviceType with
    flags := flags
    token := token
    payload := encodeDiscoverReply r }

/-- The 16 bytes of a config in the reply; `rest` is what stands behind them in
the buffer. -/
def DiscoverReply.withBlob (r : DiscoverReply) (blob : Vector UInt8 16) (rest : Vector UInt8 3) :
    DiscoverReply :=
  { r with configBlobLen := 16, configBlob := blob ++ rest }

/-- A config encoded into a zeroed CFG_WRITE payload. -/
def cfgWritePayload (blob : Vector UInt8 16) : Payload :=
  blob ++ Vector.replicate 10 (0 : UInt8)

section Journey

variable {C : Type*} (decode : List UInt8 → ℕ → C) (encode : C → Vector UInt8 16)

/-- The config box reads a config and writes it back: the device announces `c` in
a reply, the box decodes it, and the device decodes what the box writes. -/
def readWriteBack (deviceType flags token : UInt8) (r : DiscoverReply) (rest : Vector UInt8 3)
    (len : ℕ) (c : C) : Option C :=
  let wire := (replyPacket deviceType flags token (r.withBlob (encode c) rest)).seal.bytes
  if validate wire then
    let reply := decodeDiscoverReply (Packet.ofBytes wire).payload
    let read := decode reply.configBlob.toList reply.configBlobLen.toNat
    some (decode (cfgWritePayload (encode read)).toList len)
  else none

theorem toList_copyBlob {blob : List UInt8} {n : UInt8} (hn : n.toNat ≤ 19)
    (hlen : n.toNat ≤ blob.length) :
    (copyBlob blob n).toList = blob.take n.toNat ++ List.replicate (19 - n.toNat) 0 := by
  apply List.ext_getElem
  · simp
    omega
  · intro i hi hi'
    by_cases hlt : i < n.toNat
    · rw [List.getElem_append_left (by simp; omega)]
      have hib : i < blob.length := by omega
      simp [copyBlob, hlt, hib]
    · rw [List.getElem_append_right (by simp; omega)]
      simp [copyBlob, hlt]

/-- The blob arrives as it was sent. -/
theorem blob_arrives (r : DiscoverReply) (blob : Vector UInt8 16) (rest : Vector UInt8 3) :
    decodeDiscoverReply (encodeDiscoverReply (r.withBlob blob rest)) =
      { r with
        configBlobLen := 16
        configBlob := copyBlob (blob ++ rest).toList 16 } ∧
      (copyBlob (blob ++ rest).toList 16).toList = blob.toList ++ [0, 0, 0] := by
  refine ⟨decode_encodeDiscoverReply (r.withBlob blob rest), ?_⟩
  rw [toList_copyBlob (by decide) (by simp), Vector.toList_append, List.take_left' (by simp)]
  rfl

theorem readWriteBack_eq {decode : List UInt8 → ℕ → C} {encode : C → Vector UInt8 16} {c : C}
    (hcodec : ∀ (rest : List UInt8) (len : ℕ), 16 ≤ len →
      decode ((encode c).toList ++ rest) len = c)
    (deviceType flags token : UInt8) (r : DiscoverReply) (rest : Vector UInt8 3) {len : ℕ}
    (hlen : 16 ≤ len) :
    readWriteBack decode encode deviceType flags token r rest len c = some c := by
  have hvalid : validate
      (replyPacket deviceType flags token (r.withBlob (encode c) rest)).seal.bytes = true :=
    validate_seal (.inl rfl)
  obtain ⟨hreply, hblob⟩ := blob_arrives r (encode c) rest
  have hread : decode ((encode c).toList ++ [0, 0, 0]) 16 = c := hcodec _ 16 le_rfl
  have hwrite : (cfgWritePayload (encode c)).toList = (encode c).toList ++ List.replicate 10 0 :=
    Vector.toList_append.trans (congrArg _ Vector.toList_replicate)
  simp only [readWriteBack, hvalid, if_true, Packet.ofBytes_bytes]
  show some (decode (cfgWritePayload (encode (decode
    (decodeDiscoverReply (encodeDiscoverReply (r.withBlob (encode c) rest))).configBlob.toList
    (decodeDiscoverReply (encodeDiscoverReply (r.withBlob (encode c) rest))).configBlobLen.toNat
    ))).toList len) = some c
  rw [hreply]
  show some (decode (cfgWritePayload (encode (decode
    (copyBlob ((encode c) ++ rest).toList 16).toList 16))).toList len) = some c
  rw [hblob, hread, hwrite, hcodec _ len hlen]

end Journey

/-! ### What a config depends on -/

/-- Fields that end behind byte `n` have their defaults. -/
structure StationConfig.DefaultFrom (n : ℕ) (c : StationConfig) : Prop where
  volumePct : n < 1 → c.volumePct = ({} : StationConfig).volumePct
  ledReady : n < 2 → c.ledReady = ({} : StationConfig).ledReady
  ledBusy : n < 3 → c.ledBusy = ({} : StationConfig).ledBusy
  laserMode : n < 4 → c.laserMode = ({} : StationConfig).laserMode
  laserGlow : n < 5 → c.laserGlow = ({} : StationConfig).laserGlow
  irId : n < 6 → c.irId = ({} : StationConfig).irId
  ledBrightPct : n < 7 → c.ledBrightPct = ({} : StationConfig).ledBrightPct

structure TargetConfig.DefaultFrom (n : ℕ) (c : TargetConfig) : Prop where
  soundId : n < 1 → c.soundId = ({} : TargetConfig).soundId
  hitTimeMs : n < 3 → c.hitTimeMs = ({} : TargetConfig).hitTimeMs
  cooldownMs : n < 5 → c.cooldownMs = ({} : TargetConfig).cooldownMs
  swAnimation : n < 6 → c.swAnimation = ({} : TargetConfig).swAnimation
  swChannels : n < 7 → c.swChannels = ({} : TargetConfig).swChannels
  ledBrightPct : n < 8 → c.ledBrightPct = ({} : TargetConfig).ledBrightPct

theorem StationConfig.defaultFrom_decode (b : List UInt8) (n : ℕ) :
    (decodeStationConfig b n).DefaultFrom n := by
  constructor <;> intro h
  · exact if_neg (by omega)
  · exact if_neg (by omega)
  · exact if_neg (by omega)
  · exact if_neg (by omega)
  · exact if_neg (by omega)
  · exact if_neg (by omega)
  · exact if_neg (by omega)

theorem TargetConfig.defaultFrom_decode (b : List UInt8) (n : ℕ) :
    (decodeTargetConfig b n).DefaultFrom n := by
  constructor <;> intro h
  · exact if_neg (by omega)
  · exact if_neg (by omega)
  · exact if_neg (by omega)
  · exact if_neg (by omega)
  · exact if_neg (by omega)
  · exact if_neg (by omega)

theorem getD_of_take_eq {b b' : List UInt8} {n : ℕ} (h : b'.take n = b.take n) {k : ℕ}
    (hk : k < n) : b'.getD k 0 = b.getD k 0 := by
  calc b'.getD k 0 = (b'.take n).getD k 0 := by
        rw [List.getD_eq_getElem?_getD, List.getD_eq_getElem?_getD, List.getElem?_take_of_lt hk]
    _ = (b.take n).getD k 0 := by rw [h]
    _ = b.getD k 0 := by
        rw [List.getD_eq_getElem?_getD, List.getD_eq_getElem?_getD, List.getElem?_take_of_lt hk]

theorem decode_of_take_eq {b b' : List UInt8} {n : ℕ} (h : b'.take n = b.take n) :
    decodeStationConfig b' n = decodeStationConfig b n ∧
      decodeTargetConfig b' n = decodeTargetConfig b n := by
  -- a byte is read only under a test that it is among the first n
  have hplain : ∀ k (f : UInt8 → UInt8) (d : UInt8),
      (if n ≥ k + 1 then f (b'.getD k 0) else d) = if n ≥ k + 1 then f (b.getD k 0) else d := by
    intro k f d
    split
    · rw [getD_of_take_eq h (by omega)]
    · rfl
  have hset : ∀ k (d : UInt8), (if n ≥ k + 1 ∧ b'.getD k 0 ≠ 0 then b'.getD k 0 else d) =
      if n ≥ k + 1 ∧ b.getD k 0 ≠ 0 then b.getD k 0 else d := by
    intro k d
    by_cases hk : n ≥ k + 1
    · rw [getD_of_take_eq h (by omega)]
    · rw [if_neg fun hc => hk hc.1, if_neg fun hc => hk hc.1]
  have hword : ∀ k (d : UInt16), (if n ≥ k + 2 then getU16 (b'.getD k 0) (b'.getD (k + 1) 0) else d)
      = if n ≥ k + 2 then getU16 (b.getD k 0) (b.getD (k + 1) 0) else d := by
    intro k d
    split
    · rw [getD_of_take_eq h (by omega), getD_of_take_eq h (by omega)]
    · rfl
  constructor
  · rw [decodeStationConfig, decodeStationConfig, StationConfig.mk.injEq]
    exact ⟨hplain 0 id _, hset 1 _, hset 2 _, hset 3 _, hset 4 _, hplain 5 (· &&& 0x0F) _,
      hset 6 _⟩
  · rw [decodeTargetConfig, decodeTargetConfig, TargetConfig.mk.injEq]
    exact ⟨hplain 0 id _, hword 1 _, hword 3 _, hplain 5 id _, hplain 6 id _, hset 7 _⟩

/-- **Reading a device's config and writing it back changes nothing**, and the
config depends on the bytes it was decoded from only. -/
theorem config_read_write_back (b : List UInt8) (n : ℕ) :
    (∀ deviceType flags token r rest len, len = 16 ∨ len = 26 →
      readWriteBack decodeStationConfig encodeStationConfig deviceType flags token r rest len
          (decodeStationConfig b n) = some (decodeStationConfig b n) ∧
        readWriteBack decodeTargetConfig encodeTargetConfig deviceType flags token r rest len
          (decodeTargetConfig b n) = some (decodeTargetConfig b n)) ∧
      (∀ b' : List UInt8, b'.take n = b.take n →
        decodeStationConfig b' n = decodeStationConfig b n ∧
          decodeTargetConfig b' n = decodeTargetConfig b n) ∧
      (decodeStationConfig b n).DefaultFrom n ∧ (decodeTargetConfig b n).DefaultFrom n := by
  refine ⟨fun deviceType flags token r rest len hlen => ?_, fun b' h => decode_of_take_eq h,
    StationConfig.defaultFrom_decode b n, TargetConfig.defaultFrom_decode b n⟩
  have h16 : 16 ≤ len := by omega
  constructor
  · refine readWriteBack_eq (fun rest len hlen => ?_) deviceType flags token r rest h16
    exact StationConfig.decode_encode (StationConfig.normal_decode b n) rest hlen
  · refine readWriteBack_eq (fun rest len hlen => ?_) deviceType flags token r rest h16
    exact TargetConfig.decode_encode (TargetConfig.normal_decode b n) rest hlen

/-- A blob of two bytes: a volume and an unset color. -/
theorem config_read_write_back_short :
    readWriteBack decodeStationConfig encodeStationConfig 1 0 0 {} (.replicate 3 0) 26
        (decodeStationConfig [55, 0] 2) =
      some { volumePct := 55 } := by
  have h := ((config_read_write_back [55, 0] 2).1 1 0 0 {} (.replicate 3 0) 26 (.inr rfl)).1
  have hdecode : decodeStationConfig [55, 0] 2 = { volumePct := 55 } := by decide
  rw [h, hdecode]

end InfinitagNow
