/-
InfinitagNow/EspNowService.lean

The radio wrapper (`src/EspNowService.{h,cpp}`): sending with automatic peer
registration, and the ring in which received packets wait.

The ESP-NOW driver is outside this repository.  It is a parameter, `NowLib`,
that answers each call from the calls made before it; the service keeps the log
of its calls.  What is not a valid packet goes to the raw handler, a function
on the state of whoever registered it.
-/
import InfinitagNow.PacketFormat
import InfinitagNow.RingBuffer

namespace InfinitagNow

/-! ### The driver -/

/-- One call with its answer. -/
inductive NowCall
  | addPeer (mac : Mac) (ok : Bool)
  | delPeer (mac : Mac)
  | send (mac : Mac) (data : List UInt8) (ok : Bool)
  deriving DecidableEq, Repr

/-- The ESP-NOW driver and the clock. -/
structure NowLib where
  isPeerExist : List NowCall → Mac → Bool
  addPeer : List NowCall → Mac → Bool
  send : List NowCall → Mac → List UInt8 → Bool
  millis : ℕ → UInt32

/-- The frames handed to the driver, newest first. -/
def frames : List NowCall → List (Mac × List UInt8)
  | [] => []
  | .send mac data _ :: log => (mac, data) :: frames log
  | _ :: log => frames log

section Frames

variable (log : List NowCall) (mac : Mac) (data : List UInt8) (ok : Bool)

@[simp] theorem frames_addPeer : frames (.addPeer mac ok :: log) = frames log := rfl
@[simp] theorem frames_delPeer : frames (.delPeer mac :: log) = frames log := rfl
@[simp] theorem frames_send : frames (.send mac data ok :: log) = (mac, data) :: frames log := rfl

end Frames

/-! ### The object -/

structure Peer where
  mac : Mac := {}
  lastUse : UInt32 := 0
  used : Bool := false
  deriving DecidableEq, Repr

/-- Handler of frames that are no packets, working on a state of its owner. -/
abbrev RawHandler (ρ : Type*) := Mac → List UInt8 → ρ → ρ

structure EspNowService (ρ : Type*) where
  /-- RX ring, written from the WiFi task -/
  ring : Ring RxPacket 8
  /-- LRU peer cache (the broadcast peer is permanent and not tracked here) -/
  peers : Fin 18 → Peer := fun _ => {}
  raw : Option (RawHandler ρ) := none
  /-- the calls to the driver, newest first -/
  log : List NowCall := []
  /-- how often the clock was read -/
  reads : ℕ := 0

def bcast : Mac := ⟨.replicate 6 0xFF⟩

namespace EspNowService

variable {ρ : Type*} (lib : NowLib)

/-! ### Receiving -/

/-- `onRecvStatic`, with the state of the raw handler's owner. -/
def onRecv (net : EspNowService ρ) (mac : Mac) (data : List UInt8) (owner : ρ) :
    EspNowService ρ × ρ :=
  if validate data = false then
    -- not one of our 36-byte packets: offer it to the raw hook (push data)
    match net.raw with
    | some handler => (net, handler mac data owner)
    | none => (net, owner)
  else ({ net with ring := net.ring.push ⟨mac, .ofBytes data⟩ }, owner)

/-- One received packet, if there is any. -/
def receive (net : EspNowService ρ) : Option (RxPacket × EspNowService ρ) :=
  match net.ring.pop with
  | some (rx, ring) => some (rx, { net with ring := ring })
  | none => none

/-! ### Peers -/

@[simps]
def call (net : EspNowService ρ) (c : NowCall) : EspNowService ρ := { net with log := c :: net.log }

/-- `p.lastUse = millis()` -/
@[simps]
def stamp (net : EspNowService ρ) (i : Fin 18) : EspNowService ρ :=
  { net with
    peers := Function.update net.peers i
      { net.peers i with lastUse := lib.millis net.reads }
    reads := net.reads + 1 }

/-- The peer is known to the driver: note its use. -/
def touch (net : EspNowService ρ) (mac : Mac) : EspNowService ρ :=
  (List.finRange 18).foldl (fun net i =>
    if (net.peers i).used = true ∧ (net.peers i).mac = mac then net.stamp lib i else net) net

def freeSlot (net : EspNowService ρ) : Option (Fin 18) :=
  (List.finRange 18).find? fun i => !(net.peers i).used

/-- The least recently used peer. -/
def oldest (net : EspNowService ρ) : Fin 18 :=
  (List.finRange 18).foldl (fun oldest i =>
    if (net.peers i).lastUse < (net.peers oldest).lastUse then i else oldest) ⟨0, Nat.succ_pos 17⟩

/-- Remove the peer in a slot, here and in the driver. -/
@[simps!]
def evict (net : EspNowService ρ) (i : Fin 18) : EspNowService ρ :=
  { net.call (.delPeer (net.peers i).mac) with
    peers := Function.update net.peers i { net.peers i with used := false } }

/-- Register a peer in a slot; false if the driver refuses. -/
def register (net : EspNowService ρ) (i : Fin 18) (mac : Mac) : EspNowService ρ × Bool :=
  let ok := lib.addPeer net.log mac
  let net := net.call (.addPeer mac ok)
  if ok = false then (net, false)
  else
    ({ net with
        peers := Function.update net.peers i ⟨mac, lib.millis net.reads, true⟩
        reads := net.reads + 1 }, true)

def ensurePeer (net : EspNowService ρ) (mac : Mac) : EspNowService ρ × Bool :=
  if lib.isPeerExist net.log mac then (net.touch lib mac, true)
  else
    match net.freeSlot with
    | some i => net.register lib i mac
    | none => (net.evict net.oldest).register lib net.oldest mac

/-! ### Sending -/

/-- `esp_now_send` -/
def driverSend (net : EspNowService ρ) (mac : Mac) (data : List UInt8) : EspNowService ρ × Bool :=
  let ok := lib.send net.log mac data
  (net.call (.send mac data ok), ok)

/-- Seals and sends. -/
def send (net : EspNowService ρ) (mac : Mac) (p : Packet) : EspNowService ρ × Bool :=
  let (net, ok) := net.ensurePeer lib mac
  if ok = false then (net, false) else net.driverSend lib mac p.seal.bytes

def sendRaw (net : EspNowService ρ) (mac : Mac) (data : List UInt8) : EspNowService ρ × Bool :=
  if data.length > 250 then (net, false)
  else
    let (net, ok) := net.ensurePeer lib mac
    if ok = false then (net, false) else net.driverSend lib mac data

def sendBroadcast (net : EspNowService ρ) (p : Packet) : EspNowService ρ × Bool :=
  net.driverSend lib bcast p.seal.bytes

/-! ### What goes on the air -/

section Air

variable {lib} {net : EspNowService ρ}

theorem frames_touch (mac : Mac) : frames (net.touch lib mac).log = frames net.log := by
  unfold touch
  refine List.foldlRecOn (motive := fun net' : EspNowService ρ => frames net'.log = frames net.log)
    _ _ rfl ?_
  intro net' h i _
  split
  · exact h
  · exact h

theorem frames_register (i : Fin 18) (mac : Mac) :
    frames (net.register lib i mac).1.log = frames net.log := by
  unfold register
  dsimp only
  split <;> simp

/-- Registering a peer sends nothing. -/
theorem frames_ensurePeer (mac : Mac) : frames (net.ensurePeer lib mac).1.log = frames net.log := by
  unfold ensurePeer
  split
  · exact frames_touch mac
  · split
    · exact frames_register _ mac
    · rw [frames_register]
      simp

variable (lib net) in
/-- A packet goes out sealed, or not at all. -/
theorem frames_send_eq (mac : Mac) (p : Packet) :
    frames (net.send lib mac p).1.log = frames net.log ∨
      frames (net.send lib mac p).1.log = (mac, p.seal.bytes) :: frames net.log := by
  unfold send
  dsimp only
  split
  · exact .inl (frames_ensurePeer mac)
  · right
    rw [driverSend, call_log, frames_send, frames_ensurePeer]

theorem frames_sendBroadcast (p : Packet) :
    frames (net.sendBroadcast lib p).1.log = (bcast, p.seal.bytes) :: frames net.log := rfl

/-- A raw frame goes out as it is, or not at all. -/
theorem frames_sendRaw (mac : Mac) (data : List UInt8) :
    frames (net.sendRaw lib mac data).1.log = frames net.log ∨
      frames (net.sendRaw lib mac data).1.log = (mac, data) :: frames net.log := by
  unfold sendRaw
  split
  · exact .inl rfl
  · dsimp only
    split
    · exact .inl (frames_ensurePeer mac)
    · right
      rw [driverSend, call_log, frames_send, frames_ensurePeer]

end Air

/-! ### Where a frame goes -/

section Receive

variable {net : EspNowService ρ} {mac : Mac} {data : List UInt8} {owner : ρ}

theorem onRecv_raw {handler : RawHandler ρ} (hraw : net.raw = some handler)
    (h : validate data = false) : net.onRecv mac data owner = (net, handler mac data owner) := by
  rw [onRecv, if_pos h, hraw]

theorem onRecv_packet (h : validate data = true) :
    net.onRecv mac data owner =
      ({ net with ring := net.ring.push ⟨mac, .ofBytes data⟩ }, owner) := by
  rw [onRecv, if_neg (by rw [h]; decide)]

end Receive

end EspNowService

end InfinitagNow
