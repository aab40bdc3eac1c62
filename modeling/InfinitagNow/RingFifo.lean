/-
InfinitagNow/RingFifo.lean

The two receive rings: the packets of `EspNowService`, written by `onRecvStatic`
and read by `receive()`, and the raw frames of `EspNowPushReceiver`, written by
the raw handler and read by the draining loop.

Each is written in the WiFi task and read in the main one, under a lock, so that
a run is an interleaving of both critical sections.  Both implement a queue of
bounded length, 7 packets and 23 frames, whatever slot head and tail begin at.
What is queued is the sender with the bytes received, and the bytes of the frame:
the items come out as they were received.
-/
import InfinitagNow.BoundedFifo
import InfinitagNow.EspNowService
import InfinitagNow.PushCommit
import InfinitagNow.PushLeftover

namespace InfinitagNow

open Fifo (Op Implements Serves)

/-! ### The packet ring -/

namespace EspNowService

variable {ρ : Type*}

/-- What happens to the packet ring. -/
inductive RingEvent
  | onRecv (mac : Mac) (data : List UInt8)
  | receive
  deriving DecidableEq, Repr

/-- The service, with the state of the raw handler's owner. -/
def ringStep (w : EspNowService ρ × ρ) : RingEvent → EspNowService ρ × ρ
  | .onRecv mac data => w.1.onRecv mac data w.2
  | .receive =>
    match w.1.receive with
    | some (_, net) => (net, w.2)
    | none => w

/-- A valid packet is to be stored with its sender. -/
def ringOp (_ : EspNowService ρ × ρ) : RingEvent → Option (Op (Mac × List UInt8))
  | .onRecv mac data => if validate data then some (.put (mac, data)) else none
  | .receive => some .take

/-- A received packet as it came. -/
def asReceived (rx : RxPacket) : Mac × List UInt8 := (rx.mac, rx.pkt.bytes)

/-- What `receive()` gives. -/
def delivered (w : EspNowService ρ × ρ) : Option (Mac × List UInt8) :=
  w.1.receive.map fun p => asReceived p.1

def waitingPackets (w : EspNowService ρ × ρ) : List (Mac × List UInt8) :=
  w.1.ring.toList.map asReceived

/-- The packet ring is a queue of 7. -/
theorem ring_implements :
    Implements (ringStep (ρ := ρ)) ringOp delivered 7 waitingPackets fun _ => True where
  put := by
    rintro w (⟨mac, data⟩ | _) x - hop
    · by_cases hvalid : validate data = true
      · rw [ringOp, if_pos hvalid] at hop
        obtain rfl : (mac, data) = x := by simpa using hop
        have hitem : asReceived ⟨mac, .ofBytes data⟩ = (mac, data) := by
          rw [asReceived, Packet.bytes_ofBytes (validate_iff.1 hvalid).1]
        rw [waitingPackets, ringStep, onRecv_packet hvalid, ← hitem]
        exact Ring.toList_put asReceived w.1.ring _
      · rw [ringOp, if_neg hvalid] at hop
        cases hop
    · cases hop
  take := by
    rintro w (⟨mac, data⟩ | _) - hop
    · rw [ringOp] at hop
      split at hop <;> cases hop
    · rw [delivered, waitingPackets, waitingPackets, ringStep, receive]
      cases hpop : w.1.ring.pop with
      | none =>
        rw [Ring.toList_of_pop_none hpop]
        exact ⟨rfl, by simp⟩
      | some p =>
        rw [Ring.toList_of_pop_some hpop]
        exact ⟨rfl, rfl⟩
  idle := by
    rintro w (⟨mac, data⟩ | _) - hop
    · by_cases hvalid : validate data = true
      · rw [ringOp, if_pos hvalid] at hop
        cases hop
      · -- offered to the raw handler, which has a state of its own
        rw [waitingPackets, ringStep, onRecv, if_pos (by simpa using hvalid)]
        cases w.1.raw <;> rfl
    · cases hop

end EspNowService

/-! ### The frame queue -/

namespace EspNowPushReceiver

/-- A frame that passes the checks of the raw handler is to be stored; a pass of
the draining loop takes one. -/
def queueOp (r : EspNowPushReceiver) : Event → Option (Op (List UInt8))
  | .raw mac data =>
    if r.state = .receiving ∧ (rawHdr ≤ data.length ∧ data.length ≤ 250) ∧
        data.take 4 = rawMagic ∧ mac = r.srcMac then some (.put data)
    else none
  | .drain => if r.state = .receiving then some .take else none
  | _ => none

/-- The frame a pass of the draining loop gets. -/
def taken (r : EspNowPushReceiver) : Option (List UInt8) := r.queue.pop.map fun p => p.1.bytes

def waitingFrames (r : EspNowPushReceiver) : List (List UInt8) :=
  r.queue.toList.map RawFrame.bytes

/-- Control packets and the periodic ack leave the queue alone. -/
theorem onControl_queue (plat : Platform) (r : EspNowPushReceiver) (rx : RxPacket) :
    (r.onControl plat rx).queue = r.queue := by
  have hrule := onControl_rule plat r rx
  generalize r.onControl plat rx = r' at hrule
  cases hrule <;> simp

theorem tail_queue (plat : Platform) (r : EspNowPushReceiver) :
    (r.tail plat).queue = r.queue := by
  have hrule := tail_rule plat r
  generalize r.tail plat = r' at hrule
  cases hrule <;> simp

/-- The frame queue is a queue of 23. -/
theorem queue_implements (plat : Platform) :
    Implements (step plat) queueOp taken 23 waitingFrames (· ≠ .loop) where
  put := by
    rintro r (rx | ⟨mac, data⟩ | _ | _ | _) x - hop
    case raw =>
      rw [queueOp] at hop
      split at hop
      · rename_i hcond
        obtain ⟨hst, hlen, hmagic, hmac⟩ := hcond
        obtain rfl : data = x := by simpa using hop
        have hpush : r.rawHandler mac data =
            { r with queue := r.queue.push ⟨data, hlen.1, hlen.2⟩ } := by
          simp [rawHandler, hst, hlen, hmagic, hmac]
        show (r.rawHandler mac data).waitingFrames = _
        rw [hpush]
        exact Ring.toList_put RawFrame.bytes r.queue ⟨data, hlen.1, hlen.2⟩
      · cases hop
    case drain =>
      rw [queueOp] at hop
      split at hop <;> cases hop
    all_goals cases hop
  take := by
    rintro r (rx | ⟨mac, data⟩ | _ | _ | _) - hop
    case raw =>
      rw [queueOp] at hop
      split at hop <;> cases hop
    case drain =>
      rw [queueOp] at hop
      split at hop
      · rename_i hst
        refine ⟨Ring.pop_take RawFrame.bytes r.queue, ?_⟩
        show (r.drain plat).waitingFrames = _
        rw [waitingFrames, drain_queue plat hst, waitingFrames, List.map_tail]
      · cases hop
    all_goals cases hop
  idle := by
    rintro r (rx | ⟨mac, data⟩ | _ | _ | _) hev hop
    case control =>
      show (r.onControl plat rx).waitingFrames = _
      rw [waitingFrames, onControl_queue]
      rfl
    case raw =>
      rw [queueOp] at hop
      split at hop
      · cases hop
      · rename_i hcond
        have hdrop : r.rawHandler mac data = r := by
          rw [rawHandler]
          split
          · rfl
          · split
            · split
              · rfl
              · split
                · rfl
                · rename_i hst hlen hmagic hmac
                  exact absurd ⟨not_not.1 hst, hlen, not_not.1 hmagic, not_not.1 hmac⟩ hcond
            · rfl
        show (r.rawHandler mac data).waitingFrames = _
        rw [hdrop]
    case drain =>
      rw [queueOp] at hop
      split at hop
      · cases hop
      · rename_i hst
        show (r.drain plat).waitingFrames = _
        rw [drain, if_pos hst]
    case tail =>
      show (r.tail plat).waitingFrames = _
      rw [waitingFrames, tail_queue]
      rfl
    case loop => exact absurd rfl hev

end EspNowPushReceiver

/-! ### Both rings -/

open EspNowService (ringStep ringOp delivered waitingPackets ring_implements)
open EspNowPushReceiver (atoms queueOp taken waitingFrames queue_implements)

/-- **Both receive rings are bounded queues**: whatever slot they begin at and
however the two tasks interleave, the items taken are those accepted, in order
and unaltered, an item is dropped exactly when 7 packets, or 23 frames, are
waiting, and the reader finds nothing only when nothing waits. -/
theorem rings_serve {ρ : Type*} (plat : Platform) :
    (∀ (net : EspNowService ρ) (owner : ρ), net.ring.head = net.ring.tail →
      ∀ evs, Serves 7 (Fifo.ops ringStep ringOp (net, owner) evs)
        (Fifo.got ringStep ringOp delivered (net, owner) evs)
        (waitingPackets (evs.foldl ringStep (net, owner)))) ∧
      ∀ r : EspNowPushReceiver, r.queue.head = r.queue.tail →
        ∀ evs, Serves 23
          (Fifo.ops (EspNowPushReceiver.step plat) queueOp r (atoms plat r evs))
          (Fifo.got (EspNowPushReceiver.step plat) queueOp taken r (atoms plat r evs))
          (r.run plat evs).waitingFrames := by
  constructor
  · intro net owner hempty evs
    refine ring_implements.serves ?_ fun _ _ => trivial
    rw [waitingPackets, Ring.toList_eq_nil hempty, List.map_nil]
  · intro r hempty evs
    rw [← EspNowPushReceiver.run_atoms]
    refine (queue_implements plat).serves ?_ fun ev hmem heq => ?_
    · rw [waitingFrames, Ring.toList_eq_nil hempty, List.map_nil]
    · exact EspNowPushReceiver.loop_notMem_atoms r evs (heq ▸ hmem)

/-- A packet ring that begins at slot 3, and the queue of a new device. -/
def slotThree : EspNowService Unit where
  ring := ⟨⟨3, by decide⟩, ⟨3, by decide⟩, fun _ => ⟨{}, endPacket⟩⟩

theorem rings_serve_slotThree :
    Serves 7 (Fifo.ops ringStep ringOp (slotThree, ()) [.onRecv {} endPacket.seal.bytes, .receive])
        (Fifo.got ringStep ringOp delivered (slotThree, ())
          [.onRecv {} endPacket.seal.bytes, .receive])
        (waitingPackets ([.onRecv {} endPacket.seal.bytes, .receive].foldl ringStep
          (slotThree, ()))) ∧
      Serves 23
        (Fifo.ops (EspNowPushReceiver.step flawlessPlat) queueOp {}
          (atoms flawlessPlat {} EspNowPushReceiver.tinyPush))
        (Fifo.got (EspNowPushReceiver.step flawlessPlat) queueOp taken {}
          (atoms flawlessPlat {} EspNowPushReceiver.tinyPush))
        (EspNowPushReceiver.run flawlessPlat {} EspNowPushReceiver.tinyPush).waitingFrames :=
  ⟨(rings_serve flawlessPlat).1 slotThree () rfl _,
    (@rings_serve Unit flawlessPlat).2 {} rfl _⟩

end InfinitagNow
