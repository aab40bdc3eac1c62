/-
InfinitagNow/PeerCache.lean

The peer cache of `EspNowService` and the peers the ESP-NOW driver knows.

The driver is a parameter that answers from the log of its calls; here it keeps
a set (`NowLib.Keeps`), the one this log amounts to (`registered`).  The used
slots of `_peers` are a table of addresses (`occupants`).  `Mirrors` says that
the table holds what the driver knows, but for the broadcast address; evicting
and registering keep it, whatever the driver answers.  `EnsureRule` lists what
`ensurePeer` can do.
-/
import InfinitagNow.EspNowService
import InfinitagNow.SlotTable

namespace InfinitagNow

open SlotTable

/-! ### The driver's set -/

/-- The peers registered after some calls, newest first: the broadcast peer at
first; a refused call changes nothing. -/
def registered : List NowCall → Finset Mac
  | [] => {bcast}
  | .addPeer mac true :: log => insert mac (registered log)
  | .delPeer mac :: log => (registered log).erase mac
  | _ :: log => registered log

section Registered

variable (log : List NowCall) (mac : Mac) (data : List UInt8) (ok : Bool)

@[simp] theorem registered_added :
    registered (.addPeer mac true :: log) = insert mac (registered log) := rfl
@[simp] theorem registered_refused : registered (.addPeer mac false :: log) = registered log := rfl
@[simp] theorem registered_delPeer :
    registered (.delPeer mac :: log) = (registered log).erase mac := rfl
@[simp] theorem registered_send : registered (.send mac data ok :: log) = registered log := rfl

end Registered

/-- The driver knows the peers registered. -/
def NowLib.Keeps (lib : NowLib) : Prop :=
  ∀ log mac, lib.isPeerExist log mac = true ↔ mac ∈ registered log

namespace EspNowService

variable {ρ : Type*} {lib : NowLib} {net net' : EspNowService ρ} {mac : Mac} {i : Fin 18}

/-! ### The table of peers -/

/-- The address in a slot, if it is used. -/
def occupants (net : EspNowService ρ) (i : Fin 18) : Option Mac :=
  if (net.peers i).used then some (net.peers i).mac else none

theorem occupants_eq_some_iff :
    net.occupants i = some mac ↔ (net.peers i).used = true ∧ (net.peers i).mac = mac := by
  rw [occupants]
  split
  · rename_i hused
    simp [hused]
  · rename_i hfree
    simp [hfree]

theorem occupants_eq_none_iff : net.occupants i = none ↔ (net.peers i).used = false := by
  rw [occupants]
  split <;> simp_all

/-- The peer is stored in a slot after the driver has accepted it. -/
def stored (lib : NowLib) (net : EspNowService ρ) (i : Fin 18) (mac : Mac) : EspNowService ρ :=
  { net.call (.addPeer mac true) with
    peers := Function.update net.peers i ⟨mac, lib.millis net.reads, true⟩
    reads := net.reads + 1 }

theorem occupants_stored (lib : NowLib) (net : EspNowService ρ) (i : Fin 18) (mac : Mac) :
    (net.stored lib i mac).occupants = Function.update net.occupants i (some mac) := by
  funext j
  by_cases hji : j = i
  · subst hji
    simp [occupants, stored]
  · simp [occupants, stored, Function.update_of_ne hji]

theorem occupants_evict (net : EspNowService ρ) (i : Fin 18) :
    (net.evict i).occupants = Function.update net.occupants i none := by
  funext j
  by_cases hji : j = i
  · subst hji
    simp [occupants]
  · simp [occupants, Function.update_of_ne hji]

/-- Nothing but the time of the last use of one peer has changed. -/
structure Touched (mac : Mac) (net net' : EspNowService ρ) : Prop where
  log : net'.log = net.log
  occupants : net'.occupants = net.occupants
  others : ∀ i, net.occupants i ≠ some mac → net'.peers i = net.peers i

theorem Touched.stamp (lib : NowLib) (h : Touched mac net net')
    (hi : net'.occupants i = some mac) : Touched mac net (net'.stamp lib i) := by
  refine ⟨h.log, ?_, fun j hj => ?_⟩
  · rw [← h.occupants]
    funext j
    by_cases hji : j = i
    · subst hji
      simp [EspNowService.occupants]
    · simp [EspNowService.occupants, Function.update_of_ne hji]
  · have hji : j ≠ i := by
      rintro rfl
      rw [h.occupants] at hi
      exact hj hi
    rw [stamp_peers, Function.update_of_ne hji]
    exact h.others j hj

theorem touched_touch (lib : NowLib) (net : EspNowService ρ) (mac : Mac) :
    Touched mac net (net.touch lib mac) := by
  refine List.foldlRecOn (motive := Touched mac net) _ _ ⟨rfl, rfl, fun _ _ => rfl⟩ ?_
  intro net' h i _
  split
  · rename_i hpeer
    exact h.stamp lib (occupants_eq_some_iff.2 hpeer)
  · exact h

/-! ### What `ensurePeer` can do -/

/-- One constructor for each path; in the last two the least recently used peer
has to go first. -/
inductive EnsureRule (lib : NowLib) (net : EspNowService ρ) (mac : Mac) :
    EspNowService ρ × Bool → Prop
  | known (h : mac ∈ registered net.log) : EnsureRule lib net mac (net.touch lib mac, true)
  | added (i : Fin 18) (h : mac ∉ registered net.log) (hfree : net.occupants i = none) :
      EnsureRule lib net mac (net.stored lib i mac, true)
  | refused (h : mac ∉ registered net.log) :
      EnsureRule lib net mac (net.call (.addPeer mac false), false)
  | replaced (i : Fin 18) (old : Mac) (h : mac ∉ registered net.log)
      (hold : net.occupants i = some old) :
      EnsureRule lib net mac ((net.evict i).stored lib i mac, true)
  | evicted (i : Fin 18) (old : Mac) (h : mac ∉ registered net.log)
      (hold : net.occupants i = some old) :
      EnsureRule lib net mac ((net.evict i).call (.addPeer mac false), false)

/-- The driver accepts the peer, or refuses it. -/
theorem register_cases (lib : NowLib) (net : EspNowService ρ) (i : Fin 18) (mac : Mac) :
    net.register lib i mac = (net.stored lib i mac, true) ∨
      net.register lib i mac = (net.call (.addPeer mac false), false) := by
  rw [register]
  cases lib.addPeer net.log mac
  · exact .inr rfl
  · exact .inl rfl

theorem ensurePeer_rule (hlib : lib.Keeps) (net : EspNowService ρ) (mac : Mac) :
    EnsureRule lib net mac (net.ensurePeer lib mac) := by
  rw [ensurePeer]
  split
  · rename_i hknown
    exact .known ((hlib _ _).1 hknown)
  · rename_i hunknown
    have hnew : mac ∉ registered net.log := fun hmem => hunknown ((hlib _ _).2 hmem)
    cases hslot : net.freeSlot with
    | some i =>
      have hfree : net.occupants i = none := by
        rw [occupants_eq_none_iff]
        simpa using List.find?_some hslot
      rcases register_cases lib net i mac with heq | heq
      · simp only [heq]
        exact .added i hnew hfree
      · simp only [heq]
        exact .refused hnew
    | none =>
      -- every slot is used, the oldest one too
      have hused : (net.peers net.oldest).used = true := by
        have hall := List.find?_eq_none.1 hslot net.oldest (List.mem_finRange _)
        simpa using hall
      have hold : net.occupants net.oldest = some (net.peers net.oldest).mac :=
        occupants_eq_some_iff.2 ⟨hused, rfl⟩
      rcases register_cases lib (net.evict net.oldest) net.oldest mac with heq | heq
      · simp only [heq]
        exact .replaced _ _ hnew hold
      · simp only [heq]
        exact .evicted _ _ hnew hold

/-! ### The invariant -/

/-- The used slots hold each peer the driver knows once, but for the broadcast
peer. -/
structure Mirrors (net : EspNowService ρ) : Prop where
  distinct : Distinct net.occupants
  bcast : bcast ∈ registered net.log
  holds : ∀ mac, Holds net.occupants mac ↔
    mac ∈ registered net.log ∧ mac ≠ InfinitagNow.bcast

theorem Mirrors.of_eq (h : net.Mirrors) (hocc : net'.occupants = net.occupants)
    (hlog : registered net'.log = registered net.log) : net'.Mirrors := by
  refine ⟨?_, ?_, ?_⟩
  · rw [hocc]
    exact h.distinct
  · rw [hlog]
    exact h.bcast
  · rw [hocc, hlog]
    exact h.holds

theorem Mirrors.stored (h : net.Mirrors) (lib : NowLib) (hfree : net.occupants i = none)
    (hnew : mac ∉ registered net.log) : (net.stored lib i mac).Mirrors := by
  have hlog : registered (net.stored lib i mac).log = insert mac (registered net.log) := rfl
  have hunheld : ¬ Holds net.occupants mac := fun hheld => hnew ((h.holds mac).1 hheld).1
  have hbcast : mac ≠ InfinitagNow.bcast := by
    rintro rfl
    exact hnew h.bcast
  refine ⟨?_, ?_, fun m => ?_⟩
  · rw [occupants_stored]
    exact h.distinct.update_some hunheld
  · rw [hlog]
    exact Finset.mem_insert_of_mem h.bcast
  · rw [occupants_stored, holds_update_some hfree, h.holds, hlog, Finset.mem_insert]
    constructor
    · rintro (⟨hmem, hne⟩ | rfl)
      · exact ⟨.inr hmem, hne⟩
      · exact ⟨.inl rfl, hbcast⟩
    · rintro ⟨rfl | hmem, hne⟩
      · exact .inr rfl
      · exact .inl ⟨hmem, hne⟩

theorem Mirrors.evict (h : net.Mirrors) {old : Mac} (hold : net.occupants i = some old) :
    (net.evict i).Mirrors := by
  obtain ⟨hmem, hne⟩ := (h.holds old).1 ⟨i, hold⟩
  have hlog : registered (net.evict i).log = (registered net.log).erase old := by
    rw [evict_log, registered_delPeer, (occupants_eq_some_iff.1 hold).2]
  refine ⟨?_, ?_, fun m => ?_⟩
  · rw [occupants_evict]
    exact h.distinct.update_none
  · rw [hlog, Finset.mem_erase]
    exact ⟨hne.symm, h.bcast⟩
  · rw [occupants_evict, holds_update_none h.distinct hold, h.holds, hlog, Finset.mem_erase]
    tauto

/-- Every peer but `mac` is as it was, on both sides, except at most one, which
is gone on both. -/
def Spares (mac : Mac) (net net' : EspNowService ρ) : Prop :=
  ∃ old : Option Mac,
    (∀ m ∈ old, m ≠ mac ∧ (Holds net.occupants m ∧ m ∈ registered net.log) ∧
      ¬ Holds net'.occupants m ∧ m ∉ registered net'.log) ∧
    ∀ m, m ≠ mac → m ∉ old → (m ∈ registered net'.log ↔ m ∈ registered net.log) ∧
      ∀ i, net.occupants i = some m → net'.peers i = net.peers i

/-- No peer has to go. -/
theorem spares_of_others
    (hlog : ∀ m, m ≠ mac → (m ∈ registered net'.log ↔ m ∈ registered net.log))
    (hpeers : ∀ i m, m ≠ mac → net.occupants i = some m → net'.peers i = net.peers i) :
    Spares mac net net' :=
  ⟨none, by simp, fun m hm _ => ⟨hlog m hm, fun i hi => hpeers i m hm hi⟩⟩

/-- A call to the driver that changes no peer. -/
theorem Spares.of_eq {net'' : EspNowService ρ} (h : Spares mac net net')
    (hpeers : net''.peers = net'.peers) (hlog : registered net''.log = registered net'.log) :
    Spares mac net net'' := by
  have hocc : net''.occupants = net'.occupants := by
    funext i
    rw [occupants, occupants, hpeers]
  rw [Spares, hocc, hlog, hpeers]
  exact h

theorem stored_peers_of_some (lib : NowLib) (hfree : net.occupants i = none) {j : Fin 18} {m : Mac}
    (hj : net.occupants j = some m) : (net.stored lib i mac).peers j = net.peers j := by
  have hji : j ≠ i := by
    rintro rfl
    rw [hfree] at hj
    cases hj
  exact Function.update_of_ne hji _ _

/-- Evicting takes one peer out on both sides. -/
theorem Mirrors.spares_evict (h : net.Mirrors) {old : Mac} (hold : net.occupants i = some old)
    (hnew : mac ∉ registered net.log) (hpeers : ∀ j, j ≠ i → net'.peers j = net.peers j)
    (hmirrors : net'.Mirrors)
    (hlog : ∀ m, m ≠ mac → (m ∈ registered net'.log ↔ m ∈ registered net.log ∧ m ≠ old)) :
    Spares mac net net' := by
  obtain ⟨hmem, -⟩ := (h.holds old).1 ⟨i, hold⟩
  have hne : old ≠ mac := by
    rintro rfl
    exact hnew hmem
  have hgone : old ∉ registered net'.log := fun hin => ((hlog old hne).1 hin).2 rfl
  refine ⟨some old, ?_, fun m hm hkept => ⟨?_, fun j hj => hpeers j ?_⟩⟩
  · rintro m hm
    obtain rfl : old = m := Option.some.inj hm
    exact ⟨hne, ⟨⟨i, hold⟩, hmem⟩, fun hheld => hgone ((hmirrors.holds _).1 hheld).1, hgone⟩
  · rw [hlog m hm]
    exact and_iff_left fun heq => hkept (by rw [heq]; rfl)
  · rintro rfl
    exact hkept (hold.symm.trans hj ▸ rfl)

/-- The step lemma: whatever `ensurePeer` does, the cache mirrors the driver, the
answer tells whether the peer is registered, and the others are spared. -/
theorem Mirrors.ensured {res : EspNowService ρ × Bool} (h : net.Mirrors)
    (hrule : EnsureRule lib net mac res) :
    res.1.Mirrors ∧ (res.2 = true ↔ mac ∈ registered res.1.log) ∧ Spares mac net res.1 := by
  cases hrule with
  | known hknown =>
    have ht := touched_touch lib net mac
    refine ⟨h.of_eq ht.occupants (by rw [ht.log]), by simp [ht.log, hknown], ?_⟩
    refine spares_of_others (fun m _ => by rw [ht.log]) fun j m hm hj => ht.others j ?_
    rw [hj]
    exact fun heq => hm (Option.some.inj heq)
  | added i hnew hfree =>
    have hlog : registered (net.stored lib i mac).log = insert mac (registered net.log) := rfl
    refine ⟨h.stored lib hfree hnew, by simp [hlog], ?_⟩
    refine spares_of_others (fun m hm => ?_) fun j m _ hj => stored_peers_of_some lib hfree hj
    rw [hlog, Finset.mem_insert, or_iff_right hm]
  | refused hnew =>
    exact ⟨h.of_eq rfl rfl, by simp [hnew],
      spares_of_others (fun _ _ => Iff.rfl) fun _ _ _ _ => rfl⟩
  | replaced i old hnew hold =>
    have hlog : registered (net.evict i).log = (registered net.log).erase old := by
      rw [evict_log, registered_delPeer, (occupants_eq_some_iff.1 hold).2]
    have hlog' : registered ((net.evict i).stored lib i mac).log =
        insert mac (registered (net.evict i).log) := rfl
    have hfree : (net.evict i).occupants i = none := by
      rw [occupants_evict, Function.update_self]
    have hstill : mac ∉ registered (net.evict i).log := by
      rw [hlog]
      exact fun hmem => hnew (Finset.mem_of_mem_erase hmem)
    have hmirrors := (h.evict hold).stored lib hfree hstill
    refine ⟨hmirrors, by simp [hlog'], h.spares_evict hold hnew (fun j hj => ?_) hmirrors ?_⟩
    · show Function.update (Function.update _ _ _) _ _ j = _
      rw [Function.update_of_ne hj, Function.update_of_ne hj]
    · intro m hm
      rw [hlog', hlog, Finset.mem_insert, or_iff_right hm, Finset.mem_erase, and_comm]
  | evicted i old hnew hold =>
    have hlog : registered ((net.evict i).call (.addPeer mac false)).log =
        (registered net.log).erase old := by
      rw [call_log, registered_refused, evict_log, registered_delPeer,
        (occupants_eq_some_iff.1 hold).2]
    have hmirrors : ((net.evict i).call (.addPeer mac false)).Mirrors :=
      (h.evict hold).of_eq rfl rfl
    refine ⟨hmirrors, ?_, h.spares_evict hold hnew (fun j hj => ?_) hmirrors ?_⟩
    · rw [hlog]
      simp [hnew]
    · exact Function.update_of_ne hj _ _
    · intro m _
      rw [hlog, Finset.mem_erase, and_comm]

/-! ### Sending to any peer -/

/-- A call of the service's user. -/
inductive SendCall
  | send (mac : Mac) (p : Packet)
  | sendRaw (mac : Mac) (data : List UInt8)

def SendCall.dest : SendCall → Mac
  | .send mac _ => mac
  | .sendRaw mac _ => mac

def exec (lib : NowLib) (net : EspNowService ρ) : SendCall → EspNowService ρ × Bool
  | .send mac p => net.send lib mac p
  | .sendRaw mac data => net.sendRaw lib mac data

def sendAll (lib : NowLib) (net : EspNowService ρ) (calls : List SendCall) : EspNowService ρ :=
  calls.foldl (fun net c => (net.exec lib c).1) net

/-- A call does to the peers what `ensurePeer` does, or nothing. -/
theorem exec_peers (lib : NowLib) (net : EspNowService ρ) (c : SendCall) :
    (net.exec lib c).1 = net ∨
      (net.exec lib c).1.peers = (net.ensurePeer lib c.dest).1.peers ∧
        registered (net.exec lib c).1.log = registered (net.ensurePeer lib c.dest).1.log := by
  have hsent : ∀ mac data,
      ((net.ensurePeer lib mac).1.driverSend lib mac data).1.peers =
          (net.ensurePeer lib mac).1.peers ∧
        registered ((net.ensurePeer lib mac).1.driverSend lib mac data).1.log =
          registered (net.ensurePeer lib mac).1.log := fun _ _ => ⟨rfl, rfl⟩
  cases c with
  | send mac p =>
    right
    rw [exec, send]
    dsimp only
    split
    · exact ⟨rfl, rfl⟩
    · exact hsent mac _
  | sendRaw mac data =>
    rw [exec, sendRaw]
    split
    · exact .inl rfl
    · right
      dsimp only
      split
      · exact ⟨rfl, rfl⟩
      · exact hsent mac _

theorem Mirrors.exec (h : net.Mirrors) (hlib : lib.Keeps) (c : SendCall) :
    (net.exec lib c).1.Mirrors ∧ Spares c.dest net (net.exec lib c).1 := by
  obtain ⟨hmirrors, -, hspares⟩ := h.ensured (ensurePeer_rule hlib net c.dest)
  rcases exec_peers lib net c with heq | ⟨hpeers, hlog⟩
  · rw [heq]
    exact ⟨h, spares_of_others (fun _ _ => Iff.rfl) fun _ _ _ _ => rfl⟩
  · refine ⟨hmirrors.of_eq ?_ hlog, hspares.of_eq hpeers hlog⟩
    funext i
    rw [occupants, occupants, hpeers]

/-- The run lemma. -/
theorem Mirrors.sendAll (h : net.Mirrors) (hlib : lib.Keeps) (calls : List SendCall) :
    (net.sendAll lib calls).Mirrors :=
  List.foldlRecOn calls _ h fun _ h c _ => (h.exec hlib c).1

/-- At most as many peers as slots are registered beside the broadcast peer. -/
theorem Mirrors.card_le (h : net.Mirrors) :
    ((registered net.log).erase InfinitagNow.bcast).card ≤ 18 := by
  refine SlotTable.card_le net.occupants fun m hm => ?_
  rw [Finset.mem_erase] at hm
  exact (h.holds m).2 ⟨hm.2, hm.1⟩

/-- A service that has just begun. -/
theorem mirrors_fresh (hlog : net.log = []) (hfree : ∀ i, (net.peers i).used = false) :
    net.Mirrors := by
  have hnone : ∀ i, net.occupants i = none := fun i => occupants_eq_none_iff.2 (hfree i)
  refine ⟨fun i j k hi => ?_, by simp [hlog, registered], fun mac => ?_⟩
  · rw [hnone] at hi
    cases hi
  · simp [Holds, hnone, hlog, registered]

/-- **The peer cache mirrors the driver**: after any calls, whichever the driver
refuses, the used slots hold the driver's peers once each, but for the broadcast
peer, so that these are at most 18; `ensurePeer` tells whether the peer is
registered afterwards; and a call touches no other peer but at most one, which
is gone on both sides. -/
theorem peers_mirror (hlib : lib.Keeps) (net : EspNowService ρ) (hlog : net.log = [])
    (hfree : ∀ i, (net.peers i).used = false) (calls : List SendCall) :
    (net.sendAll lib calls).Mirrors ∧
      ((registered (net.sendAll lib calls).log).erase bcast).card ≤ 18 ∧
      (∀ mac, ((net.sendAll lib calls).ensurePeer lib mac).2 = true ↔
        mac ∈ registered ((net.sendAll lib calls).ensurePeer lib mac).1.log) ∧
      ∀ c, Spares c.dest (net.sendAll lib calls) ((net.sendAll lib calls).exec lib c).1 := by
  have hinit : net.Mirrors := mirrors_fresh hlog hfree
  have h := hinit.sendAll hlib calls
  exact ⟨h, h.card_le, fun mac => (h.ensured (ensurePeer_rule hlib _ mac)).2.1,
    fun c => (h.exec hlib c).2⟩

/-- A driver that takes every peer, and a service that has just begun. -/
def willing : NowLib where
  isPeerExist log mac := mac ∈ registered log
  addPeer _ _ := true
  send _ _ _ := true
  millis := UInt32.ofNat

def begun : EspNowService Unit := { ring := ⟨0, 0, fun _ => ⟨{}, Packet.init msgDiscoverReq 0⟩⟩ }

def device (k : ℕ) : Mac := ⟨#v[0x24, 0x6F, 0x28, 0, 1, UInt8.ofNat k]⟩

/-- The driver that takes every peer but one. -/
def picky : NowLib := { willing with addPeer := fun _ mac => mac ≠ device 19 }

/-- Twenty devices in turn: the nineteenth takes the place of the first one, and
the last one is refused. -/
def visits : List SendCall := (List.range 20).map fun k => .sendRaw (device k) [1]

/-- The second one has lost its place to the refused one. -/
theorem peers_mirror_visits :
    let net := begun.sendAll picky visits
    ((∀ k < 20, device k ∈ registered net.log ↔ 2 ≤ k ∧ k ≤ 18) ∧
      (net.ensurePeer picky (device 19)).2 = false) ∧
    net.Mirrors ∧ ((registered net.log).erase bcast).card ≤ 18 ∧
      (∀ mac, (net.ensurePeer picky mac).2 = true ↔
        mac ∈ registered (net.ensurePeer picky mac).1.log) ∧
      ∀ c, Spares c.dest net (net.exec picky c).1 := by
  have hkeeps : picky.Keeps := fun _ _ => decide_eq_true_iff
  have h := peers_mirror hkeeps begun rfl (fun _ => rfl) visits
  exact ⟨⟨by decide +kernel, by decide +kernel⟩, h⟩

end EspNowService

end InfinitagNow
