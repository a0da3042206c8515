/-
# The state a packet was pushed with

`src/hooks/swap_hook.cpp` (lines 61-79): each `Swap` of the guest that emits a swap
packet pushes an entry, and a re-present repeats the image before it.  The command
processor takes the entries of the packets that reach it.

A packet may be lost.  Its entry stays, and the entries of an image that is presented
several times are all alike: the take of a later one of them then takes an earlier
entry, and entries of the image are left over (`Trace.Synced`).  They go when the next
image is taken, whose address is another.  Only where the packet right behind them is
lost as well, and the image after it has their address again, a take finds them
(`Trace.Misled`).
-/

import BoltsRebuilt.Lib.History
import BoltsRebuilt.Present.Queue
import Mathlib.Data.List.GetD

namespace BoltsRebuilt
namespace Present

/-- A swap packet and the state it was pushed with. -/
structure Packet where
  frontbuffer : BitVec 32
  state : PresentState
  represent : Bool
  deriving DecidableEq, Repr

namespace Packet

/-- Before the first packet. -/
def first : Packet := ⟨0, ⟨false, 16, 9⟩, false⟩

/-- The entry of the packet. -/
def entry (p : Packet) : PresentEntry := ⟨p.frontbuffer, packPresent p.state⟩

end Packet

/-- The calls, and which packet a take is for. -/
inductive Event
  | latch (s : PresentState)
  | swap (emitsPacket : Bool) (frontbuffer : BitVec 32)
  | represent (emitsPacket : Bool) (frontbuffer : BitVec 32)
  | take (packet : ℕ)
  deriving DecidableEq, Repr

/-- The presenter, and what has happened: the state latched last, the packets pushed, the
packet after the last one taken, and what each take returned. -/
structure Trace where
  presenter : Presenter
  latched : PresentState
  packets : List Packet
  next : ℕ
  results : List (ℕ × PresentState)

namespace Trace

/-- Before the first call. -/
def start : Trace := ⟨.start, ⟨false, 16, 9⟩, [], 0, []⟩

/-- Packet `i`. -/
def packet (t : Trace) (i : ℕ) : Packet := t.packets.getD i .first

/-- The state a re-present repeats. -/
def lastState (t : Trace) : PresentState := (t.packets.getLast?.getD .first).state

/-- A packet pushed. -/
def push (t : Trace) (p : Packet) : Trace := { t with packets := t.packets ++ [p] }

/-- One call. -/
def step (t : Trace) : Event → Trace
  | .latch s => { t with presenter := t.presenter.latch s, latched := s }
  | .swap emitsPacket frontbuffer =>
      let t' := { t with presenter := t.presenter.onGuestSwapEnter emitsPacket frontbuffer }
      if emitsPacket then t'.push ⟨frontbuffer, t.latched, false⟩ else t'
  | .represent emitsPacket frontbuffer =>
      let t' := { t with presenter := t.presenter.onGuestRepresent emitsPacket frontbuffer }
      if emitsPacket then t'.push ⟨frontbuffer, t.lastState, true⟩ else t'
  | .take k =>
      let (r, presenter) := t.presenter.takePresentAspect2 (t.packet k).frontbuffer
      { t with presenter, next := k + 1, results := t.results ++ [(k, r)] }

/-- A packet of the image of packet `i`, before it, was never taken. -/
def LostOfImage (t : Trace) (i : ℕ) : Prop :=
  ∃ q < i, q ∉ t.results.map Prod.fst ∧ ∀ j, q < j → j ≤ i → (t.packet j).represent = true

/-- The packets of one image were taken in part, the one packet of the image behind it is
lost, and the packet now taken is a new image at the address of the first one. -/
def Misled (t : Trace) (k : ℕ) : Prop :=
  k = t.next + 1 ∧ 0 < t.next ∧ (t.packet t.next).represent = false ∧
    (t.packet k).represent = false ∧ (t.packet k).frontbuffer = (t.packet (t.next - 1)).frontbuffer ∧
    t.LostOfImage (t.next - 1)

/-- What the guest and the command processor do.  A height has 31 bits, the queue has a free
place, a new image has another address than the one before, a re-present has the same.  A
packet is taken after its push and after those taken before; at most one is left out. -/
def Follows (t : Trace) : Event → Prop
  | .latch s => s.height.toNat < 2 ^ 31
  | .swap emitsPacket frontbuffer => emitsPacket = true →
      t.presenter.presentQueue.count < 16 ∧ ∀ p ∈ t.packets.getLast?, p.frontbuffer ≠ frontbuffer
  | .represent emitsPacket frontbuffer => emitsPacket = true →
      t.presenter.presentQueue.count < 16 ∧ ∃ p ∈ t.packets.getLast?, p.frontbuffer = frontbuffer
  | .take k => t.next ≤ k ∧ k ≤ t.next + 1 ∧ k < t.packets.length

instance (t : Trace) : DecidablePred t.Follows
  | .latch s => inferInstanceAs (Decidable (s.height.toNat < 2 ^ 31))
  | .swap emitsPacket frontbuffer => inferInstanceAs (Decidable (emitsPacket = true →
      t.presenter.presentQueue.count < 16 ∧ ∀ p ∈ t.packets.getLast?, p.frontbuffer ≠ frontbuffer))
  | .represent emitsPacket frontbuffer => inferInstanceAs (Decidable (emitsPacket = true →
      t.presenter.presentQueue.count < 16 ∧ ∃ p ∈ t.packets.getLast?, p.frontbuffer = frontbuffer))
  | .take k => inferInstanceAs (Decidable (t.next ≤ k ∧ k ≤ t.next + 1 ∧ k < t.packets.length))

/-- The packets up to `n` belong together image by image. -/
def Chained (f : ℕ → Packet) (n : ℕ) : Prop :=
  ∀ i, i + 1 < n → if (f (i + 1)).represent then (f (i + 1)).entry = (f i).entry
    else (f (i + 1)).frontbuffer ≠ (f i).frontbuffer

/-- The queue holds the entries of the packets from `head` on, and every take so far returned
the state of its own packet. -/
structure Queued (t : Trace) (head : ℕ) : Prop where
  queue : t.presenter.presentQueue.contents = (t.packets.drop head).map Packet.entry
  head_le : head ≤ t.next
  next_le : t.next ≤ t.packets.length
  results : ∀ k r, (k, r) ∈ t.results → k < t.packets.length ∧ r = (t.packet k).state
  present : t.presenter.present = packPresent t.latched
  lastPushed : t.presenter.presentLastPushed = packPresent t.lastState
  latched : t.latched.height.toNat < 2 ^ 31
  heights : ∀ p ∈ t.packets, p.state.height.toNat < 2 ^ 31
  resyncs : ∃ dropped, t.presenter.presentResyncs = BitVec.ofNat 64 dropped ∧
    head = t.results.length + dropped

/-- The entries before `next` are left over from the image taken last, and then a packet of
this image was lost. -/
structure Synced (t : Trace) (head : ℕ) : Prop extends t.Queued head where
  stale : ∀ i, head ≤ i → i < t.next → (t.packet i).entry = (t.packet (t.next - 1)).entry
  lost : head < t.next → t.LostOfImage (t.next - 1)
  chained : Chained t.packet t.packets.length
  taken : ∀ k ∈ t.results.map Prod.fst, k < t.next

/-! ### Which entry a take finds -/

/-- Packets with the same entry are of the same frontbuffer. -/
theorem frontbuffer_of_entry {p q : Packet} (h : p.entry = q.entry) : p.frontbuffer = q.frontbuffer :=
  congrArg PresentEntry.frontbuffer h

/-- The take of packet `k` finds the entry of packet `m`: those before it have another address,
and those behind it up to `k` are all alike. -/
structure Finds (f : ℕ → Packet) (taken : ℕ → Prop) (head k m : ℕ) : Prop where
  head_le : head ≤ m
  le : m ≤ k
  other : ∀ i, head ≤ i → i < m → (f i).frontbuffer ≠ (f k).frontbuffer
  like : ∀ i, m ≤ i → i ≤ k → (f i).entry = (f k).entry
  lost : m < k → ∃ q < k, ¬ taken q ∧ q ≠ k ∧ ∀ j, q < j → j ≤ k → (f j).represent = true

/-- A packet that presents the frame before again has that frame's entry. -/
theorem Chained.entry_eq {f : ℕ → Packet} {n : ℕ} (h : Chained f n) {i : ℕ} (hi : i + 1 < n)
    (hrep : (f (i + 1)).represent = true) : (f (i + 1)).entry = (f i).entry := by
  have := h i hi
  rwa [if_pos hrep] at this

/-- A packet of a new frame has another address than the one before it. -/
theorem Chained.frontbuffer_ne {f : ℕ → Packet} {n : ℕ} (h : Chained f n) {i : ℕ} (hi : i + 1 < n)
    (hrep : (f (i + 1)).represent = false) : (f (i + 1)).frontbuffer ≠ (f i).frontbuffer := by
  have := h i hi
  rwa [if_neg (by simp [hrep])] at this

/-- With no packet lost before it, a packet finds the entry of its own frame: a frame presented
again finds what is left over of it, a new frame finds its own. -/
theorem exists_finds_next {f : ℕ → Packet} {taken : ℕ → Prop} {head k n : ℕ} (hchained : Chained f n)
    (hhead : head ≤ k) (hk : k < n)
    (hstale : ∀ i, head ≤ i → i < k → (f i).entry = (f (k - 1)).entry)
    (hlost : head < k → ∃ q < k - 1, ¬ taken q ∧ ∀ j, q < j → j ≤ k - 1 → (f j).represent = true) :
    ∃ m, Finds f taken head k m := by
  rcases Nat.eq_zero_or_pos k with rfl | hpos
  · obtain rfl : head = 0 := by omega
    refine ⟨0, le_rfl, le_rfl, fun i hi hlt => absurd hlt (by omega), fun i hi hi' => ?_,
      fun hlt => absurd hlt (lt_irrefl _)⟩
    rw [show i = 0 by omega]
  have hpred : k - 1 + 1 = k := Nat.sub_add_cancel hpos
  by_cases hrep : (f k).represent = true
  · have hprev : (f k).entry = (f (k - 1)).entry := by
      have := hchained.entry_eq (i := k - 1) (by omega) (by rwa [hpred])
      rwa [hpred] at this
    refine ⟨head, ?_⟩
    constructor
    case head_le => exact le_rfl
    case le => exact hhead
    case other => exact fun i hi hlt => absurd hlt (by omega)
    case like =>
      intro i hi hi'
      rcases Nat.lt_or_ge i k with hlt | hge
      · rw [hstale i hi hlt, hprev]
      · rw [show i = k by omega]
    case lost =>
      intro hlt
      obtain ⟨q, hq, hfree, hreps⟩ := hlost hlt
      refine ⟨q, by omega, hfree, by omega, fun j hj hj' => ?_⟩
      rcases Nat.eq_or_lt_of_le hj' with rfl | hlt'
      · exact hrep
      · exact hreps j hj (by omega)
  · have hdiff : (f k).frontbuffer ≠ (f (k - 1)).frontbuffer := by
      have := hchained.frontbuffer_ne (i := k - 1) (by omega) (by rw [hpred]; simpa using hrep)
      rwa [hpred] at this
    refine ⟨k, ?_⟩
    constructor
    case head_le => exact hhead
    case le => exact le_rfl
    case other =>
      intro i hi hlt
      rw [frontbuffer_of_entry (hstale i hi hlt)]
      exact hdiff.symm
    case like =>
      intro i hi hi'
      rw [show i = k by omega]
    case lost => exact fun hlt => absurd hlt (lt_irrefl _)

/-- With packet `next` lost, the packet behind it finds the entry of its own frame, unless an entry
left over of the frame before has the address of the packet's. -/
theorem exists_finds_skip {f : ℕ → Packet} {taken : ℕ → Prop} {head next n : ℕ}
    (hchained : Chained f n) (hhead : head ≤ next) (hk : next + 1 < n)
    (hstale : ∀ i, head ≤ i → i < next → (f i).entry = (f (next - 1)).entry)
    (hfree : ¬ taken next)
    (hmisled : head < next → (f next).represent = false → (f (next + 1)).represent = false →
      (f (next + 1)).frontbuffer ≠ (f (next - 1)).frontbuffer) :
    ∃ m, Finds f taken head (next + 1) m := by
  have hfb : ∀ i, head ≤ i → i < next → (f i).frontbuffer = (f (next - 1)).frontbuffer :=
    fun i hi hlt => frontbuffer_of_entry (hstale i hi hlt)
  have hpred : 0 < next → next - 1 + 1 = next := fun hpos => Nat.sub_add_cancel hpos
  have hprev : 0 < next → (f next).represent = true → (f next).entry = (f (next - 1)).entry := by
    intro hpos hrep
    have := hchained.entry_eq (i := next - 1) (by omega) (by rwa [hpred hpos])
    rwa [hpred hpos] at this
  have hdiff : 0 < next → (f next).represent = false →
      (f next).frontbuffer ≠ (f (next - 1)).frontbuffer := by
    intro hpos hrep
    have := hchained.frontbuffer_ne (i := next - 1) (by omega) (by rwa [hpred hpos])
    rwa [hpred hpos] at this
  by_cases hrep : (f (next + 1)).represent = true
  · -- the packet presents again the frame whose packet is lost
    have hlast := hchained.entry_eq hk hrep
    have hbehind : ∃ q < next + 1, ¬ taken q ∧ q ≠ next + 1 ∧ ∀ j, q < j → j ≤ next + 1 →
        (f j).represent = true := by
      refine ⟨next, by omega, hfree, by omega, fun j hj hj' => ?_⟩
      rw [show j = next + 1 by omega]
      exact hrep
    by_cases hall : 0 < next ∧ (f next).represent = true
    · refine ⟨head, ?_⟩
      constructor
      case head_le => exact le_rfl
      case le => omega
      case other => exact fun i hi hlt => absurd hlt (by omega)
      case like =>
        intro i hi hi'
        rcases Nat.lt_or_ge i next with hlt | hge
        · rw [hstale i hi hlt, hlast, hprev hall.1 hall.2]
        · rcases Nat.eq_or_lt_of_le hge with rfl | hlt
          · exact hlast.symm
          · rw [show i = next + 1 by omega]
      case lost => exact fun _ => hbehind
    · refine ⟨next, ?_⟩
      constructor
      case head_le => exact hhead
      case le => omega
      case other =>
        intro i hi hlt
        have hnew : (f next).represent = false := by
          cases h : (f next).represent with
          | true => exact absurd ⟨by omega, h⟩ hall
          | false => rfl
        rw [hfb i hi hlt, frontbuffer_of_entry hlast]
        exact (hdiff (by omega) hnew).symm
      case like =>
        intro i hi hi'
        rcases Nat.eq_or_lt_of_le hi with rfl | hlt
        · exact hlast.symm
        · rw [show i = next + 1 by omega]
      case lost => exact fun _ => hbehind
  · have hrep' : (f (next + 1)).represent = false := by simpa using hrep
    have hother := hchained.frontbuffer_ne hk hrep'
    refine ⟨next + 1, ?_⟩
    constructor
    case head_le => omega
    case le => exact le_rfl
    case other =>
      intro i hi hlt
      rcases Nat.lt_or_ge i next with hlt' | hge
      · rw [hfb i hi hlt']
        cases hmid : (f next).represent with
        | true =>
            rw [← frontbuffer_of_entry (hprev (by omega) hmid)]
            exact hother.symm
        | false => exact (hmisled (by omega) hmid hrep').symm
      · rw [show i = next by omega]
        exact hother.symm
    case like =>
      intro i hi hi'
      rw [show i = next + 1 by omega]
    case lost => exact fun hlt => absurd hlt (lt_irrefl _)

/-- **The entry a take finds is like the packet's own.**  Those before it have another
address, and those behind it up to the packet are all alike. -/
theorem exists_finds {f : ℕ → Packet} {taken : ℕ → Prop} {head next k n : ℕ} (hchained : Chained f n)
    (hhead : head ≤ next) (hge : next ≤ k) (hle : k ≤ next + 1) (hk : k < n)
    (hstale : ∀ i, head ≤ i → i < next → (f i).entry = (f (next - 1)).entry)
    (htaken : ∀ i, taken i → i < next)
    (hlost : head < next → ∃ q < next - 1, ¬ taken q ∧ ∀ j, q < j → j ≤ next - 1 →
      (f j).represent = true)
    (hmisled : ¬(k = next + 1 ∧ 0 < next ∧ (f next).represent = false ∧
      (f k).represent = false ∧ (f k).frontbuffer = (f (next - 1)).frontbuffer ∧
      ∃ q < next - 1, ¬ taken q ∧ ∀ j, q < j → j ≤ next - 1 → (f j).represent = true)) :
    ∃ m, Finds f taken head k m := by
  rcases Nat.lt_or_ge next k with hskip | hnext
  · obtain rfl : k = next + 1 := by omega
    have hfree : ¬ taken next := fun h => absurd (htaken next h) (lt_irrefl _)
    refine exists_finds_skip hchained hhead hk hstale hfree fun hlt hmid hlast heq => ?_
    exact hmisled ⟨rfl, by omega, hmid, hlast, heq, hlost hlt⟩
  · obtain rfl : k = next := by omega
    exact exists_finds_next hchained hhead hk hstale hlost

/-! ### What a call keeps -/

variable {t : Trace} {head : ℕ}

/-- At the start no packet was made and the presenter's queue is empty. -/
theorem queued_start : start.Queued 0 where
  queue := rfl
  head_le := le_rfl
  next_le := le_rfl
  results := nofun
  present := rfl
  lastPushed := rfl
  latched := by decide
  heights := nofun
  resyncs := ⟨0, rfl, rfl⟩

/-- A packet pushed behind the others leaves them where they were. -/
theorem packet_push (t : Trace) (p : Packet) {i : ℕ} (h : i < t.packets.length) :
    (t.push p).packet i = t.packet i := by
  rw [packet, packet, push, List.getD_append _ _ _ _ h]

/-- The packet that was pushed is the last one. -/
theorem packet_push_length (t : Trace) (p : Packet) :
    (t.push p).packet t.packets.length = p := by
  rw [packet, push, List.getD_append_right _ _ _ _ le_rfl, Nat.sub_self]
  rfl

/-- A packet and its entry are pushed together, so the queue and the packets stay in step. -/
theorem Queued.push (h : t.Queued head) {p : Packet} {presenter : Presenter}
    (hcount : t.presenter.presentQueue.count < 16)
    (hpresenter : presenter = t.presenter.pushPresent p.frontbuffer (packPresent p.state))
    (hheight : p.state.height.toNat < 2 ^ 31) :
    (({ t with presenter } : Trace).push p).Queued head := by
  subst hpresenter
  constructor
  case queue =>
    show (t.presenter.pushPresent _ _).presentQueue.contents = ((t.packets ++ [p]).drop head).map _
    rw [Presenter.contents_pushPresent hcount, h.queue,
      List.drop_append_of_le_length (h.head_le.trans h.next_le), List.map_append]
    rfl
  case head_le => exact h.head_le
  case next_le =>
    show t.next ≤ (t.packets ++ [p]).length
    have := h.next_le
    simp
    omega
  case results =>
    intro k r hr
    obtain ⟨hk, rfl⟩ := h.results k r hr
    refine ⟨?_, ?_⟩
    · show k < (t.packets ++ [p]).length
      simp
      omega
    · exact congrArg Packet.state (t.packet_push p hk).symm
  case present => exact h.present
  case lastPushed =>
    show packPresent p.state = packPresent ((t.packets ++ [p]).getLast?.getD .first).state
    rw [List.getLast?_concat]
    rfl
  case latched => exact h.latched
  case heights =>
    intro q hq
    rcases List.mem_append.1 hq with hq | hq
    · exact h.heights q hq
    · rw [List.mem_singleton.1 hq]
      exact hheight
  case resyncs => exact h.resyncs

/-- Latching a presenter state queues nothing. -/
theorem Queued.latch (h : t.Queued head) {s : PresentState} (hs : s.height.toNat < 2 ^ 31) :
    (t.step (.latch s)).Queued head :=
  { h with present := rfl, latched := hs }

/-- The last state queued has a height the entry can carry. -/
theorem lastState_height (h : t.Queued head) : t.lastState.height.toNat < 2 ^ 31 := by
  rw [lastState]
  cases hlast : t.packets.getLast? with
  | none => decide
  | some p => exact h.heights p (List.mem_of_getLast? hlast)

/-- The packets from `head` on, up to packet `m` and behind it. -/
theorem drop_eq (t : Trace) {m : ℕ} (hm : head ≤ m) (hlength : m < t.packets.length) :
    t.packets.drop head =
      (List.range' head (m - head)).map t.packet ++ t.packet m :: t.packets.drop (m + 1) := by
  have hget : ∀ i (hi : i < t.packets.length), t.packets[i] = t.packet i := fun i hi => by
    rw [packet, List.getD_eq_getElem _ _ hi]
  have hmap : (t.packets.drop head).take (m - head) =
      (List.range' head (m - head)).map t.packet := by
    refine List.ext_getElem (by simp; omega) fun i hi _ => ?_
    rw [List.getElem_take, List.getElem_drop, hget, List.getElem_map, List.getElem_range', Nat.one_mul]
  have hdrop : (t.packets.drop head).drop (m - head) = t.packet m :: t.packets.drop (m + 1) := by
    rw [List.drop_drop, Nat.add_sub_cancel' hm, List.drop_eq_getElem_cons hlength, hget]
  rw [← hmap, ← hdrop, List.take_append_drop]

/-- **A take finds an entry like its packet's own.**  Then it returns the state of its
packet. -/
theorem Queued.take (h : t.Queued head) {k m : ℕ} (hm : head ≤ m) (hmk : m ≤ k)
    (hk : k < t.packets.length)
    (hother : ∀ i, head ≤ i → i < m → (t.packet i).frontbuffer ≠ (t.packet k).frontbuffer)
    (hlike : (t.packet m).entry = (t.packet k).entry) : (t.step (.take k)).Queued (m + 1) := by
  have hqueue : t.presenter.presentQueue.contents =
      ((List.range' head (m - head)).map fun i => (t.packet i).entry) ++
        (t.packet m).entry :: (t.packets.drop (m + 1)).map Packet.entry := by
    rw [h.queue, t.drop_eq hm (by omega), List.map_append, List.map_map, List.map_cons]
    rfl
  have hstale : ∀ e ∈ (List.range' head (m - head)).map fun i => (t.packet i).entry,
      e.frontbuffer ≠ (t.packet k).frontbuffer := by
    intro e he
    obtain ⟨i, hi, rfl⟩ := List.mem_map.1 he
    obtain ⟨hge, hlt⟩ := List.mem_range'_1.1 hi
    exact hother i hge (by omega)
  obtain ⟨hreturned, hcontents, hresyncs, hpresent, hpushed⟩ :=
    Presenter.takePresentAspect2_eq hqueue hstale (frontbuffer_of_entry hlike)
  obtain ⟨dropped, hdropped, hhead⟩ := h.resyncs
  have hmem : t.packet k ∈ t.packets := by
    rw [packet, List.getD_eq_getElem _ _ hk]
    exact List.getElem_mem hk
  constructor
  case queue => exact hcontents
  case head_le =>
    show m + 1 ≤ k + 1
    omega
  case next_le => exact hk
  case results =>
    intro k' r hr
    rcases List.mem_append.1 hr with hr | hr
    · exact h.results k' r hr
    · have hr' : r = (t.presenter.takePresentAspect2 (t.packet k).frontbuffer).1 :=
        congrArg Prod.snd (List.mem_singleton.1 hr)
      obtain rfl : k' = k := congrArg Prod.fst (List.mem_singleton.1 hr)
      refine ⟨hk, ?_⟩
      rw [hr', hreturned, hlike]
      exact unpackPresent_packPresent (h.heights _ hmem)
  case present => exact hpresent.trans h.present
  case lastPushed => exact hpushed.trans h.lastPushed
  case latched => exact h.latched
  case heights => exact h.heights
  case resyncs =>
    refine ⟨dropped + (m - head), ?_, ?_⟩
    · show (t.presenter.takePresentAspect2 _).2.presentResyncs = _
      rw [hresyncs, hdropped, List.length_map, List.length_range', BitVec.ofNat_add]
    · show m + 1 = (t.results ++ [_]).length + _
      rw [List.length_append, List.length_singleton]
      omega

/-! ### Runs -/

/-- The last packet of a trace that has one. -/
theorem last_packet (h : 0 < t.packets.length) :
    t.packets.getLast? = some (t.packet (t.packets.length - 1)) := by
  rw [List.getLast?_eq_getElem?, List.getElem?_eq_getElem (by omega), packet,
    List.getD_eq_getElem _ _ (by omega)]

/-- At the start no packet has been taken. -/
theorem synced_start : start.Synced 0 :=
  ⟨queued_start, fun _ _ hlt => absurd hlt (Nat.not_lt_zero _), fun hlt => absurd hlt (lt_irrefl 0),
    fun _ hlt => absurd hlt (Nat.not_lt_zero _), nofun⟩

/-- A packet that fits the one before it is pushed. -/
theorem Synced.push (h : t.Synced head) {p : Packet} {presenter : Presenter}
    (hcount : t.presenter.presentQueue.count < 16)
    (hpresenter : presenter = t.presenter.pushPresent p.frontbuffer (packPresent p.state))
    (hheight : p.state.height.toNat < 2 ^ 31)
    (hfits : 0 < t.packets.length → if p.represent then p.entry = (t.packet (t.packets.length - 1)).entry
      else p.frontbuffer ≠ (t.packet (t.packets.length - 1)).frontbuffer) :
    (({ t with presenter } : Trace).push p).Synced head := by
  have hnext := h.next_le
  have hsame : ∀ i < t.packets.length, (({ t with presenter } : Trace).push p).packet i = t.packet i :=
    fun i hi => packet_push { t with presenter } p hi
  refine { h.toQueued.push hcount hpresenter hheight with
    stale := fun i hi hlt => ?_, lost := fun hlt => ?_, chained := fun i hi => ?_, taken := h.taken }
  · have hlt' : i < t.next := hlt
    show (Trace.packet _ i).entry = (Trace.packet _ (t.next - 1)).entry
    rw [hsame i (by omega), hsame (t.next - 1) (by omega)]
    exact h.stale i hi hlt
  · have hlt' : head < t.next := hlt
    obtain ⟨q, hq, hfree, hreps⟩ := h.lost hlt
    refine ⟨q, hq, hfree, fun j hj hj' => ?_⟩
    have hle : j ≤ t.next - 1 := hj'
    rw [hsame j (by omega)]
    exact hreps j hj hj'
  · have hi' : i + 1 < t.packets.length + 1 := by simpa [Trace.push] using hi
    rw [hsame i (by omega)]
    rcases Nat.lt_or_ge (i + 1) t.packets.length with hlt | hge
    · rw [hsame (i + 1) hlt]
      exact h.chained i hlt
    · have hlast := packet_push_length { t with presenter } p
      rw [show i + 1 = t.packets.length by omega, hlast, show i = t.packets.length - 1 by omega]
      exact hfits (by omega)

/-- **One call.**  Unless a take is misled, what holds between the queue and the packets still
holds after it. -/
theorem Synced.step (h : t.Synced head) {e : Event} (hfollows : t.Follows e)
    (hmisled : ∀ k, e = .take k → ¬ t.Misled k) : ∃ head', (t.step e).Synced head' := by
  cases e with
  | latch s =>
      exact ⟨head, { h.toQueued.latch hfollows with
        stale := h.stale, lost := h.lost, chained := h.chained, taken := h.taken }⟩
  | swap emitsPacket frontbuffer =>
      cases emitsPacket with
      | false => exact ⟨head, h⟩
      | true =>
          obtain ⟨hcount, hnew⟩ := hfollows rfl
          refine ⟨head, h.push hcount ?_ h.latched fun hpos => ?_⟩
          · rw [← h.present]
            rfl
          · exact (hnew _ (last_packet hpos)).symm
  | represent emitsPacket frontbuffer =>
      cases emitsPacket with
      | false => exact ⟨head, h⟩
      | true =>
          obtain ⟨hcount, q, hq, hsame⟩ := hfollows rfl
          refine ⟨head, h.push hcount ?_ (lastState_height h.toQueued) fun hpos => ?_⟩
          · rw [← h.lastPushed]
            rfl
          · rw [last_packet hpos] at hq
            obtain rfl := Option.some.inj hq
            show PresentEntry.mk frontbuffer (packPresent t.lastState) = _
            rw [← hsame, lastState, last_packet hpos]
            rfl
  | take k =>
      obtain ⟨hge, hle, hk⟩ := hfollows
      obtain ⟨m, hfinds⟩ := @exists_finds t.packet (fun i => i ∈ t.results.map Prod.fst) head t.next k
        t.packets.length h.chained h.head_le hge hle hk h.stale h.taken h.lost (hmisled k rfl)
      have htake := h.toQueued.take hfinds.head_le hfinds.le hk hfinds.other
        (hfinds.like m le_rfl hfinds.le)
      refine ⟨m + 1, { htake with
        stale := fun i hi hlt => ?_, lost := fun hlt => ?_, chained := h.chained, taken := fun i hi => ?_ }⟩
      · have hlt' : i < k + 1 := hlt
        exact hfinds.like i (by omega) (by omega)
      · have hlt' : m + 1 < k + 1 := hlt
        obtain ⟨q, hq, hfree, hne, hreps⟩ := hfinds.lost (by omega)
        refine ⟨q, hq, fun hmem => ?_, hreps⟩
        have hmem' : q ∈ (t.results ++ [(k, _)]).map Prod.fst := hmem
        rw [List.map_append, List.mem_append] at hmem'
        rcases hmem' with hmem' | hmem'
        · exact hfree hmem'
        · exact hne (List.mem_singleton.1 hmem')
      · have hi' : i ∈ (t.results ++ [(k, _)]).map Prod.fst := hi
        rw [List.map_append, List.mem_append] at hi'
        show i < k + 1
        rcases hi' with hi' | hi'
        · have := h.taken i hi'
          omega
        · have hik : i = k := List.mem_singleton.1 hi'
          omega

/-- **Along a run** in which no take is misled, the presenter's queue stays in step with the
packets. -/
theorem synced_run {es : List Event} (hsynced : t.Synced head)
    (h : History.Along step (fun t e => t.Follows e ∧ ∀ k, e = .take k → ¬ t.Misled k) t es) :
    ∃ head', (es.foldl step t).Synced head' := by
  induction es generalizing t head with
  | nil => exact ⟨head, hsynced⟩
  | cons e es ih =>
      obtain ⟨⟨hfollows, hmisled⟩, hrest⟩ := h
      obtain ⟨head', hstep⟩ := hsynced.step hfollows hmisled
      exact ih hstep hrest

/-- No packet is lost.  The addresses may be any. -/
def InOrder (t : Trace) : Event → Prop
  | .latch s => s.height.toNat < 2 ^ 31
  | .swap emitsPacket _ => emitsPacket = true → t.presenter.presentQueue.count < 16
  | .represent emitsPacket _ => emitsPacket = true → t.presenter.presentQueue.count < 16
  | .take k => k = t.next ∧ k < t.packets.length

instance (t : Trace) : DecidablePred t.InOrder
  | .latch s => inferInstanceAs (Decidable (s.height.toNat < 2 ^ 31))
  | .swap emitsPacket _ => inferInstanceAs (Decidable (emitsPacket = true → t.presenter.presentQueue.count < 16))
  | .represent emitsPacket _ => inferInstanceAs (Decidable (emitsPacket = true → t.presenter.presentQueue.count < 16))
  | .take k => inferInstanceAs (Decidable (k = t.next ∧ k < t.packets.length))

/-- Without a loss the packets are taken one after another. -/
structure Fifo (t : Trace) : Prop where
  queued : t.Queued t.next
  next_eq : t.next = t.results.length
  taken : t.results.map Prod.fst = List.range t.next

/-- A step that takes packets in the order they were made keeps them in order. -/
theorem Fifo.step (h : t.Fifo) {e : Event} (hin : t.InOrder e) : (t.step e).Fifo := by
  cases e with
  | latch s => exact ⟨h.queued.latch hin, h.next_eq, h.taken⟩
  | swap emitsPacket frontbuffer =>
      cases emitsPacket with
      | false => exact h
      | true =>
          refine ⟨h.queued.push (hin rfl) ?_ h.queued.latched, h.next_eq, h.taken⟩
          rw [← h.queued.present]
          rfl
  | represent emitsPacket frontbuffer =>
      cases emitsPacket with
      | false => exact h
      | true =>
          refine ⟨h.queued.push (hin rfl) ?_ (lastState_height h.queued), h.next_eq, h.taken⟩
          rw [← h.queued.lastPushed]
          rfl
  | take k =>
      obtain ⟨rfl, hk⟩ := hin
      have hnone : ∀ i, t.next ≤ i → i < t.next →
          (t.packet i).frontbuffer ≠ (t.packet t.next).frontbuffer := fun i hi hlt => absurd hlt (by omega)
      refine ⟨h.queued.take le_rfl le_rfl hk hnone rfl, ?_, ?_⟩
      · show t.next + 1 = (t.results ++ [_]).length
        rw [List.length_append, ← h.next_eq]
        rfl
      · show (t.results ++ [(t.next, _)]).map Prod.fst = List.range (t.next + 1)
        rw [List.map_append, h.taken, List.range_succ]
        rfl

/-- And so does every such run. -/
theorem fifo_run {es : List Event} (hfifo : t.Fifo) (h : History.Along step InOrder t es) :
    (es.foldl step t).Fifo := by
  induction es generalizing t with
  | nil => exact hfifo
  | cons e es ih => exact ih (hfifo.step h.1) h.2

/-- The packets pushed are taken, dropped or still queued. -/
theorem Queued.length_eq (h : t.Queued head) :
    t.packets.length = head + t.presenter.presentQueue.count := by
  have hlength := congrArg List.length h.queue
  rw [Ring.length_contents, List.length_map, List.length_drop] at hlength
  have := h.head_le
  have := h.next_le
  omega

/-- **The presenter's state follows its packet.**  Where the packets reach the command
processor in order and no two in a row are lost, no take but a misled one returns another
state than its packet was pushed with, and the counter holds how many entries were dropped.
Without a loss every packet is taken in turn, whatever the addresses. -/
theorem presenterState_follows (es : List Event) :
    (History.Along step (fun t e => t.Follows e ∧ ∀ k, e = .take k → ¬ t.Misled k) start es →
      let t := es.foldl step start
      (∀ k r, (k, r) ∈ t.results → k < t.packets.length ∧ r = (t.packet k).state) ∧
        ∃ dropped, t.presenter.presentResyncs = BitVec.ofNat 64 dropped ∧
          t.packets.length = t.results.length + dropped + t.presenter.presentQueue.count) ∧
      (History.Along step InOrder start es →
        let t := es.foldl step start
        (∀ k r, (k, r) ∈ t.results → k < t.packets.length ∧ r = (t.packet k).state) ∧
          t.results.map Prod.fst = List.range t.results.length ∧
          t.presenter.presentResyncs = 0 ∧
          t.packets.length = t.results.length + t.presenter.presentQueue.count) := by
  constructor
  · intro halong t
    obtain ⟨head, hsynced⟩ := synced_run synced_start halong
    obtain ⟨dropped, hdropped, hhead⟩ := hsynced.resyncs
    exact ⟨hsynced.results, dropped, hdropped, hhead ▸ hsynced.length_eq⟩
  · intro halong t
    have hfifo : t.Fifo := fifo_run ⟨queued_start, rfl, rfl⟩ halong
    obtain ⟨dropped, hdropped, hhead⟩ := hfifo.queued.resyncs
    have hlength := hfifo.queued.length_eq
    have hnext := hfifo.next_eq
    refine ⟨hfifo.queued.results, ?_, ?_, by omega⟩
    · rw [hfifo.taken, hnext]
    · rw [hdropped, show dropped = 0 by omega]
      rfl

/-- The hypotheses of both halves are satisfiable: a run in which packet 1 of three is lost and its entry is
dropped at the next take, and one without a loss in which two images have one address. -/
theorem presenterState_follows_lost :
    let wide : PresentState := ⟨true, 21, 9⟩
    let narrow : PresentState := ⟨false, 16, 9⟩
    let t := [Event.latch wide, .swap true 1, .latch narrow, .swap true 2, .swap true 1, .take 0, .take 2].foldl
      step start
    let u := [Event.swap true 5, .latch wide, .swap true 5, .take 0, .take 1].foldl step start
    (2, narrow) ∈ t.results ∧ narrow = (t.packet 2).state ∧ (∃ dropped, t.presenter.presentResyncs =
      BitVec.ofNat 64 dropped ∧ t.packets.length = t.results.length + dropped + t.presenter.presentQueue.count) ∧
      (1, wide) ∈ u.results ∧ wide = (u.packet 1).state ∧ u.presenter.presentResyncs = 0 := by
  intro wide narrow t u
  have hfirst : ¬ ([Event.latch wide, .swap true 1, .latch narrow, .swap true 2, .swap true 1].foldl step
      start).Misled 0 := fun h => absurd h.1 (by decide)
  have hsecond : ¬ ([Event.latch wide, .swap true 1, .latch narrow, .swap true 2, .swap true 1, .take 0].foldl step
      start).Misled 2 := by
    rintro ⟨-, -, -, -, -, q, hq, -⟩
    exact absurd hq (Nat.not_lt_zero q)
  have htake : ∀ {t : Trace} {k : ℕ}, ¬ t.Misled k → ∀ k', Event.take k = .take k' → ¬ t.Misled k' := by
    rintro t k h _ ⟨⟩
    exact h
  obtain ⟨hresults, hresyncs⟩ := (presenterState_follows [.latch wide, .swap true 1, .latch narrow,
    .swap true 2, .swap true 1, .take 0, .take 2]).1 ⟨⟨by decide, nofun⟩, ⟨by decide, nofun⟩,
      ⟨by decide, nofun⟩, ⟨by decide, nofun⟩, ⟨by decide, nofun⟩, ⟨by decide, htake hfirst⟩,
      ⟨by decide, htake hsecond⟩, trivial⟩
  obtain ⟨hresults', -, hresyncs', -⟩ := (presenterState_follows [.swap true 5, .latch wide, .swap true 5,
    .take 0, .take 1]).2 ⟨by decide, by decide, by decide, by decide, by decide, trivial⟩
  have hmem : (2, narrow) ∈ t.results := by decide
  have hmem' : (1, wide) ∈ u.results := by decide
  exact ⟨hmem, (hresults 2 narrow hmem).2, hresyncs, hmem', (hresults' 1 wide hmem').2, hresyncs'⟩

/-- An image at address 1 is presented twice and its first packet is lost.  The packet behind
it, an image at address 2, is lost as well, and the next image is at address 1 again: the take
of its packet, number 3, returns the state of the first image. -/
theorem presenterState_misled :
    let wide : PresentState := ⟨true, 21, 9⟩
    let narrow : PresentState := ⟨false, 16, 9⟩
    let es : List Event := [.latch wide, .swap true 1, .represent true 1, .take 1, .latch narrow,
      .swap true 2, .swap true 1, .take 3]
    let t := es.foldl step start
    History.Along step Follows start es ∧ (3, wide) ∈ t.results ∧ (t.packet 3).state = narrow := by
  intro wide narrow es t
  exact ⟨by decide, by decide, by decide⟩

end Trace
end Present
end BoltsRebuilt
