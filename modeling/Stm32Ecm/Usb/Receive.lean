import Stm32Ecm.Library.Framing
import Stm32Ecm.Usb.Firmware

/-!
The receive path over whole runs in normal operation: every `USBD_LL_PrepareReceive` is accepted
and every `pbuf_alloc` succeeds.

* `EthernetFrame` and `chunksOf`: what the host sends, and the chunks that have arrived;
* `delivered` and `waiting`: the frames handed to `ethernet_input`, and the one on its way there;
* `RxInv`: the receive path is the receiver `Framing.feed`, with `ecm_rx_index` the length of its
  accumulator and the frames closed either delivered or waiting.  The flow control has a single
  credit: the endpoint is armed, or a frame waits in the mailbox, or `service_traffic` has it
  (`SingleCredit`), and an armed endpoint points to `ecm_rx_buffer + ecm_rx_index`;
* `rxInv_step`, `rxInv_run`: kept by every step, hence by every run;
* `frames_in_order`: the frames handed to `ethernet_input` are the first ones sent, the mailbox
  is never found occupied, and no byte is stored outside `ecm_rx_buffer`.
-/

namespace Stm32Ecm

open Transition Framing

/-! ### What is sent and what is delivered -/

/-- A frame of the host. -/
structure EthernetFrame where
  bytes : List UInt8
  pos : 0 < bytes.length
  fits : bytes.length ≤ ecmMaxSegmentSize
  deriving DecidableEq, Repr

/-- The chunks that have arrived on `ECM_DATA_OUT_EP`. -/
def chunksOf (es : List Event) : List (List UInt8) :=
  es.filterMap fun
    | .dataOut c _ => some c.bytes
    | _ => none

/-- The frames handed to `ethernet_input`. -/
def delivered (log : List RxObs) : List (List UInt8) :=
  log.filterMap fun
    | .ethernetInput frame => some frame
    | _ => none

/-- The frames closed and not yet handed over: the one `service_traffic` has taken, and the one
in the mailbox. -/
def waiting (pc : MainPc) (rx : EcmRx) : List (List UInt8) :=
  (match pc with
    | .taken frame => [frame]
    | _ => []) ++ rx.receivedFrame.toList

/-- After the configuration: no other one, and `pbuf_alloc` succeeds. -/
def Event.Normal : Event → Prop
  | .init | .deInit => False
  | .dataOut _ alloc => alloc = true
  | _ => True

/-- Every `USBD_LL_PrepareReceive` was accepted. -/
def AllPrepared (log : List RxObs) : Prop :=
  ∀ outcome, .prepareOutcome outcome ∈ log → outcome = .ok

/-- What the log of a normal run holds: the mailbox was never found occupied and no byte was
stored outside `ecm_rx_buffer`. -/
def RxObs.Harmless : RxObs → Prop
  | .recvCallback occupied _ => occupied = false
  | .store off size => off + size ≤ ecmMaxSegmentSize
  | _ => True

lemma delivered_append (l l' : List RxObs) :
    delivered (l ++ l') = delivered l ++ delivered l' :=
  List.filterMap_append

lemma chunksOf_append (es es' : List Event) :
    chunksOf (es ++ es') = chunksOf es ++ chunksOf es' :=
  List.filterMap_append

lemma AllPrepared.of_append {l l' : List RxObs} (h : AllPrepared (l ++ l')) : AllPrepared l :=
  fun outcome hmem => h outcome (List.mem_append_left _ hmem)

/-! ### The invariant -/

/-- The endpoint is armed at the end of the accumulated bytes, for one more chunk. -/
structure ArmedAt (ep : PcdEp) (index : ℕ) : Prop where
  xferBuff : ep.xferBuff = index
  xferLen : ep.xferLen = 0
  xferCount : ep.xferCount = 0

/-- The single credit, by where `service_traffic` stands. -/
def SingleCredit (pc : MainPc) (rx : EcmRx) : Prop :=
  match pc with
  | .idle | .validated | .store .ok =>
      rx.outEp.valid = true →
        rx.receivedFrame = none ∧ ArmedAt rx.outEp rx.ecmRxIndex
  | .taken _ | .inside _ | .returned _ | .renew =>
      rx.outEp.valid = false ∧ rx.receivedFrame = none
  | .prepared =>
      rx.outEp.valid = false ∧ rx.receivedFrame = none ∧
        rx.outEp.xferBuff = rx.ecmRxIndex ∧
        rx.outEp.xferLen = ecmDataOutSz ∧ rx.outEp.xferCount = 0
  | .locked =>
      rx.outEp.valid = false ∧ rx.receivedFrame = none ∧
        ArmedAt rx.outEp rx.ecmRxIndex
  | .store _ => False

/-- The lock is held by `service_traffic` inside `HAL_PCD_EP_Receive` and nowhere else. -/
def MainPc.holdsLock : MainPc → Bool
  | .locked | .validated => true
  | _ => false

/-- The invariant of the receive path, with `r` the receiver on the chunks that arrived. -/
structure RxInv (r : Assembly UInt8) (pc : MainPc) (h : UsbHandle) (rx : EcmRx) : Prop where
  credit : SingleCredit pc rx
  lock : h.hpcdLock = pc.holdsLock
  maxpacket : rx.outEp.maxpacket = ecmDataOutSz
  renewed : rx.outboundTransferNeedsRenewal = false
  index : rx.ecmRxIndex = r.acc.length
  buffer : Memory.read rx.ecmRxBuffer 0 r.acc.length = r.acc
  closed : delivered rx.log ++ waiting pc rx = r.done
  harmless : ∀ o ∈ rx.log, o.Harmless

/-! ### A packet arrives -/

section Arrival

variable {h : UsbHandle} {c : OutPacket} {alloc : Bool} {rx : EcmRx} {r : Assembly UInt8}

@[simp] lemma storeOut_ecmRxIndex : (storeOut c rx).ecmRxIndex = rx.ecmRxIndex := by
  rw [storeOut]; split <;> rfl

@[simp] lemma storeOut_receivedFrame : (storeOut c rx).receivedFrame = rx.receivedFrame := by
  rw [storeOut]; split <;> rfl

@[simp] lemma storeOut_needsRenewal : (storeOut c rx).outboundTransferNeedsRenewal =
    rx.outboundTransferNeedsRenewal := by
  rw [storeOut]; split <;> rfl

@[simp] lemma storeOut_outEp : (storeOut c rx).outEp =
    { rx.outEp with
      xferCount := rx.outEp.xferCount + c.bytes.length
      xferBuff := rx.outEp.xferBuff + c.bytes.length, valid := false } := rfl

lemma storeOut_log : (storeOut c rx).log =
    rx.log ++ if c.bytes.length = 0 then [] else [.store rx.outEp.xferBuff c.readPma.length] := by
  rw [storeOut]
  split_ifs with h0
  · simp
  · rfl

/-- The packet extends what is accumulated; the byte `PCD_ReadPMA` brings along lies behind. -/
lemma read_storeOut (hbuff : rx.outEp.xferBuff = rx.ecmRxIndex) :
    Memory.read (storeOut c rx).ecmRxBuffer 0 (rx.ecmRxIndex + c.bytes.length) =
      Memory.read rx.ecmRxBuffer 0 rx.ecmRxIndex ++ c.bytes := by
  rw [storeOut]
  split_ifs with h0
  · simp only [h0, Nat.add_zero]
    rw [List.eq_nil_of_length_eq_zero h0, List.append_nil]
  · have hle : c.bytes.length ≤ c.readPma.length := by
      rw [c.length_readPma]
      omega
    simp only [hbuff]
    rw [← Memory.take_read (n := rx.ecmRxIndex + c.readPma.length) (by omega),
      Memory.read_write_append_zero, List.take_append, List.take_of_length_le (by simp),
      Memory.length_read, Nat.add_sub_cancel_left, OutPacket.readPma, List.take_left' rfl]

/-- The class is called for the last packet of a transfer, and for a short one. -/
lemma pcdEpIsrOut_of_last
    (hlast : rx.outEp.xferLen = 0 ∨ c.bytes.length < rx.outEp.maxpacket) :
    pcdEpIsrOut h c alloc rx = usbdEcmDataOut h alloc (storeOut c rx) := by
  rw [pcdEpIsrOut]
  exact if_pos hlast

lemma usbEcmRecvCallback_allocated {size : ℕ} (hmail : rx.receivedFrame = none) :
    usbEcmRecvCallback h true size rx =
      { rx with
        receivedFrame := some (Memory.read rx.ecmRxBuffer 0 size)
        log := rx.log ++ [.recvCallback false size] } := by
  simp [usbEcmRecvCallback, hmail]

lemma usbEcmRecvCallback_noMemory {size : ℕ} (hmail : rx.receivedFrame = none) :
    usbEcmRecvCallback h false size rx =
      usbEcmRecvRenew h { rx with log := rx.log ++ [.recvCallback false size] } := by
  simp [usbEcmRecvCallback, hmail]

/-- A full chunk is accumulated and the endpoint is armed again, unless the handle is locked. -/
lemma pcdEpIsrOut_full (hlen : rx.outEp.xferLen = 0) (hcount : rx.outEp.xferCount = 0)
    (hle : ecmDataOutSz ≤ c.bytes.length) :
    pcdEpIsrOut h c alloc rx =
      usbEcmRecvRenew h
        { storeOut c rx with ecmRxIndex := rx.ecmRxIndex + c.bytes.length } := by
  have hcount' : (storeOut c rx).outEp.xferCount = c.bytes.length := by
    rw [storeOut_outEp]
    simp only [hcount, Nat.zero_add]
  rw [pcdEpIsrOut_of_last (Or.inl hlen), usbdEcmDataOut]
  simp only [hcount', if_neg (Nat.not_lt.mpr hle), storeOut_ecmRxIndex]

/-- A short chunk closes the frame: `usb_ecm_recv_callback` is called, and only then is
`ecm_rx_index` cleared. -/
lemma pcdEpIsrOut_closing
    (hlast : rx.outEp.xferLen = 0 ∨ c.bytes.length < rx.outEp.maxpacket)
    (hcount : rx.outEp.xferCount = 0) (hlt : c.bytes.length < ecmDataOutSz) :
    pcdEpIsrOut h c alloc rx =
      { usbEcmRecvCallback h alloc (rx.ecmRxIndex + c.bytes.length)
          { storeOut c rx with ecmRxIndex := rx.ecmRxIndex + c.bytes.length } with
        ecmRxIndex := 0 } := by
  have hcount' : (storeOut c rx).outEp.xferCount = c.bytes.length := by
    rw [storeOut_outEp]
    simp only [hcount, Nat.zero_add]
  rw [pcdEpIsrOut_of_last hlast, usbdEcmDataOut]
  simp only [hcount', if_pos hlt, storeOut_ecmRxIndex]

/-- If the allocation succeeds, the frame is put into the mailbox. -/
lemma pcdEpIsrOut_short (harm : ArmedAt rx.outEp rx.ecmRxIndex)
    (hmail : rx.receivedFrame = none) (hlt : c.bytes.length < ecmDataOutSz) :
    pcdEpIsrOut h c true rx =
      { storeOut c rx with
        ecmRxIndex := 0
        receivedFrame := some (Memory.read rx.ecmRxBuffer 0 rx.ecmRxIndex ++ c.bytes)
        log := (storeOut c rx).log ++
          [.recvCallback false (rx.ecmRxIndex + c.bytes.length)] } := by
  rw [pcdEpIsrOut_closing (Or.inl harm.xferLen) harm.xferCount hlt, usbEcmRecvCallback_allocated]
  · simp only [read_storeOut harm.xferBuff]
  · exact storeOut_receivedFrame.trans hmail

/-- A renewal that was accepted found the handle unlocked. -/
lemma unlocked_of_allPrepared (hok : AllPrepared (usbEcmRecvRenew h rx).log) :
    h.hpcdLock = false := by
  cases hl : h.hpcdLock with
  | false => rfl
  | true =>
      have hbusy := hok .busy (by simp [usbEcmRecvRenew, hl])
      cases hbusy

/-- An accepted renewal. -/
lemma usbEcmRecvRenew_unlocked (hlock : h.hpcdLock = false) :
    usbEcmRecvRenew h rx =
      { rx with
        outEp := (rx.outEp.setupXfer rx.ecmRxIndex ecmDataOutSz).splitXfer.setValid
        outboundTransferNeedsRenewal := false
        log := rx.log ++ [.prepareReceive h.registeredPdev, .prepareOutcome .ok] } := by
  simp [usbEcmRecvRenew, hlock]

/-- A refused renewal: the transfer fields are written all the same. -/
lemma usbEcmRecvRenew_locked (hlock : h.hpcdLock = true) :
    usbEcmRecvRenew h rx =
      { rx with
        outEp := rx.outEp.setupXfer rx.ecmRxIndex ecmDataOutSz
        outboundTransferNeedsRenewal := true
        log := rx.log ++ [.prepareReceive h.registeredPdev, .prepareOutcome .busy] } := by
  simp [usbEcmRecvRenew, hlock]

lemma armedAt_renewed {ep : PcdEp} {n : ℕ} (hmax : ep.maxpacket = ecmDataOutSz) :
    ArmedAt (ep.setupXfer n ecmDataOutSz).splitXfer.setValid n where
  xferBuff := by simp
  xferLen := by
    rw [PcdEp.setValid_xferLen]
    exact PcdEp.splitXfer_xferLen_of_le (by simp [hmax])
  xferCount := by simp

end Arrival

/-! ### Every step keeps the invariant -/

/-- `service_traffic` has no frame and is not about to arm the endpoint. -/
def MainPc.Free (pc : MainPc) : Prop := pc = .idle ∨ pc = .validated ∨ pc = .store .ok

section Steps

variable {pc : MainPc} {h : UsbHandle} {rx : EcmRx} {r : Assembly UInt8}

lemma singleCredit_of_free (hmain : pc.Free) :
    SingleCredit pc rx ↔ (rx.outEp.valid = true →
      rx.receivedFrame = none ∧ ArmedAt rx.outEp rx.ecmRxIndex) := by
  rcases hmain with rfl | rfl | rfl <;> exact Iff.rfl

lemma waiting_of_free (hmain : pc.Free) : waiting pc rx = rx.receivedFrame.toList := by
  rcases hmain with rfl | rfl | rfl <;> rfl

/-- An armed endpoint is the credit. -/
lemma SingleCredit.of_valid (hc : SingleCredit pc rx) (hv : rx.outEp.valid = true) :
    pc.Free ∧ rx.receivedFrame = none ∧
      ArmedAt rx.outEp rx.ecmRxIndex := by
  have hfree : pc.Free → pc.Free ∧ rx.receivedFrame = none ∧ ArmedAt rx.outEp rx.ecmRxIndex :=
    fun h => ⟨h, (singleCredit_of_free h).mp hc hv⟩
  cases pc with
  | idle => exact hfree (Or.inl rfl)
  | validated => exact hfree (Or.inr (Or.inl rfl))
  | store outcome =>
      cases outcome with
      | ok => exact hfree (Or.inr (Or.inr rfl))
      | busy | fail => exact hc.elim
  | _ => exact absurd (hv.symm.trans hc.1) (by simp)

/-- The copy out of packet memory delivers nothing and stays inside `ecm_rx_buffer`: the buffer
has an even size and the offset is a multiple of 64. -/
lemma RxInv.store {c : OutPacket} (hinv : RxInv r pc h rx)
    (harm : ArmedAt rx.outEp rx.ecmRxIndex) (hdvd : ecmDataOutSz ∣ r.acc.length)
    (hfits : r.acc.length + c.bytes.length ≤ ecmMaxSegmentSize) :
    delivered (storeOut c rx).log = delivered rx.log ∧
      ∀ o ∈ (storeOut c rx).log, o.Harmless := by
  rw [storeOut_log]
  split_ifs with h0
  · rw [List.append_nil]
    exact ⟨rfl, hinv.harmless⟩
  · refine ⟨by rw [delivered_append]; exact List.append_nil _, fun o ho => ?_⟩
    rcases List.mem_append.mp ho with ho | ho
    · exact hinv.harmless o ho
    · rw [List.mem_singleton.mp ho, RxObs.Harmless, harm.xferBuff, hinv.index, c.length_readPma]
      simp only [ecmMaxSegmentSize, ecmDataOutSz] at hfits hdvd ⊢
      omega

/-- **A packet arrives** on the armed endpoint: the receiver is fed. -/
lemma RxInv.dataOut {c : OutPacket} (hinv : RxInv r pc h rx) (hv : rx.outEp.valid = true)
    (hok : AllPrepared (pcdEpIsrOut h c true rx).log)
    (hdvd : ecmDataOutSz ∣ r.acc.length)
    (hfits : r.acc.length + c.bytes.length ≤ ecmMaxSegmentSize) :
    RxInv (feed ecmDataOutSz r c.bytes) pc h (pcdEpIsrOut h c true rx) := by
  obtain ⟨hfree, hmail, harm⟩ := hinv.credit.of_valid hv
  have hdone : delivered rx.log = r.done := by
    have hclosed := hinv.closed
    rwa [waiting_of_free hfree, hmail, Option.toList_none, List.append_nil] at hclosed
  have hread : Memory.read rx.ecmRxBuffer 0 rx.ecmRxIndex = r.acc := by
    rw [hinv.index]
    exact hinv.buffer
  obtain ⟨hlog, hharm⟩ := hinv.store harm hdvd hfits
  rw [hdone] at hlog
  by_cases hlt : c.bytes.length < ecmDataOutSz
  · rw [feed_of_lt hlt, pcdEpIsrOut_short harm hmail hlt, hread]
    refine ⟨(singleCredit_of_free hfree).mpr ?_, hinv.lock, ?_, ?_, rfl, rfl, ?_, ?_⟩
    · intro hvalid
      simp at hvalid
    · simpa using hinv.maxpacket
    · simpa using hinv.renewed
    · rw [waiting_of_free hfree, delivered_append, hlog, List.append_assoc]
      rfl
    · intro o ho
      rcases List.mem_append.mp ho with ho | ho
      · exact hharm o ho
      · rw [List.mem_singleton.mp ho]
        rfl
  · have hle : ecmDataOutSz ≤ c.bytes.length := by omega
    rw [pcdEpIsrOut_full harm.xferLen harm.xferCount hle] at hok ⊢
    rw [feed_of_le hle, usbEcmRecvRenew_unlocked (unlocked_of_allPrepared hok)]
    refine ⟨(singleCredit_of_free hfree).mpr ?_, hinv.lock, ?_, rfl, ?_, ?_, ?_, ?_⟩
    · intro _
      exact ⟨by simpa using hmail, armedAt_renewed (by simpa using hinv.maxpacket)⟩
    · simpa using hinv.maxpacket
    · rw [List.length_append, hinv.index]
    · simp only [List.length_append]
      rw [← hinv.index, read_storeOut harm.xferBuff, hread]
    · rw [waiting_of_free hfree, delivered_append, hlog]
      simp only [storeOut_receivedFrame, hmail, delivered]
      simp
    · intro o ho
      rcases List.mem_append.mp ho with ho | ho
      · exact hharm o ho
      · rcases List.mem_pair.mp ho with rfl | rfl <;> trivial

lemma RxInv.harmless_concat {o : RxObs} (hinv : RxInv r pc h rx) (ho : o.Harmless) :
    ∀ x ∈ rx.log ++ [o], x.Harmless := by
  intro x hx
  rcases List.mem_append.mp hx with hx | hx
  · exact hinv.harmless x hx
  · rw [List.mem_singleton.mp hx]
    exact ho

/-- A step of `service_traffic` moves a frame from the mailbox towards `ethernet_input`: none
gets lost and none is added. -/
lemma delivered_waiting_traffic (pc : MainPc) (s : Ecm) :
    delivered (serviceTraffic pc s).2.rx.log ++
        waiting (serviceTraffic pc s).1 (serviceTraffic pc s).2.rx =
      delivered s.rx.log ++ waiting pc s.rx := by
  cases pc with
  | idle =>
      cases hmail : s.rx.receivedFrame with
      | none => rw [serviceTraffic_empty hmail]
      | some frame =>
          rw [serviceTraffic_take hmail]
          simp [waiting, hmail]
  | taken frame =>
      rw [serviceTraffic, delivered_append, List.append_assoc]
      rfl
  | renew | store =>
      rw [serviceTraffic, delivered_append, List.append_assoc]
      rfl
  | prepared =>
      rw [serviceTraffic]
      split_ifs <;> rfl
  | inside | returned | locked | validated => rfl

/-- **A step of `service_traffic`**: the frame, and with it the credit, moves on. -/
lemma RxInv.traffic {pc : MainPc} {s : Ecm} (hinv : RxInv r pc s.handle s.rx) :
    RxInv r (serviceTraffic pc s).1 (serviceTraffic pc s).2.handle
      (serviceTraffic pc s).2.rx := by
  obtain ⟨hcredit, hlock, hmax, hren, hidx, hbuf, hclosed, hharm⟩ := id hinv
  rw [← delivered_waiting_traffic] at hclosed
  cases pc with
  | idle =>
      cases hmail : s.rx.receivedFrame with
      | none =>
          rw [serviceTraffic_empty hmail]
          exact hinv
      | some frame =>
          have hnot : s.rx.outEp.valid = false := by
            cases hv : s.rx.outEp.valid with
            | false => rfl
            | true => exact absurd (hmail.symm.trans (hcredit hv).1) (by simp)
          rw [serviceTraffic_take hmail] at hclosed ⊢
          exact ⟨⟨hnot, rfl⟩, hlock, hmax, hren, hidx, hbuf, hclosed, hharm⟩
  | taken frame =>
      exact ⟨hcredit, hlock, hmax, hren, hidx, hbuf, hclosed, hinv.harmless_concat trivial⟩
  | inside frame | returned frame =>
      exact ⟨hcredit, hlock, hmax, hren, hidx, hbuf, hclosed, hharm⟩
  | renew =>
      exact ⟨⟨hcredit.1, hcredit.2, rfl, rfl, rfl⟩, hlock, hmax, hren, hidx, hbuf, hclosed,
        hinv.harmless_concat trivial⟩
  | prepared =>
      obtain ⟨hv, hmail, hbuff, hlen, hcount⟩ := hcredit
      rw [serviceTraffic_lock hlock] at hclosed ⊢
      refine ⟨⟨by simpa using hv, hmail, by simpa using hbuff, ?_, by simpa using hcount⟩, rfl,
        by simpa using hmax, hren, hidx, hbuf, hclosed, hharm⟩
      exact PcdEp.splitXfer_xferLen_of_le (by rw [hlen, hmax])
  | locked =>
      obtain ⟨-, hmail, harm⟩ := hcredit
      exact ⟨fun _ => ⟨hmail, harm.xferBuff, harm.xferLen, harm.xferCount⟩, hlock, hmax, hren,
        hidx, hbuf, hclosed, hharm⟩
  | validated => exact ⟨hcredit, rfl, hmax, hren, hidx, hbuf, hclosed, hharm⟩
  | store outcome =>
      cases outcome with
      | ok =>
          exact ⟨hcredit, hlock, hmax, rfl, hidx, hbuf, hclosed, hinv.harmless_concat trivial⟩
      | busy | fail => exact hcredit.elim

end Steps

/-! ### Every run -/

section Log

variable {h : UsbHandle} {alloc : Bool} {rx : EcmRx}

lemma usbEcmRecvRenew_log_prefix : rx.log <+: (usbEcmRecvRenew h rx).log :=
  List.prefix_append _ _

lemma usbdEcmDataOut_log_prefix : rx.log <+: (usbdEcmDataOut h alloc rx).log := by
  rw [usbdEcmDataOut]
  split_ifs
  · simp only [usbEcmRecvCallback]
    split_ifs
    · exact List.prefix_append _ _
    · exact List.prefix_append _ _
    · rw [usbEcmRecvRenew, List.append_assoc]
      exact List.prefix_append _ _
  · exact List.prefix_append _ _

lemma pcdEpIsrOut_log_prefix {c : OutPacket} : rx.log <+: (pcdEpIsrOut h c alloc rx).log := by
  have hstore : rx.log <+: (storeOut c rx).log := by
    rw [storeOut_log]
    exact List.prefix_append _ _
  rw [pcdEpIsrOut]
  split_ifs
  · exact hstore.trans usbdEcmDataOut_log_prefix
  · exact hstore

lemma serviceTraffic_log_prefix {pc : MainPc} {s : Ecm} :
    s.rx.log <+: (serviceTraffic pc s).2.rx.log := by
  cases pc with
  | idle => rw [serviceTraffic]; split <;> exact List.prefix_rfl
  | prepared => rw [serviceTraffic]; split_ifs <;> exact List.prefix_rfl
  | taken | renew | store => exact List.prefix_append _ _
  | inside | returned | locked | validated => exact List.prefix_rfl

/-- The log of the receive path only grows. -/
lemma rxLog_prefix {s t : Firmware} {e : Event} (hstep : step s e = some t) :
    s.ecm.rx.log <+: t.ecm.rx.log := by
  cases e with
  | init =>
      cases hstep
      exact List.prefix_append _ _
  | deInit | dataIn =>
      cases hstep
      exact List.prefix_rfl
  | dataOut c alloc =>
      obtain ⟨-, rfl⟩ := step_dataOut hstep
      exact pcdEpIsrOut_log_prefix
  | sof =>
      cases hstep
      simp only [usbdEcmSof]
      split_ifs
      · exact usbEcmRecvRenew_log_prefix
      · exact List.prefix_rfl
  | traffic =>
      obtain ⟨-, rfl⟩ := step_traffic hstep
      exact serviceTraffic_log_prefix
  | xmitCall p =>
      obtain ⟨-, -, rfl⟩ := step_xmitCall hstep
      exact List.prefix_rfl
  | xmitStep =>
      obtain ⟨-, rfl⟩ := step_xmitStep hstep
      exact List.prefix_rfl

end Log

/-- The state after the configuration. -/
lemma rxInv_init : RxInv ⟨[], []⟩ .idle (usbdEcmInit Ecm.initial).handle
    (usbdEcmInit Ecm.initial).rx where
  credit := fun _ => ⟨rfl, rfl, rfl, rfl⟩
  lock := rfl
  maxpacket := rfl
  renewed := rfl
  index := rfl
  buffer := rfl
  closed := rfl
  harmless := by
    intro o ho
    rcases List.mem_pair.mp ho with rfl | rfl <;> trivial

lemma length_of_mem_chunksOf {es : List Event} {c : List UInt8} (hc : c ∈ chunksOf es) :
    c.length ≤ ecmDataOutSz := by
  obtain ⟨e, -, he⟩ := List.mem_filterMap.mp hc
  cases e with
  | dataOut p alloc =>
      obtain rfl : p.bytes = c := by simpa using he
      exact p.fits
  | _ => simp at he

/-- **One step** of a normal run on a stream of frames keeps the invariant. -/
lemma rxInv_step {frames : List (List UInt8)} {es : List Event} {s t : Firmware} {e : Event}
    (hfit : ∀ f ∈ frames, f.length ≤ ecmMaxSegmentSize) (hnormal : e.Normal)
    (hsent : chunksOf (es ++ [e]) <+: frames.flatMap (framed ecmDataOutSz))
    (hok : AllPrepared t.ecm.rx.log) (hstep : step s e = some t)
    (hinv : RxInv (reassemble ecmDataOutSz (chunksOf es)) s.main s.ecm.handle s.ecm.rx) :
    RxInv (reassemble ecmDataOutSz (chunksOf (es ++ [e]))) t.main t.ecm.handle t.ecm.rx := by
  rw [chunksOf_append] at hsent ⊢
  cases e with
  | init | deInit => exact hnormal.elim
  | dataOut c alloc =>
      obtain rfl : alloc = true := hnormal
      obtain ⟨hv, rfl⟩ := step_dataOut hstep
      have hchunk : chunksOf [.dataOut c true] = [c.bytes] := rfl
      rw [hchunk] at hsent ⊢
      rw [reassemble_concat]
      exact hinv.dataOut hv hok (dvd_length_acc fun _ => length_of_mem_chunksOf)
        (feed_fits (by decide) hsent hfit)
  | dataIn k =>
      cases hstep
      rw [show chunksOf [.dataIn k] = [] from rfl, List.append_nil]
      exact hinv
  | sof =>
      cases hstep
      rw [show chunksOf [.sof] = [] from rfl, List.append_nil]
      simp only [usbdEcmSof, hinv.renewed]
      exact hinv
  | traffic =>
      obtain ⟨-, rfl⟩ := step_traffic hstep
      rw [show chunksOf [.traffic] = [] from rfl, List.append_nil]
      exact hinv.traffic
  | xmitCall p =>
      obtain ⟨-, -, rfl⟩ := step_xmitCall hstep
      rw [show chunksOf [.xmitCall p] = [] from rfl, List.append_nil]
      exact hinv
  | xmitStep =>
      obtain ⟨-, rfl⟩ := step_xmitStep hstep
      rw [show chunksOf [.xmitStep] = [] from rfl, List.append_nil]
      exact hinv

/-- **Every normal run** on a stream of frames keeps the invariant. -/
lemma rxInv_run {frames : List (List UInt8)} {es : List Event} {s : Firmware}
    (hfit : ∀ f ∈ frames, f.length ≤ ecmMaxSegmentSize)
    (hrun : run step Firmware.initial (.init :: es) = some s) (hnormal : ∀ e ∈ es, e.Normal)
    (hsent : chunksOf es <+: frames.flatMap (framed ecmDataOutSz))
    (hok : AllPrepared s.ecm.rx.log) :
    RxInv (reassemble ecmDataOutSz (chunksOf es)) s.main s.ecm.handle s.ecm.rx := by
  -- the three hypotheses hold of every initial part of the run, so they stand inside
  refine run_history
    (I := fun es s => (∀ e ∈ es, e.Normal) →
      chunksOf es <+: frames.flatMap (framed ecmDataOutSz) → AllPrepared s.ecm.rx.log →
      RxInv (reassemble ecmDataOutSz (chunksOf es)) s.main s.ecm.handle s.ecm.rx)
    ?_ ?_ (show run step _ es = some s from hrun) hnormal hsent hok
  · intro _ _ _
    exact rxInv_init
  · intro es e s t ih hstep hnormal hsent hok
    obtain ⟨d, hd⟩ := rxLog_prefix hstep
    refine rxInv_step hfit (hnormal e (by simp)) hsent hok hstep
      (ih (fun x hx => hnormal x (by simp [hx])) ?_ ?_)
    · rw [chunksOf_append] at hsent
      exact (List.prefix_append _ _).trans hsent
    · rw [← hd] at hok
      exact hok.of_append

/-- **Frames in order.**  After one configuration, for every list of frames sent as closed
streams of chunks and every interleaving in which every `USBD_LL_PrepareReceive` is accepted and
every `pbuf_alloc` succeeds: the frames handed to `ethernet_input` are the first ones sent; with
the one on its way they are all the frames whose last chunk has arrived, so that none is lost,
duplicated or merged; `usb_ecm_recv_callback` never finds the mailbox occupied; and no byte is
stored outside `ecm_rx_buffer`. -/
theorem frames_in_order (frames : List EthernetFrame) (es : List Event) (s : Firmware)
    (hrun : run step Firmware.initial (.init :: es) = some s) (hnormal : ∀ e ∈ es, e.Normal)
    (hsent : chunksOf es <+:
      (frames.map EthernetFrame.bytes).flatMap (framed ecmDataOutSz))
    (hok : AllPrepared s.ecm.rx.log) :
    delivered s.ecm.rx.log <+: frames.map EthernetFrame.bytes ∧
      (∃ k, delivered s.ecm.rx.log ++ waiting s.main s.ecm.rx =
        (frames.map EthernetFrame.bytes).take k) ∧
      (chunksOf es = (frames.map EthernetFrame.bytes).flatMap (framed ecmDataOutSz) →
        delivered s.ecm.rx.log ++ waiting s.main s.ecm.rx = frames.map EthernetFrame.bytes) ∧
      (∀ occupied size, .recvCallback occupied size ∈ s.ecm.rx.log → occupied = false) ∧
      ∀ off size, .store off size ∈ s.ecm.rx.log → off + size ≤ ecmMaxSegmentSize := by
  have hfit : ∀ f ∈ frames.map EthernetFrame.bytes, f.length ≤ ecmMaxSegmentSize :=
    List.forall_mem_map.mpr fun f _ => f.fits
  have hinv := rxInv_run hfit hrun hnormal hsent hok
  obtain ⟨k, hk, -⟩ := reassemble_framed_prefix (by decide) hsent
  refine ⟨?_, ⟨k, hinv.closed.trans hk⟩, ?_, fun _ _ => hinv.harmless _,
    fun _ _ => hinv.harmless _⟩
  · have htake : delivered s.ecm.rx.log <+: (frames.map EthernetFrame.bytes).take k := by
      rw [← hk, ← hinv.closed]
      exact List.prefix_append _ _
    exact htake.trans (List.take_prefix _ _)
  · intro hall
    rw [hinv.closed, hall, reassemble_framed (by decide)]

/-- A full chunk. -/
def sevens : OutPacket := ⟨List.replicate 64 7, 0, by decide⟩

/-- A frame of one byte. -/
def one : OutPacket := ⟨[1], 0, by decide⟩

/-- A frame of 64 bytes, closed by an empty chunk; `service_traffic` hands it over and renews the
endpoint, and a frame of one byte arrives and is handed over. -/
def twoFrames : List Event :=
  [.dataOut sevens true, .sof, .dataOut ⟨[], 0, by decide⟩ true] ++ List.replicate 9 .traffic ++
    [.dataOut one true, .traffic, .traffic]

theorem frames_in_order_twoFrames :
    ∃ s, run step Firmware.initial (.init :: twoFrames) = some s ∧
      delivered s.ecm.rx.log = [List.replicate 64 7, [1]] ∧
      delivered s.ecm.rx.log <+: [List.replicate 64 7, [1]] :=
  ⟨_, rfl, by decide,
    (frames_in_order [⟨List.replicate 64 7, by decide, by decide⟩, ⟨[1], by decide, by decide⟩]
      twoFrames _ rfl (by simp [twoFrames, Event.Normal]) (by decide)
      (by intro outcome h; cases outcome <;> first | rfl | exact absurd h (by decide))).1⟩

end Stm32Ecm
