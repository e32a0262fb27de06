import Stm32Ecm.Library.Run
import Stm32Ecm.Usb.Driver

/-!
The firmware around the driver: one main loop (`service_traffic` of `main.c` and the calls of
`usb_ecm_xmit_packet` lwIP makes from it), interrupted between any two of its steps by the USB
interrupt, which runs to completion.

* `MainPc`: where `service_traffic` stands, with `usb_ecm_recv_renew` split at the points where
  `HAL_PCD_EP_Receive` can be interrupted: the transfer fields are written, the lock is taken,
  the endpoint is made valid, the lock is released, the outcome is stored;
* `XmitPc`: where `usb_ecm_xmit_packet` stands, down to the single pbuf of its copying loop;
* `Event` and `step`: the interrupts and the steps of the main loop.  A packet can arrive on
  the OUT endpoint only while the endpoint is valid, and `usb_ecm_xmit_packet` is entered only
  from lwIP, that is from `ethernet_input` or from a timer, outside `service_traffic`.
-/

namespace Stm32Ecm

open Transition

/-- Where the main loop stands in `service_traffic`. -/
inductive MainPc where
  /-- Outside, or about to look at the mailbox. -/
  | idle
  /-- The frame is taken, `ethernet_input` is not yet called. -/
  | taken (frame : List UInt8)
  /-- Inside `ethernet_input`. -/
  | inside (frame : List UInt8)
  /-- `ethernet_input` has returned, `pbuf_free` is next. -/
  | returned (frame : List UInt8)
  /-- `usb_ecm_recv_renew` is next. -/
  | renew
  /-- `HAL_PCD_EP_Receive` has written the transfer fields, `__HAL_LOCK` is next. -/
  | prepared
  /-- The lock is held, the endpoint is not yet valid. -/
  | locked
  /-- The endpoint is valid, the lock is still held. -/
  | validated
  /-- `USBD_LL_PrepareReceive` has returned, its outcome is not yet stored. -/
  | store (outcome : UsbdStatus)
  deriving DecidableEq, Repr

/-- Where the main loop stands in `usb_ecm_xmit_packet`. -/
inductive XmitPc where
  /-- Not in it. -/
  | out
  /-- `registered_pdev` is tested next. -/
  | enter (p : PbufChain)
  /-- `can_xmit` is tested next. -/
  | check (p : PbufChain)
  /-- In the copying loop, `q` the pbufs left; with none left the critical section is next. -/
  | copy (p : PbufChain) (q : List (List UInt8)) (data packetSize : ℕ)
  deriving DecidableEq, Repr

/-- lwIP is running, so that it can call `linkoutput_fn`. -/
def MainPc.mayXmit : MainPc → Bool
  | .idle | .inside _ => true
  | _ => false

/-- The driver and the main loop. -/
structure Firmware where
  ecm : Ecm
  main : MainPc
  xmit : XmitPc

/-- The state at reset. -/
def Firmware.initial : Firmware where
  ecm := Ecm.initial
  main := .idle
  xmit := .out

/-- One step of `service_traffic`. -/
def serviceTraffic (pc : MainPc) (s : Ecm) : MainPc × Ecm :=
  match pc with
  | .idle =>
      match s.rx.receivedFrame with
      | none => (.idle, s)
      | some frame => (.taken frame, { s with rx := { s.rx with receivedFrame := none } })
  | .taken frame =>
      (.inside frame, { s with rx := { s.rx with log := s.rx.log ++ [.ethernetInput frame] } })
  | .inside frame => (.returned frame, s)
  | .returned _ => (.renew, s)
  | .renew =>
      (.prepared,
        { s with
          rx :=
            { s.rx with
              outEp := s.rx.outEp.setupXfer s.rx.ecmRxIndex ecmDataOutSz
              log := s.rx.log ++ [.prepareReceive s.handle.registeredPdev] } })
  | .prepared =>
      if s.handle.hpcdLock then (.store .busy, s)
      else
        (.locked,
          { s with
            handle := { s.handle with hpcdLock := true }
            rx := { s.rx with outEp := s.rx.outEp.splitXfer } })
  | .locked => (.validated, { s with rx := { s.rx with outEp := s.rx.outEp.setValid } })
  | .validated => (.store .ok, { s with handle := { s.handle with hpcdLock := false } })
  | .store outcome =>
      (.idle,
        { s with
          rx :=
            { s.rx with
              outboundTransferNeedsRenewal := decide (outcome ≠ .ok)
              log := s.rx.log ++ [.prepareOutcome outcome] } })

/-- One step of `usb_ecm_xmit_packet`. -/
def usbEcmXmitPacket (h : UsbHandle) (pc : XmitPc) (tx : EcmTx) : XmitPc × EcmTx :=
  match pc with
  | .out => (.out, tx)
  | .enter p => if h.registeredPdev then (.check p, tx) else (.out, tx)
  | .check p => if tx.canXmit then (.copy p p.segs 0 0, tx) else (.out, tx)
  | .copy p (q :: qs) data packetSize =>
      (.copy p qs (data + q.length) (packetSize + q.length),
        { tx with ecmTxBuffer := Memory.write tx.ecmTxBuffer data q })
  | .copy p [] _ packetSize =>
      (.out,
        { tx with
          canXmit := false, ecmTxPtr := 0, ecmTxRemaining := packetSize,
          copyLength := packetSize, log := tx.log ++ [.accept p] })

/-- The interrupts and the steps of the main loop. -/
inductive Event where
  /-- `SET_CONFIGURATION`: `USBD_ECM_Init`. -/
  | init
  /-- `USBD_ECM_DeInit`. -/
  | deInit
  /-- A packet arrives on `ECM_DATA_OUT_EP`; `alloc` is the outcome of `pbuf_alloc` if it is
  called. -/
  | dataOut (c : OutPacket) (alloc : Bool)
  /-- The completion of the `k`-th chunk on `ECM_DATA_IN_EP` is reported. -/
  | dataIn (k : ℕ)
  /-- A start of frame. -/
  | sof
  /-- The next step of `service_traffic`. -/
  | traffic
  /-- lwIP calls `usb_ecm_xmit_packet`. -/
  | xmitCall (p : PbufChain)
  /-- The next step of `usb_ecm_xmit_packet`. -/
  | xmitStep
  deriving DecidableEq, Repr

/-- One step of the firmware, `none` when the event is not possible. -/
def step (s : Firmware) : Event → Option Firmware
  | .init => some { s with ecm := usbdEcmInit s.ecm }
  | .deInit => some { s with ecm := usbdEcmDeInit s.ecm }
  | .dataOut c alloc =>
      if s.ecm.rx.outEp.valid then
        some { s with
          ecm := { s.ecm with rx := pcdEpIsrOut s.ecm.handle c alloc s.ecm.rx } }
      else none
  | .dataIn k =>
      some { s with ecm := { s.ecm with tx := usbdEcmDataIn s.ecm.handle k s.ecm.tx } }
  | .sof => some { s with ecm := usbdEcmSof s.ecm }
  | .traffic =>
      if s.xmit = .out then
        some { s with
          main := (serviceTraffic s.main s.ecm).1, ecm := (serviceTraffic s.main s.ecm).2 }
      else none
  | .xmitCall p =>
      if s.xmit = .out ∧ s.main.mayXmit then some { s with xmit := .enter p } else none
  | .xmitStep =>
      if s.xmit = .out then none
      else
        some { s with
          xmit := (usbEcmXmitPacket s.ecm.handle s.xmit s.ecm.tx).1
          ecm := { s.ecm with tx := (usbEcmXmitPacket s.ecm.handle s.xmit s.ecm.tx).2 } }

/-! ### What a step can do -/

section Inversion

variable {s t : Firmware}

lemma step_dataOut {c : OutPacket} {alloc : Bool} (h : step s (.dataOut c alloc) = some t) :
    s.ecm.rx.outEp.valid = true ∧
      t = { s with ecm := { s.ecm with rx := pcdEpIsrOut s.ecm.handle c alloc s.ecm.rx } } := by
  rw [step] at h
  split_ifs at h with hv
  exact ⟨hv, (Option.some.inj h).symm⟩

lemma step_traffic (h : step s .traffic = some t) :
    s.xmit = .out ∧ t = { s with
      main := (serviceTraffic s.main s.ecm).1, ecm := (serviceTraffic s.main s.ecm).2 } := by
  rw [step] at h
  split_ifs at h with hx
  exact ⟨hx, (Option.some.inj h).symm⟩

lemma step_xmitCall {p : PbufChain} (h : step s (.xmitCall p) = some t) :
    s.xmit = .out ∧ s.main.mayXmit = true ∧ t = { s with xmit := .enter p } := by
  rw [step] at h
  split_ifs at h with hx
  exact ⟨hx.1, hx.2, (Option.some.inj h).symm⟩

lemma step_xmitStep (h : step s .xmitStep = some t) :
    s.xmit ≠ .out ∧ t = { s with
      xmit := (usbEcmXmitPacket s.ecm.handle s.xmit s.ecm.tx).1
      ecm := { s.ecm with tx := (usbEcmXmitPacket s.ecm.handle s.xmit s.ecm.tx).2 } } := by
  rw [step] at h
  split_ifs at h with hx
  exact ⟨hx, (Option.some.inj h).symm⟩

end Inversion

/-! ### `service_traffic`, step by step -/

lemma serviceTraffic_empty {s : Ecm} (hmail : s.rx.receivedFrame = none) :
    serviceTraffic .idle s = (.idle, s) := by
  rw [serviceTraffic, hmail]

lemma serviceTraffic_take {s : Ecm} {frame : List UInt8}
    (hmail : s.rx.receivedFrame = some frame) :
    serviceTraffic .idle s =
      (.taken frame, { s with rx := { s.rx with receivedFrame := none } }) := by
  rw [serviceTraffic, hmail]

lemma serviceTraffic_lock {s : Ecm} (hlock : s.handle.hpcdLock = false) :
    serviceTraffic .prepared s =
      (.locked, { s with
        handle := { s.handle with hpcdLock := true }
        rx := { s.rx with outEp := s.rx.outEp.splitXfer } }) := by
  rw [serviceTraffic, hlock]
  rfl

/-- `service_traffic` does not touch the transmit path. -/
@[simp] lemma serviceTraffic_tx (pc : MainPc) (s : Ecm) :
    (serviceTraffic pc s).2.tx = s.tx := by
  cases pc with
  | idle => rw [serviceTraffic]; cases s.rx.receivedFrame <;> rfl
  | prepared => rw [serviceTraffic]; split_ifs <;> rfl
  | _ => rfl

/-- `usb_ecm_xmit_packet` logs nothing but the packet it takes. -/
lemma usbEcmXmitPacket_log (h : UsbHandle) (pc : XmitPc) (tx : EcmTx) :
    (usbEcmXmitPacket h pc tx).2.log = tx.log ∨
      ∃ p, (usbEcmXmitPacket h pc tx).2.log = tx.log ++ [.accept p] := by
  cases pc with
  | out => exact Or.inl rfl
  | enter p => rw [usbEcmXmitPacket]; split_ifs <;> exact Or.inl rfl
  | check p => rw [usbEcmXmitPacket]; split_ifs <;> exact Or.inl rfl
  | copy p q data packetSize =>
      cases q with
      | nil => exact Or.inr ⟨p, rfl⟩
      | cons q qs => exact Or.inl rfl

/-- `usb_ecm_xmit_packet` leaves `ecm_tx_busy` alone. -/
@[simp] lemma usbEcmXmitPacket_ecmTxBusy (h : UsbHandle) (pc : XmitPc) (tx : EcmTx) :
    (usbEcmXmitPacket h pc tx).2.ecmTxBusy = tx.ecmTxBusy := by
  cases pc with
  | out => rfl
  | enter p => rw [usbEcmXmitPacket]; split_ifs <;> rfl
  | check p => rw [usbEcmXmitPacket]; split_ifs <;> rfl
  | copy p q data packetSize => cases q <;> rfl

end Stm32Ecm
