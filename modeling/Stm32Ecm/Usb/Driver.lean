import Stm32Ecm.Library.Memory
import Stm32Ecm.Usb.Hal

/-!
The ECM class driver (`usbd_ecm.c`) and the receive callback of `main.c` it calls.

The static variables are split by direction: `EcmRx` for the receive path, with the mailbox
`received_frame` and the OUT endpoint, and `EcmTx` for the transmit path, with the IN endpoint.
Pointers into `ecm_rx_buffer` and `ecm_tx_buffer` are offsets.  Each direction keeps a log of
what can be observed of it: the calls into the layer below and the handling of events, in
order.  A function that works on one direction only is a function on that direction, with the
handle the driver passes down (`UsbHandle`).  The functions of the source keep their names:

* `usbEcmRecvRenew`, `usbEcmRecvCallback`, `usbdEcmDataOut`, and `pcdEpIsrOut` for the branch of
  `PCD_EP_ISR_Handler` that copies a packet out of packet memory and calls the class;
* `ecmIncomingAttempt`, `usbdEcmDataIn`, `usbdEcmSof`;
* `usbdEcmInit`, `usbdEcmDeInit`.
-/

namespace Stm32Ecm

/-! ### Sizes -/

/-- `ECM_MAX_SEGMENT_SIZE`. -/
@[simp] def ecmMaxSegmentSize : ℕ := 1514

/-- `ECM_DATA_IN_SZ`, which is `USB_FS_MAX_PACKET_SIZE`. -/
@[simp] def ecmDataInSz : ℕ := 64

/-- `ECM_DATA_OUT_SZ`, which is `USB_FS_MAX_PACKET_SIZE`. -/
@[simp] def ecmDataOutSz : ℕ := 64

/-! ### State -/

/-- What happens on the receive path. -/
inductive RxObs where
  /-- `USBD_LL_PrepareReceive` was called, with a device or with `NULL`. -/
  | prepareReceive (pdev : Bool)
  /-- `USBD_LL_PrepareReceive` returned. -/
  | prepareOutcome (outcome : UsbdStatus)
  /-- `PCD_ReadPMA` stored `size` bytes from `ecm_rx_buffer + off` on. -/
  | store (off size : ℕ)
  /-- `usb_ecm_recv_callback` was called and found the mailbox occupied or not. -/
  | recvCallback (occupied : Bool) (size : ℕ)
  /-- `service_traffic` handed a frame to `ethernet_input`. -/
  | ethernetInput (frame : List UInt8)
  deriving DecidableEq, Repr

/-- A chain of pbufs, by the payloads of its segments, as lwIP hands it to the link: not empty
and at most one Ethernet frame. -/
structure PbufChain where
  segs : List (List UInt8)
  pos : 0 < segs.flatten.length
  fits : segs.flatten.length ≤ ecmMaxSegmentSize
  deriving DecidableEq, Repr

/-- The bytes of a chain. -/
def PbufChain.bytes (p : PbufChain) : List UInt8 := p.segs.flatten

/-- What happens on the transmit path. -/
inductive TxObs where
  /-- `USBD_ECM_Init` ran. -/
  | init
  /-- `usb_ecm_xmit_packet` took the chain in its critical section. -/
  | accept (p : PbufChain)
  /-- `USBD_LL_Transmit` was called on `ECM_DATA_IN_EP`, with a device or with `NULL`, for the
  bytes from `ecm_tx_buffer + off` on, and answered. -/
  | transmit (pdev : Bool) (off : ℕ) (bytes : List UInt8) (outcome : UsbdStatus)
  /-- `USBD_ECM_SOF` was entered. -/
  | sof
  /-- `USBD_ECM_DataIn` was entered, reporting the completion of the `k`-th chunk. -/
  | dataIn (k : ℕ)
  /-- `can_xmit = true` was executed. -/
  | enableXmit
  deriving DecidableEq, Repr

/-- The receive path: `ecm_rx_buffer`, `ecm_rx_index`, `OutboundTransferNeedsRenewal`,
`hpcd.OUT_ep[3]`, and the mailbox `received_frame` of `main.c`. -/
structure EcmRx where
  ecmRxBuffer : ℕ → UInt8
  ecmRxIndex : ℕ
  outboundTransferNeedsRenewal : Bool
  outEp : PcdEp
  receivedFrame : Option (List UInt8)
  log : List RxObs

/-- The transmit path: `ecm_tx_buffer`, `can_xmit`, `ecm_tx_ptr`, `ecm_tx_remaining`,
`ecm_tx_busy`, `copy_length` and `hpcd.IN_ep[2]`. -/
structure EcmTx where
  ecmTxBuffer : ℕ → UInt8
  canXmit : Bool
  ecmTxPtr : ℕ
  ecmTxRemaining : ℕ
  ecmTxBusy : ℕ
  copyLength : ℕ
  inEp : PcdEp
  log : List TxObs

/-- The handle the driver passes down: whether `registered_pdev` is set, and `hpcd.Lock`. -/
structure UsbHandle where
  registeredPdev : Bool
  hpcdLock : Bool
  deriving DecidableEq, Repr

/-- The driver. -/
structure Ecm where
  handle : UsbHandle
  rx : EcmRx
  tx : EcmTx

/-- The static variables as the startup code leaves them. -/
def Ecm.initial : Ecm where
  handle := { registeredPdev := false, hpcdLock := false }
  rx :=
    { ecmRxBuffer := fun _ => 0, ecmRxIndex := 0, outboundTransferNeedsRenewal := false,
      outEp := {}, receivedFrame := none, log := [] }
  tx :=
    { ecmTxBuffer := fun _ => 0, canXmit := false, ecmTxPtr := 0, ecmTxRemaining := 0,
      ecmTxBusy := 0, copyLength := 0, inEp := {}, log := [] }

/-! ### Receive path -/

/-- `usb_ecm_recv_renew`. -/
def usbEcmRecvRenew (h : UsbHandle) (rx : EcmRx) : EcmRx :=
  let r := usbdLlPrepareReceive h.hpcdLock rx.outEp rx.ecmRxIndex ecmDataOutSz
  { rx with
    outEp := r.2
    outboundTransferNeedsRenewal := decide (r.1 ≠ .ok)
    log := rx.log ++ [.prepareReceive h.registeredPdev, .prepareOutcome r.1] }

/-- `usb_ecm_recv_callback` of `main.c`, called with `ecm_rx_buffer`; `alloc` is the outcome of
`pbuf_alloc`. -/
def usbEcmRecvCallback (h : UsbHandle) (alloc : Bool) (size : ℕ) (rx : EcmRx) : EcmRx :=
  let rx := { rx with log := rx.log ++ [.recvCallback rx.receivedFrame.isSome size] }
  if rx.receivedFrame.isSome then rx
  else if alloc then { rx with receivedFrame := some (Memory.read rx.ecmRxBuffer 0 size) }
  else usbEcmRecvRenew h rx

/-- `USBD_ECM_DataOut` on `ECM_DATA_OUT_EP`: `RxLength` is the `xfer_count` of the endpoint. -/
def usbdEcmDataOut (h : UsbHandle) (alloc : Bool) (rx : EcmRx) : EcmRx :=
  let rxLength := rx.outEp.xferCount
  let rx := { rx with ecmRxIndex := rx.ecmRxIndex + rxLength }
  if rxLength < ecmDataOutSz then
    { usbEcmRecvCallback h alloc rx.ecmRxIndex rx with ecmRxIndex := 0 }
  else usbEcmRecvRenew h rx

/-- A packet the host sent to `ECM_DATA_OUT_EP`: at most one maximal packet.  `pad` is the byte
of packet memory behind it. -/
structure OutPacket where
  bytes : List UInt8
  pad : UInt8
  fits : bytes.length ≤ ecmDataOutSz
  deriving DecidableEq, Repr

/-- The bytes `PCD_ReadPMA` stores: it copies half words, so a packet of odd length brings the
byte behind it along. -/
def OutPacket.readPma (c : OutPacket) : List UInt8 :=
  c.bytes ++ if c.bytes.length % 2 = 0 then [] else [c.pad]

lemma OutPacket.length_readPma (c : OutPacket) :
    c.readPma.length = 2 * ((c.bytes.length + 1) / 2) := by
  rw [readPma, List.length_append]
  by_cases h : c.bytes.length % 2 = 0
  · rw [if_pos h, List.length_nil]
    omega
  · rw [if_neg h, List.length_singleton]
    omega

/-- The copy of `PCD_EP_ISR_Handler` out of packet memory to `xfer_buff`, skipped for an empty
packet; the peripheral has left the endpoint with status `NAK`. -/
def storeOut (c : OutPacket) (rx : EcmRx) : EcmRx :=
  let ep := rx.outEp
  let count := c.bytes.length
  let rx :=
    if count = 0 then rx
    else
      { rx with
        ecmRxBuffer := Memory.write rx.ecmRxBuffer ep.xferBuff c.readPma
        log := rx.log ++ [.store ep.xferBuff c.readPma.length] }
  { rx with
    outEp :=
      { ep with
        xferCount := ep.xferCount + count, xferBuff := ep.xferBuff + count, valid := false } }

/-- The OUT branch of `PCD_EP_ISR_Handler` for `ECM_DATA_OUT_EP`: the packet is copied, and the
class is called unless a multi-packet transfer is still under way. -/
def pcdEpIsrOut (h : UsbHandle) (c : OutPacket) (alloc : Bool) (rx : EcmRx) : EcmRx :=
  let rx := storeOut c rx
  let ep := rx.outEp
  if ep.xferLen = 0 ∨ c.bytes.length < ep.maxpacket then usbdEcmDataOut h alloc rx
  else { rx with outEp := (halPcdEpReceive h.hpcdLock ep ep.xferBuff ep.xferLen).2 }

/-! ### Transmit path -/

/-- `ecm_incoming_attempt`.  The status `USBD_LL_Transmit` returns is not read. -/
def ecmIncomingAttempt (h : UsbHandle) (tx : EcmTx) : EcmTx :=
  if tx.ecmTxRemaining = 0 ∨ tx.ecmTxBusy ≠ 0 then tx
  else
    let chunkSize := min tx.ecmTxRemaining ecmDataInSz
    let r := usbdLlTransmit h.hpcdLock tx.inEp tx.ecmTxPtr chunkSize
    { tx with
      inEp := r.2
      ecmTxPtr := tx.ecmTxPtr + chunkSize
      ecmTxRemaining := tx.ecmTxRemaining - chunkSize
      ecmTxBusy := 1
      log := tx.log ++ [.transmit h.registeredPdev tx.ecmTxPtr
        (Memory.read tx.ecmTxBuffer tx.ecmTxPtr chunkSize) r.1] }

/-- `ecm_tx_busy = 0; if (0 == ecm_tx_remaining) can_xmit = true;`, in `USBD_ECM_DataIn` and in
the timeout of `USBD_ECM_SOF`. -/
def clearBusy (tx : EcmTx) : EcmTx :=
  if tx.ecmTxRemaining = 0 then
    { tx with ecmTxBusy := 0, canXmit := true, log := tx.log ++ [.enableXmit] }
  else { tx with ecmTxBusy := 0 }

/-- The counting of `USBD_ECM_SOF`: `if (++ecm_tx_busy > 32)` the chunk is given up. -/
def countBusy (tx : EcmTx) : EcmTx :=
  if tx.ecmTxBusy = 0 then tx
  else
    let tx := { tx with ecmTxBusy := tx.ecmTxBusy + 1 }
    if tx.ecmTxBusy > 32 then clearBusy tx else tx

/-- The timeout forgets the count. -/
lemma clearBusy_count {tx : EcmTx} {n : ℕ} : clearBusy { tx with ecmTxBusy := n } = clearBusy tx :=
  rfl

/-- **Inversion** of the counting: it does nothing, gives the chunk up, or counts. -/
lemma countBusy_cases {tx : EcmTx} :
    (countBusy tx = tx ∧ tx.ecmTxBusy = 0) ∨ (countBusy tx = clearBusy tx ∧ 32 ≤ tx.ecmTxBusy) ∨
      (countBusy tx = { tx with ecmTxBusy := tx.ecmTxBusy + 1 } ∧ tx.ecmTxBusy ≠ 0 ∧
        tx.ecmTxBusy < 32) := by
  rw [countBusy]
  split_ifs with hzero
  · exact Or.inl ⟨rfl, hzero⟩
  · by_cases hfull : tx.ecmTxBusy + 1 > 32
    · simp only [if_pos hfull, clearBusy_count]
      exact Or.inr (Or.inl ⟨trivial, by omega⟩)
    · simp only [if_neg hfull]
      exact Or.inr (Or.inr ⟨trivial, hzero, by omega⟩)

/-- `USBD_ECM_DataIn` on `ECM_DATA_IN_EP`.  The driver is not told which chunk was completed;
`k` is what the log records. -/
def usbdEcmDataIn (h : UsbHandle) (k : ℕ) (tx : EcmTx) : EcmTx :=
  ecmIncomingAttempt h (clearBusy { tx with log := tx.log ++ [.dataIn k] })

/-- `USBD_ECM_SOF`: a refused renewal is retried, the pending chunk is counted, and the next
chunk is attempted. -/
def usbdEcmSof (s : Ecm) : Ecm :=
  { s with
    rx := if s.rx.outboundTransferNeedsRenewal then usbEcmRecvRenew s.handle s.rx else s.rx
    tx := ecmIncomingAttempt s.handle (countBusy { s.tx with log := s.tx.log ++ [.sof] }) }

/-! ### Configuration -/

/-- `USBD_ECM_Init`.  The notification endpoint is opened too; nothing here depends on it. -/
def usbdEcmInit (s : Ecm) : Ecm :=
  let h := { s.handle with registeredPdev := true }
  let rx := { s.rx with outEp := halPcdEpOpenOut h.hpcdLock s.rx.outEp ecmDataOutSz }
  { handle := h
    rx := { usbEcmRecvRenew h rx with outboundTransferNeedsRenewal := false }
    tx :=
      { s.tx with
        inEp := halPcdEpOpenIn h.hpcdLock s.tx.inEp ecmDataInSz
        canXmit := true, ecmTxBusy := 0, ecmTxRemaining := 0, log := s.tx.log ++ [.init] } }

/-- `USBD_ECM_DeInit`. -/
def usbdEcmDeInit (s : Ecm) : Ecm :=
  { handle := { s.handle with registeredPdev := false }
    rx := { s.rx with outEp := halPcdEpClose s.handle.hpcdLock s.rx.outEp }
    tx :=
      { s.tx with canXmit := false, inEp := halPcdEpClose s.handle.hpcdLock s.tx.inEp } }

end Stm32Ecm
