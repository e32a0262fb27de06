import Stm32Ecm.Usb.Core
import Stm32Ecm.Usb.PacketMemory
import Stm32Ecm.Usb.Descriptors

/-!
The control endpoint: `usbd_core.c`, `usbd_ioreq.c` and `usbd_ctlreq.c` above, the endpoint 0 of
`stm32f0xx_hal_pcd.c` below, and the registers the peripheral looks at.

* `Control`: the fields of the three, around the core of `Usbd`.  The packets of endpoint 0 are in
  packet memory, in the buffer that `ECM_DATA_IN_EP` has too; of the other endpoints' packets
  nothing is kept, since their buffers are apart (`pmaAdress_disjoint`);
* `halPcdEp0Transmit`, `halPcdEpSetStall`, `halPcdSetAddress`, ...: the calls of the HAL; each is
  refused while the main loop holds the lock of the handle;
* `usbdLlSetupStage` and the requests below it;
* `usbdLlDataInStage`, `pcdEp0IsrIn`, `pcdEp0IsrOut`: the packets of a transfer;
* `pcdDataInIsrIn`, `halPcdDataInTransmit`, `pcdDataInResubmit`: what the chunks of the class write
  into the buffer;
* `controlStep`: what the host can do, at the address the peripheral listens to, and the events of
  the rest of the firmware.

No code calls `USBD_CtlPrepareRx`: there is no data stage from the host to the device, and
`OUT_ep[0].xfer_buff` is `NULL`.
-/

namespace Stm32Ecm

/-! ### The state -/

/-- `ep0_state`, without the states no code sets. -/
inductive Ep0State where
  | idle | setup | dataIn | statusIn | statusOut
  deriving DecidableEq, Repr

/-- The status bits of an endpoint register. -/
inductive EpStat where
  | disabled | stall | nak | valid
  deriving DecidableEq, Repr

/-- `USBD_SetupReqTypedef`. -/
structure SetupReq where
  bmRequest : ℕ
  bRequest : ℕ
  wValue : ℕ
  wIndex : ℕ
  wLength : ℕ
  deriving DecidableEq, Repr

/-- The device with its control endpoint.

The peripheral: `daddr` is the address in `DADDR`, `none` while the function is disabled; `txStat`,
`rxStat`, `txCount` and `rxCount` are the status of endpoint 0, the length of the packet in its
buffer and the room for one; `pma` is the packet memory, `dataInCount` the length of the packet for
`ECM_DATA_IN_EP`.  `fault` is set by an access outside of the tables of endpoints and by a write
through `NULL`. -/
structure Control where
  usbd : Usbd
  -- `USBD_HandleTypeDef`; the lengths and `inMaxpacket` are those of `ep_in[0]`
  ep0State : Ep0State
  ep0DataLen : ℕ
  totalLength : ℕ
  remLength : ℕ
  inMaxpacket : ℕ
  devAddress : ℕ
  devRemoteWakeup : Bool
  -- `USBD_StrDesc`
  strDesc : List UInt8
  -- `PCD_HandleTypeDef`; the buffer is what `IN_ep[0].xfer_buff` points to
  maxpacket : ℕ
  xferBuff : List UInt8
  xferLen : ℕ
  outMaxpacket : ℕ
  usbAddress : ℕ
  inStall : ℕ → Bool
  outStall : ℕ → Bool
  -- `IN_ep[2].xfer_buff`, as an offset in `ecm_tx_buffer`
  dataInBuff : ℕ
  -- the peripheral
  daddr : Option ℕ
  txStat : EpStat
  rxStat : EpStat
  txCount : ℕ
  rxCount : ℕ
  dataInCount : ℕ
  pma : ℕ → UInt8
  notifications : List ℕ
  fault : Bool

/-- The length of `IN_ep` and of `OUT_ep`. -/
def pcdEndpoints : ℕ := 8

/-- Before the first reset. -/
def Control.initial : Control where
  usbd := Usbd.initial
  ep0State := .idle
  ep0DataLen := 0
  totalLength := 0
  remLength := 0
  inMaxpacket := 0
  devAddress := 0
  devRemoteWakeup := false
  strDesc := List.replicate 256 0
  maxpacket := 0
  xferBuff := []
  xferLen := 0
  outMaxpacket := 0
  usbAddress := 0
  inStall := fun _ => false
  outStall := fun _ => false
  dataInBuff := 0
  daddr := none
  txStat := .disabled
  rxStat := .disabled
  txCount := 0
  rxCount := 0
  dataInCount := 0
  pma := fun _ => 0
  notifications := []
  fault := false

/-- The main loop holds the lock of the handle. -/
def Control.locked (s : Control) : Bool := s.usbd.firmware.ecm.handle.hpcdLock

/-- What the host reads from endpoint 0. -/
def Control.packet (s : Control) : List UInt8 :=
  Memory.read s.pma Endpoint.controlIn.pmaAdress s.txCount

/-! ### The HAL -/

/-- `PCD_WritePMA`.  It copies half words: with a packet of odd length the byte behind it comes
along, unless the buffer ends there; that byte is not part of any packet. -/
def pcdWritePma (pma : ℕ → UInt8) (pbUsrBuf : List UInt8) (wPMABufAddr wNBytes : ℕ) : ℕ → UInt8 :=
  Memory.write pma wPMABufAddr (pbUsrBuf.take (2 * ((wNBytes + 1) / 2)))

/-- `HAL_PCD_EP_Transmit` on endpoint 0. -/
def halPcdEp0Transmit (s : Control) (pBuf : List UInt8) (len : ℕ) : Control :=
  let s := { s with xferBuff := pBuf, xferLen := len }
  if s.locked then s
  else
    let len := if s.maxpacket < s.xferLen then s.maxpacket else s.xferLen
    { s with
      xferLen := if s.maxpacket < s.xferLen then s.xferLen - s.maxpacket else 0
      pma := pcdWritePma s.pma s.xferBuff Endpoint.controlIn.pmaAdress len
      txCount := len
      txStat := .valid }

/-- `HAL_PCD_EP_Receive` of nothing on endpoint 0. -/
def halPcdEp0Receive (s : Control) : Control :=
  if s.locked then s else { s with rxCount := 0, rxStat := .valid }

/-- What a status written to the register of a bulk endpoint means for its transfers. -/
def setEpValid (s : Control) (epAddr : ℕ) (valid : Bool) : Control :=
  let ecm := s.usbd.firmware.ecm
  let ecm :=
    if epAddr = 0x82 then { ecm with tx := { ecm.tx with inEp := { ecm.tx.inEp with valid } } }
    else if epAddr = 3 then
      { ecm with rx := { ecm.rx with outEp := { ecm.rx.outEp with valid } } }
    else ecm
  { s with usbd := { s.usbd with firmware := { s.usbd.firmware with ecm := ecm } } }

/-- `is_stall` of an endpoint. -/
def setIsStall (s : Control) (epAddr : ℕ) (stall : Bool) : Control :=
  if 128 ≤ epAddr then { s with inStall := Function.update s.inStall (epAddr % 128) stall }
  else { s with outStall := Function.update s.outStall epAddr stall }

/-- `HAL_PCD_EP_SetStall`. -/
def halPcdEpSetStall (s : Control) (epAddr : ℕ) : Control :=
  if s.locked then s
  else if pcdEndpoints ≤ epAddr % 128 then { s with fault := true }
  else
    let s := setIsStall s epAddr true
    if epAddr % 128 = 0 then { s with rxStat := .stall, txStat := .stall }
    else setEpValid s epAddr false

/-- `HAL_PCD_EP_ClrStall`, on another endpoint than 0; `is_stall` is cleared before the lock is
tested. -/
def halPcdEpClrStall (s : Control) (epAddr : ℕ) : Control :=
  if pcdEndpoints ≤ epAddr % 128 then { s with fault := true }
  else
    let s := setIsStall s epAddr false
    if s.locked then s else setEpValid s epAddr true

/-- `HAL_PCD_SetAddress`: another address than 0 is applied later. -/
def halPcdSetAddress (s : Control) (address : ℕ) : Control :=
  if s.locked then s
  else if address = 0 then { s with daddr := some 0 }
  else { s with usbAddress := address }

/-! ### `usbd_ioreq.c` -/

/-- `USBD_CtlSendData`. -/
def usbdCtlSendData (s : Control) (pbuf : List UInt8) (len : ℕ) : Control :=
  halPcdEp0Transmit { s with ep0State := .dataIn, totalLength := len, remLength := len } pbuf len

/-- `USBD_CtlSendStatus`. -/
def usbdCtlSendStatus (s : Control) : Control :=
  halPcdEp0Transmit { s with ep0State := .statusIn } [] 0

/-- `USBD_CtlReceiveStatus`. -/
def usbdCtlReceiveStatus (s : Control) : Control :=
  halPcdEp0Receive { s with ep0State := .statusOut }

/-! ### The requests -/

/-- `USBD_CtlError`. -/
def usbdCtlError (s : Control) : Control := halPcdEpSetStall (halPcdEpSetStall s 0x80) 0

/-- `USBD_ECM_Setup`: a packet for the notification endpoint. -/
def usbdEcmSetup (s : Control) (req : SetupReq) : Control :=
  if req.bRequest = 0x43 ∧ s.locked = false then
    { s with notifications := s.notifications ++ [req.wIndex] }
  else s

/-- `SWAPBYTE`. -/
def swapByte (pdata : List UInt8) (i : ℕ) : ℕ :=
  (pdata.getD i 0).toNat + 256 * (pdata.getD (i + 1) 0).toNat

/-- `USBD_ParseSetupRequest`. -/
def usbdParseSetupRequest (pdata : List UInt8) : SetupReq where
  bmRequest := (pdata.getD 0 0).toNat
  bRequest := (pdata.getD 1 0).toNat
  wValue := swapByte pdata 2
  wIndex := swapByte pdata 4
  wLength := swapByte pdata 6

/-- `"Acme"`. -/
def manufacturerString : List UInt8 := [65, 99, 109, 101]

/-- `"ECM"`. -/
def productString : List UInt8 := [69, 67, 77]

/-- The descriptor a request asks for, with `USBD_StrDesc` afterwards: the `switch` of
`USBD_GetDescriptor`. -/
def descriptorOf (deviceserial : UInt32) (strDesc : List UInt8) (wValue : ℕ) :
    Option (List UInt8 × List UInt8) :=
  let string (r : List UInt8 × ℕ) := (r.1.take r.2, r.1)
  match wValue / 256 with
  | 1 => some (deviceDesc, strDesc)
  | 2 => some (cfgFsDesc, strDesc)
  | 3 =>
      match wValue % 256 with
      | 0 => some (langIdDesc, strDesc)
      | 1 => some (string (usbdGetString manufacturerString strDesc))
      | 2 => some (string (usbdGetString productString strDesc))
      | 3 =>
          some (string (serialStrDescriptor deviceserial ++ strDesc.drop 26, 26))
      | _ => none
  | _ => none

/-- `USBD_GetDescriptor`. -/
def usbdGetDescriptor (deviceserial : UInt32) (s : Control) (req : SetupReq) : Control :=
  match descriptorOf deviceserial s.strDesc req.wValue with
  | none => usbdCtlError s
  | some (pbuf, strDesc) =>
      let s := { s with strDesc := strDesc }
      if pbuf.length ≠ 0 ∧ req.wLength ≠ 0 then
        usbdCtlSendData s pbuf (min pbuf.length req.wLength)
      else s

/-- `USBD_SetAddress`; the device state is that of `usbdSetAddress`. -/
def usbdSetAddressReq (s : Control) (req : SetupReq) : Control :=
  if req.wIndex = 0 ∧ req.wLength = 0 then
    let devAddr := req.wValue % 128
    if s.usbd.devState = .configured then usbdCtlError s
    else
      let s := halPcdSetAddress { s with devAddress := devAddr } devAddr
      let s := usbdCtlSendStatus s
      { s with usbd := usbdSetAddress s.usbd req.wValue req.wIndex req.wLength }
  else usbdCtlError s

/-- `USBD_SetConfig`; the device state and the calls of the class are those of `usbdSetConfig`. -/
def usbdSetConfigReq (s : Control) (req : SetupReq) : Control :=
  if req.wValue % 256 > usbdMaxNumConfiguration then usbdCtlError s
  else
    match s.usbd.devState with
    | .addressed | .configured =>
        usbdCtlSendStatus { s with usbd := usbdSetConfig s.usbd req.wValue }
    | .default => usbdCtlError s

/-- `USBD_GetConfig`. -/
def usbdGetConfig (s : Control) (req : SetupReq) : Control :=
  if req.wLength ≠ 1 then usbdCtlError s
  else
    match s.usbd.devState with
    | .addressed => usbdCtlSendData s [0] 1
    | .configured => usbdCtlSendData s [UInt8.ofNat s.usbd.devConfig] 1
    | .default => usbdCtlError s

/-- `USBD_GetStatus`: `wLength` is not looked at. -/
def usbdGetStatus (s : Control) : Control :=
  match s.usbd.devState with
  | .addressed | .configured => usbdCtlSendData s [if s.devRemoteWakeup then 2 else 0, 0] 2
  | .default => usbdCtlError s

/-- `USBD_SetFeature`. -/
def usbdSetFeature (s : Control) (req : SetupReq) : Control :=
  if req.wValue = 1 then
    usbdCtlSendStatus (usbdEcmSetup { s with devRemoteWakeup := true } req)
  else s

/-- `USBD_ClrFeature`. -/
def usbdClrFeature (s : Control) (req : SetupReq) : Control :=
  match s.usbd.devState with
  | .addressed | .configured =>
      if req.wValue = 1 then
        usbdCtlSendStatus (usbdEcmSetup { s with devRemoteWakeup := false } req)
      else s
  | .default => usbdCtlError s

/-- `USBD_StdDevReq`. -/
def usbdStdDevReq (deviceserial : UInt32) (s : Control) (req : SetupReq) : Control :=
  match req.bRequest with
  | 0 => usbdGetStatus s
  | 1 => usbdClrFeature s req
  | 3 => usbdSetFeature s req
  | 5 => usbdSetAddressReq s req
  | 6 => usbdGetDescriptor deviceserial s req
  | 8 => usbdGetConfig s req
  | 9 => usbdSetConfigReq s req
  | _ => usbdCtlError s

/-- `USBD_MAX_NUM_INTERFACES`. -/
def usbdMaxNumInterfaces : ℕ := 2

/-- `USBD_StdItfReq`. -/
def usbdStdItfReq (s : Control) (req : SetupReq) : Control :=
  match s.usbd.devState with
  | .configured =>
      if req.wIndex % 256 ≤ usbdMaxNumInterfaces then
        let s := usbdEcmSetup s req
        if req.wLength = 0 then usbdCtlSendStatus s else s
      else usbdCtlError s
  | .default | .addressed => usbdCtlError s

/-- `USBD_LL_IsStallEP`, and the status `USBD_StdEPReq` sends; what is read behind the tables is not
known, and nothing is said about the device afterwards. -/
def isStallEp (s : Control) (epAddr : ℕ) : Bool :=
  if 128 ≤ epAddr then s.inStall (epAddr % 128) else s.outStall epAddr

/-- `USBD_StdEPReq`. -/
def usbdStdEpReq (s : Control) (req : SetupReq) : Control :=
  let epAddr := req.wIndex % 256
  match req.bRequest with
  | 3 =>
      match s.usbd.devState with
      | .addressed => if epAddr ≠ 0 ∧ epAddr ≠ 0x80 then halPcdEpSetStall s epAddr else s
      | .configured =>
          let s :=
            if req.wValue = 0 ∧ epAddr ≠ 0 ∧ epAddr ≠ 0x80 then halPcdEpSetStall s epAddr else s
          usbdCtlSendStatus (usbdEcmSetup s req)
      | .default => usbdCtlError s
  | 1 =>
      match s.usbd.devState with
      | .addressed => if epAddr ≠ 0 ∧ epAddr ≠ 0x80 then halPcdEpSetStall s epAddr else s
      | .configured =>
          if req.wValue = 0 then
            usbdCtlSendStatus
              (if epAddr % 128 ≠ 0 then usbdEcmSetup (halPcdEpClrStall s epAddr) req else s)
          else s
      | .default => usbdCtlError s
  | 0 =>
      match s.usbd.devState with
      | .addressed => if epAddr % 128 ≠ 0 then halPcdEpSetStall s epAddr else s
      | .configured =>
          let s := if pcdEndpoints ≤ epAddr % 128 then { s with fault := true } else s
          usbdCtlSendData s [if isStallEp s epAddr then 1 else 0, 0] 2
      | .default => usbdCtlError s
  | _ => s

/-! ### The stages -/

/-- `USBD_LL_SetupStage`. -/
def usbdLlSetupStage (deviceserial : UInt32) (s : Control) (psetup : List UInt8) : Control :=
  let req := usbdParseSetupRequest psetup
  let s := { s with ep0State := .setup, ep0DataLen := req.wLength }
  match req.bmRequest % 32 with
  | 0 => usbdStdDevReq deviceserial s req
  | 1 => usbdStdItfReq s req
  | 2 => usbdStdEpReq s req
  | _ => halPcdEpSetStall s (if 128 ≤ req.bmRequest then 0x80 else 0)

/-- `USBD_LL_DataInStage` on endpoint 0; `EP0_TxSent` is `NULL`. -/
def usbdLlDataInStage (s : Control) (pdata : List UInt8) : Control :=
  if s.ep0State = .dataIn then
    if s.remLength > s.inMaxpacket then
      let s := { s with remLength := s.remLength - s.inMaxpacket }
      halPcdEp0Transmit s pdata s.remLength
    else if s.totalLength % s.inMaxpacket = 0 ∧ s.totalLength ≥ s.inMaxpacket ∧
        s.totalLength < s.ep0DataLen then
      { halPcdEp0Transmit s [] 0 with ep0DataLen := 0 }
    else usbdCtlReceiveStatus s
  else s

/-- `PCD_EP_ISR_Handler`, a packet of endpoint 0 has gone to the host. -/
def pcdEp0IsrIn (s : Control) : Control :=
  let s := { s with xferBuff := s.xferBuff.drop s.txCount }
  let s := usbdLlDataInStage s s.xferBuff
  if s.usbAddress > 0 ∧ s.xferLen = 0 then
    { s with daddr := some s.usbAddress, usbAddress := 0 }
  else s

/-- `PCD_EP_ISR_Handler`, a packet for endpoint 0 that is no `SETUP`.  `USBD_LL_DataOutStage` does
nothing, since there is no data stage; the bytes of the packet go to `NULL`. -/
def pcdEp0IsrOut (s : Control) (data : List UInt8) : Control :=
  let s := if data.length ≠ 0 then { s with fault := true } else s
  { s with rxCount := s.outMaxpacket, rxStat := .valid }

/-- `USBD_LL_Reset` and `HAL_PCD_SetAddress`, after a reset has disabled the function and its
endpoints: `HAL_PCD_EP_Open` writes the packet sizes before the lock is tested. -/
def pcdIrqReset (s : Control) : Control :=
  let s := { s with
    daddr := none
    txStat := .disabled
    rxStat := .disabled
    usbd := usbdLlReset s.usbd
    maxpacket := usbMaxEp0Size
    outMaxpacket := usbMaxEp0Size
    inMaxpacket := usbMaxEp0Size }
  let s := if s.locked then s else { s with rxCount := usbMaxEp0Size, rxStat := .valid }
  let s := if s.locked then s else { s with txStat := .nak }
  halPcdSetAddress s 0

/-! ### The chunks of the class -/

/-- A packet of `n` bytes for `ECM_DATA_IN_EP`, from `ecm_tx_buffer + off` on, is written by
`PCD_WritePMA`. -/
def writeDataIn (s : Control) (off n : ℕ) : Control :=
  { s with
    pma := Memory.write s.pma Endpoint.dataIn.pmaAdress
      (Memory.read s.usbd.firmware.ecm.tx.ecmTxBuffer off (2 * ((n + 1) / 2))) }

/-- `PCD_EP_ISR_Handler`, a packet of `ECM_DATA_IN_EP` has gone to the host: it is written once
more, from what `xfer_buff` points to now. -/
def pcdDataInIsrIn (s : Control) : Control :=
  let s := if s.dataInCount ≠ 0 then writeDataIn s s.dataInBuff s.dataInCount else s
  { s with dataInBuff := s.dataInBuff + s.dataInCount }

/-- A call of `USBD_LL_Transmit` on `ECM_DATA_IN_EP`: for the `size` bytes from
`ecm_tx_buffer + off` on, accepted or not. -/
structure ChunkCall where
  off : ℕ
  size : ℕ
  accepted : Bool
  deriving DecidableEq, Repr

/-- The calls of a step, by what it adds to the log of the transmit path. -/
def chunkCalls (s u : Usbd) : List ChunkCall :=
  (u.firmware.ecm.tx.log.drop s.firmware.ecm.tx.log.length).filterMap fun
    | .transmit _ off bytes outcome => some ⟨off, bytes.length, outcome = .ok⟩
    | _ => none

/-- `HAL_PCD_EP_Transmit` on `ECM_DATA_IN_EP`: `xfer_buff` is written before the lock is tested, a
chunk is one packet. -/
def halPcdDataInTransmit (s : Control) (c : ChunkCall) : Control :=
  let s := { s with dataInBuff := c.off }
  if c.accepted then { writeDataIn s c.off c.size with dataInCount := c.size } else s

/-- `PCD_EP_ISR_Handler`, a packet of `ECM_DATA_IN_EP` has gone while `xfer_len` is `len` and not 0,
since a transfer was refused: the handler submits it, and does not call the class. -/
def pcdDataInResubmit (s : Control) (len : ℕ) : Control :=
  let s := pcdDataInIsrIn s
  halPcdDataInTransmit s ⟨s.dataInBuff, len, !s.locked⟩

/-- A step of the firmware that leads to `u`, with what it does to packet memory. -/
def firmwareUpdate (s : Control) (e : Event) (u : Usbd) : Control :=
  let v :=
    match e with
    | .dataIn _ => pcdDataInIsrIn s
    | _ => s
  (chunkCalls s.usbd u).foldl halPcdDataInTransmit { v with usbd := u }

/-! ### What can happen -/

/-- The peripheral puts a packet for endpoint 0 into its buffer. -/
def Control.received (s : Control) (data : List UInt8) : Control :=
  { s with pma := Memory.write s.pma Endpoint.control.pmaAdress data }

/-- A `SETUP` packet has arrived. -/
def Control.setupReceived (s : Control) (psetup : List UInt8) : Control :=
  { s.received psetup with txStat := .nak, rxStat := .nak }

/-- The events: a bus reset, a transaction of the host with endpoint 0 of the device at `addr`, the
submission of a refused chunk by the interrupt, and the events of the rest of the firmware.  In
these a completion on `ECM_DATA_IN_EP` calls the class. -/
inductive CtlEvent where
  | reset
  | setup (addr : ℕ) (psetup : List UInt8)
  | dataIn (addr : ℕ)
  | dataOut (addr : ℕ) (data : List UInt8)
  | resubmit (len : ℕ)
  | firmware (e : Event)
  deriving DecidableEq, Repr

/-- One step, `none` when the event is not possible: a `SETUP` packet has eight bytes and is always
taken, other packets are taken when the status is `VALID`; the status is `NAK` then.  A chunk of
any length may have been refused.  Nothing is said about the device after a fault. -/
def controlStep (deviceserial : UInt32) (s : Control) : CtlEvent → Option Control
  | .reset => if s.fault then none else some (pcdIrqReset s)
  | .setup addr psetup =>
      if s.fault = false ∧ s.daddr = some addr ∧ s.rxStat ≠ .disabled ∧ psetup.length = 8 then
        some (usbdLlSetupStage deviceserial (s.setupReceived psetup) psetup)
      else none
  | .dataIn addr =>
      if s.fault = false ∧ s.daddr = some addr ∧ s.txStat = .valid then
        some (pcdEp0IsrIn { s with txStat := .nak })
      else none
  | .dataOut addr data =>
      if s.fault = false ∧ s.daddr = some addr ∧ s.rxStat = .valid ∧ data.length ≤ s.rxCount then
        some (pcdEp0IsrOut { s.received data with rxStat := .nak } data)
      else none
  | .resubmit len =>
      if s.fault = false ∧ 0 < len ∧ len ≤ ecmDataInSz then some (pcdDataInResubmit s len) else none
  | .firmware e =>
      if s.fault then none
      else (coreStep s.usbd (.firmware e)).map (firmwareUpdate s e)

end Stm32Ecm
