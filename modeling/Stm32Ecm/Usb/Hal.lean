import Mathlib.Data.List.Basic
import Mathlib.Tactic.Common

/-!
The part of the ST driver below the class code (`stm32f0xx_hal_pcd.c`, `usbd_conf.c`): the
handle lock, the transfer fields of an endpoint, and the two calls that start a transfer.

* `PcdEp`: the fields of `PCD_EPTypeDef` a single-buffered transfer reads, with the status
  bit the peripheral looks at;
* `halPcdEpReceive`, `halPcdEpTransmit`: both write the transfer fields *before* `__HAL_LOCK`
  is tested, so a refused call leaves them changed;
* `usbdLlPrepareReceive`, `usbdLlTransmit`: the same calls with the status the class code
  sees.

The stages of `halPcdEpReceive` are definitions of their own (`setupXfer`, `splitXfer`,
`setValid`), since the main loop can be interrupted between them.  The double-buffer branches
are left out: every endpoint is configured with `PCD_SNG_BUF`.
-/

namespace Stm32Ecm

/-- `HAL_StatusTypeDef`. -/
inductive HalStatus where
  | ok | error | busy | timeout
  deriving DecidableEq, Repr

/-- `USBD_StatusTypeDef`. -/
inductive UsbdStatus where
  | ok | busy | fail
  deriving DecidableEq, Repr

/-- The fields of `PCD_EPTypeDef` of one single-buffered endpoint.  `xferBuff` is the offset of
`xfer_buff` in the class buffer the endpoint works on, and `valid` says that the status bits of
the endpoint register are `VALID`: the peripheral may take the next packet. -/
structure PcdEp where
  maxpacket : ℕ := 0
  xferBuff : ℕ := 0
  xferLen : ℕ := 0
  xferCount : ℕ := 0
  valid : Bool := false
  deriving DecidableEq, Repr

namespace PcdEp

/-- The transfer fields, written before the lock is tested. -/
def setupXfer (ep : PcdEp) (pBuf len : ℕ) : PcdEp :=
  { ep with xferBuff := pBuf, xferLen := len, xferCount := 0 }

/-- The multi-packet split: what is left of the transfer after this packet. -/
def splitXfer (ep : PcdEp) : PcdEp :=
  if ep.xferLen > ep.maxpacket then { ep with xferLen := ep.xferLen - ep.maxpacket }
  else { ep with xferLen := 0 }

/-- `PCD_SET_EP_RX_STATUS(…, USB_EP_RX_VALID)`, or the same for the transmit side. -/
def setValid (ep : PcdEp) : PcdEp := { ep with valid := true }

variable {ep : PcdEp} {pBuf len : ℕ}

@[simp] lemma setupXfer_xferBuff : (ep.setupXfer pBuf len).xferBuff = pBuf := rfl
@[simp] lemma setupXfer_xferLen : (ep.setupXfer pBuf len).xferLen = len := rfl
@[simp] lemma setupXfer_xferCount : (ep.setupXfer pBuf len).xferCount = 0 := rfl
@[simp] lemma setupXfer_maxpacket : (ep.setupXfer pBuf len).maxpacket = ep.maxpacket := rfl
@[simp] lemma setupXfer_valid : (ep.setupXfer pBuf len).valid = ep.valid := rfl

@[simp] lemma splitXfer_xferBuff : ep.splitXfer.xferBuff = ep.xferBuff := by
  rw [splitXfer]; split <;> rfl

@[simp] lemma splitXfer_xferCount : ep.splitXfer.xferCount = ep.xferCount := by
  rw [splitXfer]; split <;> rfl

@[simp] lemma splitXfer_maxpacket : ep.splitXfer.maxpacket = ep.maxpacket := by
  rw [splitXfer]; split <;> rfl

@[simp] lemma splitXfer_valid : ep.splitXfer.valid = ep.valid := by
  rw [splitXfer]; split <;> rfl

/-- A transfer of at most one packet is used up by it. -/
lemma splitXfer_xferLen_of_le (h : ep.xferLen ≤ ep.maxpacket) : ep.splitXfer.xferLen = 0 := by
  rw [splitXfer, if_neg (by omega)]

@[simp] lemma setValid_xferBuff : ep.setValid.xferBuff = ep.xferBuff := rfl
@[simp] lemma setValid_xferLen : ep.setValid.xferLen = ep.xferLen := rfl
@[simp] lemma setValid_xferCount : ep.setValid.xferCount = ep.xferCount := rfl
@[simp] lemma setValid_maxpacket : ep.setValid.maxpacket = ep.maxpacket := rfl
@[simp] lemma setValid_valid : ep.setValid.valid = true := rfl

end PcdEp

/-- `HAL_PCD_EP_Receive`: refused with `HAL_BUSY` while the handle is locked. -/
def halPcdEpReceive (lock : Bool) (ep : PcdEp) (pBuf len : ℕ) : HalStatus × PcdEp :=
  if lock then (.busy, ep.setupXfer pBuf len)
  else (.ok, (ep.setupXfer pBuf len).splitXfer.setValid)

/-- `HAL_PCD_EP_Transmit`, without the copy to packet memory: refused with `HAL_BUSY` while
the handle is locked. -/
def halPcdEpTransmit (lock : Bool) (ep : PcdEp) (pBuf len : ℕ) : HalStatus × PcdEp :=
  if lock then (.busy, ep.setupXfer pBuf len)
  else (.ok, (ep.setupXfer pBuf len).splitXfer.setValid)

/-- `HAL_PCD_EP_Open` on an OUT endpoint: the packet size is written before the lock is tested,
the endpoint is made `VALID` only after it. -/
def halPcdEpOpenOut (lock : Bool) (ep : PcdEp) (mps : ℕ) : PcdEp :=
  if lock then { ep with maxpacket := mps } else { ep with maxpacket := mps, valid := true }

/-- `HAL_PCD_EP_Open` on an IN endpoint: it starts with status `NAK`. -/
def halPcdEpOpenIn (lock : Bool) (ep : PcdEp) (mps : ℕ) : PcdEp :=
  if lock then { ep with maxpacket := mps } else { ep with maxpacket := mps, valid := false }

/-- `HAL_PCD_EP_Close`: the endpoint is disabled unless the handle is locked. -/
def halPcdEpClose (lock : Bool) (ep : PcdEp) : PcdEp :=
  if lock then ep else { ep with valid := false }

/-- The status conversion of `usbd_conf.c`. -/
def HalStatus.toUsbd (outcome : HalStatus) : UsbdStatus :=
  if outcome = .ok then .ok else .busy

/-- `USBD_LL_PrepareReceive`. -/
def usbdLlPrepareReceive (lock : Bool) (ep : PcdEp) (pBuf size : ℕ) : UsbdStatus × PcdEp :=
  ((halPcdEpReceive lock ep pBuf size).1.toUsbd, (halPcdEpReceive lock ep pBuf size).2)

/-- `USBD_LL_Transmit`. -/
def usbdLlTransmit (lock : Bool) (ep : PcdEp) (pBuf size : ℕ) : UsbdStatus × PcdEp :=
  ((halPcdEpTransmit lock ep pBuf size).1.toUsbd, (halPcdEpTransmit lock ep pBuf size).2)

variable {ep : PcdEp} {pBuf size : ℕ}

@[simp] lemma usbdLlPrepareReceive_unlocked :
    usbdLlPrepareReceive false ep pBuf size =
      (.ok, (ep.setupXfer pBuf size).splitXfer.setValid) := rfl

@[simp] lemma usbdLlPrepareReceive_locked :
    usbdLlPrepareReceive true ep pBuf size = (.busy, ep.setupXfer pBuf size) := rfl

@[simp] lemma usbdLlTransmit_unlocked_fst :
    (usbdLlTransmit false ep pBuf size).1 = .ok := rfl

@[simp] lemma usbdLlTransmit_locked_fst :
    (usbdLlTransmit true ep pBuf size).1 = .busy := rfl

end Stm32Ecm
