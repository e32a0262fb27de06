import Stm32Ecm.Usb.Control

/-!
The requests of the control endpoint, from the side of the host.

* `Answer`: a data stage, the status, a stall or nothing; `answer` says which one a request gets
  while the main loop does not hold the lock;
* `Effect`: what a request does besides its answer; `Gives` how the answer is put to the
  peripheral;
* `setup_effect`: every `SETUP` packet is an effect followed by an answer;
* `ControlInv`: the packet sizes and the buffer of the strings.
-/

namespace Stm32Ecm

open Transition

/-! ### Answers -/

/-- What the host gets for a `SETUP` packet. -/
inductive Answer where
  | data (d : List UInt8)
  | status
  | stall
  | none
  deriving DecidableEq, Repr

/-- Requests to the device. -/
def deviceAnswer (deviceserial : UInt32) (s : Control) (req : SetupReq) : Answer :=
  match req.bRequest with
  | 0 =>
      if s.usbd.devState = .default then .stall
      else .data [if s.devRemoteWakeup then 2 else 0, 0]
  | 1 =>
      if s.usbd.devState = .default then .stall
      else if req.wValue = 1 then .status else .none
  | 3 => if req.wValue = 1 then .status else .none
  | 5 =>
      if req.wIndex = 0 ∧ req.wLength = 0 ∧ s.usbd.devState ≠ .configured then .status
      else .stall
  | 6 =>
      match descriptorOf deviceserial s.strDesc req.wValue with
      | none => .stall
      | some r => if req.wLength = 0 then .none else .data (r.1.take req.wLength)
  | 8 =>
      if req.wLength ≠ 1 ∨ s.usbd.devState = .default then .stall
      else if s.usbd.devState = .addressed then .data [0]
      else .data [UInt8.ofNat s.usbd.devConfig]
  | 9 =>
      if req.wValue % 256 > usbdMaxNumConfiguration ∨ s.usbd.devState = .default then .stall
      else .status
  | _ => .stall

/-- Requests to an interface. -/
def interfaceAnswer (s : Control) (req : SetupReq) : Answer :=
  if s.usbd.devState = .configured ∧ req.wIndex % 256 ≤ usbdMaxNumInterfaces then
    if req.wLength = 0 then .status else .none
  else .stall

/-- `GET_STATUS`, `CLEAR_FEATURE` or `SET_FEATURE`. -/
def SetupReq.IsFeature (req : SetupReq) : Prop :=
  req.bRequest = 0 ∨ req.bRequest = 1 ∨ req.bRequest = 3

instance (req : SetupReq) : Decidable req.IsFeature :=
  inferInstanceAs (Decidable (_ ∨ _ ∨ _))

/-- Requests to an endpoint. -/
def endpointAnswer (s : Control) (req : SetupReq) : Answer :=
  match s.usbd.devState with
  | .default => if req.IsFeature then .stall else .none
  | .addressed => .none
  | .configured =>
      match req.bRequest with
      | 0 => .data [if isStallEp s (req.wIndex % 256) then 1 else 0, 0]
      | 1 => if req.wValue = 0 then .status else .none
      | 3 => .status
      | _ => .none

/-- The answer to a request while the lock is free. -/
def answer (deviceserial : UInt32) (s : Control) (req : SetupReq) : Answer :=
  match req.bmRequest % 32 with
  | 0 => deviceAnswer deviceserial s req
  | 1 => interfaceAnswer s req
  | 2 => endpointAnswer s req
  | _ => .stall

/-! ### What a request does -/

/-- Endpoint 0 is stalled, unless the lock is held. -/
def stallEp0 (s : Control) : Control :=
  if s.locked then s else { s with rxStat := .stall, txStat := .stall }

/-- The answer is put to the peripheral. -/
inductive Gives (v : Control) : Answer → Control → Prop
  | data (pbuf : List UInt8) (len : ℕ) (hpos : pbuf.take len ≠ []) (hle : len ≤ pbuf.length) :
      Gives v (.data (pbuf.take len)) (usbdCtlSendData v pbuf len)
  | status : Gives v .status (usbdCtlSendStatus v)
  | stall : Gives v .stall (stallEp0 v)
  | none : Gives v .none v

/-- The request is a `SET_ADDRESS` the device follows. -/
def SetsAddress (s : Control) (req : SetupReq) (address : ℕ) : Prop :=
  req.bmRequest % 32 = 0 ∧ req.bRequest = 5 ∧ req.wIndex = 0 ∧ req.wLength = 0 ∧
    s.usbd.devState ≠ .configured ∧ s.locked = false ∧ address = req.wValue % 128

/-- The request reaches for an endpoint that is not in the tables. -/
def LeavesTable (s : Control) (req : SetupReq) : Prop :=
  req.bmRequest % 32 = 2 ∧ pcdEndpoints ≤ req.wIndex % 256 % 128 ∧
    match s.usbd.devState with
    | .default => False
    | .addressed => req.IsFeature ∧ s.locked = false
    | .configured =>
        match req.bRequest with
        | 0 => True
        | 1 => req.wValue = 0
        | 3 => req.wValue = 0 ∧ s.locked = false
        | _ => False

/-- The request is about one of the bulk endpoints. -/
def IsBulkRequest (req : SetupReq) : Prop :=
  req.bmRequest % 32 = 2 ∧ (req.wIndex % 256 = 0x82 ∨ req.wIndex % 256 = 3)

/-- What the core below makes of the request. -/
def coreRequest (req : SetupReq) (u : Usbd) : Usbd :=
  match req.bmRequest % 32, req.bRequest with
  | 0, 5 => usbdSetAddress u req.wValue req.wIndex req.wLength
  | 0, 9 => usbdSetConfig u req.wValue
  | _, _ => u

/-- What a request does besides its answer. -/
structure Effect (req : SetupReq) (s v : Control) : Prop where
  locked : v.locked = s.locked
  txStat : v.txStat = s.txStat
  rxStat : v.rxStat = s.rxStat
  rxCount : v.rxCount = s.rxCount
  ep0DataLen : v.ep0DataLen = s.ep0DataLen
  maxpacket : v.maxpacket = s.maxpacket
  inMaxpacket : v.inMaxpacket = s.inMaxpacket
  outMaxpacket : v.outMaxpacket = s.outMaxpacket
  strDesc : s.strDesc.length = 256 → v.strDesc.length = 256
  keepsAddress : (∀ a, ¬ SetsAddress s req a) →
    v.daddr = s.daddr ∧ v.usbAddress = s.usbAddress
  address : ∀ a ≠ 0, SetsAddress s req a → v.daddr = s.daddr ∧ v.usbAddress = a
  addressZero : SetsAddress s req 0 → v.daddr = some 0 ∧ v.usbAddress = s.usbAddress
  fault : v.fault = true ↔ s.fault = true ∨ LeavesTable s req
  usbd : ¬ IsBulkRequest req → v.usbd = coreRequest req s.usbd

/-! ### The functions of the HAL -/

section Hal

variable {s : Control} {pBuf : List UInt8} {len : ℕ}

lemma halPcdEp0Transmit_of_locked (h : s.locked = true) :
    halPcdEp0Transmit s pBuf len = { s with xferBuff := pBuf, xferLen := len } := if_pos h

/-- The next packet of a transfer. -/
lemma halPcdEp0Transmit_of_free (h : s.locked = false) :
    halPcdEp0Transmit s pBuf len =
      { s with
        xferBuff := pBuf
        xferLen := len - s.maxpacket
        pma := pcdWritePma s.pma pBuf Endpoint.controlIn.pmaAdress (min len s.maxpacket)
        txCount := min len s.maxpacket
        txStat := .valid } := by
  have hlock : ({ s with xferBuff := pBuf, xferLen := len } : Control).locked = false := h
  simp only [halPcdEp0Transmit, hlock]
  rw [if_neg (by simp)]
  by_cases hlt : s.maxpacket < len
  · simp only [if_pos hlt, Nat.min_eq_right hlt.le]
  · simp only [if_neg hlt, Nat.min_eq_left (Nat.le_of_not_lt hlt),
      Nat.sub_eq_zero_of_le (Nat.le_of_not_lt hlt)]

/-- A packet just written is read back, without the byte behind it. -/
lemma read_pcdWritePma {pma : ℕ → UInt8} {a n : ℕ} (hn : n ≤ pBuf.length) :
    Memory.read (pcdWritePma pma pBuf a n) a n = pBuf.take n := by
  have hle : n ≤ (pBuf.take (2 * ((n + 1) / 2))).length := by
    rw [List.length_take]
    omega
  rw [pcdWritePma, ← Memory.take_read hle, Memory.read_write_self, List.take_take,
    Nat.min_eq_left (by omega)]

/-- An empty packet writes nothing. -/
@[simp] lemma pcdWritePma_zero {pma : ℕ → UInt8} {a : ℕ} : pcdWritePma pma pBuf a 0 = pma := by
  rw [pcdWritePma, List.take_zero, Memory.write_nil]

lemma usbdCtlSendStatus_of_locked (h : s.locked = true) :
    usbdCtlSendStatus s = { s with ep0State := .statusIn, xferBuff := [], xferLen := 0 } :=
  @halPcdEp0Transmit_of_locked { s with ep0State := .statusIn } [] 0 h

lemma usbdCtlSendStatus_of_free (h : s.locked = false) :
    usbdCtlSendStatus s =
      { s with
        ep0State := .statusIn, xferBuff := [], xferLen := 0, txCount := 0, txStat := .valid } := by
  refine (@halPcdEp0Transmit_of_free { s with ep0State := .statusIn } [] 0 h).trans ?_
  rw [Nat.zero_sub, Nat.zero_min, pcdWritePma_zero]

lemma setEpValid_other {epAddr : ℕ} {valid : Bool} (hin : epAddr ≠ 0x82) (hout : epAddr ≠ 3) :
    setEpValid s epAddr valid = s := by
  simp only [setEpValid, if_neg hin, if_neg hout]

/-- `HAL_PCD_EP_SetStall` on another endpoint than 0. -/
lemma halPcdEpSetStall_eq {epAddr : ℕ} (h0 : epAddr % 128 ≠ 0) :
    ∃ u i o, u.firmware.ecm.handle.hpcdLock = s.locked ∧
      (epAddr ≠ 0x82 → epAddr ≠ 3 → u = s.usbd) ∧
      halPcdEpSetStall s epAddr =
        { s with
          usbd := u
          inStall := i
          outStall := o
          fault := s.fault || !s.locked && decide (pcdEndpoints ≤ epAddr % 128) } := by
  rw [halPcdEpSetStall]
  by_cases hl : s.locked = true
  · rw [if_pos hl]
    exact ⟨s.usbd, s.inStall, s.outStall, rfl, fun _ _ => rfl, by simp [hl]⟩
  rw [if_neg hl]
  by_cases hout : pcdEndpoints ≤ epAddr % 128
  · rw [if_pos hout]
    exact ⟨s.usbd, s.inStall, s.outStall, rfl, fun _ _ => rfl, by simp [hl, hout]⟩
  · simp only [if_neg hout, if_neg h0]
    refine ⟨(setEpValid (setIsStall s epAddr true) epAddr false).usbd,
      (setIsStall s epAddr true).inStall, (setIsStall s epAddr true).outStall, ?_, ?_, ?_⟩
    · simp only [setEpValid, setIsStall, Control.locked]
      split_ifs <;> rfl
    · intro hin hout
      rw [setEpValid_other hin hout]
      simp only [setIsStall]
      split_ifs <;> rfl
    · have hfault : (s.fault || !s.locked && decide (pcdEndpoints ≤ epAddr % 128)) = s.fault := by
        simp [hout]
      rw [hfault]
      simp only [setEpValid, setIsStall]
      split_ifs <;> rfl

/-- `HAL_PCD_EP_ClrStall`: the table is reached before the lock is tested. -/
lemma halPcdEpClrStall_eq {epAddr : ℕ} :
    ∃ u i o, u.firmware.ecm.handle.hpcdLock = s.locked ∧
      (epAddr ≠ 0x82 → epAddr ≠ 3 → u = s.usbd) ∧
      halPcdEpClrStall s epAddr =
        { s with
          usbd := u
          inStall := i
          outStall := o
          fault := s.fault || decide (pcdEndpoints ≤ epAddr % 128) } := by
  rw [halPcdEpClrStall]
  by_cases hout : pcdEndpoints ≤ epAddr % 128
  · rw [if_pos hout]
    exact ⟨s.usbd, s.inStall, s.outStall, rfl, fun _ _ => rfl, by simp [hout]⟩
  simp only [if_neg hout]
  have hfault : (s.fault || decide (pcdEndpoints ≤ epAddr % 128)) = s.fault := by simp [hout]
  rw [hfault]
  by_cases hl : (setIsStall s epAddr false).locked = true
  · rw [if_pos hl]
    refine ⟨s.usbd, (setIsStall s epAddr false).inStall, (setIsStall s epAddr false).outStall,
      rfl, fun _ _ => rfl, ?_⟩
    simp only [setIsStall]
    split_ifs <;> rfl
  · rw [if_neg hl]
    refine ⟨(setEpValid (setIsStall s epAddr false) epAddr true).usbd,
      (setIsStall s epAddr false).inStall, (setIsStall s epAddr false).outStall, ?_, ?_, ?_⟩
    · simp only [setEpValid, setIsStall, Control.locked]
      split_ifs <;> rfl
    · intro hin hout
      rw [setEpValid_other hin hout]
      simp only [setIsStall]
      split_ifs <;> rfl
    · simp only [setEpValid, setIsStall]
      split_ifs <;> rfl

lemma usbdEcmSetup_eq (s : Control) (req : SetupReq) :
    ∃ ns, usbdEcmSetup s req = { s with notifications := ns } := by
  rw [usbdEcmSetup]
  split_ifs
  · exact ⟨_, rfl⟩
  · exact ⟨s.notifications, rfl⟩

/-- A stall of endpoint 0 sets its two directions. -/
lemma halPcdEpSetStall_zero {epAddr : ℕ} (h0 : epAddr % 128 = 0) :
    ∃ i o, halPcdEpSetStall s epAddr = stallEp0 { s with inStall := i, outStall := o } := by
  rw [halPcdEpSetStall]
  by_cases hl : s.locked = true
  · rw [if_pos hl]
    exact ⟨s.inStall, s.outStall, (if_pos hl).symm⟩
  · rw [if_neg hl, if_neg (by rw [h0]; decide)]
    refine ⟨(setIsStall s epAddr true).inStall, (setIsStall s epAddr true).outStall, ?_⟩
    simp only [if_pos h0]
    refine Eq.trans ?_ (if_neg hl).symm
    simp only [setIsStall]
    split_ifs <;> rfl

/-- `USBD_CtlError`. -/
lemma usbdCtlError_eq (s : Control) :
    ∃ i o, usbdCtlError s = stallEp0 { s with inStall := i, outStall := o } := by
  obtain ⟨i, o, hin⟩ := @halPcdEpSetStall_zero s 0x80 rfl
  obtain ⟨i', o', hout⟩ :=
    @halPcdEpSetStall_zero (stallEp0 { s with inStall := i, outStall := o }) 0 rfl
  refine ⟨i', o', ?_⟩
  rw [usbdCtlError, hin, hout]
  cases hl : s.locked with
  | true =>
      have h (t : Control) (ht : t.locked = true) : stallEp0 t = t := if_pos ht
      rw [h _ (by rw [h _ (by exact hl)]; exact hl), h _ (by exact hl), h _ (by exact hl)]
  | false =>
      have h (t : Control) (ht : t.locked = false) :
          stallEp0 t = { t with rxStat := .stall, txStat := .stall } := if_neg (by simp [ht])
      rw [h _ (by rw [h _ (by exact hl)]; exact hl), h _ (by exact hl), h _ (by exact hl)]

end Hal

/-! ### Effect and answer of each request -/

/-- Every descriptor has bytes, and the buffer of the strings keeps its size. -/
lemma descriptorOf_length {deviceserial : UInt32} {strDesc : List UInt8} {wValue : ℕ}
    {r : List UInt8 × List UInt8} (hstr : strDesc.length = 256)
    (h : descriptorOf deviceserial strDesc wValue = some r) :
    0 < r.1.length ∧ r.2.length = 256 := by
  have hstring : ∀ desc, (usbdGetString desc strDesc).1.length = 256 := by
    intro desc
    rw [usbdGetString, length_getStringLoop, List.length_set, List.length_set, hstr]
  have htake : ∀ desc, 0 < ((usbdGetString desc strDesc).1.take
      (usbdGetString desc strDesc).2).length := by
    intro desc
    have hlen : 0 < (usbdGetString desc strDesc).2 := Nat.succ_pos _
    rw [List.length_take, hstring]
    omega
  have hserial : (serialStrDescriptor deviceserial ++ strDesc.drop 26).length = 256 := by
    rw [serialStrDescriptor, List.length_append, List.length_append, List.length_append,
      length_intToUnicode, length_intToUnicode, List.length_drop, hstr]
    rfl
  have hlen : 0 < deviceDesc.length ∧ 0 < cfgFsDesc.length ∧ 0 < langIdDesc.length := by decide
  simp only [descriptorOf] at h
  split at h
  · cases h
    exact ⟨hlen.1, hstr⟩
  · cases h
    exact ⟨hlen.2.1, hstr⟩
  · split at h
    · cases h
      exact ⟨hlen.2.2, hstr⟩
    · cases h
      exact ⟨htake _, hstring _⟩
    · cases h
      exact ⟨htake _, hstring _⟩
    · cases h
      exact ⟨by rw [List.length_take, hserial]; decide, hserial⟩
    · cases h
  · cases h

/-- A request is an effect followed by an answer. -/
def Handles (req : SetupReq) (s : Control) (a : Answer) (t : Control) : Prop :=
  ∃ v, Effect req s v ∧ Gives v a t

section Requests

variable {deviceserial : UInt32} {s : Control} {req : SetupReq}

/-- The fields an effect is about. -/
lemma effect_intro {u : Usbd} {d : ℕ} {w f : Bool} {str : List UInt8} {i o : ℕ → Bool}
    {ns : List ℕ} {da : Option ℕ} {ua : ℕ}
    (hkeeps : (∀ a, ¬ SetsAddress s req a) → da = s.daddr ∧ ua = s.usbAddress)
    (haddress : ∀ a ≠ 0, SetsAddress s req a → da = s.daddr ∧ ua = a)
    (hzero : SetsAddress s req 0 → da = some 0 ∧ ua = s.usbAddress)
    (hlock : u.firmware.ecm.handle.hpcdLock = s.locked)
    (hu : ¬ IsBulkRequest req → u = coreRequest req s.usbd)
    (hstr : s.strDesc.length = 256 → str.length = 256)
    (hf : f = true ↔ s.fault = true ∨ LeavesTable s req) :
    Effect req s
      { s with
        usbd := u
        devAddress := d
        devRemoteWakeup := w
        strDesc := str
        inStall := i
        outStall := o
        notifications := ns
        daddr := da
        usbAddress := ua
        fault := f } where
  locked := hlock
  txStat := rfl
  rxStat := rfl
  rxCount := rfl
  ep0DataLen := rfl
  maxpacket := rfl
  inMaxpacket := rfl
  outMaxpacket := rfl
  strDesc := hstr
  keepsAddress := hkeeps
  address := haddress
  addressZero := hzero
  fault := hf
  usbd := hu

/-- The effect of a request that sets no address. -/
lemma effect_of_not_setsAddress {u : Usbd} {d : ℕ} {w f : Bool} {str : List UInt8}
    {i o : ℕ → Bool} {ns : List ℕ} (ha : ∀ a, ¬ SetsAddress s req a)
    (hlock : u.firmware.ecm.handle.hpcdLock = s.locked)
    (hu : ¬ IsBulkRequest req → u = coreRequest req s.usbd)
    (hstr : s.strDesc.length = 256 → str.length = 256)
    (hf : f = true ↔ s.fault = true ∨ LeavesTable s req) :
    Effect req s
      { s with
        usbd := u
        devAddress := d
        devRemoteWakeup := w
        strDesc := str
        inStall := i
        outStall := o
        notifications := ns
        fault := f } :=
  effect_intro (fun _ => ⟨rfl, rfl⟩) (fun a _ h => absurd h (ha a)) (fun h => absurd h (ha 0))
    hlock hu hstr hf

lemma not_setsAddress_of_ne (h : req.bmRequest % 32 ≠ 0 ∨ req.bRequest ≠ 5) (a : ℕ) :
    ¬ SetsAddress s req a := fun ha => h.elim (fun h => h ha.1) fun h => h ha.2.1

/-- The core keeps the lock. -/
lemma usbdSetAddress_lock (u : Usbd) (wValue wIndex wLength : ℕ) :
    (usbdSetAddress u wValue wIndex wLength).firmware = u.firmware := by
  rcases usbdSetAddress_cases u wValue wIndex wLength with h | ⟨d, -, h⟩ <;> rw [h]

lemma usbdSetConfig_lock (u : Usbd) (wValue : ℕ) :
    (usbdSetConfig u wValue).firmware.ecm.handle.hpcdLock =
      u.firmware.ecm.handle.hpcdLock := by
  rcases usbdSetConfig_cases u wValue with h | ⟨n, h⟩ | ⟨n, h⟩ | ⟨n, -, h⟩ <;> rw [h] <;> rfl

/-- The status packet does not depend on the core, but for the lock. -/
lemma usbdCtlSendStatus_usbd (v : Control) (u : Usbd)
    (hlock : u.firmware.ecm.handle.hpcdLock = v.locked) :
    { usbdCtlSendStatus v with usbd := u } = usbdCtlSendStatus { v with usbd := u } := by
  cases hl : v.locked with
  | true =>
      rw [usbdCtlSendStatus_of_locked hl,
        @usbdCtlSendStatus_of_locked { v with usbd := u } (hlock.trans hl)]
  | false =>
      rw [usbdCtlSendStatus_of_free hl,
        @usbdCtlSendStatus_of_free { v with usbd := u } (hlock.trans hl)]

/-- The `SET_ADDRESS` the device follows: the status is the last thing it does. -/
lemma usbdSetAddressReq_eq (hw : req.wIndex = 0 ∧ req.wLength = 0)
    (hs : s.usbd.devState ≠ .configured) :
    usbdSetAddressReq s req =
      usbdCtlSendStatus
        { halPcdSetAddress { s with devAddress := req.wValue % 128 } (req.wValue % 128) with
          usbd := usbdSetAddress s.usbd req.wValue req.wIndex req.wLength } := by
  simp only [usbdSetAddressReq, if_pos hw, if_neg hs]
  generalize hv : halPcdSetAddress { s with devAddress := req.wValue % 128 } (req.wValue % 128) = v
  have hvu : v.usbd = s.usbd := by
    rw [← hv, halPcdSetAddress]
    split_ifs <;> rfl
  have hsend : (usbdCtlSendStatus v).usbd = s.usbd := by
    cases hl : v.locked with
    | true =>
        rw [usbdCtlSendStatus_of_locked hl]
        exact hvu
    | false =>
        rw [usbdCtlSendStatus_of_free hl]
        exact hvu
  rw [hsend]
  refine usbdCtlSendStatus_usbd v _ ?_
  rw [usbdSetAddress_lock, Control.locked, hvu]

/-- A data stage of a whole buffer. -/
lemma handles_data {v : Control} {d : List UInt8} (hv : Effect req s v) (hd : d ≠ []) :
    Handles req s (.data d) (usbdCtlSendData v d d.length) := by
  have hgives := Gives.data (v := v) d d.length (by rwa [List.take_length]) le_rfl
  rw [List.take_length] at hgives
  exact ⟨v, hv, hgives⟩

section Device

variable (hreq : req.bmRequest % 32 = 0)
include hreq

lemma not_leavesTable_of_device : ¬ LeavesTable s req := fun h => by
  have hne := h.1
  omega

/-- The effect of a request to the device that sets no address. -/
lemma effect_of_device {u : Usbd} {w : Bool} {str : List UInt8} {i o : ℕ → Bool} {ns : List ℕ}
    (ha : ∀ a, ¬ SetsAddress s req a) (hu : u = coreRequest req s.usbd)
    (hstr : s.strDesc.length = 256 → str.length = 256) :
    Effect req s
      { s with
        usbd := u
        devRemoteWakeup := w
        strDesc := str
        inStall := i
        outStall := o
        notifications := ns } := by
  refine @effect_of_not_setsAddress s req u s.devAddress w s.fault str i o ns ha ?_
    (fun _ => hu) hstr ?_
  · rw [hu, coreRequest]
    split
    · rw [usbdSetAddress_lock]
      rfl
    · exact usbdSetConfig_lock _ _
    · rfl
  · simp [not_leavesTable_of_device hreq]

lemma handles_error_of_device (ha : ∀ a, ¬ SetsAddress s req a)
    (hu : s.usbd = coreRequest req s.usbd) : Handles req s .stall (usbdCtlError s) := by
  obtain ⟨i, o, h⟩ := usbdCtlError_eq s
  rw [h]
  exact ⟨_, effect_of_device hreq ha hu id, Gives.stall⟩

lemma handles_getStatus (hb : req.bRequest = 0) :
    Handles req s (deviceAnswer deviceserial s req) (usbdGetStatus s) := by
  have ha : ∀ a, ¬ SetsAddress s req a := not_setsAddress_of_ne (by omega)
  have hu : s.usbd = coreRequest req s.usbd := by simp [coreRequest, hb]
  rw [deviceAnswer, hb, usbdGetStatus]
  cases hs : s.usbd.devState with
  | default => exact handles_error_of_device hreq ha hu
  | addressed | configured => exact handles_data (effect_of_device hreq ha hu id) (by simp)

lemma handles_setFeature (hb : req.bRequest = 3) :
    Handles req s (deviceAnswer deviceserial s req) (usbdSetFeature s req) := by
  have ha : ∀ a, ¬ SetsAddress s req a := not_setsAddress_of_ne (by omega)
  have hu : s.usbd = coreRequest req s.usbd := by simp [coreRequest, hb]
  rw [deviceAnswer, hb, usbdSetFeature]
  obtain ⟨ns, hns⟩ := usbdEcmSetup_eq { s with devRemoteWakeup := true } req
  by_cases hv : req.wValue = 1
  · simp only [if_pos hv, hns]
    exact ⟨_, effect_of_device hreq ha hu id, Gives.status⟩
  · simp only [if_neg hv]
    exact ⟨s, effect_of_device hreq ha hu id, Gives.none⟩

lemma handles_clrFeature (hb : req.bRequest = 1) :
    Handles req s (deviceAnswer deviceserial s req) (usbdClrFeature s req) := by
  have ha : ∀ a, ¬ SetsAddress s req a := not_setsAddress_of_ne (by omega)
  have hu : s.usbd = coreRequest req s.usbd := by simp [coreRequest, hb]
  rw [deviceAnswer, hb, usbdClrFeature]
  obtain ⟨ns, hns⟩ := usbdEcmSetup_eq { s with devRemoteWakeup := false } req
  cases hs : s.usbd.devState with
  | default => exact handles_error_of_device hreq ha hu
  | addressed | configured =>
      by_cases hv : req.wValue = 1
      · simp only [if_pos hv, hns, reduceCtorEq, if_false]
        exact ⟨_, effect_of_device hreq ha hu id, Gives.status⟩
      · simp only [if_neg hv, reduceCtorEq, if_false]
        exact ⟨s, effect_of_device hreq ha hu id, Gives.none⟩

lemma handles_getConfig (hb : req.bRequest = 8) :
    Handles req s (deviceAnswer deviceserial s req) (usbdGetConfig s req) := by
  have ha : ∀ a, ¬ SetsAddress s req a := not_setsAddress_of_ne (by omega)
  have hu : s.usbd = coreRequest req s.usbd := by simp [coreRequest, hb]
  rw [deviceAnswer, hb, usbdGetConfig]
  by_cases hw : req.wLength = 1
  · cases hs : s.usbd.devState with
    | default =>
        simp only [hw, ne_eq, not_true_eq_false, if_false, or_true, if_true]
        exact handles_error_of_device hreq ha hu
    | addressed | configured =>
        simp only [hw, ne_eq, not_true_eq_false, if_false, reduceCtorEq, or_self, if_true]
        exact handles_data (effect_of_device hreq ha hu id) (by simp)
  · simp only [ne_eq, hw, not_false_eq_true, if_true, true_or]
    exact handles_error_of_device hreq ha hu

lemma handles_setConfig (hb : req.bRequest = 9) :
    Handles req s (deviceAnswer deviceserial s req) (usbdSetConfigReq s req) := by
  have ha : ∀ a, ¬ SetsAddress s req a := not_setsAddress_of_ne (by omega)
  have hu : usbdSetConfig s.usbd req.wValue = coreRequest req s.usbd := by
    simp [coreRequest, hreq, hb]
  rw [deviceAnswer, hb, usbdSetConfigReq]
  by_cases hcfg : req.wValue % 256 > usbdMaxNumConfiguration
  · simp only [hcfg, true_or, if_true]
    refine handles_error_of_device hreq ha ?_
    rw [← hu, usbdSetConfig]
    exact (if_pos hcfg).symm
  · simp only [hcfg, false_or]
    cases hs : s.usbd.devState with
    | default =>
        refine handles_error_of_device hreq ha ?_
        rw [← hu, usbdSetConfig]
        simp [hs]
    | addressed | configured => exact ⟨_, effect_of_device hreq ha hu id, Gives.status⟩

lemma handles_setAddress (hb : req.bRequest = 5) :
    Handles req s (deviceAnswer deviceserial s req) (usbdSetAddressReq s req) := by
  have hu : usbdSetAddress s.usbd req.wValue req.wIndex req.wLength = coreRequest req s.usbd := by
    simp [coreRequest, hreq, hb]
  rw [deviceAnswer, hb]
  by_cases hw : req.wIndex = 0 ∧ req.wLength = 0
  · by_cases hs : s.usbd.devState = .configured
    · rw [usbdSetAddressReq]
      simp only [hw.1, hw.2, hs, ne_eq, not_true_eq_false, and_false, if_false, and_self, if_true]
      refine handles_error_of_device hreq (fun a h => h.2.2.2.2.1 hs) ?_
      rw [← hu, usbdSetAddress]
      simp [hs]
    · have hset : ∀ a, SetsAddress s req a ↔ s.locked = false ∧ a = req.wValue % 128 := by
        intro a
        simp [SetsAddress, hreq, hb, hw.1, hw.2, hs]
      rw [usbdSetAddressReq_eq hw hs, hu]
      simp only [hw.1, hw.2, hs, ne_eq, not_false_eq_true, and_self, if_true]
      refine ⟨_, ?_, Gives.status⟩
      have hlock : (coreRequest req s.usbd).firmware.ecm.handle.hpcdLock = s.locked := by
        rw [← hu, usbdSetAddress_lock]
        rfl
      have hfault : s.fault = true ↔ s.fault = true ∨ LeavesTable s req := by
        simp [not_leavesTable_of_device hreq]
      simp only [halPcdSetAddress]
      split_ifs with hl ha
      · -- the lock: the address is refused, the status packet is too
        have hno : ∀ a, ¬ SetsAddress s req a := fun a h =>
          absurd (((hset a).mp h).1.symm.trans hl) (by simp)
        exact effect_of_not_setsAddress hno hlock (fun _ => rfl) id hfault
      · refine effect_intro (fun h => ?_) (fun a h0 h => ?_) (fun _ => ⟨rfl, rfl⟩) hlock
          (fun _ => rfl) id hfault
        · exact absurd ((hset 0).mpr ⟨Bool.eq_false_of_not_eq_true hl, ha.symm⟩) (h 0)
        · exact absurd (((hset a).mp h).2.trans ha) h0
      · refine effect_intro (fun h => ?_) (fun a _ h => ⟨rfl, ((hset a).mp h).2.symm⟩)
          (fun h => ?_) hlock (fun _ => rfl) id hfault
        · exact absurd ((hset _).mpr ⟨Bool.eq_false_of_not_eq_true hl, rfl⟩) (h _)
        · exact absurd ((hset 0).mp h).2.symm ha
  · rw [usbdSetAddressReq]
    simp only [if_neg hw, ← and_assoc]
    rw [if_neg (fun h => hw h.1)]
    refine handles_error_of_device hreq (fun a h => hw ⟨h.2.2.1, h.2.2.2.1⟩) ?_
    rw [← hu, usbdSetAddress, if_neg hw]

lemma handles_getDescriptor (hstr : s.strDesc.length = 256) (hb : req.bRequest = 6) :
    Handles req s (deviceAnswer deviceserial s req) (usbdGetDescriptor deviceserial s req) := by
  have ha : ∀ a, ¬ SetsAddress s req a := not_setsAddress_of_ne (by omega)
  have hu : s.usbd = coreRequest req s.usbd := by simp [coreRequest, hb]
  rw [deviceAnswer, hb, usbdGetDescriptor]
  cases hd : descriptorOf deviceserial s.strDesc req.wValue with
  | none => exact handles_error_of_device hreq ha hu
  | some r =>
      obtain ⟨hpos, hlen⟩ := descriptorOf_length hstr hd
      have heff : Effect req s { s with strDesc := r.2 } :=
        effect_of_device hreq ha hu (fun _ => hlen)
      by_cases hw : req.wLength = 0
      · simp only [hw, if_true, ne_eq, not_true_eq_false, and_false, if_false]
        exact ⟨_, heff, Gives.none⟩
      · have hmin : r.1.take (min r.1.length req.wLength) = r.1.take req.wLength := by
          rw [← List.take_take]
          exact List.take_of_length_le (List.length_take_le' _ _)
        have hgives := Gives.data (v := { s with strDesc := r.2 }) r.1 (min r.1.length req.wLength)
          (List.length_pos_iff.mp (by rw [List.length_take]; omega)) (Nat.min_le_left _ _)
        rw [hmin] at hgives
        simp only [hw, if_false, ne_eq, not_false_eq_true, and_true]
        rw [if_pos (by omega)]
        exact ⟨_, heff, hgives⟩

/-- **Requests to the device.** -/
lemma handles_device (hstr : s.strDesc.length = 256) :
    Handles req s (deviceAnswer deviceserial s req) (usbdStdDevReq deviceserial s req) := by
  rw [usbdStdDevReq]
  split
  · exact handles_getStatus hreq ‹_›
  · exact handles_clrFeature hreq ‹_›
  · exact handles_setFeature hreq ‹_›
  · exact handles_setAddress hreq ‹_›
  · exact handles_getDescriptor hreq hstr ‹_›
  · exact handles_getConfig hreq ‹_›
  · exact handles_setConfig hreq ‹_›
  · rename_i hb0 hb1 hb3 hb5 hb6 hb8 hb9
    have hans : deviceAnswer deviceserial s req = .stall := by
      rw [deviceAnswer]
      split <;> first | rfl | contradiction
    have hu : s.usbd = coreRequest req s.usbd := by
      rw [coreRequest]
      split <;> first | rfl | contradiction
    rw [hans]
    exact handles_error_of_device hreq (not_setsAddress_of_ne (Or.inr hb5)) hu

end Device

/-- The effect of a request to an interface or an endpoint. -/
lemma effect_of_other {u : Usbd} {f : Bool} {i o : ℕ → Bool} {ns : List ℕ}
    (hreq : req.bmRequest % 32 ≠ 0) (hlock : u.firmware.ecm.handle.hpcdLock = s.locked)
    (hu : ¬ IsBulkRequest req → u = s.usbd)
    (hf : f = true ↔ s.fault = true ∨ LeavesTable s req) :
    Effect req s
      { s with usbd := u, inStall := i, outStall := o, notifications := ns, fault := f } := by
  refine effect_of_not_setsAddress (not_setsAddress_of_ne (Or.inl hreq)) hlock (fun h => ?_) id hf
  rw [hu h, coreRequest]
  split <;> first | rfl | contradiction

/-- A request to an interface or an endpoint that gets an error. -/
lemma handles_error_of_other (hreq : req.bmRequest % 32 ≠ 0) (hl : ¬ LeavesTable s req) :
    Handles req s .stall (usbdCtlError s) := by
  obtain ⟨i, o, h⟩ := usbdCtlError_eq s
  rw [h]
  exact ⟨_, effect_of_other hreq rfl (fun _ => rfl) (by simp [hl]), Gives.stall⟩

/-- **Requests to an interface.** -/
lemma handles_interface (hreq : req.bmRequest % 32 = 1) :
    Handles req s (interfaceAnswer s req) (usbdStdItfReq s req) := by
  have hne : req.bmRequest % 32 ≠ 0 := by omega
  have hl : ¬ LeavesTable s req := fun h => by
    have h2 := h.1
    omega
  obtain ⟨ns, hns⟩ := usbdEcmSetup_eq s req
  have heff : Effect req s { s with notifications := ns } :=
    effect_of_other hne rfl (fun _ => rfl) (by simp [hl])
  rw [interfaceAnswer, usbdStdItfReq]
  cases hs : s.usbd.devState with
  | default | addressed => exact handles_error_of_other hne hl
  | configured =>
      simp only [true_and, hns]
      split_ifs
      · exact ⟨_, heff, Gives.status⟩
      · exact ⟨_, heff, Gives.none⟩
      · exact handles_error_of_other hne hl

section Endpoint

variable (hreq : req.bmRequest % 32 = 2)
include hreq

/-- `SET_FEATURE` and the others stall an endpoint in the addressed state. -/
lemma handles_addressed {epAddr : ℕ} (hep : epAddr = req.wIndex % 256)
    (hs : s.usbd.devState = .addressed)
    (hb : req.IsFeature) :
    Handles req s (endpointAnswer s req)
      (if epAddr % 128 ≠ 0 then halPcdEpSetStall s epAddr else s) := by
  have hleaves : LeavesTable s req ↔ pcdEndpoints ≤ epAddr % 128 ∧ s.locked = false := by
    rw [LeavesTable, hs, ← hep]
    simp [hreq, hb]
  have hans : endpointAnswer s req = .none := by rw [endpointAnswer, hs]
  rw [hans]
  by_cases h0 : epAddr % 128 ≠ 0
  · obtain ⟨u, i, o, hlock, hu, h⟩ := @halPcdEpSetStall_eq s epAddr h0
    rw [if_pos h0, h]
    refine ⟨_, effect_of_other (by omega) hlock (fun hbulk => ?_) ?_, Gives.none⟩
    · exact hu (fun h => hbulk ⟨hreq, Or.inl (hep ▸ h)⟩) fun h => hbulk ⟨hreq, Or.inr (hep ▸ h)⟩
    · rw [hleaves]
      simp [and_comm]
  · rw [if_neg h0]
    refine ⟨s, effect_of_other (by omega) rfl (fun _ => rfl) ?_, Gives.none⟩
    have hno : ¬ LeavesTable s req := fun h => by
      have hle := (hleaves.mp h).1
      rw [pcdEndpoints] at hle
      omega
    simp [hno]

/-- An error in the default state. -/
lemma handles_default (hs : s.usbd.devState = .default) (hb : req.IsFeature) :
    Handles req s (endpointAnswer s req) (usbdCtlError s) := by
  have hans : endpointAnswer s req = .stall := by rw [endpointAnswer, hs]; exact if_pos hb
  rw [hans]
  refine handles_error_of_other (by omega) fun h => ?_
  have hfalse := h.2.2
  rwa [hs] at hfalse

lemma handles_setFeature_endpoint (hs : s.usbd.devState = .configured) (hb : req.bRequest = 3) :
    Handles req s (endpointAnswer s req)
      (usbdCtlSendStatus (usbdEcmSetup
        (if req.wValue = 0 ∧ req.wIndex % 256 ≠ 0 ∧ req.wIndex % 256 ≠ 0x80 then
          halPcdEpSetStall s (req.wIndex % 256) else s) req)) := by
  have hans : endpointAnswer s req = .status := by
    rw [endpointAnswer, hs, hb]
    rfl
  have hleaves : LeavesTable s req ↔
      pcdEndpoints ≤ req.wIndex % 256 % 128 ∧ req.wValue = 0 ∧ s.locked = false := by
    rw [LeavesTable, hs, hb]
    simp [hreq]
  rw [hans]
  by_cases hcond : req.wValue = 0 ∧ req.wIndex % 256 ≠ 0 ∧ req.wIndex % 256 ≠ 0x80
  · obtain ⟨u, i, o, hlock, hu, h⟩ := @halPcdEpSetStall_eq s (req.wIndex % 256) (by omega)
    rw [if_pos hcond, h]
    obtain ⟨ns, hns⟩ := usbdEcmSetup_eq
      { s with
        usbd := u
        inStall := i
        outStall := o
        fault := s.fault || !s.locked && decide (pcdEndpoints ≤ req.wIndex % 256 % 128) } req
    rw [hns]
    refine ⟨_, effect_of_other (by omega) hlock (fun hbulk => ?_) ?_, Gives.status⟩
    · exact hu (fun h => hbulk ⟨hreq, Or.inl h⟩) fun h => hbulk ⟨hreq, Or.inr h⟩
    · rw [hleaves]
      simp [hcond.1, and_comm]
  · obtain ⟨ns, hns⟩ := usbdEcmSetup_eq s req
    rw [if_neg hcond, hns]
    refine ⟨_, effect_of_other (by omega) rfl (fun _ => rfl) ?_, Gives.status⟩
    have hno : ¬ LeavesTable s req := fun h => by
      obtain ⟨hle, hv, -⟩ := hleaves.mp h
      rw [pcdEndpoints] at hle
      omega
    simp [hno]

lemma handles_clrFeature_endpoint (hs : s.usbd.devState = .configured) (hb : req.bRequest = 1) :
    Handles req s (endpointAnswer s req)
      (if req.wValue = 0 then
        usbdCtlSendStatus
          (if req.wIndex % 256 % 128 ≠ 0 then
            usbdEcmSetup (halPcdEpClrStall s (req.wIndex % 256)) req
          else s)
      else s) := by
  have hleaves : LeavesTable s req ↔
      pcdEndpoints ≤ req.wIndex % 256 % 128 ∧ req.wValue = 0 := by
    rw [LeavesTable, hs, hb]
    simp [hreq]
  rw [endpointAnswer, hs, hb]
  by_cases hv : req.wValue = 0
  · simp only [if_pos hv]
    by_cases h0 : req.wIndex % 256 % 128 ≠ 0
    · obtain ⟨u, i, o, hlock, hu, h⟩ := @halPcdEpClrStall_eq s (req.wIndex % 256)
      rw [if_pos h0, h]
      obtain ⟨ns, hns⟩ := usbdEcmSetup_eq
        { s with
          usbd := u
          inStall := i
          outStall := o
          fault := s.fault || decide (pcdEndpoints ≤ req.wIndex % 256 % 128) } req
      rw [hns]
      refine ⟨_, effect_of_other (by omega) hlock (fun hbulk => ?_) ?_, Gives.status⟩
      · exact hu (fun h => hbulk ⟨hreq, Or.inl h⟩) fun h => hbulk ⟨hreq, Or.inr h⟩
      · rw [hleaves]
        simp [hv]
    · rw [if_neg h0]
      refine ⟨s, effect_of_other (by omega) rfl (fun _ => rfl) ?_, Gives.status⟩
      have hno : ¬ LeavesTable s req := fun h => by
        have hle := (hleaves.mp h).1
        rw [pcdEndpoints] at hle
        omega
      simp [hno]
  · simp only [if_neg hv]
    refine ⟨s, effect_of_other (by omega) rfl (fun _ => rfl) ?_, Gives.none⟩
    have hno : ¬ LeavesTable s req := fun h => hv (hleaves.mp h).2
    simp [hno]

lemma handles_getStatus_endpoint (hs : s.usbd.devState = .configured) (hb : req.bRequest = 0) :
    Handles req s (endpointAnswer s req)
      (usbdCtlSendData
        (if pcdEndpoints ≤ req.wIndex % 256 % 128 then { s with fault := true } else s)
        [if isStallEp (if pcdEndpoints ≤ req.wIndex % 256 % 128 then { s with fault := true }
          else s) (req.wIndex % 256) then 1 else 0, 0] 2) := by
  have hleaves : LeavesTable s req ↔ pcdEndpoints ≤ req.wIndex % 256 % 128 := by
    rw [LeavesTable, hs, hb]
    simp [hreq]
  rw [endpointAnswer, hs, hb]
  by_cases hle : pcdEndpoints ≤ req.wIndex % 256 % 128
  · simp only [if_pos hle]
    exact handles_data (effect_of_other (by omega) rfl (fun _ => rfl) (by simp [hleaves.mpr hle]))
      (by simp)
  · simp only [if_neg hle]
    have hno : ¬ LeavesTable s req := fun h => hle (hleaves.mp h)
    exact handles_data (effect_of_other (by omega) rfl (fun _ => rfl) (by simp [hno])) (by simp)

/-- **Requests to an endpoint.** -/
lemma handles_endpoint : Handles req s (endpointAnswer s req) (usbdStdEpReq s req) := by
  have h80 : (req.wIndex % 256 ≠ 0 ∧ req.wIndex % 256 ≠ 0x80) ↔ req.wIndex % 256 % 128 ≠ 0 := by
    omega
  rw [usbdStdEpReq]
  split
  · rename_i hb
    cases hs : s.usbd.devState with
    | default => exact handles_default hreq hs (Or.inr (Or.inr hb))
    | addressed =>
        simp only [h80]
        exact handles_addressed hreq rfl hs (Or.inr (Or.inr hb))
    | configured => exact handles_setFeature_endpoint hreq hs hb
  · rename_i hb
    cases hs : s.usbd.devState with
    | default => exact handles_default hreq hs (Or.inr (Or.inl hb))
    | addressed =>
        simp only [h80]
        exact handles_addressed hreq rfl hs (Or.inr (Or.inl hb))
    | configured => exact handles_clrFeature_endpoint hreq hs hb
  · rename_i hb
    cases hs : s.usbd.devState with
    | default => exact handles_default hreq hs (Or.inl hb)
    | addressed => exact handles_addressed hreq rfl hs (Or.inl hb)
    | configured => exact handles_getStatus_endpoint hreq hs hb
  · rename_i hb3 hb1 hb0
    have hfeature : ¬ req.IsFeature := fun h => h.elim hb0 fun h => h.elim hb1 hb3
    have hans : endpointAnswer s req = .none := by
      rw [endpointAnswer]
      split
      · exact if_neg hfeature
      · rfl
      · split <;> first | rfl | contradiction
    have hno : ¬ LeavesTable s req := by
      rw [LeavesTable]
      rintro ⟨-, -, h⟩
      split at h
      · exact h
      · exact hfeature h.1
      · split at h <;> contradiction
    rw [hans]
    exact ⟨s, effect_of_other (by omega) rfl (fun _ => rfl) (by simp [hno]), Gives.none⟩

end Endpoint

/-- **Every `SETUP` packet is an effect followed by an answer.** -/
theorem setup_effect {psetup : List UInt8} (hstr : s.strDesc.length = 256)
    (hreq : usbdParseSetupRequest psetup = req) :
    Handles req { s with ep0State := .setup, ep0DataLen := req.wLength }
      (answer deviceserial s req) (usbdLlSetupStage deviceserial s psetup) := by
  have hcases : req.bmRequest % 32 = 0 ∨ req.bmRequest % 32 = 1 ∨ req.bmRequest % 32 = 2 ∨
      ∃ k, req.bmRequest % 32 = k + 3 := by
    by_cases h3 : 3 ≤ req.bmRequest % 32
    · exact Or.inr (Or.inr (Or.inr ⟨req.bmRequest % 32 - 3, by omega⟩))
    · omega
  simp only [usbdLlSetupStage, answer, hreq]
  rcases hcases with h | h | h | ⟨k, h⟩
  · simp only [h]
    exact handles_device h hstr
  · simp only [h]
    exact handles_interface h
  · simp only [h]
    exact handles_endpoint h
  · have hep : (if 128 ≤ req.bmRequest then 0x80 else 0) % 128 = 0 := by split_ifs <;> rfl
    obtain ⟨i, o, hstall⟩ := @halPcdEpSetStall_zero
      { s with ep0State := .setup, ep0DataLen := req.wLength } _ hep
    have hno : ¬ LeavesTable { s with ep0State := .setup, ep0DataLen := req.wLength } req :=
      fun hl => by
        have h2 := hl.1
        omega
    simp only [h]
    refine ⟨_, effect_of_other (by omega) rfl (fun _ => rfl) ?_, hstall ▸ Gives.stall⟩
    simp [hno]

end Requests

end Stm32Ecm
