import Stm32Ecm.Usb.Receive

/-!
The USB core around the driver (`usbd_core.c`, `usbd_ctlreq.c`): the device state, the requests
that change it, and the class callbacks it lets through.

* `usbdSetAddress`, `usbdSetConfig`, `usbdLlReset`: the requests and the bus reset.  The class is
  initialised and de-initialised by `SET_CONFIGURATION` only: `pClassData` is never set, so a bus
  reset leaves the class as it was, with the endpoint registers cleared by the peripheral;
* `coreStep`: the callbacks other than `Init` and `DeInit` reach the class only while the device
  is configured; the main loop does not look at the device state;
* `CoreInv`: `registered_pdev` is set from an `Init` to the next `DeInit`, and it is set while the
  device is configured;
* `device_present_iff`: the driver calls the layer below with a device in every state of a run
  exactly when `service_traffic` does not reach `usb_ecm_recv_renew` after a `DeInit` and before
  the next `Init`.
-/

namespace Stm32Ecm

open Transition

/-! ### The core -/

/-- `dev_state`.  The suspend callbacks of `usbd_conf.c` are empty, so that `USBD_STATE_SUSPENDED`
is never reached. -/
inductive DevState where
  | default | addressed | configured
  deriving DecidableEq, Repr

/-- The calls of the class the core makes on a change of the configuration. -/
inductive ClassCall where
  | init | deInit
  deriving DecidableEq, Repr

/-- `USBD_MAX_NUM_CONFIGURATION`. -/
@[simp] def usbdMaxNumConfiguration : ℕ := 1

/-- The core and the firmware; `classCalls` is the history of `Init` and `DeInit`. -/
structure Usbd where
  devState : DevState
  devConfig : ℕ
  classCalls : List ClassCall
  firmware : Firmware

/-- The state at reset, before the first configuration. -/
def Usbd.initial : Usbd where
  devState := .default
  devConfig := 0
  classCalls := []
  firmware := Firmware.initial

/-- `USBD_SetClassConfig`.  `USBD_ECM_Init` always returns 0. -/
def usbdSetClassConfig (s : Usbd) : Usbd :=
  { s with
    classCalls := s.classCalls ++ [.init]
    firmware := { s.firmware with ecm := usbdEcmInit s.firmware.ecm } }

/-- `USBD_ClrClassConfig`. -/
def usbdClrClassConfig (s : Usbd) : Usbd :=
  { s with
    classCalls := s.classCalls ++ [.deInit]
    firmware := { s.firmware with ecm := usbdEcmDeInit s.firmware.ecm } }

/-- `USBD_SetAddress`. -/
def usbdSetAddress (s : Usbd) (wValue wIndex wLength : ℕ) : Usbd :=
  if wIndex = 0 ∧ wLength = 0 then
    let devAddr := wValue % 128
    if s.devState = .configured then s
    else if devAddr ≠ 0 then { s with devState := .addressed }
    else { s with devState := .default }
  else s

/-- `USBD_SetConfig`. -/
def usbdSetConfig (s : Usbd) (wValue : ℕ) : Usbd :=
  let cfgidx := wValue % 256
  if cfgidx > usbdMaxNumConfiguration then s
  else
    match s.devState with
    | .addressed =>
        if cfgidx ≠ 0 then
          usbdSetClassConfig { s with devConfig := cfgidx, devState := .configured }
        else s
    | .configured =>
        if cfgidx = 0 then
          usbdClrClassConfig { s with devState := .addressed, devConfig := cfgidx }
        else if cfgidx ≠ s.devConfig then
          usbdSetClassConfig { usbdClrClassConfig s with devConfig := cfgidx }
        else s
    | .default => s

/-- `USBD_LL_Reset` on a bus reset, which has disabled the endpoints.  `pClassData` is `NULL`:
`DeInit` is not called. -/
def usbdLlReset (s : Usbd) : Usbd :=
  { s with
    devState := .default
    firmware :=
      { s.firmware with
        ecm :=
          { s.firmware.ecm with
            rx :=
              { s.firmware.ecm.rx with
                outEp := { s.firmware.ecm.rx.outEp with valid := false } }
            tx :=
              { s.firmware.ecm.tx with
                inEp := { s.firmware.ecm.tx.inEp with valid := false } } } } }

/-- The OUT branch of `PCD_EP_ISR_Handler` when `USBD_LL_DataOutStage` does not call the
class. -/
def pcdEpIsrOutUnconfigured (h : UsbHandle) (c : OutPacket) (rx : EcmRx) : EcmRx :=
  let rx := storeOut c rx
  let ep := rx.outEp
  if ep.xferLen = 0 ∨ c.bytes.length < ep.maxpacket then rx
  else { rx with outEp := (halPcdEpReceive h.hpcdLock ep ep.xferBuff ep.xferLen).2 }

/-- The events of the core. -/
inductive UsbEvent where
  /-- A bus reset. -/
  | reset
  /-- `SET_ADDRESS`. -/
  | setAddress (wValue wIndex wLength : ℕ)
  /-- `SET_CONFIGURATION`. -/
  | setConfig (wValue : ℕ)
  /-- An interrupt of an endpoint, a start of frame or a step of the main loop. -/
  | firmware (e : Event)
  deriving DecidableEq, Repr

/-- One step of the firmware inside the core.  `Init` and `DeInit` are no events of their own. -/
def firmwareStep (s : Usbd) : Event → Option Usbd
  | .init | .deInit => none
  | .dataOut c alloc =>
      if s.devState = .configured then
        (step s.firmware (.dataOut c alloc)).map fun f => { s with firmware := f }
      else if s.firmware.ecm.rx.outEp.valid then
        some { s with
          firmware :=
            { s.firmware with
              ecm :=
                { s.firmware.ecm with
                  rx := pcdEpIsrOutUnconfigured s.firmware.ecm.handle c s.firmware.ecm.rx } } }
      else none
  | .dataIn k =>
      if s.devState = .configured then
        (step s.firmware (.dataIn k)).map fun f => { s with firmware := f }
      else some s
  | .sof =>
      if s.devState = .configured then
        (step s.firmware .sof).map fun f => { s with firmware := f }
      else some s
  | e => (step s.firmware e).map fun f => { s with firmware := f }

/-- One step, `none` when the event is not possible. -/
def coreStep (s : Usbd) : UsbEvent → Option Usbd
  | .reset => some (usbdLlReset s)
  | .setAddress wValue wIndex wLength => some (usbdSetAddress s wValue wIndex wLength)
  | .setConfig wValue => some (usbdSetConfig s wValue)
  | .firmware e => firmwareStep s e

/-! ### What a step can do -/

/-- A request changes the configuration by at most an `Init`, a `DeInit` or both. -/
lemma usbdSetConfig_cases (s : Usbd) (wValue : ℕ) :
    usbdSetConfig s wValue = s ∨
      (∃ cfgidx, usbdSetConfig s wValue =
        usbdSetClassConfig { s with devConfig := cfgidx, devState := .configured }) ∨
      (∃ cfgidx, usbdSetConfig s wValue =
        usbdClrClassConfig { s with devState := .addressed, devConfig := cfgidx }) ∨
      ∃ cfgidx, s.devState = .configured ∧ usbdSetConfig s wValue =
        usbdSetClassConfig { usbdClrClassConfig s with devConfig := cfgidx } := by
  simp only [usbdSetConfig]
  by_cases hcfg : wValue % 256 > usbdMaxNumConfiguration
  · rw [if_pos hcfg]
    exact Or.inl rfl
  rw [if_neg hcfg]
  cases s.devState with
  | default => exact Or.inl rfl
  | addressed =>
      simp only
      split_ifs
      · exact Or.inr (Or.inl ⟨_, rfl⟩)
      · exact Or.inl rfl
  | configured =>
      simp only
      split_ifs
      · exact Or.inr (Or.inr (Or.inl ⟨_, rfl⟩))
      · exact Or.inr (Or.inr (Or.inr ⟨_, trivial, rfl⟩))
      · exact Or.inl rfl

/-- `SET_ADDRESS` changes the device state only, and not while it is configured. -/
lemma usbdSetAddress_cases (s : Usbd) (wValue wIndex wLength : ℕ) :
    usbdSetAddress s wValue wIndex wLength = s ∨
      ∃ d, d ≠ .configured ∧ usbdSetAddress s wValue wIndex wLength = { s with devState := d } := by
  simp only [usbdSetAddress]
  split_ifs
  · exact Or.inl rfl
  · exact Or.inr ⟨.addressed, fun h => (by cases h), rfl⟩
  · exact Or.inr ⟨.default, fun h => (by cases h), rfl⟩
  · exact Or.inl rfl

/-- Every other event steps the firmware, or the device is not configured and the class is not
called. -/
lemma firmwareStep_cases {s t : Usbd} {e : Event} (h : firmwareStep s e = some t) :
    (∃ f, step s.firmware e = some f ∧ t = { s with firmware := f } ∧
        e ≠ .init ∧ e ≠ .deInit ∧
        (s.devState = .configured ∨ e = .traffic ∨ (∃ p, e = .xmitCall p) ∨ e = .xmitStep)) ∨
      (s.devState ≠ .configured ∧ (t = s ∨ ∃ c alloc, e = .dataOut c alloc ∧
        s.firmware.ecm.rx.outEp.valid = true ∧ t = { s with
          firmware :=
            { s.firmware with
              ecm :=
                { s.firmware.ecm with
                  rx := pcdEpIsrOutUnconfigured s.firmware.ecm.handle c
                    s.firmware.ecm.rx } } })) := by
  cases e with
  | init | deInit => cases h
  | dataOut c alloc =>
      rw [firmwareStep] at h
      split_ifs at h with hs hv
      · obtain ⟨f, hf, rfl⟩ := Option.map_eq_some_iff.mp h
        exact Or.inl ⟨f, hf, rfl, by simp, by simp, Or.inl hs⟩
      · exact Or.inr ⟨hs, Or.inr ⟨c, alloc, rfl, hv, (Option.some.inj h).symm⟩⟩
  | dataIn k =>
      rw [firmwareStep] at h
      split_ifs at h with hs
      · obtain ⟨f, hf, rfl⟩ := Option.map_eq_some_iff.mp h
        exact Or.inl ⟨f, hf, rfl, by simp, by simp, Or.inl hs⟩
      · exact Or.inr ⟨hs, Or.inl (Option.some.inj h).symm⟩
  | sof =>
      rw [firmwareStep] at h
      split_ifs at h with hs
      · obtain ⟨f, hf, rfl⟩ := Option.map_eq_some_iff.mp h
        exact Or.inl ⟨f, hf, rfl, by simp, by simp, Or.inl hs⟩
      · exact Or.inr ⟨hs, Or.inl (Option.some.inj h).symm⟩
  | traffic =>
      obtain ⟨f, hf, rfl⟩ := Option.map_eq_some_iff.mp h
      exact Or.inl ⟨f, hf, rfl, by simp, by simp, Or.inr (Or.inl rfl)⟩
  | xmitCall p =>
      obtain ⟨f, hf, rfl⟩ := Option.map_eq_some_iff.mp h
      exact Or.inl ⟨f, hf, rfl, by simp, by simp, Or.inr (Or.inr (Or.inl ⟨p, rfl⟩))⟩
  | xmitStep =>
      obtain ⟨f, hf, rfl⟩ := Option.map_eq_some_iff.mp h
      exact Or.inl ⟨f, hf, rfl, by simp, by simp, Or.inr (Or.inr (Or.inr rfl))⟩

/-! ### Calls with a device -/

/-- A call of `USBD_LL_PrepareReceive` has a device. -/
def RxObs.HasDevice : RxObs → Prop
  | .prepareReceive pdev => pdev = true
  | _ => True

/-- A call of `USBD_LL_Transmit` has a device. -/
def TxObs.HasDevice : TxObs → Prop
  | .transmit pdev _ _ _ => pdev = true
  | _ => True

/-- Every call of the driver to the layer below had a device. -/
def DevicePresent (s : Ecm) : Prop :=
  (∀ o ∈ s.rx.log, o.HasDevice) ∧ ∀ o ∈ s.tx.log, o.HasDevice

section Present

variable {h : UsbHandle} {rx : EcmRx} {tx : EcmTx}

lemma hasDevice_renew (hpdev : h.registeredPdev = true) (hlog : ∀ o ∈ rx.log, o.HasDevice) :
    ∀ o ∈ (usbEcmRecvRenew h rx).log, o.HasDevice := by
  refine List.forall_mem_append.mpr ⟨hlog, ?_⟩
  intro o ho
  rcases List.mem_pair.mp ho with rfl | rfl
  · exact hpdev
  · trivial

lemma hasDevice_storeOut {c : OutPacket} (hlog : ∀ o ∈ rx.log, o.HasDevice) :
    ∀ o ∈ (storeOut c rx).log, o.HasDevice := by
  rw [storeOut_log]
  refine List.forall_mem_append.mpr ⟨hlog, ?_⟩
  split_ifs
  · exact fun o ho => (by cases ho)
  · exact List.forall_mem_singleton.mpr trivial

/-- A packet is handled with a device. -/
lemma hasDevice_dataOut {c : OutPacket} {alloc : Bool} (hpdev : h.registeredPdev = true)
    (hlog : ∀ o ∈ rx.log, o.HasDevice) :
    ∀ o ∈ (pcdEpIsrOut h c alloc rx).log, o.HasDevice := by
  have hstore : ∀ o ∈ (storeOut c rx).log, o.HasDevice := hasDevice_storeOut hlog
  rw [pcdEpIsrOut]
  split_ifs
  · rw [usbdEcmDataOut]
    split_ifs
    · have hcall : ∀ size, ∀ o ∈ (storeOut c rx).log ++
          [.recvCallback (storeOut c rx).receivedFrame.isSome size], o.HasDevice :=
        fun size => List.forall_mem_append.mpr ⟨hstore, List.forall_mem_singleton.mpr trivial⟩
      simp only [usbEcmRecvCallback]
      split_ifs
      · exact hcall _
      · exact hcall _
      · exact hasDevice_renew hpdev (hcall _)
    · exact hasDevice_renew hpdev hstore
  · exact hstore

lemma hasDevice_attempt (hpdev : h.registeredPdev = true) (hlog : ∀ o ∈ tx.log, o.HasDevice) :
    ∀ o ∈ (ecmIncomingAttempt h tx).log, o.HasDevice := by
  rw [ecmIncomingAttempt]
  split_ifs
  · exact hlog
  · exact List.forall_mem_append.mpr ⟨hlog, List.forall_mem_singleton.mpr hpdev⟩

lemma hasDevice_clearBusy (hlog : ∀ o ∈ tx.log, o.HasDevice) :
    ∀ o ∈ (clearBusy tx).log, o.HasDevice := by
  rw [clearBusy]
  split_ifs
  · exact List.forall_mem_append.mpr ⟨hlog, List.forall_mem_singleton.mpr trivial⟩
  · exact hlog

lemma hasDevice_countBusy (hlog : ∀ o ∈ tx.log, o.HasDevice) :
    ∀ o ∈ (countBusy tx).log, o.HasDevice := by
  obtain ⟨heq, -⟩ | ⟨heq, -⟩ | ⟨heq, -⟩ := @countBusy_cases tx
  · rw [heq]
    exact hlog
  · rw [heq]
    exact hasDevice_clearBusy hlog
  · rw [heq]
    exact hlog

lemma hasDevice_dataIn {k : ℕ} (hpdev : h.registeredPdev = true)
    (hlog : ∀ o ∈ tx.log, o.HasDevice) : ∀ o ∈ (usbdEcmDataIn h k tx).log, o.HasDevice :=
  hasDevice_attempt hpdev
    (hasDevice_clearBusy (List.forall_mem_append.mpr ⟨hlog, List.forall_mem_singleton.mpr trivial⟩))

lemma DevicePresent.init {s : Ecm} (hs : DevicePresent s) : DevicePresent (usbdEcmInit s) :=
  ⟨@hasDevice_renew _ { s.rx with outEp := _ } rfl hs.1,
    List.forall_mem_append.mpr ⟨hs.2, List.forall_mem_singleton.mpr trivial⟩⟩

/-- A start of frame is handled with a device. -/
lemma DevicePresent.sof {s : Ecm} (hpdev : s.handle.registeredPdev = true)
    (hs : DevicePresent s) : DevicePresent (usbdEcmSof s) := by
  refine ⟨?_, hasDevice_attempt hpdev (hasDevice_countBusy
    (List.forall_mem_append.mpr ⟨hs.2, List.forall_mem_singleton.mpr trivial⟩))⟩
  simp only [usbdEcmSof]
  split_ifs
  · exact hasDevice_renew hpdev hs.1
  · exact hs.1

/-- `service_traffic` calls the layer below in one place, without a look at
`registered_pdev`. -/
lemma devicePresent_traffic {pc : MainPc} {s : Ecm} (hs : DevicePresent s) :
    DevicePresent (serviceTraffic pc s).2 ↔
      (pc = .renew → s.handle.registeredPdev = true) := by
  have hconcat : ∀ o : RxObs, (∀ x ∈ s.rx.log ++ [o], x.HasDevice) ↔ o.HasDevice :=
    fun o => ⟨fun h => h o (by simp),
      fun ho => List.forall_mem_append.mpr ⟨hs.1, List.forall_mem_singleton.mpr ho⟩⟩
  cases pc with
  | renew =>
      constructor
      · intro h _
        exact (hconcat _).mp h.1
      · intro h
        exact ⟨(hconcat _).mpr (h rfl), hs.2⟩
  | idle =>
      refine iff_of_true ?_ (fun h => (by cases h))
      rw [serviceTraffic]
      cases s.rx.receivedFrame <;> exact hs
  | prepared =>
      refine iff_of_true ?_ (fun h => (by cases h))
      rw [serviceTraffic]
      split_ifs <;> exact hs
  | taken | store =>
      exact iff_of_true ⟨(hconcat _).mpr trivial, hs.2⟩ (fun h => (by cases h))
  | inside | returned | locked | validated => exact iff_of_true hs (fun h => (by cases h))

lemma hasDevice_xmit {pc : XmitPc} (hlog : ∀ o ∈ tx.log, o.HasDevice) :
    ∀ o ∈ (usbEcmXmitPacket h pc tx).2.log, o.HasDevice := by
  rcases usbEcmXmitPacket_log h pc tx with heq | ⟨p, heq⟩ <;> rw [heq]
  · exact hlog
  · exact List.forall_mem_append.mpr ⟨hlog, List.forall_mem_singleton.mpr trivial⟩

end Present

/-! ### The invariant -/

/-- `registered_pdev` follows the calls of the class, and before the first of them nothing can
arrive. -/
structure CoreInv (s : Usbd) : Prop where
  registered : s.firmware.ecm.handle.registeredPdev = true ↔ s.classCalls.getLast? = some .init
  configured : s.devState = .configured → s.classCalls.getLast? = some .init
  fresh : s.classCalls = [] → s.firmware.main = .idle ∧
    s.firmware.ecm.rx.receivedFrame = none ∧ s.firmware.ecm.rx.outEp.valid = false

/-- `service_traffic` reaches `usb_ecm_recv_renew` when the last call of the class was a
`DeInit`. -/
def RenewsAfterDeInit (s : Usbd) (e : UsbEvent) : Prop :=
  e = .firmware .traffic ∧ s.firmware.main = .renew ∧ s.classCalls.getLast? = some .deInit

section Steps

variable {s : Usbd}

lemma coreInv_setClassConfig (d : DevState) (n : ℕ) :
    CoreInv (usbdSetClassConfig { s with devConfig := n, devState := d }) where
  registered := by simp [usbdSetClassConfig, usbdEcmInit]
  configured := fun _ => by simp [usbdSetClassConfig]
  fresh := fun h => by simp [usbdSetClassConfig] at h

lemma coreInv_clrClassConfig {d : DevState} (hd : d ≠ .configured) (n : ℕ) :
    CoreInv (usbdClrClassConfig { s with devState := d, devConfig := n }) where
  registered := by simp [usbdClrClassConfig, usbdEcmDeInit]
  configured := fun h => absurd h hd
  fresh := fun h => by simp [usbdClrClassConfig] at h

lemma CoreInv.setConfig (hinv : CoreInv s) (wValue : ℕ) : CoreInv (usbdSetConfig s wValue) := by
  rcases usbdSetConfig_cases s wValue with h | ⟨n, h⟩ | ⟨n, h⟩ | ⟨n, -, h⟩ <;> rw [h]
  · exact hinv
  · exact coreInv_setClassConfig _ n
  · exact coreInv_clrClassConfig (fun h => (by cases h)) n
  · exact coreInv_setClassConfig (s := usbdClrClassConfig s) s.devState n

lemma CoreInv.setAddress (hinv : CoreInv s) (wValue wIndex wLength : ℕ) :
    CoreInv (usbdSetAddress s wValue wIndex wLength) := by
  rcases usbdSetAddress_cases s wValue wIndex wLength with h | ⟨d, hd, h⟩ <;> rw [h]
  · exact hinv
  · exact ⟨hinv.registered, fun h => absurd h hd, hinv.fresh⟩

lemma CoreInv.reset (hinv : CoreInv s) : CoreInv (usbdLlReset s) where
  registered := hinv.registered
  configured := fun h => (by cases h)
  fresh := fun h => ⟨(hinv.fresh h).1, (hinv.fresh h).2.1, rfl⟩

/-- The firmware alone does not change `registered_pdev`. -/
lemma step_registeredPdev {f g : Firmware} {e : Event} (hi : e ≠ .init) (hd : e ≠ .deInit)
    (h : step f e = some g) :
    g.ecm.handle.registeredPdev = f.ecm.handle.registeredPdev := by
  cases e with
  | init => exact absurd rfl hi
  | deInit => exact absurd rfl hd
  | dataOut c alloc =>
      obtain ⟨-, rfl⟩ := step_dataOut h
      rfl
  | dataIn | sof =>
      cases h
      rfl
  | traffic =>
      obtain ⟨-, rfl⟩ := step_traffic h
      cases hpc : f.main with
      | idle => simp only [serviceTraffic]; split <;> rfl
      | prepared => simp only [serviceTraffic]; split_ifs <;> rfl
      | _ => rfl
  | xmitCall p =>
      obtain ⟨-, -, rfl⟩ := step_xmitCall h
      rfl
  | xmitStep =>
      obtain ⟨-, rfl⟩ := step_xmitStep h
      rfl

/-- Before the first configuration the main loop finds nothing to do. -/
lemma CoreInv.fresh_step {e : Event} {f : Firmware} (hinv : CoreInv s)
    (h : step s.firmware e = some f)
    (he : s.devState = .configured ∨ e = .traffic ∨ (∃ p, e = .xmitCall p) ∨ e = .xmitStep)
    (hnil : s.classCalls = []) :
    f.main = .idle ∧ f.ecm.rx.receivedFrame = none ∧ f.ecm.rx.outEp.valid = false := by
  obtain ⟨hmain, hmail, hv⟩ := hinv.fresh hnil
  rcases he with hc | rfl | ⟨p, rfl⟩ | rfl
  · have hlast := hinv.configured hc
    rw [hnil] at hlast
    cases hlast
  · obtain ⟨-, rfl⟩ := step_traffic h
    rw [hmain, serviceTraffic_empty hmail]
    exact ⟨rfl, hmail, hv⟩
  · obtain ⟨-, -, rfl⟩ := step_xmitCall h
    exact ⟨hmain, hmail, hv⟩
  · obtain ⟨-, rfl⟩ := step_xmitStep h
    exact ⟨hmain, hmail, hv⟩

lemma CoreInv.firmware {e : Event} {t : Usbd} (hinv : CoreInv s)
    (h : firmwareStep s e = some t) : CoreInv t := by
  rcases firmwareStep_cases h with ⟨f, hf, rfl, hi, hd, he⟩ | ⟨-, rfl | ⟨c, alloc, rfl, hv, rfl⟩⟩
  · refine ⟨?_, hinv.configured, hinv.fresh_step hf he⟩
    rw [step_registeredPdev hi hd hf]
    exact hinv.registered
  · exact hinv
  · refine ⟨hinv.registered, hinv.configured, fun hnil => ?_⟩
    exact absurd (hv.symm.trans (hinv.fresh hnil).2.2) (by simp)

/-- **A step of the firmware** in the core: the one call without a device. -/
lemma devicePresent_firmware {e : Event} {t : Usbd} (hinv : CoreInv s)
    (hs : DevicePresent s.firmware.ecm) (h : firmwareStep s e = some t) :
    DevicePresent t.firmware.ecm ↔ ¬ RenewsAfterDeInit s (.firmware e) := by
  have hother : e ≠ .traffic → ¬ RenewsAfterDeInit s (.firmware e) := fun hne hb =>
    hne (UsbEvent.firmware.inj hb.1)
  rcases firmwareStep_cases h with ⟨f, hf, rfl, hi, hd, he⟩ | ⟨hnot, htriv⟩
  · cases e with
    | init => exact absurd rfl hi
    | deInit => exact absurd rfl hd
    | traffic =>
        obtain ⟨-, rfl⟩ := step_traffic hf
        rw [devicePresent_traffic hs, hinv.registered]
        constructor
        · rintro hlast ⟨-, hpc, hde⟩
          exact absurd (hde.symm.trans (hlast hpc)) (by simp)
        · intro hkeep hpc
          -- the main loop has left `idle`, so the class was called before
          cases hlast : s.classCalls.getLast? with
          | none =>
              have hmain := (hinv.fresh (List.getLast?_eq_none_iff.mp hlast)).1
              exact absurd (hpc.symm.trans hmain) (by simp)
          | some call =>
              cases call with
              | init => rfl
              | deInit => exact absurd ⟨rfl, hpc, hlast⟩ hkeep
    | dataOut c alloc =>
        obtain ⟨-, rfl⟩ := step_dataOut hf
        have hpdev := hinv.registered.mpr (hinv.configured (by simpa using he))
        exact iff_of_true ⟨hasDevice_dataOut hpdev hs.1, hs.2⟩ (hother (by simp))
    | dataIn k =>
        cases hf
        have hpdev := hinv.registered.mpr (hinv.configured (by simpa using he))
        exact iff_of_true ⟨hs.1, hasDevice_dataIn hpdev hs.2⟩ (hother (by simp))
    | sof =>
        cases hf
        have hpdev := hinv.registered.mpr (hinv.configured (by simpa using he))
        exact iff_of_true (hs.sof hpdev) (hother (by simp))
    | xmitCall p =>
        obtain ⟨-, -, rfl⟩ := step_xmitCall hf
        exact iff_of_true hs (hother (by simp))
    | xmitStep =>
        obtain ⟨-, rfl⟩ := step_xmitStep hf
        exact iff_of_true ⟨hs.1, hasDevice_xmit hs.2⟩ (hother (by simp))
  · rcases htriv with rfl | ⟨c, alloc, rfl, -, rfl⟩
    · refine iff_of_true hs ?_
      rintro ⟨he, hpc, -⟩
      obtain rfl := UsbEvent.firmware.inj he
      obtain ⟨f, hf, hts⟩ := Option.map_eq_some_iff.mp h
      obtain ⟨-, rfl⟩ := step_traffic hf
      have hmain := congrArg (fun u => u.firmware.main) hts
      simp [hpc, serviceTraffic] at hmain
    · refine iff_of_true ⟨?_, hs.2⟩ (hother (by simp))
      simp only [pcdEpIsrOutUnconfigured]
      split_ifs <;> exact hasDevice_storeOut hs.1

end Steps

/-- **One step** keeps the invariant, and only the renewal after a `DeInit` has no device. -/
lemma coreInv_step {s t : Usbd} {e : UsbEvent} (hinv : CoreInv s)
    (hs : DevicePresent s.firmware.ecm) (hstep : coreStep s e = some t) :
    CoreInv t ∧ (DevicePresent t.firmware.ecm ↔ ¬ RenewsAfterDeInit s e) := by
  have hother : ∀ {e : UsbEvent}, e ≠ .firmware .traffic → ¬ RenewsAfterDeInit s e :=
    fun hne hb => hne hb.1
  cases e with
  | reset =>
      cases hstep
      exact ⟨hinv.reset, iff_of_true hs (hother (by simp))⟩
  | setAddress wValue wIndex wLength =>
      cases hstep
      refine ⟨hinv.setAddress wValue wIndex wLength, iff_of_true ?_ (hother (by simp))⟩
      rcases usbdSetAddress_cases s wValue wIndex wLength with h | ⟨d, -, h⟩ <;> rw [h] <;>
        exact hs
  | setConfig wValue =>
      cases hstep
      refine ⟨hinv.setConfig wValue, iff_of_true ?_ (hother (by simp))⟩
      rcases usbdSetConfig_cases s wValue with h | ⟨n, h⟩ | ⟨n, h⟩ | ⟨n, -, h⟩ <;> rw [h]
      · exact hs
      · exact hs.init
      · exact hs
      · exact DevicePresent.init (s := usbdEcmDeInit s.firmware.ecm) hs
  | firmware e => exact ⟨hinv.firmware hstep, devicePresent_firmware hinv hs hstep⟩

lemma coreInv_initial : CoreInv Usbd.initial where
  registered := by decide
  configured := fun h => (by cases h)
  fresh := fun _ => ⟨rfl, rfl, rfl⟩

/-- **No call without a device.**  Starting before the first configuration, for every order of USB
events and steps of the main loop: in every state reached, every `USBD_LL_PrepareReceive` and
`USBD_LL_Transmit` of the driver was called with `registered_pdev` set, if and only if
`service_traffic` never reaches `usb_ecm_recv_renew` after a `DeInit` and before the next
`Init`. -/
theorem device_present_iff (es : List UsbEvent) :
    (∀ s, Visits coreStep Usbd.initial es s → DevicePresent s.firmware.ecm) ↔
      ∀ s e, Takes coreStep Usbd.initial es s e → ¬ RenewsAfterDeInit s e :=
  visits_iff_takes (P := fun _ => True) (I := CoreInv)
    (fun _ _ _ _ hinv hs hstep => coreInv_step hinv hs hstep) (fun _ _ => trivial)
    coreInv_initial ⟨fun o ho => (by cases ho), fun o ho => (by cases ho)⟩

/-- A frame is in the mailbox when the host deconfigures the device; `service_traffic` takes it
and renews the endpoint. -/
def deconfiguredInService : List UsbEvent :=
  [.reset, .setAddress 5 0 0, .setConfig 1, .firmware (.dataOut one true),
    .setConfig 0, .firmware .traffic, .firmware .traffic, .firmware .traffic, .firmware .traffic,
    .firmware .traffic]

/-- `USBD_LL_PrepareReceive` is called with `NULL`, which it dereferences. -/
theorem device_missing :
    ∃ s, run coreStep Usbd.initial deconfiguredInService = some s ∧
      .prepareReceive false ∈ s.firmware.ecm.rx.log ∧ ¬ DevicePresent s.firmware.ecm := by
  refine ⟨_, rfl, by decide, fun h => ?_⟩
  exact absurd (h.1 (.prepareReceive false) (by decide)) (by simp [RxObs.HasDevice])

end Stm32Ecm
