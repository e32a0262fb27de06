import Stm32Ecm.Usb.Transfer

/-!
Runs of the device with its control endpoint.

* `control_faults_iff`: the accesses outside of the tables of endpoints, and the writes through
  `NULL`;
* `control_refines_core`: seen from the core, a run of the device is a run of `coreStep`;
* `address_assigned`: the address of a `SET_ADDRESS` is applied with its status packet;
* `address_after_reset`: the address after a bus reset, with the lock held and with an address that
  was not applied yet.
-/

namespace Stm32Ecm

open Transition

variable {deviceserial : UInt32} {s t u : Control} {es es' : List CtlEvent}

/-! ### Faults -/

/-- The step reaches for an endpoint outside of the tables, or stores bytes through `NULL`. -/
def Faults (s : Control) : CtlEvent → Prop
  | .setup _ psetup => LeavesTable s (usbdParseSetupRequest psetup)
  | .dataOut _ data => data ≠ []
  | _ => False

/-- What a step does to `fault`. -/
lemma fault_step {e : CtlEvent} (hinv : ControlInv s)
    (h : controlStep deviceserial s e = some t) : t.fault = false ↔ ¬ Faults s e := by
  cases e with
  | reset =>
      obtain ⟨hf, rfl⟩ := controlStep_reset h
      refine iff_of_true ?_ id
      simp only [pcdIrqReset, halPcdSetAddress]
      split_ifs <;> exact hf
  | setup addr psetup =>
      obtain ⟨hf, -, -, ht⟩ := controlStep_setup h
      obtain ⟨v, heff, hgives⟩ := @setup_effect deviceserial
        (s.setupReceived psetup) _ psetup hinv.strDesc rfl
      rw [← ht] at hgives
      obtain ⟨st, tl, rl, xb, xl, p, n, tx, rx, rfl⟩ := hgives.eq
      have hfault : v.fault = true ↔ Faults s (.setup addr psetup) :=
        heff.fault.trans (or_iff_right fun hbefore => absurd (hbefore.symm.trans hf) (by simp))
      rw [← hfault]
      exact Bool.not_eq_true _ |>.symm.to_iff
  | dataIn addr =>
      obtain ⟨hf, -, -, rfl⟩ := controlStep_dataIn h
      refine iff_of_true ?_ id
      obtain ⟨st, dl, rl, xb, xl, p, n, tx, rx, rc, heq | ⟨heq, -⟩⟩ :=
        pcdEp0IsrIn_cases { s with txStat := .nak }
      all_goals
        rw [heq]
        exact hf
  | dataOut addr data =>
      obtain ⟨hf, -, -, -, rfl⟩ := controlStep_dataOut h
      rw [pcdEp0IsrOut, Faults]
      by_cases hd : data = []
      · subst hd
        exact iff_of_true hf (by simp)
      · have hlen : data.length ≠ 0 := fun h0 => hd (List.length_eq_zero_iff.mp h0)
        rw [if_pos hlen]
        exact iff_of_false (by simp) (by simp [hd])
  | resubmit len =>
      obtain ⟨hf, rfl⟩ := controlStep_resubmit h
      obtain ⟨p, b, c, heq⟩ := pcdDataInResubmit_eq s len
      rw [heq]
      exact iff_of_true hf id
  | firmware e =>
      obtain ⟨hf, u, -, rfl⟩ := controlStep_firmware h
      obtain ⟨p, b, c, heq, -⟩ := firmwareUpdate_eq s e u
      rw [heq]
      exact iff_of_true hf id

/-- **Memory safety of the control endpoint.**  A run of the device makes no access outside of the
tables of endpoints and no write through `NULL` exactly when it takes no request of `LeavesTable`,
and no packet with bytes on endpoint 0. -/
theorem control_faults_iff :
    (∀ t, Visits (controlStep deviceserial) Control.initial es t → t.fault = false) ↔
      ∀ t e, Takes (controlStep deviceserial) Control.initial es t e → ¬ Faults t e :=
  visits_iff_takes (I := ControlInv) (P := fun _ => True)
    (fun _ _ _ _ hinv _ h => ⟨hinv.step h, fault_step hinv h⟩) (fun _ _ => trivial)
    controlInv_initial rfl

/-! ### The core -/

/-- The request as an event of the core. -/
def requestEvents (req : SetupReq) : List UsbEvent :=
  match req.bmRequest % 32, req.bRequest with
  | 0, 5 => [.setAddress req.wValue req.wIndex req.wLength]
  | 0, 9 => [.setConfig req.wValue]
  | _, _ => []

/-- What the core sees of a step. -/
def coreEvents (_ : Control) : CtlEvent → List UsbEvent
  | .reset => [.reset]
  | .setup _ psetup => requestEvents (usbdParseSetupRequest psetup)
  | .dataIn _ => []
  | .dataOut _ _ => []
  | .resubmit _ => []
  | .firmware e => [.firmware e]

lemma run_requestEvents (req : SetupReq) (u : Usbd) :
    run coreStep u (requestEvents req) = some (coreRequest req u) := by
  by_cases h5 : req.bmRequest % 32 = 0 ∧ req.bRequest = 5
  · simp only [requestEvents, coreRequest, h5.1, h5.2]
    rfl
  by_cases h9 : req.bmRequest % 32 = 0 ∧ req.bRequest = 9
  · simp only [requestEvents, coreRequest, h9.1, h9.2]
    rfl
  have hevents : requestEvents req = [] := by
    rw [requestEvents]
    split
    · exact absurd ⟨‹_›, ‹_›⟩ h5
    · exact absurd ⟨‹_›, ‹_›⟩ h9
    · rfl
  have hcore : coreRequest req u = u := by
    rw [coreRequest]
    split
    · exact absurd ⟨‹_›, ‹_›⟩ h5
    · exact absurd ⟨‹_›, ‹_›⟩ h9
    · rfl
  rw [hevents, hcore, run_nil]

/-- No request about one of the bulk endpoints. -/
def CtlEvent.SparesBulk : CtlEvent → Prop
  | .setup _ psetup => ¬ IsBulkRequest (usbdParseSetupRequest psetup)
  | _ => True

lemma core_step {e : CtlEvent} (hinv : ControlInv s) (he : e.SparesBulk)
    (h : controlStep deviceserial s e = some t) :
    run coreStep s.usbd (coreEvents s e) = some t.usbd := by
  cases e with
  | reset =>
      obtain ⟨-, rfl⟩ := controlStep_reset h
      simp only [pcdIrqReset, halPcdSetAddress]
      split_ifs <;> rfl
  | setup addr psetup =>
      obtain ⟨-, -, -, ht⟩ := controlStep_setup h
      obtain ⟨v, heff, hgives⟩ := @setup_effect deviceserial
        (s.setupReceived psetup) _ psetup hinv.strDesc rfl
      rw [← ht] at hgives
      obtain ⟨st, tl, rl, xb, xl, p, n, tx, rx, rfl⟩ := hgives.eq
      have hu : v.usbd = coreRequest (usbdParseSetupRequest psetup) s.usbd := heff.usbd he
      simp only [hu]
      exact run_requestEvents _ _
  | dataIn addr =>
      obtain ⟨-, -, -, rfl⟩ := controlStep_dataIn h
      obtain ⟨st, dl, rl, xb, xl, p, n, tx, rx, rc, heq | ⟨heq, -⟩⟩ :=
        pcdEp0IsrIn_cases { s with txStat := .nak }
      all_goals
        rw [heq]
        rfl
  | dataOut addr data =>
      obtain ⟨-, -, -, -, rfl⟩ := controlStep_dataOut h
      rw [pcdEp0IsrOut]
      split_ifs <;> rfl
  | resubmit len =>
      obtain ⟨-, rfl⟩ := controlStep_resubmit h
      obtain ⟨p, b, c, heq⟩ := pcdDataInResubmit_eq s len
      rw [heq]
      rfl
  | firmware e =>
      obtain ⟨-, u, hu, rfl⟩ := controlStep_firmware h
      obtain ⟨p, b, c, heq, -⟩ := firmwareUpdate_eq s e u
      rw [heq]
      exact run_cons_eq_some.mpr ⟨u, hu, rfl⟩

/-- **The device refines its core.**  A run without requests about the bulk endpoints is, in what
the core sees of it, a run of `coreStep`, and it reaches the same core. -/
theorem control_refines_core (hes : ∀ e ∈ es, e.SparesBulk)
    (hs : run (controlStep deviceserial) Control.initial es = some s) :
    run coreStep Usbd.initial
      (observed (controlStep deviceserial) coreEvents Control.initial es) = some s.usbd := by
  have hboth : ControlInv s ∧ run coreStep Usbd.initial
      (observed (controlStep deviceserial) coreEvents Control.initial es) = some s.usbd := by
    refine run_observed (P := CtlEvent.SparesBulk)
      (I := fun bs v => ControlInv v ∧ run coreStep Usbd.initial bs = some v.usbd)
      ⟨controlInv_initial, rfl⟩ ?_ hes hs
    rintro bs e v w he ⟨hv, hbs⟩ hstep
    exact ⟨hv.step hstep, run_append_eq_some.mpr ⟨v.usbd, hbs, core_step hv he hstep⟩⟩
  exact hboth.2

/-- The core of a device that is configured. -/
theorem control_refines_core_configured : ∃ s,
    run (controlStep 7) Control.initial
        [.reset, .setup 0 setAddressRequest, .dataIn 0, .setup 5 setConfigRequest] = some s ∧
      run coreStep Usbd.initial (observed (controlStep 7) coreEvents Control.initial
        [.reset, .setup 0 setAddressRequest, .dataIn 0, .setup 5 setConfigRequest]) =
        some s.usbd ∧
      s.usbd.devState = .configured := by
  refine ⟨_, rfl, control_refines_core ?_ rfl, rfl⟩
  have hdevice : ∀ addr psetup, (usbdParseSetupRequest psetup).bmRequest % 32 = 0 →
      (CtlEvent.setup addr psetup).SparesBulk := fun addr psetup h0 hbulk => by
    have h2 := hbulk.1
    omega
  exact List.forall_mem_cons.mpr ⟨trivial, List.forall_mem_cons.mpr ⟨hdevice _ _ rfl,
    List.forall_mem_cons.mpr ⟨trivial, List.forall_mem_singleton.mpr (hdevice _ _ rfl)⟩⟩⟩

/-! ### The address -/

/-- A `SET_ADDRESS` is answered with the status. -/
lemma SetsAddress.answer_eq {req : SetupReq} {a : ℕ} (h : SetsAddress s req a) :
    answer deviceserial s req = .status := by
  obtain ⟨hreq, hb, hi, hw, hs, -, -⟩ := h
  rw [answer, hreq]
  simp only [deviceAnswer, hb, hi, hw, hs, ne_eq, not_false_eq_true, and_self, if_true]

/-- The state of a `SET_ADDRESS` whose status packets that have gone are `bs`. -/
def Assigning (old : Option ℕ) (a : ℕ) (bs : List (List UInt8)) (s : Control) : Prop :=
  s.ep0State = .statusIn ∧ s.rxStat = .nak ∧
    (bs = [] ∧ s.txStat = .valid ∧ s.txCount = 0 ∧ s.xferLen = 0 ∧ s.daddr = old ∧
        s.usbAddress = a ∨
      bs = [[]] ∧ s.txStat = .nak ∧ s.daddr = some a ∧ s.usbAddress = 0)

lemma Assigning.step {old : Option ℕ} {a : ℕ} {bs : List (List UInt8)} {e : CtlEvent}
    (ha : 0 < a) (h : Assigning old a bs s) (he : e.IsQuiet)
    (hstep : controlStep deviceserial s e = some t) : Assigning old a (bs ++ inPacket s e) t := by
  obtain ⟨hst, hrx, hcases⟩ := h
  cases e with
  | reset | setup => exact absurd he id
  | resubmit len =>
      obtain ⟨-, rfl⟩ := controlStep_resubmit hstep
      obtain ⟨p, b, c, heq⟩ := pcdDataInResubmit_eq s len
      rw [heq]
      refine ⟨hst, hrx, ?_⟩
      rw [show bs ++ inPacket s (.resubmit len) = bs from List.append_nil bs]
      exact hcases
  | firmware e =>
      obtain ⟨-, u, -, rfl⟩ := controlStep_firmware hstep
      obtain ⟨p, b, c, heq, -⟩ := firmwareUpdate_eq s e u
      rw [heq]
      refine ⟨hst, hrx, ?_⟩
      rw [show bs ++ inPacket s (.firmware e) = bs from List.append_nil bs]
      exact hcases
  | dataOut addr data =>
      obtain ⟨-, -, hval, -⟩ := controlStep_dataOut hstep
      exact absurd (hrx.symm.trans hval) (by simp)
  | dataIn addr =>
      obtain ⟨-, -, hval, rfl⟩ := controlStep_dataIn hstep
      rcases hcases with ⟨rfl, -, hcount, hlen, hd, hua⟩ | ⟨-, hnak, -⟩
      · simp only [pcdEp0IsrIn, usbdLlDataInStage, hst, reduceCtorEq, if_false, hua, hlen, ha,
          gt_iff_lt, and_self, if_true, inPacket, packet_of_txCount hcount]
        exact ⟨rfl, hrx, Or.inr ⟨rfl, rfl, rfl, rfl⟩⟩
      · exact absurd (hnak.symm.trans hval) (by simp)

/-- **The address of a `SET_ADDRESS`**, other than 0.  Until the next `SETUP` packet or reset, the
device listens to the old address until the host has taken the status packet, and to the new one
from then on, whatever the main loop does meanwhile. -/
theorem address_assigned {addr a : ℕ} {psetup : List UInt8}
    (hs : run (controlStep deviceserial) Control.initial es = some s)
    (hset : SetsAddress s (usbdParseSetupRequest psetup) a) (ha : 0 < a)
    (ht : controlStep deviceserial s (.setup addr psetup) = some t)
    (hquiet : ∀ e ∈ es', e.IsQuiet) (hu : run (controlStep deviceserial) t es' = some u) :
    observed (controlStep deviceserial) inPacket t es' = [] ∧ u.daddr = some addr ∨
      observed (controlStep deviceserial) inPacket t es' = [[]] ∧ u.daddr = some a := by
  have hinv : ControlInv s := controlInv_initial.run hs
  obtain ⟨-, hd, -, htt⟩ := controlStep_setup ht
  obtain ⟨v, heff, hgives⟩ := @setup_effect deviceserial
    (s.setupReceived psetup) _ psetup hinv.strDesc rfl
  have hans : answer deviceserial (s.setupReceived psetup)
      (usbdParseSetupRequest psetup) = .status := hset.answer_eq
  obtain ⟨hvd, hva⟩ := heff.address a (by omega) hset
  have hfree : v.locked = false := heff.locked.trans hset.2.2.2.2.2.1
  rw [← htt, hans] at hgives
  have hstart : Assigning (some addr) a [] t := by
    cases hgives with
    | status =>
        rw [usbdCtlSendStatus_of_free hfree]
        exact ⟨rfl, heff.rxStat, Or.inl ⟨rfl, rfl, rfl, rfl, hvd.trans hd, hva⟩⟩
  have hend : Assigning (some addr) a
      (observed (controlStep deviceserial) inPacket t es') u :=
    run_observed (P := CtlEvent.IsQuiet) hstart
      (fun _ _ _ _ he hv hstep => hv.step ha he hstep) hquiet hu
  obtain ⟨-, -, ⟨hbs, -, -, -, hold, -⟩ | ⟨hbs, -, hnew, -⟩⟩ := hend
  · exact Or.inl ⟨hbs, hold⟩
  · exact Or.inr ⟨hbs, hnew⟩

/-- The first address of a device. -/
theorem address_assigned_five : ∃ u,
    run (controlStep 7) (Control.asked 7 Control.listening setAddressRequest) [.dataIn 0] =
        some u ∧
      (observed (controlStep 7) inPacket (Control.asked 7 Control.listening setAddressRequest)
          [.dataIn 0] = [] ∧ u.daddr = some 0 ∨
        observed (controlStep 7) inPacket (Control.asked 7 Control.listening setAddressRequest)
          [.dataIn 0] = [[]] ∧ u.daddr = some 5) := by
  have hset : SetsAddress Control.listening (usbdParseSetupRequest setAddressRequest) 5 :=
    ⟨rfl, rfl, rfl, rfl, by decide, rfl, rfl⟩
  have hu : run (controlStep 7) (Control.asked 7 Control.listening setAddressRequest)
      [.dataIn 0] = some _ := rfl
  exact ⟨_, hu, address_assigned listening_run hset (by decide) (listening_setup rfl)
    (List.forall_mem_singleton.mpr trivial) hu⟩

/-- The request is a reset or a `SET_ADDRESS` the device follows. -/
def Readdresses (s : Control) : CtlEvent → Prop
  | .reset => True
  | .setup _ psetup => ∃ a, SetsAddress s (usbdParseSetupRequest psetup) a
  | _ => False

/-- The address and the one that is not applied yet, without a request for another one. -/
lemma address_step {e : CtlEvent} (hinv : ControlInv s) (he : ¬ Readdresses s e)
    (hstep : controlStep deviceserial s e = some t) :
    t.daddr = s.daddr ∧ t.usbAddress = s.usbAddress ∨
      s.daddr ≠ none ∧ 0 < s.usbAddress ∧ t.daddr = some s.usbAddress ∧ t.usbAddress = 0 := by
  cases e with
  | reset => exact absurd trivial he
  | setup addr psetup =>
      obtain ⟨-, -, -, ht⟩ := controlStep_setup hstep
      obtain ⟨v, heff, hgives⟩ := @setup_effect deviceserial
        (s.setupReceived psetup) _ psetup hinv.strDesc rfl
      rw [← ht] at hgives
      obtain ⟨st, tl, rl, xb, xl, p, n, tx, rx, rfl⟩ := hgives.eq
      exact Or.inl (heff.keepsAddress fun a ha => he ⟨a, ha⟩)
  | dataIn addr =>
      obtain ⟨-, hd, -, rfl⟩ := controlStep_dataIn hstep
      obtain ⟨st, dl, rl, xb, xl, p, n, tx, rx, rc, heq | ⟨heq, hpos⟩⟩ :=
        pcdEp0IsrIn_cases { s with txStat := .nak }
      · rw [heq]
        exact Or.inl ⟨rfl, rfl⟩
      · rw [heq]
        exact Or.inr ⟨by rw [hd]; simp, hpos, rfl, rfl⟩
  | dataOut addr data =>
      obtain ⟨-, -, -, -, rfl⟩ := controlStep_dataOut hstep
      rw [pcdEp0IsrOut]
      split_ifs <;> exact Or.inl ⟨rfl, rfl⟩
  | resubmit len =>
      obtain ⟨-, rfl⟩ := controlStep_resubmit hstep
      obtain ⟨p, b, c, heq⟩ := pcdDataInResubmit_eq s len
      rw [heq]
      exact Or.inl ⟨rfl, rfl⟩
  | firmware e =>
      obtain ⟨-, u, -, rfl⟩ := controlStep_firmware hstep
      obtain ⟨p, b, c, heq, -⟩ := firmwareUpdate_eq s e u
      rw [heq]
      exact Or.inl ⟨rfl, rfl⟩

/-- The address is written last, unless the lock is held. -/
lemma pcdIrqReset_address (s : Control) :
    (pcdIrqReset s).daddr = (if s.locked then none else some 0) ∧
      (pcdIrqReset s).usbAddress = s.usbAddress := by
  cases hl : s.locked <;>
    simp only [pcdIrqReset, halPcdSetAddress, Control.locked, usbdLlReset] at hl ⊢ <;> simp [hl]

/-- **The address after a bus reset.**  Until the next reset or `SET_ADDRESS`: if the main loop held
the lock at the reset, the device does not listen at all.  Otherwise it listens to the address 0,
unless the status packet of a `SET_ADDRESS` before the reset had not gone: that address is still
there, and the end of some other transfer may apply it. -/
theorem address_after_reset (hs : run (controlStep deviceserial) Control.initial es = some s)
    (ht : controlStep deviceserial s .reset = some t)
    (hkeep : ∀ v e, Takes (controlStep deviceserial) t es' v e → ¬ Readdresses v e)
    (hu : run (controlStep deviceserial) t es' = some u) :
    (s.locked = true → u.daddr = none) ∧
      (s.locked = false → s.usbAddress = 0 → u.daddr = some 0) ∧
      (s.locked = false → u.daddr = some 0 ∧ u.usbAddress = s.usbAddress ∨
        0 < s.usbAddress ∧ u.daddr = some s.usbAddress ∧ u.usbAddress = 0) := by
  have hinv : ControlInv t := (controlInv_initial.run hs).step ht
  obtain ⟨-, rfl⟩ := controlStep_reset ht
  cases hl : s.locked with
  | true =>
      have hstart : (pcdIrqReset s).daddr = none := by
        rw [(pcdIrqReset_address s).1, if_pos hl]
      have hdeaf : ControlInv u ∧ u.daddr = none := by
        refine run_invariant_of_takes (I := fun v => ControlInv v ∧ v.daddr = none) ?_ hkeep
          ⟨hinv, hstart⟩ hu
        rintro v e w ⟨hv, hd⟩ he hstep
        rcases address_step hv he hstep with ⟨hw, -⟩ | ⟨hne, -⟩
        · exact ⟨hv.step hstep, hw.trans hd⟩
        · exact absurd hd hne
      exact ⟨fun _ => hdeaf.2, fun h => absurd h (by simp), fun h => absurd h (by simp)⟩
  | false =>
      have hstart : (pcdIrqReset s).daddr = some 0 ∧
          (pcdIrqReset s).usbAddress = s.usbAddress := by
        obtain ⟨hd, hua⟩ := pcdIrqReset_address s
        exact ⟨hd.trans (if_neg (by simp [hl])), hua⟩
      have haddress : ControlInv u ∧ (u.daddr = some 0 ∧ u.usbAddress = s.usbAddress ∨
          0 < s.usbAddress ∧ u.daddr = some s.usbAddress ∧ u.usbAddress = 0) := by
        refine run_invariant_of_takes (I := fun v => ControlInv v ∧
          (v.daddr = some 0 ∧ v.usbAddress = s.usbAddress ∨
            0 < s.usbAddress ∧ v.daddr = some s.usbAddress ∧ v.usbAddress = 0)) ?_ hkeep
          ⟨hinv, Or.inl hstart⟩ hu
        rintro v e w ⟨hv, hcases⟩ he hstep
        refine ⟨hv.step hstep, ?_⟩
        rcases address_step hv he hstep with ⟨hd, hua⟩ | ⟨-, hpos, hd, hua⟩
        · rw [hd, hua]
          exact hcases
        · -- an address is applied: the one that was left from before the reset
          rcases hcases with ⟨-, hold⟩ | ⟨-, -, hnone⟩
          · rw [hold] at hpos hd
            exact Or.inr ⟨hpos, hd, hua⟩
          · omega
      refine ⟨fun h => absurd h (by simp), fun _ hnone => ?_, fun _ => haddress.2⟩
      rcases haddress.2 with ⟨hd, -⟩ | ⟨hpos, -⟩
      · exact hd
      · omega

/-- The address 5 is applied after the reset, by the transfer of a descriptor. -/
theorem address_after_reset_five : ∃ s u,
    run (controlStep 7) Control.initial [.reset, .setup 0 setAddressRequest] = some s ∧
      run (controlStep 7) (pcdIrqReset s) [.setup 0 deviceRequest, .dataIn 0] = some u ∧
      u.daddr = some 5 ∧
      (s.locked = false → u.daddr = some 0 ∧ u.usbAddress = s.usbAddress ∨
        0 < s.usbAddress ∧ u.daddr = some s.usbAddress ∧ u.usbAddress = 0) := by
  have hkeep : ∀ v e, Takes (controlStep 7)
      (pcdIrqReset (Control.asked 7 Control.listening setAddressRequest))
      [.setup 0 deviceRequest, .dataIn 0] v e → ¬ Readdresses v e := by
    intro v e htakes
    rcases List.mem_pair.mp htakes.mem with rfl | rfl
    · rintro ⟨a, ha⟩
      exact absurd ha.2.1 (by decide)
    · exact id
  have hs : run (controlStep 7) Control.initial [.reset, .setup 0 setAddressRequest] =
      some (Control.asked 7 Control.listening setAddressRequest) := rfl
  have hu : run (controlStep 7)
      (pcdIrqReset (Control.asked 7 Control.listening setAddressRequest))
      [.setup 0 deviceRequest, .dataIn 0] = some _ := rfl
  exact ⟨_, _, hs, hu, rfl, (address_after_reset hs rfl hkeep hu).2.2⟩

end Stm32Ecm
