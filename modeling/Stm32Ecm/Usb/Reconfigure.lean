import Stm32Ecm.Usb.Core
import Stm32Ecm.Usb.Drop

/-!
`USBD_ECM_Init` in the middle of something.  It arms the endpoint at `ecm_rx_index` and leaves
`ecm_rx_index`, the mailbox and the main loop as they are: what was accumulated of a frame before
becomes the beginning of the next one, a frame still in service lets `service_traffic` renew an
endpoint that is armed already, and a renewal that meets the lock is refused and forgotten.

* `Brings`: a run that brings given chunks;
* `FreshStart`: after an `Init` in this state the first frame of the host can arrive, from wherever
  it has been begun, and is passed to `usb_ecm_recv_callback` with its own bytes and length,
  whatever the interleaving;
* `StartsClean`: nothing is accumulated and no frame is in the mailbox or in service;
* `Ready`: the receiver of a clean start, armed until the frame is complete;
* `Starved`: nothing arrives any more;
* `fresh_start_iff`: in every reachable state the property and the condition agree.
-/

namespace Stm32Ecm

open Transition Framing

/-! ### The property and the condition -/

/-- The firmware right after `USBD_ECM_Init`. -/
def Firmware.reinit (s : Firmware) : Firmware := { s with ecm := usbdEcmInit s.ecm }

/-- Some run of the configured device leads from `s` to `t` and brings the chunks `cs`. -/
def Brings (s : Firmware) (cs : List (List UInt8)) (t : Firmware) : Prop :=
  ∃ es, (∀ e ∈ es, e.Configured) ∧ (arrivals s es).map Arrival.bytes = cs ∧
    run step s es = some t

/-- After an `Init`, whatever initial part of the frame `f` an interleaving has brought, the chunks
`cs` that are left of it can still arrive. -/
def Arrives (s : Firmware) (f : EthernetFrame) : Prop :=
  ∀ (es : List Event) (cs : List (List UInt8)) (t : Firmware),
    (∀ e ∈ es, e.Configured) →
    (arrivals s.reinit es).map Arrival.bytes ++ cs = framed ecmDataOutSz f.bytes →
    run step s.reinit es = some t → ∃ u, Brings t cs u

/-- After an `Init`, in every interleaving in which the host sends the frame `f` and the chunk `c`
closes it: `usb_ecm_recv_callback` is called once, for the length of `f`, and `ecm_rx_buffer`
holds the bytes of `f`. -/
def PassedOn (s : Firmware) (f : EthernetFrame) : Prop :=
  ∀ (es : List Event) (c : OutPacket) (alloc : Bool) (t : Firmware),
    (∀ e ∈ es, e.Configured) →
    (arrivals s.reinit (es ++ [.dataOut c alloc])).map Arrival.bytes =
      framed ecmDataOutSz f.bytes →
    run step s.reinit (es ++ [.dataOut c alloc]) = some t →
    callbackSizes t.ecm.rx.log = callbackSizes s.ecm.rx.log ++ [f.bytes.length] ∧
      Memory.read t.ecm.rx.ecmRxBuffer 0 f.bytes.length = f.bytes

/-- After an `Init`, the first frame of the host arrives and is passed on as it was sent. -/
def FreshStart (s : Firmware) : Prop := ∀ f : EthernetFrame, Arrives s f ∧ PassedOn s f

/-- Nothing is accumulated, and no frame is in the mailbox or in service. -/
def StartsClean (s : Firmware) : Prop :=
  (s.main = .idle ∨ s.main = .store .ok) ∧ s.ecm.rx.receivedFrame = none ∧
    s.ecm.rx.ecmRxIndex = 0

/-! ### Runs that bring chunks -/

section Brings

variable {s t u : Firmware} {cs cs' : List (List UInt8)}

lemma Brings.refl : Brings s [] s := ⟨[], fun e he => (by cases he), rfl, rfl⟩

lemma Brings.trans (h : Brings s cs t) (h' : Brings t cs' u) : Brings s (cs ++ cs') u := by
  obtain ⟨es, hes, rfl, hrun⟩ := h
  obtain ⟨es', hes', rfl, hrun'⟩ := h'
  refine ⟨es ++ es', List.forall_mem_append.mpr ⟨hes, hes'⟩, ?_,
    run_append_eq_some.mpr ⟨t, hrun, hrun'⟩⟩
  rw [arrivals_append es' hrun, List.map_append]

lemma Brings.quiet (h : Brings s cs t) (h' : Brings t [] u) : Brings s cs u := by
  have htrans := h.trans h'
  rwa [List.append_nil] at htrans

lemma brings_of_step {e : Event} (he : e.Configured) (h : step s e = some t) :
    Brings s ((arrival s e).map Arrival.bytes) t := by
  refine ⟨[e], List.forall_mem_singleton.mpr he, ?_, run_cons_eq_some.mpr ⟨t, h, rfl⟩⟩
  rw [arrivals, observed_cons h, observed, List.append_nil]

lemma brings_dataOut (c : OutPacket) (alloc : Bool) (hv : s.ecm.rx.outEp.valid = true) :
    Brings s [c.bytes] { s with
      ecm := { s.ecm with rx := pcdEpIsrOut s.ecm.handle c alloc s.ecm.rx } } :=
  brings_of_step (e := .dataOut c alloc) trivial (by rw [step, if_pos hv])

lemma brings_traffic (hx : s.xmit = .out) :
    Brings s [] { s with
      main := (serviceTraffic s.main s.ecm).1, ecm := (serviceTraffic s.main s.ecm).2 } :=
  brings_of_step (e := .traffic) trivial (by rw [step, if_pos hx])

end Brings

/-! ### The lock in every reachable state -/

/-- The lock is the main loop's own, and its renewals are accepted. -/
structure MainInv (s : Firmware) : Prop where
  lock : s.ecm.handle.hpcdLock = s.main.holdsLock
  outcome : ∀ r, s.main = .store r → r = .ok

lemma MainInv.traffic {pc : MainPc} {s : Ecm} {xmit : XmitPc} (hinv : MainInv ⟨s, pc, xmit⟩) :
    MainInv ⟨(serviceTraffic pc s).2, (serviceTraffic pc s).1, xmit⟩ := by
  obtain ⟨hlock, hout⟩ := hinv
  cases pc with
  | idle =>
      cases hmail : s.rx.receivedFrame with
      | none =>
          rw [serviceTraffic_empty hmail]
          exact ⟨hlock, hout⟩
      | some frame =>
          rw [serviceTraffic_take hmail]
          exact ⟨hlock, fun r h => (by cases h)⟩
  | prepared =>
      rw [serviceTraffic_lock hlock]
      exact ⟨rfl, fun r h => (by cases h)⟩
  | validated => exact ⟨rfl, fun r h => (by cases h; rfl)⟩
  | taken | inside | returned | renew | locked | store =>
      exact ⟨hlock, fun r h => (by cases h)⟩

lemma MainInv.step {s t : Firmware} {e : Event} (hinv : MainInv s) (h : step s e = some t) :
    MainInv t := by
  cases e with
  | init | deInit | dataIn | sof =>
      cases h
      exact ⟨hinv.lock, hinv.outcome⟩
  | dataOut c alloc =>
      obtain ⟨-, rfl⟩ := step_dataOut h
      exact ⟨hinv.lock, hinv.outcome⟩
  | traffic =>
      obtain ⟨-, rfl⟩ := step_traffic h
      exact MainInv.traffic hinv
  | xmitCall p =>
      obtain ⟨-, -, rfl⟩ := step_xmitCall h
      exact ⟨hinv.lock, hinv.outcome⟩
  | xmitStep =>
      obtain ⟨-, rfl⟩ := step_xmitStep h
      exact ⟨hinv.lock, hinv.outcome⟩

/-- Whatever the host requests, the lock stays with the main loop. -/
lemma mainInv_coreStep {s t : Usbd} {e : UsbEvent} (hinv : MainInv s.firmware)
    (h : coreStep s e = some t) : MainInv t.firmware := by
  cases e with
  | reset =>
      cases h
      exact ⟨hinv.lock, hinv.outcome⟩
  | setAddress wValue wIndex wLength =>
      cases h
      rcases usbdSetAddress_cases s wValue wIndex wLength with h | ⟨d, -, h⟩ <;> rw [h] <;>
        exact hinv
  | setConfig wValue =>
      cases h
      rcases usbdSetConfig_cases s wValue with h | ⟨n, h⟩ | ⟨n, h⟩ | ⟨n, -, h⟩ <;> rw [h]
      · exact hinv
      all_goals exact ⟨hinv.lock, hinv.outcome⟩
  | firmware e =>
      rcases firmwareStep_cases h with ⟨f, hf, rfl, -⟩ | ⟨-, rfl | ⟨c, alloc, -, -, rfl⟩⟩
      · exact hinv.step hf
      · exact hinv
      · exact ⟨hinv.lock, hinv.outcome⟩

/-- **Every run** of the core. -/
lemma mainInv_run {es : List UsbEvent} {s : Usbd}
    (hrun : run coreStep Usbd.initial es = some s) : MainInv s.firmware :=
  run_invariant (I := fun s : Usbd => MainInv s.firmware) (P := fun _ => True)
    (fun _ _ _ _ hinv hstep => mainInv_coreStep hinv hstep) (fun _ _ => trivial)
    ⟨rfl, fun r h => (by cases h)⟩ hrun

/-! ### The condition is enough -/

section Clean

variable {s : Firmware}

@[simp] lemma callbackSizes_reinit :
    callbackSizes s.reinit.ecm.rx.log = callbackSizes s.ecm.rx.log :=
  @callbackSizes_renew _ { s.ecm.rx with outEp := _ }

@[simp] lemma reinit_xferBuff : s.reinit.ecm.rx.outEp.xferBuff = s.ecm.rx.ecmRxIndex :=
  @usbEcmRecvRenew_xferBuff _ { s.ecm.rx with outEp := _ }

@[simp] lemma reinit_xferCount : s.reinit.ecm.rx.outEp.xferCount = 0 :=
  @usbEcmRecvRenew_xferCount _ { s.ecm.rx with outEp := _ }

/-- The endpoint is opened with its packet size, locked or not. -/
@[simp] lemma reinit_maxpacket : s.reinit.ecm.rx.outEp.maxpacket = ecmDataOutSz := by
  cases hl : s.ecm.handle.hpcdLock <;>
    simp [Firmware.reinit, usbdEcmInit, usbEcmRecvRenew, halPcdEpOpenOut, hl]

/-- Unless the handle is locked, the endpoint is valid. -/
lemma reinit_valid :
    s.reinit.ecm.rx.outEp.valid = (!s.ecm.handle.hpcdLock || s.ecm.rx.outEp.valid) := by
  cases hl : s.ecm.handle.hpcdLock <;>
    simp [Firmware.reinit, usbdEcmInit, usbEcmRecvRenew, halPcdEpOpenOut, hl]

/-- A refused renewal leaves a whole packet to be received. -/
lemma reinit_xferLen :
    s.reinit.ecm.rx.outEp.xferLen = if s.ecm.handle.hpcdLock then ecmDataOutSz else 0 := by
  cases hl : s.ecm.handle.hpcdLock with
  | true => simp [Firmware.reinit, usbdEcmInit, usbEcmRecvRenew, halPcdEpOpenOut, hl]
  | false =>
      simp only [Firmware.reinit, usbdEcmInit, usbEcmRecvRenew, halPcdEpOpenOut, hl,
        usbdLlPrepareReceive_unlocked, PcdEp.setValid_xferLen]
      exact PcdEp.splitXfer_xferLen_of_le (Nat.le_refl _)

/-- The credit after an `Init` that finds the main loop free of a frame. -/
lemma creditInv_reinit (hinv : MainInv s) (hfree : s.main.Free)
    (harmed : s.reinit.ecm.rx.outEp.valid = true →
      s.ecm.rx.receivedFrame = none ∧ s.reinit.ecm.rx.outEp.xferLen = 0) :
    CreditInv s.reinit.main s.reinit.ecm.handle s.reinit.ecm.rx where
  lock := hinv.lock
  maxpacket := reinit_maxpacket
  armed := fun hv => ⟨(harmed hv).1, (harmed hv).2, hfree⟩
  mailbox := fun _ => hfree
  refused := fun h => (by cases h)
  prepared := fun h => absurd h hfree.ne_prepared.1
  locked := fun h => absurd h hfree.ne_prepared.2
  outcome := hinv.outcome

lemma arrivalInv_reinit (hfree : s.main.Free) (hidx : s.ecm.rx.ecmRxIndex = 0) :
    ArrivalInv (callbackSizes s.ecm.rx.log) [] s.reinit.main s.reinit.ecm.rx where
  index := hidx
  armed := fun _ => ⟨by rw [reinit_xferBuff, hidx]; rfl, reinit_xferCount⟩
  unarmed := fun _ => rfl
  prepared := fun hp => absurd hp hfree.not_renewing
  sizes := by rw [callbackSizes_reinit]; exact (List.append_nil _).symm

/-- The class and the layer below it store nothing but the packet. -/
lemma pcdEpIsrOut_ecmRxBuffer {h : UsbHandle} {c : OutPacket} {alloc : Bool} {rx : EcmRx} :
    (pcdEpIsrOut h c alloc rx).ecmRxBuffer = (storeOut c rx).ecmRxBuffer := by
  rw [pcdEpIsrOut]
  split_ifs
  · rw [usbdEcmDataOut]
    split_ifs
    · simp only [usbEcmRecvCallback]
      split_ifs <;> rfl
    · rfl
  · rfl

/-- A chunk that completes the first frame: it is short, and no frame was closed before. -/
lemma sent_of_framed {as : List Arrival} {a : Arrival} {f : List UInt8}
    (h : (as ++ [a]).map Arrival.bytes = framed ecmDataOutSz f) :
    sent (as ++ [a]) = ⟨[], [f]⟩ ∧ (sent as).done = [] ∧ (sent as).acc ++ a.bytes = f := by
  have hsent : sent (as ++ [a]) = ⟨[], [f]⟩ := by
    have hall := reassemble_framed (n := ecmDataOutSz) (by decide) [f]
    rwa [List.flatMap_singleton, ← h] at hall
  refine ⟨hsent, ?_⟩
  by_cases hlt : a.bytes.length < ecmDataOutSz
  · rw [sent_concat_of_lt hlt] at hsent
    have hdone : (sent as).done ++ [(sent as).acc ++ a.bytes] = [] ++ [f] :=
      congrArg Assembly.done hsent
    obtain ⟨h₁, h₂⟩ := List.append_inj' hdone rfl
    exact ⟨h₁, List.singleton_inj.mp h₂⟩
  · rw [sent_concat_of_le (Nat.not_lt.mp hlt)] at hsent
    have hacc : (sent as).acc ++ a.bytes = [] := congrArg Assembly.acc hsent
    rw [(List.append_eq_nil_iff.mp hacc).2] at hlt
    exact absurd (by decide) hlt

/-- As long as no frame is closed, none is dropped. -/
lemma not_drops_of_done_nil {as : List Arrival} (h : (sent as).done = []) :
    ∀ a ∈ as, ¬ a.Drops := by
  intro a ha hdrop
  have hlen : (closings as).length = 0 := by rw [length_closings, h, List.length_nil]
  have hmem : a ∈ closings as := List.mem_filter.mpr ⟨ha, decide_eq_true hdrop.1⟩
  rw [List.eq_nil_of_length_eq_zero hlen] at hmem
  cases hmem

/-- From a state in which the invariants of the receive path hold, the first frame is passed on
as it was sent. -/
lemma passedOn_of_inv (hcredit : CreditInv s.reinit.main s.reinit.ecm.handle s.reinit.ecm.rx)
    (harr : ArrivalInv (callbackSizes s.ecm.rx.log) [] s.reinit.main s.reinit.ecm.rx)
    (f : EthernetFrame) : PassedOn s f := by
  intro es c alloc t hes has hrun
  obtain ⟨u, hu, hstep⟩ := run_concat_eq_some.mp hrun
  obtain ⟨hcredit', harr'⟩ := arrivalInv_run hes hcredit harr hu
  obtain ⟨hv, rfl⟩ := step_dataOut hstep
  have hbuf : BufferInv (delivered s.reinit.ecm.rx.log ++ waiting s.reinit.main s.reinit.ecm.rx)
      [] s.reinit.main s.reinit.ecm.rx := ⟨rfl, (List.append_nil _).symm⟩
  rw [arrivals_concat hu hstep] at has
  obtain ⟨hsent, hdone, hacc⟩ := sent_of_framed has
  have hnone := not_drops_of_done_nil hdone
  refine ⟨?_, ?_⟩
  · have hsizes := (arrivalInv_step (e := .dataOut c alloc) trivial hcredit' harr' hstep).sizes
    rw [arrival, hsent] at hsizes
    exact hsizes
  · have hbuff : u.ecm.rx.outEp.xferBuff = u.ecm.rx.ecmRxIndex := by
      rw [(harr'.armed hv).1, dropped_eq_zero hnone, Nat.zero_add, harr'.index]
    have hread := @read_storeOut c u.ecm.rx hbuff
    rw [harr'.index, (bufferInv_run hes hcredit harr hbuf hu hnone).buffer] at hread
    have hlen : f.bytes.length = received (arrivals s.reinit es) + c.bytes.length := by
      rw [← hacc, List.length_append]
      rfl
    rw [pcdEpIsrOut_ecmRxBuffer, hlen, hread]
    exact hacc

/-- The endpoint is armed for one packet, the handle is free, and no frame is about. -/
structure Ready (s : Firmware) : Prop where
  main : s.main = .idle ∨ s.main = .store .ok
  lock : s.ecm.handle.hpcdLock = false
  mailbox : s.ecm.rx.receivedFrame = none
  maxpacket : s.ecm.rx.outEp.maxpacket = ecmDataOutSz
  valid : s.ecm.rx.outEp.valid = true
  xferLen : s.ecm.rx.outEp.xferLen = 0
  xferCount : s.ecm.rx.outEp.xferCount = 0

/-- An accepted renewal, whatever else the transmit path does meanwhile. -/
lemma Ready.renewed {rx : EcmRx} {tx : EcmTx} (hs : Ready s) (hmail : rx.receivedFrame = none)
    (hmax : rx.outEp.maxpacket = ecmDataOutSz) :
    Ready { s with ecm := { s.ecm with rx := usbEcmRecvRenew s.ecm.handle rx, tx := tx } } := by
  have harm := @armedAt_renewed rx.outEp rx.ecmRxIndex hmax
  rw [usbEcmRecvRenew_unlocked hs.lock]
  exact ⟨hs.main, hs.lock, hmail, by simpa using hmax, rfl, harm.xferLen, harm.xferCount⟩

/-- A full chunk leaves the receiver ready for the next one. -/
lemma Ready.dataOut {c : OutPacket} {alloc : Bool} (hs : Ready s)
    (hfull : ecmDataOutSz ≤ c.bytes.length) :
    Ready { s with
      ecm := { s.ecm with rx := pcdEpIsrOut s.ecm.handle c alloc s.ecm.rx } } := by
  rw [pcdEpIsrOut_full hs.xferLen hs.xferCount hfull]
  exact hs.renewed (storeOut_receivedFrame.trans hs.mailbox) (by simpa using hs.maxpacket)

lemma ready_step {t : Firmware} {e : Event} (he : e.Configured) (hs : Ready s)
    (hfull : ∀ c ∈ (arrival s e).map Arrival.bytes, ecmDataOutSz ≤ c.length)
    (h : step s e = some t) : Ready t := by
  cases e with
  | init | deInit => exact he.elim
  | dataOut c alloc =>
      obtain ⟨-, rfl⟩ := step_dataOut h
      exact hs.dataOut (hfull c.bytes (List.mem_singleton.mpr rfl))
  | dataIn k =>
      cases h
      exact ⟨hs.main, hs.lock, hs.mailbox, hs.maxpacket, hs.valid, hs.xferLen, hs.xferCount⟩
  | sof =>
      cases h
      cases hflag : s.ecm.rx.outboundTransferNeedsRenewal with
      | true =>
          simp only [usbdEcmSof, hflag, if_true]
          exact hs.renewed hs.mailbox hs.maxpacket
      | false =>
          have hrx : (usbdEcmSof s.ecm).rx = s.ecm.rx := by simp [usbdEcmSof, hflag]
          exact ⟨hs.main, hs.lock, by rw [hrx, hs.mailbox], by rw [hrx, hs.maxpacket],
            by rw [hrx, hs.valid], by rw [hrx, hs.xferLen], by rw [hrx, hs.xferCount]⟩
  | traffic =>
      obtain ⟨-, rfl⟩ := step_traffic h
      rcases hs.main with hpc | hpc
      · rw [hpc, serviceTraffic_empty hs.mailbox]
        exact ⟨Or.inl rfl, hs.lock, hs.mailbox, hs.maxpacket, hs.valid, hs.xferLen, hs.xferCount⟩
      · rw [hpc]
        exact ⟨Or.inl rfl, hs.lock, hs.mailbox, hs.maxpacket, hs.valid, hs.xferLen, hs.xferCount⟩
  | xmitCall p =>
      obtain ⟨-, -, rfl⟩ := step_xmitCall h
      exact ⟨hs.main, hs.lock, hs.mailbox, hs.maxpacket, hs.valid, hs.xferLen, hs.xferCount⟩
  | xmitStep =>
      obtain ⟨-, rfl⟩ := step_xmitStep h
      exact ⟨hs.main, hs.lock, hs.mailbox, hs.maxpacket, hs.valid, hs.xferLen, hs.xferCount⟩

/-- **Every run** that brings full chunks only. -/
lemma ready_run {t : Firmware} {es : List Event} (hes : ∀ e ∈ es, e.Configured) (hs : Ready s)
    (hfull : ∀ c ∈ (arrivals s es).map Arrival.bytes, ecmDataOutSz ≤ c.length)
    (h : run step s es = some t) : Ready t := by
  have hready : (∀ c ∈ (arrivals s es).map Arrival.bytes, ecmDataOutSz ≤ c.length) → Ready t := by
    refine run_observed
      (I := fun as t => (∀ c ∈ as.map Arrival.bytes, ecmDataOutSz ≤ c.length) → Ready t)
      (fun _ => hs) ?_ hes h
    intro as e u v he ih hstep hfull
    rw [List.map_append] at hfull
    obtain ⟨hold, hnew⟩ := List.forall_mem_append.mp hfull
    exact ready_step he (ih hold) hnew hstep
  exact hready hfull

/-- The chunks of a frame can arrive, one after the other. -/
lemma Ready.brings (l : List UInt8) (hs : Ready s) : ∃ t, Brings s (framed ecmDataOutSz l) t := by
  induction hk : l.length using Nat.strong_induction_on generalizing s l with
  | _ k ih =>
    by_cases hle : ecmDataOutSz ≤ l.length
    · have hlen : (l.take ecmDataOutSz).length = ecmDataOutSz := by
        rw [List.length_take, Nat.min_eq_left hle]
      have hready := @Ready.dataOut _ ⟨l.take ecmDataOutSz, 0, hlen.le⟩ true hs hlen.ge
      obtain ⟨t, ht⟩ := ih (l.drop ecmDataOutSz).length
        (by rw [List.length_drop]; simp only [ecmDataOutSz] at hle ⊢; omega) _ hready rfl
      rw [framed_of_le (by decide) hle]
      exact ⟨t, (brings_dataOut ⟨l.take ecmDataOutSz, 0, hlen.le⟩ true hs.valid).trans ht⟩
    · rw [framed_of_lt (Nat.not_le.mp hle)]
      exact ⟨_, brings_dataOut ⟨l, 0, (Nat.not_le.mp hle).le⟩ true hs.valid⟩

/-- From a ready receiver any frame arrives. -/
lemma arrives_of_ready (hs : Ready s.reinit) (f : EthernetFrame) : Arrives s f := by
  intro es cs t hes has hrun
  by_cases hcs : cs = []
  · rw [hcs]
    exact ⟨t, Brings.refl⟩
  · obtain ⟨hfull, l, rfl⟩ := framed_suffix (by decide) has hcs
    exact (ready_run hes hs hfull hrun).brings l

/-- **The condition is enough.** -/
lemma freshStart_of_startsClean (hinv : MainInv s) (hs : StartsClean s) : FreshStart s := by
  obtain ⟨hpc, hmail, hidx⟩ := hs
  have hfree : s.main.Free := hpc.imp_right Or.inr
  have hlock : s.ecm.handle.hpcdLock = false := by
    rw [hinv.lock]
    rcases hpc with hpc | hpc <;> rw [hpc] <;> rfl
  have hlen : s.reinit.ecm.rx.outEp.xferLen = 0 := by
    rw [reinit_xferLen, hlock]
    rfl
  have hready : Ready s.reinit := ⟨hpc, hlock, hmail, reinit_maxpacket,
    by rw [reinit_valid, hlock]; rfl, hlen, reinit_xferCount⟩
  exact fun f => ⟨arrives_of_ready hready f, passedOn_of_inv
    (creditInv_reinit hinv hfree fun _ => ⟨hmail, hlen⟩) (arrivalInv_reinit hfree hidx) f⟩

end Clean

/-! ### A receiver that starves -/

section Starved

variable {s : Firmware}

/-- The endpoint is used up, no renewal is outstanding and there is no frame to be renewed for:
nothing arrives any more. -/
structure Starved (s : Firmware) : Prop where
  valid : s.ecm.rx.outEp.valid = false
  mailbox : s.ecm.rx.receivedFrame = none
  flag : s.ecm.rx.outboundTransferNeedsRenewal = false
  free : s.main.Free

lemma Starved.step {t : Firmware} {e : Event} (he : e.Configured) (hs : Starved s)
    (h : step s e = some t) : Starved t := by
  obtain ⟨hv, hmail, hflag, hfree⟩ := hs
  cases e with
  | init | deInit => exact he.elim
  | dataOut c alloc => exact absurd (hv.symm.trans (step_dataOut h).1) (by simp)
  | dataIn k =>
      cases h
      exact ⟨hv, hmail, hflag, hfree⟩
  | sof =>
      cases h
      have hrx : (usbdEcmSof s.ecm).rx = s.ecm.rx := by simp [usbdEcmSof, hflag]
      exact ⟨by rw [hrx, hv], by rw [hrx, hmail], by rw [hrx, hflag], hfree⟩
  | traffic =>
      obtain ⟨-, rfl⟩ := step_traffic h
      rcases hfree with hpc | hpc | hpc
      · rw [hpc, serviceTraffic_empty hmail]
        exact ⟨hv, hmail, hflag, Or.inl rfl⟩
      · rw [hpc]
        exact ⟨hv, hmail, hflag, Or.inr (Or.inr rfl)⟩
      · rw [hpc]
        exact ⟨hv, hmail, rfl, Or.inl rfl⟩
  | xmitCall p =>
      obtain ⟨-, -, rfl⟩ := step_xmitCall h
      exact ⟨hv, hmail, hflag, hfree⟩
  | xmitStep =>
      obtain ⟨-, rfl⟩ := step_xmitStep h
      exact ⟨hv, hmail, hflag, hfree⟩

/-- Nothing arrives, in no run. -/
lemma Starved.not_brings {t : Firmware} {c : List UInt8} {cs : List (List UInt8)}
    (hs : Starved s) : ¬ Brings s (c :: cs) t := by
  rintro ⟨es, hes, has, hrun⟩
  have hnone : arrivals s es = [] ∧ Starved t := by
    refine run_observed (I := fun as t => as = [] ∧ Starved t) ⟨rfl, hs⟩ ?_ hes hrun
    rintro as e u v he ⟨rfl, hu⟩ hstep
    refine ⟨?_, hu.step he hstep⟩
    cases e with
    | dataOut c alloc => exact absurd (hu.valid.symm.trans (step_dataOut hstep).1) (by simp)
    | _ => rfl
  rw [hnone.1] at has
  cases has

/-- A start from which some interleaving starves in the middle of a frame is not fresh. -/
lemma Starved.not_freshStart {t : Firmware} {f : EthernetFrame} {c : List UInt8}
    {as : List (List UInt8)} (cs : List (List UInt8)) (ht : Starved t) (hb : Brings s.reinit as t)
    (hcs : as ++ c :: cs = framed ecmDataOutSz f.bytes) : ¬ FreshStart s := by
  intro hs
  obtain ⟨es, hes, rfl, hrun⟩ := hb
  obtain ⟨u, hu⟩ := (hs f).1 es (c :: cs) t hes hcs hrun
  exact ht.not_brings hu

end Starved

/-! ### The corrupting interleavings -/

section Finishes

variable {s : Firmware}

/-- `usb_ecm_xmit_packet` can run to its end, and leaves the receive path alone. -/
def Finishes (s : Firmware) : Prop :=
  ∃ t, Brings s [] t ∧ t.xmit = .out ∧ t.main = s.main ∧ t.ecm.handle = s.ecm.handle ∧
    t.ecm.rx = s.ecm.rx

/-- One step of `usb_ecm_xmit_packet`. -/
lemma finishes_of_step {pc : XmitPc} (hx : s.xmit = pc) (hpc : pc ≠ .out)
    (h : Finishes { s with
      xmit := (usbEcmXmitPacket s.ecm.handle pc s.ecm.tx).1
      ecm := { s.ecm with tx := (usbEcmXmitPacket s.ecm.handle pc s.ecm.tx).2 } }) :
    Finishes s := by
  subst hx
  obtain ⟨t, ht, hout, hmain, hhandle, hrx⟩ := h
  have hstep : step s .xmitStep = some { s with
      xmit := (usbEcmXmitPacket s.ecm.handle s.xmit s.ecm.tx).1
      ecm := { s.ecm with tx := (usbEcmXmitPacket s.ecm.handle s.xmit s.ecm.tx).2 } } := by
    rw [step, if_neg hpc]
  exact ⟨t, (brings_of_step (e := .xmitStep) trivial hstep).quiet ht, hout, hmain, hhandle, hrx⟩

lemma finishes_out (hx : s.xmit = .out) : Finishes s := ⟨s, Brings.refl, hx, rfl, rfl, rfl⟩

lemma finishes_copy {p : PbufChain} {q : List (List UInt8)} {data size : ℕ}
    (hx : s.xmit = .copy p q data size) : Finishes s := by
  induction q generalizing s data size with
  | nil => exact finishes_of_step hx (fun h => (by cases h)) (finishes_out rfl)
  | cons b q ih => exact finishes_of_step hx (fun h => (by cases h)) (ih rfl)

lemma finishes_check {p : PbufChain} (hx : s.xmit = .check p) : Finishes s := by
  refine finishes_of_step hx (fun h => (by cases h)) ?_
  rw [usbEcmXmitPacket]
  split_ifs
  · exact finishes_copy rfl
  · exact finishes_out rfl

lemma finishes (s : Firmware) : Finishes s := by
  cases hx : s.xmit with
  | out => exact finishes_out hx
  | enter p =>
      refine finishes_of_step hx (fun h => (by cases h)) ?_
      rw [usbEcmXmitPacket]
      split_ifs
      · exact finishes_check rfl
      · exact finishes_out rfl
  | check p => exact finishes_check hx
  | copy p q data size => exact finishes_copy hx

end Finishes

/-- The state of the receive path, as far as the sizes passed to the callback depend on it. -/
structure Rig (sizes : List ℕ) (n : ℕ) (valid lock : Bool) (s : Firmware) : Prop where
  xmit : s.xmit = .out
  sizes : callbackSizes s.ecm.rx.log = sizes
  index : s.ecm.rx.ecmRxIndex = n
  maxpacket : s.ecm.rx.outEp.maxpacket = ecmDataOutSz
  xferCount : s.ecm.rx.outEp.xferCount = 0
  valid : s.ecm.rx.outEp.valid = valid
  lock : s.ecm.handle.hpcdLock = lock

/-- A full chunk of zeros. -/
def zeros : OutPacket := ⟨List.replicate 64 0, 0, by decide⟩

/-- A short chunk of one zero. -/
def zero : OutPacket := ⟨[0], 0, by decide⟩

section Rig

variable {sizes : List ℕ} {n : ℕ} {v l : Bool} {s t u : Firmware} {cs : List (List UInt8)}
  {mail : Option (List UInt8)}

lemma callbackSizes_concat {log : List RxObs} {o : RxObs} (ho : callbackSizes [o] = []) :
    callbackSizes (log ++ [o]) = callbackSizes log := by
  rw [callbackSizes_append, ho, List.append_nil]

/-- The callback is told `ecm_rx_index`, whatever becomes of the frame. -/
lemma callbackSizes_closing {h : UsbHandle} {c : OutPacket} {alloc : Bool} {rx : EcmRx}
    (hmax : rx.outEp.maxpacket = ecmDataOutSz) (hcount : rx.outEp.xferCount = 0)
    (hlt : c.bytes.length < ecmDataOutSz) :
    callbackSizes (pcdEpIsrOut h c alloc rx).log =
      callbackSizes rx.log ++ [rx.ecmRxIndex + c.bytes.length] := by
  have hcall : ∀ o, callbackSizes ((storeOut c rx).log ++
      [.recvCallback o (rx.ecmRxIndex + c.bytes.length)]) =
        callbackSizes rx.log ++ [rx.ecmRxIndex + c.bytes.length] := by
    intro o
    rw [callbackSizes_append, callbackSizes_storeOut]
    rfl
  rw [pcdEpIsrOut_closing (Or.inr (by rw [hmax]; exact hlt)) hcount hlt]
  simp only [usbEcmRecvCallback]
  split_ifs
  · exact hcall _
  · exact hcall _
  · rw [callbackSizes_renew]
    exact hcall _

/-- A frame whose last chunk finds `ecm_rx_index` wrong is passed on with a wrong length. -/
lemma not_freshStart {f : EthernetFrame} (hb : Brings s.reinit cs u)
    (hrig : Rig (callbackSizes s.ecm.rx.log) n true l u)
    (hcs : cs ++ [zero.bytes] = framed ecmDataOutSz f.bytes) (hn : n + 1 ≠ f.bytes.length) :
    ¬ FreshStart s := by
  intro hs
  obtain ⟨es, hes, rfl, hrun⟩ := hb
  have hstep : step u (.dataOut zero true) = some { u with
      ecm := { u.ecm with rx := pcdEpIsrOut u.ecm.handle zero true u.ecm.rx } } := by
    rw [step, if_pos hrig.valid]
  have hlast := (hs f).2 es zero true _ hes
    (by rw [arrivals_concat hrun hstep, List.map_append]; exact hcs)
    (run_concat_eq_some.mpr ⟨u, hrun, hstep⟩)
  have hsizes := hlast.1
  rw [callbackSizes_closing hrig.maxpacket hrig.xferCount (by decide), hrig.sizes,
    hrig.index] at hsizes
  exact hn (List.singleton_inj.mp (List.append_cancel_left hsizes))

/-- Something is accumulated: a frame of one byte comes out longer. -/
lemma not_freshStart_of_index (hb : Brings s.reinit [] u)
    (hrig : Rig (callbackSizes s.ecm.rx.log) n true l u) (hn : n ≠ 0) : ¬ FreshStart s :=
  not_freshStart (f := ⟨[0], by decide, by decide⟩) hb hrig (by decide) (by simpa using hn)

/-- An endpoint that is valid with a whole packet still to be received swallows a full chunk:
the layer below takes it for the first part of a longer transfer. -/
lemma Rig.swallow (hrig : Rig sizes n true false s) (hlen : s.ecm.rx.outEp.xferLen ≠ 0) :
    ∃ t, Brings s [zeros.bytes] t ∧ Rig sizes n true false t := by
  have hrx : pcdEpIsrOut s.ecm.handle zeros true s.ecm.rx = { storeOut zeros s.ecm.rx with
      outEp := (halPcdEpReceive s.ecm.handle.hpcdLock (storeOut zeros s.ecm.rx).outEp
        (storeOut zeros s.ecm.rx).outEp.xferBuff (storeOut zeros s.ecm.rx).outEp.xferLen).2 } := by
    rw [pcdEpIsrOut]
    refine if_neg ?_
    rintro (h | h)
    · exact hlen h
    · have hmax : (storeOut zeros s.ecm.rx).outEp.maxpacket = 64 := hrig.maxpacket
      rw [hmax] at h
      exact absurd h (by decide)
  refine ⟨_, brings_dataOut zeros true hrig.valid, ?_⟩
  rw [hrx, hrig.lock]
  refine ⟨hrig.xmit, ?_, ?_, ?_, ?_, rfl, hrig.lock⟩
  · exact callbackSizes_storeOut.trans hrig.sizes
  · exact storeOut_ecmRxIndex.trans hrig.index
  · simpa [halPcdEpReceive] using hrig.maxpacket
  · simp [halPcdEpReceive]

/-- The main loop validates the endpoint and releases the lock. -/
lemma Rig.validate (hrig : Rig sizes n v true s) (hpc : s.main = .locked) :
    ∃ t, Brings s [] t ∧ Rig sizes n true true t ∧ t.main = .validated ∧
      t.ecm.rx.outEp.xferLen = s.ecm.rx.outEp.xferLen ∧
      t.ecm.rx.receivedFrame = s.ecm.rx.receivedFrame := by
  refine ⟨_, brings_traffic hrig.xmit, ?_⟩
  rw [hpc]
  exact ⟨⟨hrig.xmit, hrig.sizes, hrig.index, hrig.maxpacket, hrig.xferCount, rfl, hrig.lock⟩,
    rfl, rfl, rfl⟩

lemma Rig.unlock (hrig : Rig sizes n v true s) (hpc : s.main = .validated) :
    ∃ t, Brings s [] t ∧ Rig sizes n v false t ∧ t.main = .store .ok ∧
      t.ecm.rx = s.ecm.rx := by
  refine ⟨_, brings_traffic hrig.xmit, ?_⟩
  rw [hpc]
  exact ⟨⟨hrig.xmit, hrig.sizes, hrig.index, hrig.maxpacket, hrig.xferCount, hrig.valid, rfl⟩,
    rfl, rfl⟩

/-- A frame is in the mailbox or in service, and the endpoint is not yet renewed for it. -/
def InService (s : Firmware) : Prop :=
  s.main.hasFrame = true ∨
    (s.main = .idle ∨ ∃ r, s.main = .store r) ∧ s.ecm.rx.receivedFrame.isSome

/-- What `service_traffic` reaches with a frame in service: it holds the lock, and the mailbox
holds `mail`. -/
def Locks (sizes : List ℕ) (n : ℕ) (v : Bool) (mail : Option (List UInt8)) (s : Firmware) : Prop :=
  ∃ t, Brings s [] t ∧ Rig sizes n v true t ∧ t.main = .locked ∧ t.ecm.rx.outEp.xferLen = 0 ∧
    t.ecm.rx.receivedFrame = mail

lemma Locks.of_brings (h : Brings s [] t) (ht : Locks sizes n v mail t) :
    Locks sizes n v mail s := by
  obtain ⟨u, hu, hrest⟩ := ht
  exact ⟨u, h.quiet hu, hrest⟩

/-- One step of `service_traffic` that changes nothing but the log and the mailbox. -/
lemma Rig.traffic (hrig : Rig sizes n v l s)
    (hsizes : callbackSizes (serviceTraffic s.main s.ecm).2.rx.log =
      callbackSizes s.ecm.rx.log)
    (hidx : (serviceTraffic s.main s.ecm).2.rx.ecmRxIndex = s.ecm.rx.ecmRxIndex)
    (hep : (serviceTraffic s.main s.ecm).2.rx.outEp = s.ecm.rx.outEp)
    (hhandle : (serviceTraffic s.main s.ecm).2.handle = s.ecm.handle) :
    Rig sizes n v l { s with
      main := (serviceTraffic s.main s.ecm).1, ecm := (serviceTraffic s.main s.ecm).2 } where
  xmit := hrig.xmit
  sizes := hsizes.trans hrig.sizes
  index := hidx.trans hrig.index
  maxpacket := by rw [hep]; exact hrig.maxpacket
  xferCount := by rw [hep]; exact hrig.xferCount
  valid := by rw [hep]; exact hrig.valid
  lock := by rw [hhandle]; exact hrig.lock

lemma locks_prepared (hrig : Rig sizes n v false s)
    (hlen : s.ecm.rx.outEp.xferLen ≤ ecmDataOutSz) (hmail : s.ecm.rx.receivedFrame = mail)
    (hpc : s.main = .prepared) : Locks sizes n v mail s := by
  refine ⟨_, brings_traffic hrig.xmit, ?_⟩
  rw [hpc, serviceTraffic_lock hrig.lock]
  refine ⟨⟨hrig.xmit, hrig.sizes, hrig.index, by simpa using hrig.maxpacket,
    by simpa using hrig.xferCount, by simpa using hrig.valid, rfl⟩, rfl, ?_, hmail⟩
  exact PcdEp.splitXfer_xferLen_of_le (by rw [hrig.maxpacket]; exact hlen)

lemma locks_renew (hrig : Rig sizes n v false s) (hmail : s.ecm.rx.receivedFrame = mail)
    (hpc : s.main = .renew) : Locks sizes n v mail s := by
  refine Locks.of_brings (brings_traffic hrig.xmit) (locks_prepared ?_ ?_ ?_ ?_) <;> rw [hpc]
  · exact ⟨hrig.xmit, (callbackSizes_concat rfl).trans hrig.sizes, hrig.index, hrig.maxpacket,
      rfl, hrig.valid, hrig.lock⟩
  · exact Nat.le_refl _
  · exact hmail
  · rfl

/-- From `ethernet_input` to the renewal. -/
lemma locks_taken (hrig : Rig sizes n v false s) (hmail : s.ecm.rx.receivedFrame = mail)
    (hpc : ∃ frame, s.main = .taken frame ∨ s.main = .inside frame ∨ s.main = .returned frame) :
    Locks sizes n v mail s := by
  have hreturned : ∀ {s : Firmware} (frame : List UInt8), Rig sizes n v false s →
      s.ecm.rx.receivedFrame = mail → s.main = .returned frame → Locks sizes n v mail s := by
    intro s frame hrig hmail hpc
    refine Locks.of_brings (brings_traffic hrig.xmit)
      (locks_renew (hrig.traffic ?_ ?_ ?_ ?_) ?_ ?_) <;> rw [hpc]
    on_goal 5 => exact hmail
    all_goals rfl
  have hinside : ∀ {s : Firmware} (frame : List UInt8), Rig sizes n v false s →
      s.ecm.rx.receivedFrame = mail → s.main = .inside frame → Locks sizes n v mail s := by
    intro s frame hrig hmail hpc
    refine Locks.of_brings (brings_traffic hrig.xmit)
      (hreturned frame (hrig.traffic ?_ ?_ ?_ ?_) ?_ ?_) <;> rw [hpc]
    on_goal 5 => exact hmail
    all_goals rfl
  obtain ⟨frame, hpc | hpc | hpc⟩ := hpc
  · refine Locks.of_brings (brings_traffic hrig.xmit)
      (hinside frame (hrig.traffic ?_ ?_ ?_ ?_) ?_ ?_) <;> rw [hpc]
    on_goal 5 => exact hmail
    · exact callbackSizes_concat rfl
    all_goals rfl
  · exact hinside frame hrig hmail hpc
  · exact hreturned frame hrig hmail hpc

/-- The frame is taken out of the mailbox. -/
lemma locks_idle (hrig : Rig sizes n v false s) (hpc : s.main = .idle)
    (hmail : s.ecm.rx.receivedFrame.isSome) : Locks sizes n v none s := by
  obtain ⟨frame, hframe⟩ := Option.isSome_iff_exists.mp hmail
  refine Locks.of_brings (brings_traffic hrig.xmit)
    (locks_taken (hrig.traffic ?_ ?_ ?_ ?_) ?_ ⟨frame, Or.inl ?_⟩) <;>
    rw [hpc, serviceTraffic_take hframe]

lemma locks_store {r : UsbdStatus} (hrig : Rig sizes n v false s) (hpc : s.main = .store r)
    (hmail : s.ecm.rx.receivedFrame.isSome) : Locks sizes n v none s := by
  refine Locks.of_brings (brings_traffic hrig.xmit)
    (locks_idle (hrig.traffic ?_ ?_ ?_ ?_) ?_ ?_) <;> rw [hpc]
  · exact callbackSizes_concat rfl
  · rfl
  · rfl
  · rfl
  · rfl
  · exact hmail

/-- A frame in service takes the main loop to the lock. -/
lemma locks_of_inService (hrig : Rig sizes n v false s)
    (hlen : s.ecm.rx.outEp.xferLen ≤ ecmDataOutSz) (hlock : s.main ≠ .locked)
    (hserv : InService s) : ∃ mail, Locks sizes n v mail s := by
  rcases hserv with hframe | ⟨hpc | ⟨r, hpc⟩, hmail⟩
  · refine ⟨s.ecm.rx.receivedFrame, ?_⟩
    cases hpc : s.main with
    | taken frame => exact locks_taken hrig rfl ⟨frame, Or.inl hpc⟩
    | inside frame => exact locks_taken hrig rfl ⟨frame, Or.inr (Or.inl hpc)⟩
    | returned frame => exact locks_taken hrig rfl ⟨frame, Or.inr (Or.inr hpc)⟩
    | renew => exact locks_renew hrig rfl hpc
    | prepared => exact locks_prepared hrig hlen rfl hpc
    | locked => exact absurd hpc hlock
    | idle | validated | store =>
        rw [hpc] at hframe
        cases hframe
  · exact ⟨none, locks_idle hrig hpc hmail⟩
  · exact ⟨none, locks_store hrig hpc hmail⟩

/-- The endpoint is valid and the transfer is not a single packet: a full chunk gets lost, or
what is accumulated comes before it. -/
lemma not_freshStart_of_double (hb : Brings s.reinit [] u)
    (hrig : Rig (callbackSizes s.ecm.rx.log) n true false u)
    (hlen : u.ecm.rx.outEp.xferLen ≠ 0) : ¬ FreshStart s := by
  by_cases hn : n = 0
  · obtain ⟨t, ht, hrig'⟩ := hrig.swallow hlen
    have hb' : Brings s.reinit [zeros.bytes] t := hb.trans ht
    exact not_freshStart (f := ⟨List.replicate 65 0, by decide, by decide⟩) hb' hrig' (by decide)
      (by rw [hn]; decide)
  · exact not_freshStart_of_index hb hrig hn

/-- A full chunk that arrives under the lock: its renewal is refused, with the transfer fields
written. -/
lemma Rig.refuse (hrig : Rig sizes n true true s) (hlen : s.ecm.rx.outEp.xferLen = 0) :
    ∃ t, Brings s [zeros.bytes] t ∧ Rig sizes (n + 64) false true t ∧ t.main = s.main ∧
      t.ecm.rx.outEp.xferLen = 64 ∧ t.ecm.rx.receivedFrame = s.ecm.rx.receivedFrame := by
  refine ⟨_, brings_dataOut zeros true hrig.valid, ?_⟩
  rw [pcdEpIsrOut_full hlen hrig.xferCount (by decide), usbEcmRecvRenew_locked hrig.lock]
  refine ⟨⟨hrig.xmit, ?_, ?_, ?_, rfl, rfl, hrig.lock⟩, rfl, rfl, storeOut_receivedFrame⟩
  · rw [callbackSizes_append, callbackSizes_storeOut, hrig.sizes]
    exact List.append_nil _
  · rw [hrig.index]
    rfl
  · simpa using hrig.maxpacket

/-- The main loop holds the lock for an endpoint that is valid already: the renewal of a full
chunk is refused, and the main loop makes its transfer fields valid. -/
lemma not_freshStart_of_locked (hb : Brings s.reinit [] u)
    (hrig : Rig (callbackSizes s.ecm.rx.log) 0 true true u)
    (hlen : u.ecm.rx.outEp.xferLen = 0) (hpc : u.main = .locked) : ¬ FreshStart s := by
  obtain ⟨u₁, hb₁, hrig₁, hpc₁, hlen₁, -⟩ := hrig.refuse hlen
  obtain ⟨u₂, hb₂, hrig₂, hpc₂, hlen₂, -⟩ := hrig₁.validate (hpc₁.trans hpc)
  obtain ⟨u₃, hb₃, hrig₃, -, hrx₃⟩ := hrig₂.unlock hpc₂
  obtain ⟨t, ht, hrig'⟩ := hrig₃.swallow (by rw [hrx₃, hlen₂, hlen₁]; decide)
  have hb' : Brings s.reinit [zeros.bytes, zeros.bytes] t :=
    (hb.trans ((hb₁.quiet hb₂).quiet hb₃)).trans ht
  exact not_freshStart (f := ⟨List.replicate 129 0, by simp, by simp⟩) hb' hrig'
    (by decide +kernel) (by simp)

/-- The main loop holds the lock for a used up endpoint, with the mailbox empty: a full chunk
arrives as soon as the endpoint is valid, its renewal is refused, and the main loop forgets the
refusal with the store of its own outcome. -/
lemma not_freshStart_of_forgotten (hb : Brings s.reinit [] u) (hlocks : Locks sizes n v none u) :
    ¬ FreshStart s := by
  obtain ⟨u₁, hb₁, hrig₁, hpc₁, hlen₁, hmail₁⟩ := hlocks
  obtain ⟨u₂, hb₂, hrig₂, hpc₂, hlen₂, hmail₂⟩ := hrig₁.validate hpc₁
  obtain ⟨u₃, hb₃, hrig₃, hpc₃, -, hmail₃⟩ := hrig₂.refuse (hlen₂.trans hlen₁)
  obtain ⟨u₄, hb₄, hrig₄, hpc₄, hrx₄⟩ := hrig₃.unlock (hpc₃.trans hpc₂)
  have hmail₄ : u₄.ecm.rx.receivedFrame = none := by
    rw [hrx₄, hmail₃, hmail₂, hmail₁]
  have hb' : Brings s.reinit [zeros.bytes] u₄ :=
    (((hb.quiet hb₁).quiet hb₂).trans hb₃).quiet hb₄
  refine Starved.not_freshStart (f := ⟨List.replicate 65 0, by decide, by decide⟩)
    (c := zero.bytes) [] ?_ (hb'.quiet (brings_traffic hrig₄.xmit)) (by decide)
  rw [hpc₄]
  exact ⟨hrig₄.valid, hmail₄, rfl, Or.inl rfl⟩

/-- With the handle free, a state that is not clean has something accumulated or a frame in
service. -/
lemma inService_of_not_startsClean (hinv : MainInv s) (hnot : ¬ StartsClean s)
    (hlock : s.ecm.handle.hpcdLock = false) (hidx : s.ecm.rx.ecmRxIndex = 0) : InService s := by
  have hholds : s.main.holdsLock = false := hinv.lock.symm.trans hlock
  have hmail : (s.main = .idle ∨ s.main = .store .ok) → s.ecm.rx.receivedFrame.isSome := by
    intro hpc
    rw [Option.isSome_iff_ne_none]
    exact fun hnone => hnot ⟨hpc, hnone, hidx⟩
  cases hpc : s.main with
  | idle => exact Or.inr ⟨Or.inl hpc, hmail (Or.inl hpc)⟩
  | store r =>
      obtain rfl := hinv.outcome r hpc
      exact Or.inr ⟨Or.inr ⟨_, hpc⟩, hmail (Or.inr hpc)⟩
  | validated | locked =>
      rw [hpc] at hholds
      cases hholds
  | taken | inside | returned | renew | prepared => exact Or.inl (by rw [hpc]; rfl)

/-- The state after an `Init`, with `usb_ecm_xmit_packet` run to its end. -/
lemma exists_rig (s : Firmware) :
    ∃ u, Brings s.reinit [] u ∧ u.main = s.main ∧
      u.ecm.rx.receivedFrame = s.ecm.rx.receivedFrame ∧
      u.ecm.rx.outEp.xferLen = (if s.ecm.handle.hpcdLock then ecmDataOutSz else 0) ∧
      Rig (callbackSizes s.ecm.rx.log) s.ecm.rx.ecmRxIndex
        (!s.ecm.handle.hpcdLock || s.ecm.rx.outEp.valid) s.ecm.handle.hpcdLock u := by
  obtain ⟨u, hb, hx, hmain, hhandle, hrx⟩ := finishes s.reinit
  refine ⟨u, hb, hmain, by rw [hrx]; rfl, by rw [hrx, reinit_xferLen], hx, ?_, ?_, ?_, ?_, ?_, ?_⟩
  · rw [hrx, callbackSizes_reinit]
  · rw [hrx]
    rfl
  · rw [hrx, reinit_maxpacket]
  · rw [hrx, reinit_xferCount]
  · rw [hrx, reinit_valid]
  · rw [hhandle]
    rfl

/-- An `Init` that finds the handle free. -/
lemma not_freshStart_of_unlocked (hinv : MainInv s) (hnot : ¬ StartsClean s)
    (hlock : s.ecm.handle.hpcdLock = false) : ¬ FreshStart s := by
  obtain ⟨u, hb, hmain, hmail, hlen, hrig⟩ := exists_rig s
  rw [hlock] at hrig hlen
  by_cases hidx : s.ecm.rx.ecmRxIndex = 0
  · rw [hidx] at hrig
    have hserv : InService u := by
      rw [InService, hmain, hmail]
      exact inService_of_not_startsClean hinv hnot hlock hidx
    have hnl : u.main ≠ .locked := by
      intro hpc
      have hholds := hinv.lock
      rw [hlock, ← hmain, hpc] at hholds
      cases hholds
    obtain ⟨-, t, ht, hrig', hpc, hlen', -⟩ :=
      locks_of_inService hrig (by rw [hlen]; exact Nat.zero_le _) hnl hserv
    exact not_freshStart_of_locked (hb.quiet ht) hrig' hlen' hpc
  · exact not_freshStart_of_index hb hrig hidx

/-- An `Init` inside the renewal of the main loop. -/
lemma not_freshStart_of_held (hinv : MainInv s) (hlock : s.ecm.handle.hpcdLock = true) :
    ¬ FreshStart s := by
  obtain ⟨u, hb, hmain, hmail, hlen, hrig⟩ := exists_rig s
  rw [hlock] at hrig hlen
  have hholds : s.main.holdsLock = true := hinv.lock.symm.trans hlock
  have hlen' : u.ecm.rx.outEp.xferLen ≠ 0 := by rw [hlen]; decide
  cases hpc : s.main with
  | locked =>
      obtain ⟨u₁, hb₁, hrig₁, hpc₁, hlen₁, -⟩ := hrig.validate (hmain.trans hpc)
      obtain ⟨u₂, hb₂, hrig₂, -, hrx₂⟩ := hrig₁.unlock hpc₁
      exact not_freshStart_of_double ((hb.quiet hb₁).quiet hb₂) hrig₂
        (by rw [hrx₂, hlen₁]; exact hlen')
  | validated =>
      obtain ⟨u₁, hb₁, hrig₁, hpc₁, hrx₁⟩ := hrig.unlock (hmain.trans hpc)
      cases hv : s.ecm.rx.outEp.valid with
      | true =>
          rw [hv] at hrig₁
          exact not_freshStart_of_double (hb.quiet hb₁) hrig₁ (by rw [hrx₁]; exact hlen')
      | false =>
          -- the renewal of `Init` was refused and is forgotten
          rw [hv] at hrig₁
          have hmail₁ : u₁.ecm.rx.receivedFrame = s.ecm.rx.receivedFrame := by rw [hrx₁, hmail]
          cases hframe : s.ecm.rx.receivedFrame with
          | none =>
              rw [hframe] at hmail₁
              refine Starved.not_freshStart (f := ⟨[0], by decide, by decide⟩) (c := zero.bytes)
                [] ?_ ((hb.quiet hb₁).quiet (brings_traffic hrig₁.xmit))
                (by decide)
              rw [hpc₁]
              exact ⟨hrig₁.valid, hmail₁, rfl, Or.inl rfl⟩
          | some frame =>
              exact not_freshStart_of_forgotten (hb.quiet hb₁)
                (locks_store hrig₁ hpc₁ (by rw [hmail₁, hframe]; rfl))
  | idle | taken | inside | returned | renew | prepared | store =>
      rw [hpc] at hholds
      cases hholds

/-- **The condition is needed.** -/
lemma startsClean_of_freshStart (hinv : MainInv s) (hs : FreshStart s) : StartsClean s := by
  by_contra hnot
  cases hlock : s.ecm.handle.hpcdLock with
  | false => exact not_freshStart_of_unlocked hinv hnot hlock hs
  | true => exact not_freshStart_of_held hinv hlock hs

end Rig

/-! ### Every reachable state -/

/-- **A fresh start.**  In every state reachable through bus resets, requests, interrupts and steps
of the main loop, an `Init` that runs there starts a fresh frame, in every interleaving after it,
if and only if the state is clean: nothing is accumulated and no frame is in the mailbox or in
service. -/
theorem fresh_start_iff (es : List UsbEvent) (s : Usbd)
    (hrun : run coreStep Usbd.initial es = some s) :
    FreshStart s.firmware ↔ StartsClean s.firmware :=
  ⟨startsClean_of_freshStart (mainInv_run hrun), freshStart_of_startsClean (mainInv_run hrun)⟩

/-- The configuration of the device. -/
def configuration : List UsbEvent := [.reset, .setAddress 5 0 0, .setConfig 1]

/-- The first chunk of a longer frame arrives, the bus is reset and the device configured again,
and the host sends a frame of one byte. -/
def resetInFrame : List UsbEvent :=
  configuration ++ [.firmware (.dataOut zeros true)] ++ configuration ++
    [.firmware (.dataOut zero true)]

/-- The callback is given 65 bytes for it. -/
theorem fresh_start_missed :
    ∃ s t, run coreStep Usbd.initial (configuration ++ [.firmware (.dataOut zeros true)]) =
        some s ∧
      ¬ FreshStart s.firmware ∧
      run coreStep Usbd.initial resetInFrame = some t ∧
      callbackSizes t.firmware.ecm.rx.log = [65] := by
  refine ⟨_, _, rfl, fun hs => ?_, rfl, by decide⟩
  have hlast := (hs ⟨[0], by decide, by decide⟩).2 [] zero true _ (fun e he => (by cases he))
    (by decide) rfl
  exact absurd hlast.1 (by decide)

/-- A frame of 65 bytes arrives, and `service_traffic` hands it over and renews the endpoint. -/
def frameHandedOver : List UsbEvent :=
  configuration ++ [.firmware (.dataOut zeros true), .firmware (.dataOut zero true)] ++
    List.replicate 9 (.firmware .traffic)

/-- The device is configured again after it has handed over a frame. -/
theorem fresh_start_iff_configured :
    ∃ s, run coreStep Usbd.initial frameHandedOver = some s ∧
      delivered s.firmware.ecm.rx.log = [List.replicate 65 0] ∧
      StartsClean s.firmware ∧ FreshStart s.firmware := by
  refine ⟨_, rfl, by decide, ⟨Or.inl rfl, rfl, rfl⟩, ?_⟩
  exact (fresh_start_iff frameHandedOver _ rfl).mpr ⟨Or.inl rfl, rfl, rfl⟩

end Stm32Ecm
