import Stm32Ecm.Usb.Receive

/-!
The receive credit over whole runs, with the handle lock and failing allocations.

`usb_ecm_recv_renew` stores the outcome of `USBD_LL_PrepareReceive` in
`OutboundTransferNeedsRenewal` *after* the call has returned.  Called from the main loop it can be
interrupted while it holds the lock, with the endpoint already valid; a full chunk that arrives
there finds the lock taken, its own renewal is refused and the flag is set, and the main loop then
overwrites the flag with the outcome of its own call.

* `HasCredit`: reception can go on;
* `CreditInv`: the flag is set only while the main loop stands between the validation of the
  endpoint and the store, and then the endpoint is not armed and the mailbox is empty;
* `ForgetsRefusal`: the store of an outcome over a set flag, the one step that loses the credit;
* `credit_kept_iff`: a run keeps the credit in every state exactly when it takes no such step.
-/

namespace Stm32Ecm

open Transition

/-- `service_traffic` has a frame and has not yet made the endpoint valid. -/
def MainPc.hasFrame : MainPc → Bool
  | .taken _ | .inside _ | .returned _ | .renew | .prepared | .locked => true
  | _ => false

/-- Reception can go on: the endpoint is armed, or a renewal will be retried, or a frame is in
the mailbox or processed and not yet renewed. -/
def HasCredit (s : Firmware) : Prop :=
  s.ecm.rx.outEp.valid = true ∨ s.ecm.rx.outboundTransferNeedsRenewal = true ∨
    s.ecm.rx.receivedFrame.isSome ∨ s.main.hasFrame = true

/-- The main loop stores the outcome of its `usb_ecm_recv_renew` while the flag is set. -/
def ForgetsRefusal (s : Firmware) (e : Event) : Prop :=
  e = .traffic ∧ (∃ outcome, s.main = .store outcome) ∧
    s.ecm.rx.outboundTransferNeedsRenewal = true

instance (s : Firmware) : Decidable (∃ outcome, s.main = .store outcome) :=
  decidable_of_iff (∃ outcome ∈ [UsbdStatus.ok, .busy, .fail], s.main = .store outcome)
    ⟨fun ⟨r, _, h⟩ => ⟨r, h⟩, fun ⟨r, h⟩ => ⟨r, by cases r <;> simp, h⟩⟩

instance (s : Firmware) (e : Event) : Decidable (ForgetsRefusal s e) :=
  inferInstanceAs (Decidable (_ ∧ _ ∧ _))

/-- The device stays configured. -/
def Event.Configured : Event → Prop
  | .init | .deInit => False
  | _ => True

/-- The firmware after the configuration. -/
def Firmware.configured : Firmware :=
  { Firmware.initial with ecm := usbdEcmInit Ecm.initial }

/-! ### The invariant -/

/-- Who can hold the credit, by where `service_traffic` stands. -/
structure CreditInv (pc : MainPc) (h : UsbHandle) (rx : EcmRx) : Prop where
  lock : h.hpcdLock = pc.holdsLock
  maxpacket : rx.outEp.maxpacket = ecmDataOutSz
  armed : rx.outEp.valid = true → rx.receivedFrame = none ∧ rx.outEp.xferLen = 0 ∧ pc.Free
  mailbox : rx.receivedFrame.isSome → pc.Free
  refused : rx.outboundTransferNeedsRenewal = true →
    rx.outEp.valid = false ∧ rx.receivedFrame = none ∧ (pc = .validated ∨ pc = .store .ok)
  prepared : pc = .prepared → rx.outEp.xferLen = ecmDataOutSz
  locked : pc = .locked → rx.outEp.xferLen = 0
  outcome : ∀ r, pc = .store r → r = .ok

section Steps

variable {pc : MainPc} {h : UsbHandle} {rx : EcmRx}

lemma MainPc.Free.not_hasFrame (hfree : pc.Free) : pc.hasFrame = false := by
  rcases hfree with rfl | rfl | rfl <;> rfl

/-- In the interrupt the lock can be found taken only between validation and release. -/
lemma MainPc.Free.validated_of_holdsLock (hfree : pc.Free) (hl : pc.holdsLock = true) :
    pc = .validated := by
  rcases hfree with rfl | rfl | rfl
  · cases hl
  · rfl
  · cases hl

/-- The facts about the program counter that a renewal in the interrupt does not touch. -/
lemma MainPc.Free.ne_prepared (hfree : pc.Free) : pc ≠ .prepared ∧ pc ≠ .locked := by
  rcases hfree with rfl | rfl | rfl <;> exact ⟨fun h => (by cases h), fun h => (by cases h)⟩

/-- A renewal in the interrupt arms the endpoint or sets the flag. -/
lemma CreditInv.renew (hfree : pc.Free) (hlock : h.hpcdLock = pc.holdsLock)
    (hmax : rx.outEp.maxpacket = ecmDataOutSz) (hv : rx.outEp.valid = false)
    (hmail : rx.receivedFrame = none) :
    CreditInv pc h (usbEcmRecvRenew h rx) ∧
      ((usbEcmRecvRenew h rx).outEp.valid = true ∨
        (usbEcmRecvRenew h rx).outboundTransferNeedsRenewal = true) := by
  have hout : ∀ r, pc = .store r → r = .ok := by
    rintro r rfl
    rcases hfree with h | h | h <;> cases h
    rfl
  have hnone : ∀ {P : Prop}, rx.receivedFrame.isSome = true → P := by
    intro P hsome
    rw [hmail] at hsome
    cases hsome
  cases hl : h.hpcdLock with
  | false =>
      rw [usbEcmRecvRenew_unlocked hl]
      refine ⟨⟨hlock, by simpa using hmax, fun _ => ⟨hmail, ?_, hfree⟩, fun _ => hfree, ?_,
        fun hp => absurd hp hfree.ne_prepared.1, fun hp => absurd hp hfree.ne_prepared.2, hout⟩,
        Or.inl rfl⟩
      · exact (armedAt_renewed hmax).xferLen
      · intro hflag
        cases hflag
  | true =>
      have hpc : pc = .validated := hfree.validated_of_holdsLock (hlock.symm.trans hl)
      rw [usbEcmRecvRenew_locked hl]
      refine ⟨⟨hlock, by simpa using hmax, ?_, hnone, fun _ => ⟨by simpa using hv, hmail,
        Or.inl hpc⟩, fun hp => absurd hp hfree.ne_prepared.1,
        fun hp => absurd hp hfree.ne_prepared.2, hout⟩, Or.inr rfl⟩
      intro hvalid
      exact absurd (hv.symm.trans hvalid) (by simp)

/-- **A packet arrives**: the credit goes to the mailbox, to the endpoint or to the flag. -/
lemma CreditInv.dataOut {c : OutPacket} {alloc : Bool} (hinv : CreditInv pc h rx)
    (hv : rx.outEp.valid = true) :
    CreditInv pc h (pcdEpIsrOut h c alloc rx) ∧
      ((pcdEpIsrOut h c alloc rx).outEp.valid = true ∨
        (pcdEpIsrOut h c alloc rx).outboundTransferNeedsRenewal = true ∨
        (pcdEpIsrOut h c alloc rx).receivedFrame.isSome) := by
  obtain ⟨hmail, hlen, hfree⟩ := hinv.armed hv
  have hmax : (storeOut c rx).outEp.maxpacket = ecmDataOutSz := by
    rw [storeOut_outEp]
    exact hinv.maxpacket
  have hmail' : (storeOut c rx).receivedFrame = none := storeOut_receivedFrame.trans hmail
  rw [pcdEpIsrOut_of_last (Or.inl hlen), usbdEcmDataOut]
  split_ifs
  · cases alloc with
    | true =>
        rw [usbEcmRecvCallback_allocated (by exact hmail')]
        refine ⟨⟨hinv.lock, hmax, ?_, fun _ => hfree, ?_,
          fun hp => absurd hp hfree.ne_prepared.1, fun hp => absurd hp hfree.ne_prepared.2,
          hinv.outcome⟩, Or.inr (Or.inr rfl)⟩
        · intro hvalid
          cases hvalid
        · intro hflag
          have hflag' : rx.outboundTransferNeedsRenewal = true := by simpa using hflag
          exact absurd ((hinv.refused hflag').1.symm.trans hv) (by simp)
    | false =>
        rw [usbEcmRecvCallback_noMemory (by exact hmail')]
        obtain ⟨hr, hcredit⟩ := @CreditInv.renew pc h
          { storeOut c rx with
            ecmRxIndex := (storeOut c rx).ecmRxIndex + (storeOut c rx).outEp.xferCount
            log := (storeOut c rx).log ++ [.recvCallback false
              ((storeOut c rx).ecmRxIndex + (storeOut c rx).outEp.xferCount)] }
          hfree hinv.lock hmax rfl hmail'
        exact ⟨⟨hr.lock, hr.maxpacket, hr.armed, hr.mailbox, hr.refused, hr.prepared, hr.locked,
          hr.outcome⟩, hcredit.imp_right Or.inl⟩
  · obtain ⟨hr, hcredit⟩ := @CreditInv.renew pc h
      { storeOut c rx with
        ecmRxIndex := (storeOut c rx).ecmRxIndex + (storeOut c rx).outEp.xferCount }
      hfree hinv.lock hmax rfl hmail'
    exact ⟨hr, hcredit.imp_right Or.inl⟩

/-- While a frame is processed the interrupts have nothing to do with the endpoint. -/
lemma CreditInv.quiet (hinv : CreditInv pc h rx) (hframe : pc.hasFrame = true) :
    rx.outEp.valid = false ∧ rx.receivedFrame = none ∧
      rx.outboundTransferNeedsRenewal = false := by
  have hbusy : ¬ pc.Free := fun hfree => by
    rw [hfree.not_hasFrame] at hframe
    cases hframe
  refine ⟨?_, ?_, ?_⟩
  · exact Bool.eq_false_iff.mpr fun hv => hbusy (hinv.armed hv).2.2
  · exact Option.not_isSome_iff_eq_none.mp fun hm => hbusy (hinv.mailbox hm)
  · exact Bool.eq_false_iff.mpr fun hf => hbusy (Or.inr (hinv.refused hf).2.2)

/-- The invariant while a frame is processed. -/
lemma CreditInv.of_quiet (hlock : h.hpcdLock = pc.holdsLock)
    (hmax : rx.outEp.maxpacket = ecmDataOutSz) (hv : rx.outEp.valid = false)
    (hmail : rx.receivedFrame = none) (hflag : rx.outboundTransferNeedsRenewal = false)
    (hprepared : pc = .prepared → rx.outEp.xferLen = ecmDataOutSz)
    (hlocked : pc = .locked → rx.outEp.xferLen = 0) (hframe : pc.hasFrame = true) :
    CreditInv pc h rx where
  lock := hlock
  maxpacket := hmax
  armed := fun h => absurd (hv.symm.trans h) (by simp)
  mailbox := fun h => absurd h (by simp [hmail])
  refused := fun h => absurd (hflag.symm.trans h) (by simp)
  prepared := hprepared
  locked := hlocked
  outcome := by
    rintro r rfl
    cases hframe

/-- `service_traffic` takes the frame, and with it the credit. -/
lemma CreditInv.take {frame : List UInt8} (hinv : CreditInv .idle h rx)
    (hmail : rx.receivedFrame = some frame) :
    CreditInv (.taken frame) h { rx with receivedFrame := none } := by
  have hv : rx.outEp.valid = false := Bool.eq_false_iff.mpr fun hv =>
    absurd (hmail.symm.trans (hinv.armed hv).1) (by simp)
  have hflag : rx.outboundTransferNeedsRenewal = false := Bool.eq_false_iff.mpr fun hf =>
    absurd (hmail.symm.trans (hinv.refused hf).2.1) (by simp)
  exact .of_quiet hinv.lock hinv.maxpacket hv rfl hflag (fun h => (by cases h))
    (fun h => (by cases h)) rfl

/-- The endpoint becomes valid: the credit is handed back to it. -/
lemma CreditInv.validate (hinv : CreditInv .locked h rx) :
    CreditInv .validated h { rx with outEp := rx.outEp.setValid } := by
  obtain ⟨-, hmail, hflag⟩ := hinv.quiet rfl
  exact ⟨hinv.lock, hinv.maxpacket, fun _ => ⟨hmail, hinv.locked rfl, Or.inr (Or.inl rfl)⟩,
    fun _ => Or.inr (Or.inl rfl), fun h => absurd (hflag.symm.trans h) (by simp),
    fun h => (by cases h), fun h => (by cases h), fun r h => (by cases h)⟩

/-- The lock is released; a refusal in the interrupt is still remembered. -/
lemma CreditInv.unlock (hinv : CreditInv .validated h rx) :
    CreditInv (.store .ok) { h with hpcdLock := false } rx := by
  refine ⟨rfl, hinv.maxpacket, fun hv => ?_, fun _ => Or.inr (Or.inr rfl), fun hf => ?_,
    fun h => (by cases h), fun h => (by cases h), fun r h => (by cases h; rfl)⟩
  · obtain ⟨hmail, hlen, -⟩ := hinv.armed hv
    exact ⟨hmail, hlen, Or.inr (Or.inr rfl)⟩
  · obtain ⟨hv, hmail, -⟩ := hinv.refused hf
    exact ⟨hv, hmail, Or.inr rfl⟩

/-- The outcome is stored over the flag. -/
lemma CreditInv.storeOutcome {log : List RxObs} (hinv : CreditInv (.store .ok) h rx) :
    CreditInv .idle h { rx with outboundTransferNeedsRenewal := false, log := log } := by
  refine ⟨hinv.lock, hinv.maxpacket, fun hv => ?_, fun _ => Or.inl rfl, fun h => (by cases h),
    fun h => (by cases h), fun h => (by cases h), fun r h => (by cases h)⟩
  obtain ⟨hmail, hlen, -⟩ := hinv.armed hv
  exact ⟨hmail, hlen, Or.inl rfl⟩

end Steps

/-- **A start of frame** retries a refused renewal. -/
lemma CreditInv.sof {s : Firmware} (hinv : CreditInv s.main s.ecm.handle s.ecm.rx) :
    CreditInv s.main (usbdEcmSof s.ecm).handle (usbdEcmSof s.ecm).rx ∧
      (HasCredit s → HasCredit { s with ecm := usbdEcmSof s.ecm }) := by
  cases hflag : s.ecm.rx.outboundTransferNeedsRenewal with
  | false =>
      have hrx : (usbdEcmSof s.ecm).rx = s.ecm.rx := by
        rw [usbdEcmSof, hflag]
        rfl
      rw [HasCredit, HasCredit, hrx]
      exact ⟨hinv, id⟩
  | true =>
      have hrx : (usbdEcmSof s.ecm).rx = usbEcmRecvRenew s.ecm.handle s.ecm.rx := by
        rw [usbdEcmSof, hflag]
        rfl
      obtain ⟨hv, hmail, hpc⟩ := hinv.refused hflag
      obtain ⟨hr, hnew⟩ :=
        CreditInv.renew (Or.inr hpc) hinv.lock hinv.maxpacket hv hmail
      rw [HasCredit, HasCredit, hrx]
      exact ⟨hr, fun _ => hnew.imp_right Or.inl⟩

/-- **A step of `service_traffic`**: only the store over a set flag loses the credit. -/
lemma CreditInv.traffic {s : Firmware} (hinv : CreditInv s.main s.ecm.handle s.ecm.rx) :
    CreditInv (serviceTraffic s.main s.ecm).1 (serviceTraffic s.main s.ecm).2.handle
        (serviceTraffic s.main s.ecm).2.rx ∧
      (HasCredit s → (HasCredit { s with
          main := (serviceTraffic s.main s.ecm).1, ecm := (serviceTraffic s.main s.ecm).2 } ↔
        ¬ ForgetsRefusal s .traffic)) := by
  obtain ⟨ecm, pc, xmit⟩ := s
  have hnot : (∀ r, pc ≠ .store r) → ¬ ForgetsRefusal ⟨ecm, pc, xmit⟩ .traffic :=
    fun hne hf => hf.2.1.elim hne
  cases pc with
  | idle =>
      cases hmail : ecm.rx.receivedFrame with
      | none =>
          rw [serviceTraffic_empty hmail]
          exact ⟨hinv, fun hcredit => iff_of_true hcredit (hnot fun r h => (by cases h))⟩
      | some frame =>
          rw [serviceTraffic_take hmail]
          exact ⟨hinv.take hmail,
            fun _ => iff_of_true (Or.inr (Or.inr (Or.inr rfl))) (hnot fun r h => (by cases h))⟩
  | taken frame | inside frame | returned frame =>
      obtain ⟨hv, hmail, hflag⟩ := hinv.quiet rfl
      exact ⟨.of_quiet hinv.lock hinv.maxpacket hv hmail hflag (fun h => (by cases h))
        (fun h => (by cases h)) rfl,
        fun _ => iff_of_true (Or.inr (Or.inr (Or.inr rfl))) (hnot fun r h => (by cases h))⟩
  | renew =>
      obtain ⟨hv, hmail, hflag⟩ := hinv.quiet rfl
      exact ⟨.of_quiet hinv.lock hinv.maxpacket hv hmail hflag (fun _ => rfl)
        (fun h => (by cases h)) rfl,
        fun _ => iff_of_true (Or.inr (Or.inr (Or.inr rfl))) (hnot fun r h => (by cases h))⟩
  | prepared =>
      obtain ⟨hv, hmail, hflag⟩ := hinv.quiet rfl
      have hsplit : ecm.rx.outEp.splitXfer.xferLen = 0 :=
        PcdEp.splitXfer_xferLen_of_le (by rw [hinv.prepared rfl, hinv.maxpacket])
      rw [serviceTraffic_lock hinv.lock]
      exact ⟨.of_quiet rfl (by simpa using hinv.maxpacket) (by simpa using hv) hmail hflag
        (fun h => (by cases h)) (fun _ => hsplit) rfl,
        fun _ => iff_of_true (Or.inr (Or.inr (Or.inr rfl))) (hnot fun r h => (by cases h))⟩
  | locked =>
      exact ⟨hinv.validate, fun _ => iff_of_true (Or.inl rfl) (hnot fun r h => (by cases h))⟩
  | validated =>
      exact ⟨hinv.unlock, fun hcredit => iff_of_true hcredit (hnot fun r h => (by cases h))⟩
  | store r =>
      obtain rfl : r = .ok := hinv.outcome r rfl
      refine ⟨hinv.storeOutcome, fun hcredit => ⟨?_, ?_⟩⟩
      · rintro hc ⟨-, -, hf⟩
        obtain ⟨hv, hmail, -⟩ := hinv.refused hf
        rcases hc with hc | hc | hc | hc
        · exact absurd (hv.symm.trans hc) (by simp)
        · cases hc
        · exact Option.not_isSome_iff_eq_none.mpr hmail hc
        · cases hc
      · intro hkeep
        rcases hcredit with hc | hc | hc | hc
        · exact Or.inl hc
        · exact absurd ⟨rfl, ⟨_, rfl⟩, hc⟩ hkeep
        · exact Or.inr (Or.inr (Or.inl hc))
        · cases hc

/-- **One step** keeps the invariant, and keeps the credit unless it forgets a refusal. -/
lemma creditInv_step {s t : Firmware} {e : Event} (he : e.Configured)
    (hinv : CreditInv s.main s.ecm.handle s.ecm.rx) (hstep : step s e = some t) :
    CreditInv t.main t.ecm.handle t.ecm.rx ∧
      (HasCredit s → (HasCredit t ↔ ¬ ForgetsRefusal s e)) := by
  have hother : ∀ {e : Event}, e ≠ .traffic → ¬ ForgetsRefusal s e := fun hne hf => hne hf.1
  cases e with
  | init | deInit => exact he.elim
  | dataOut c alloc =>
      obtain ⟨hv, rfl⟩ := step_dataOut hstep
      obtain ⟨hd, hnew⟩ := @CreditInv.dataOut _ _ _ c alloc hinv hv
      refine ⟨hd, fun _ => iff_of_true ?_ (hother fun h => (by cases h))⟩
      rcases hnew with hnew | hnew | hnew
      · exact Or.inl hnew
      · exact Or.inr (Or.inl hnew)
      · exact Or.inr (Or.inr (Or.inl hnew))
  | dataIn k =>
      cases hstep
      exact ⟨hinv, fun hcredit => iff_of_true hcredit (hother fun h => (by cases h))⟩
  | sof =>
      cases hstep
      obtain ⟨hs, hnew⟩ := hinv.sof
      exact ⟨hs, fun hcredit => iff_of_true (hnew hcredit) (hother fun h => (by cases h))⟩
  | traffic =>
      obtain ⟨-, rfl⟩ := step_traffic hstep
      exact hinv.traffic
  | xmitCall p =>
      obtain ⟨-, -, rfl⟩ := step_xmitCall hstep
      exact ⟨hinv, fun hcredit => iff_of_true hcredit (hother fun h => (by cases h))⟩
  | xmitStep =>
      obtain ⟨-, rfl⟩ := step_xmitStep hstep
      exact ⟨hinv, fun hcredit => iff_of_true hcredit (hother fun h => (by cases h))⟩

lemma creditInv_configured : CreditInv Firmware.configured.main Firmware.configured.ecm.handle
    Firmware.configured.ecm.rx where
  lock := rfl
  maxpacket := rfl
  armed := fun _ => ⟨rfl, rfl, Or.inl rfl⟩
  mailbox := fun _ => Or.inl rfl
  refused := fun h => (by cases h)
  prepared := fun h => (by cases h)
  locked := fun h => (by cases h)
  outcome := fun r h => (by cases h)

/-- **The receive credit.**  In a run of the configured device, every state reached has the
credit if and only if the main loop never stores the outcome of its `usb_ecm_recv_renew` while
`OutboundTransferNeedsRenewal` is set, that is after an interrupt had a renewal refused and
before a start of frame retried it. -/
theorem credit_kept_iff (es : List Event) (hes : ∀ e ∈ es, e.Configured) :
    (∀ s, Visits step Firmware.configured es s → HasCredit s) ↔
      ∀ s e, Takes step Firmware.configured es s e → ¬ ForgetsRefusal s e :=
  visits_iff_takes (P := Event.Configured)
    (I := fun s => CreditInv s.main s.ecm.handle s.ecm.rx)
    (fun _ _ _ he hinv hcredit hstep => (creditInv_step he hinv hstep).imp_right (· hcredit)) hes
    creditInv_configured (Or.inl rfl)

/-- A frame of one byte is taken by the main loop; while its `usb_ecm_recv_renew` holds the lock,
with the endpoint already valid, the first chunk of the next frame arrives. -/
def refusedThenStored : List Event :=
  [.dataOut one true, .traffic, .traffic, .traffic, .traffic, .traffic, .traffic, .traffic,
    .dataOut ⟨List.replicate 64 2, 0, by decide⟩ true, .traffic, .traffic]

/-- The renewal of the full chunk was refused and the refusal is forgotten: the endpoint is not
armed, no retry is due and there is no frame. -/
theorem credit_lost :
    ∃ s, run step Firmware.configured refusedThenStored = some s ∧
      .prepareOutcome .busy ∈ s.ecm.rx.log ∧ ¬ HasCredit s := by
  refine ⟨_, rfl, by decide, ?_⟩
  rintro (h | h | h | h) <;> exact absurd h (by decide)

/-- The same with a start of frame between the release of the lock and the store. -/
def refusedThenRetried : List Event :=
  [.dataOut one true, .traffic, .traffic, .traffic, .traffic, .traffic, .traffic, .traffic,
    .dataOut ⟨List.replicate 64 2, 0, by decide⟩ true, .traffic, .sof, .traffic]

/-- The renewal is refused, and retried before the outcome is stored: the endpoint is armed
again. -/
theorem credit_kept_iff_retried :
    ∃ s, run step Firmware.configured refusedThenRetried = some s ∧
      .prepareOutcome .busy ∈ s.ecm.rx.log ∧ s.ecm.rx.outEp.valid = true ∧
      ∀ t, Visits step Firmware.configured refusedThenRetried t → HasCredit t := by
  refine ⟨_, rfl, by decide, rfl, (credit_kept_iff _ (by
    simp [refusedThenRetried, Event.Configured])).mpr ?_⟩
  iterate 12 refine (forall_takes_cons rfl).mpr ⟨by decide, ?_⟩
  exact fun s e h => absurd h not_takes_nil

end Stm32Ecm
