import Stm32Ecm.Usb.Credit

/-!
What arrives on `ECM_DATA_OUT_EP`, from any host and with any outcome of `pbuf_alloc`, and where
the receive path stores it.

`usb_ecm_recv_callback` renews the endpoint itself when `pbuf_alloc` fails, and `USBD_ECM_DataOut`
clears `ecm_rx_index` only after the callback has returned: the endpoint is then armed behind the
frame that was dropped.

* `Arrival`: a chunk, the outcome of `pbuf_alloc` and whether the interrupt found the handle
  locked;
* `received`, `dropped`: the bytes of the frame under way, and the length of the frame the last
  chunk closed if it was dropped and the endpoint renewed from the callback;
* `ArrivalInv`: `ecm_rx_index` is `received`, a valid endpoint is armed at `dropped + received`,
  and the sizes passed to the callback are the lengths of the frames closed;
* `stores_inside_iff`: every byte is stored inside `ecm_rx_buffer` exactly when every chunk fits
  behind `dropped + received`.
-/

namespace Stm32Ecm

open Transition Framing

/-! ### Arrivals -/

/-- A chunk that arrived: its bytes, the outcome of `pbuf_alloc` if it is called, and
`hpcd.Lock` as the interrupt found it. -/
structure Arrival where
  bytes : List UInt8
  alloc : Bool
  lock : Bool
  deriving DecidableEq, Repr

/-- The chunk an event brings. -/
def arrival (s : Firmware) : Event → List Arrival
  | .dataOut c alloc => [⟨c.bytes, alloc, s.ecm.handle.hpcdLock⟩]
  | _ => []

/-- The chunks that arrive in a run. -/
def arrivals : Firmware → List Event → List Arrival := observed step arrival

lemma arrivals_append {s t : Firmware} {es : List Event} (es' : List Event)
    (hrun : run step s es = some t) :
    arrivals s (es ++ es') = arrivals s es ++ arrivals t es' := observed_append es' hrun

lemma arrivals_concat {s t u : Firmware} {es : List Event} {e : Event}
    (hrun : run step s es = some t) (hstep : step t e = some u) :
    arrivals s (es ++ [e]) = arrivals s es ++ arrival t e := observed_concat hrun hstep

/-- The chunk closes a frame, `pbuf_alloc` fails for it, and the renewal in the callback is
accepted. -/
def Arrival.Drops (a : Arrival) : Prop :=
  a.bytes.length < ecmDataOutSz ∧ a.alloc = false ∧ a.lock = false

instance (a : Arrival) : Decidable a.Drops := inferInstanceAs (Decidable (_ ∧ _))

/-- What the host has sent so far: the frame under way and the frames closed. -/
def sent (as : List Arrival) : Assembly UInt8 := reassemble ecmDataOutSz (as.map Arrival.bytes)

/-- The bytes received of the frame under way. -/
def received (as : List Arrival) : ℕ := (sent as).acc.length

/-- The length of the frame the last chunk closed, if it was dropped and the endpoint renewed
from the callback. -/
def dropped (as : List Arrival) : ℕ :=
  match as.getLast? with
  | none => 0
  | some a => if a.Drops then received as.dropLast + a.bytes.length else 0

/-- The sizes passed to `usb_ecm_recv_callback`. -/
def callbackSizes (log : List RxObs) : List ℕ :=
  log.filterMap fun
    | .recvCallback _ size => some size
    | _ => none

section Arrivals

variable {as : List Arrival} {a : Arrival}

lemma sent_concat : sent (as ++ [a]) = feed ecmDataOutSz (sent as) a.bytes := by
  rw [sent, List.map_append, List.map_singleton, reassemble_concat, sent]

lemma sent_concat_of_lt (h : a.bytes.length < ecmDataOutSz) :
    sent (as ++ [a]) = ⟨[], (sent as).done ++ [(sent as).acc ++ a.bytes]⟩ := by
  rw [sent_concat, feed_of_lt h]

lemma sent_concat_of_le (h : ecmDataOutSz ≤ a.bytes.length) :
    sent (as ++ [a]) = ⟨(sent as).acc ++ a.bytes, (sent as).done⟩ := by
  rw [sent_concat, feed_of_le h]

lemma received_concat_of_lt (h : a.bytes.length < ecmDataOutSz) : received (as ++ [a]) = 0 := by
  rw [received, sent_concat_of_lt h, List.length_nil]

lemma received_concat_of_le (h : ecmDataOutSz ≤ a.bytes.length) :
    received (as ++ [a]) = received as + a.bytes.length := by
  rw [received, sent_concat_of_le h, List.length_append, received]

lemma dropped_concat :
    dropped (as ++ [a]) = if a.Drops then received as + a.bytes.length else 0 := by
  rw [dropped, List.getLast?_concat, List.dropLast_concat]

lemma dropped_concat_of_not (h : ¬ a.Drops) : dropped (as ++ [a]) = 0 := by
  rw [dropped_concat, if_neg h]

lemma callbackSizes_append (l l' : List RxObs) :
    callbackSizes (l ++ l') = callbackSizes l ++ callbackSizes l' :=
  List.filterMap_append

end Arrivals

/-! ### The invariant -/

/-- Where the receive path stands after the chunks `as`; `base` are the sizes passed to the
callback before them. -/
structure ArrivalInv (base : List ℕ) (as : List Arrival) (pc : MainPc) (rx : EcmRx) : Prop where
  index : rx.ecmRxIndex = received as
  armed : rx.outEp.valid = true →
    rx.outEp.xferBuff = dropped as + received as ∧ rx.outEp.xferCount = 0
  unarmed : rx.outEp.valid = false → dropped as = 0
  prepared : pc = .prepared ∨ pc = .locked →
    rx.outEp.xferBuff = rx.ecmRxIndex ∧ rx.outEp.xferCount = 0
  sizes : callbackSizes rx.log = base ++ (sent as).done.map List.length

section Renewal

variable {h : UsbHandle} {rx : EcmRx}

@[simp] lemma usbEcmRecvRenew_ecmRxIndex : (usbEcmRecvRenew h rx).ecmRxIndex = rx.ecmRxIndex :=
  rfl

@[simp] lemma usbEcmRecvRenew_ecmRxBuffer :
    (usbEcmRecvRenew h rx).ecmRxBuffer = rx.ecmRxBuffer := rfl

@[simp] lemma usbEcmRecvRenew_receivedFrame :
    (usbEcmRecvRenew h rx).receivedFrame = rx.receivedFrame := rfl

@[simp] lemma usbEcmRecvRenew_xferBuff :
    (usbEcmRecvRenew h rx).outEp.xferBuff = rx.ecmRxIndex := by
  cases hl : h.hpcdLock <;> simp [usbEcmRecvRenew, hl]

@[simp] lemma usbEcmRecvRenew_xferCount : (usbEcmRecvRenew h rx).outEp.xferCount = 0 := by
  cases hl : h.hpcdLock <;> simp [usbEcmRecvRenew, hl]

/-- A renewal arms the endpoint unless the handle is locked. -/
lemma usbEcmRecvRenew_valid :
    (usbEcmRecvRenew h rx).outEp.valid = (!h.hpcdLock || rx.outEp.valid) := by
  cases hl : h.hpcdLock <;> simp [usbEcmRecvRenew, hl]

/-- A renewal calls no callback. -/
@[simp] lemma callbackSizes_renew :
    callbackSizes (usbEcmRecvRenew h rx).log = callbackSizes rx.log := by
  rw [usbEcmRecvRenew, callbackSizes_append]
  exact List.append_nil _

@[simp] lemma callbackSizes_storeOut {c : OutPacket} :
    callbackSizes (storeOut c rx).log = callbackSizes rx.log := by
  rw [storeOut_log, callbackSizes_append]
  split_ifs <;> exact List.append_nil _

end Renewal

section Steps

variable {base : List ℕ} {as : List Arrival} {pc : MainPc} {h : UsbHandle} {rx : EcmRx}

/-- An armed endpoint meets no renewal of `service_traffic`. -/
lemma MainPc.Free.not_renewing (hfree : pc.Free) : ¬ (pc = .prepared ∨ pc = .locked) :=
  fun hp => hp.elim hfree.ne_prepared.1 hfree.ne_prepared.2

/-- A full chunk: the endpoint is armed behind it, or the renewal is refused. -/
lemma ArrivalInv.full {c : OutPacket} {alloc : Bool} (hinv : ArrivalInv base as pc rx)
    (hcredit : CreditInv pc h rx) (hv : rx.outEp.valid = true)
    (hle : ecmDataOutSz ≤ c.bytes.length) :
    ArrivalInv base (as ++ [⟨c.bytes, alloc, h.hpcdLock⟩]) pc (pcdEpIsrOut h c alloc rx) := by
  obtain ⟨-, hlen, hfree⟩ := hcredit.armed hv
  have hdropped : dropped (as ++ [⟨c.bytes, alloc, h.hpcdLock⟩]) = 0 :=
    dropped_concat_of_not fun hd => absurd hd.1 (Nat.not_lt.mpr hle)
  rw [pcdEpIsrOut_full hlen (hinv.armed hv).2 hle]
  refine ⟨?_, fun _ => ⟨?_, by simp⟩, fun _ => hdropped,
    fun hp => absurd hp hfree.not_renewing, ?_⟩
  · rw [usbEcmRecvRenew_ecmRxIndex, received_concat_of_le hle, hinv.index]
  · rw [usbEcmRecvRenew_xferBuff, hdropped, received_concat_of_le hle, hinv.index,
      Nat.zero_add]
  · rw [callbackSizes_renew, sent_concat_of_le hle]
    exact callbackSizes_storeOut.trans hinv.sizes

/-- A short chunk: the callback is told the length of the frame.  If it drops the frame and its
renewal is accepted, the endpoint is armed behind that frame. -/
lemma ArrivalInv.closing {c : OutPacket} {alloc : Bool} (hinv : ArrivalInv base as pc rx)
    (hcredit : CreditInv pc h rx) (hv : rx.outEp.valid = true)
    (hlt : c.bytes.length < ecmDataOutSz) :
    ArrivalInv base (as ++ [⟨c.bytes, alloc, h.hpcdLock⟩]) pc (pcdEpIsrOut h c alloc rx) := by
  obtain ⟨hmail, hlen, hfree⟩ := hcredit.armed hv
  have hmail' : (storeOut c rx).receivedFrame = none := storeOut_receivedFrame.trans hmail
  have hsizes : callbackSizes ((storeOut c rx).log ++
        [.recvCallback false (rx.ecmRxIndex + c.bytes.length)]) =
      base ++ (sent (as ++ [⟨c.bytes, alloc, h.hpcdLock⟩])).done.map List.length := by
    rw [callbackSizes_append, callbackSizes_storeOut, hinv.sizes, sent_concat_of_lt hlt,
      List.map_append, ← List.append_assoc, hinv.index, received]
    simp [callbackSizes]
  rw [pcdEpIsrOut_closing (Or.inl hlen) (hinv.armed hv).2 hlt]
  cases alloc with
  | true =>
      rw [usbEcmRecvCallback_allocated (by exact hmail')]
      refine ⟨(received_concat_of_lt hlt).symm, fun hvalid => (by cases hvalid), fun _ => ?_,
        fun hp => absurd hp hfree.not_renewing, hsizes⟩
      exact dropped_concat_of_not fun hd => (by cases hd.2.1)
  | false =>
      rw [usbEcmRecvCallback_noMemory (by exact hmail')]
      refine ⟨(received_concat_of_lt hlt).symm, fun hvalid => ⟨?_, by simp⟩, fun hvalid => ?_,
        fun hp => absurd hp hfree.not_renewing, ?_⟩
      · have hlock : h.hpcdLock = false := by simpa [usbEcmRecvRenew_valid] using hvalid
        rw [usbEcmRecvRenew_xferBuff, received_concat_of_lt hlt, dropped_concat,
          if_pos ⟨hlt, rfl, hlock⟩, hinv.index]
        rfl
      · have hlock : h.hpcdLock = true := by simpa [usbEcmRecvRenew_valid] using hvalid
        exact dropped_concat_of_not fun hd => absurd (hd.2.2.symm.trans hlock) (by simp)
      · rw [callbackSizes_renew]
        exact hsizes

/-- **A packet arrives.** -/
lemma ArrivalInv.dataOut {c : OutPacket} {alloc : Bool} (hinv : ArrivalInv base as pc rx)
    (hcredit : CreditInv pc h rx) (hv : rx.outEp.valid = true) :
    ArrivalInv base (as ++ [⟨c.bytes, alloc, h.hpcdLock⟩]) pc (pcdEpIsrOut h c alloc rx) := by
  by_cases hlt : c.bytes.length < ecmDataOutSz
  · exact hinv.closing hcredit hv hlt
  · exact hinv.full hcredit hv (Nat.not_lt.mp hlt)

/-- **A refused renewal is retried** at a start of frame, at `ecm_rx_index`. -/
lemma ArrivalInv.sof {s : Firmware} (hinv : ArrivalInv base as s.main s.ecm.rx)
    (hcredit : CreditInv s.main s.ecm.handle s.ecm.rx) :
    ArrivalInv base as s.main (usbdEcmSof s.ecm).rx := by
  simp only [usbdEcmSof]
  split_ifs with hflag
  · obtain ⟨hv, -, hpc⟩ := hcredit.refused hflag
    have hdropped : dropped as = 0 := hinv.unarmed hv
    refine ⟨hinv.index, fun _ => ⟨?_, by simp⟩, fun _ => hdropped,
      fun hp => absurd hp (MainPc.Free.not_renewing (Or.inr hpc)), ?_⟩
    · rw [usbEcmRecvRenew_xferBuff, hdropped, Nat.zero_add, hinv.index]
    · rw [callbackSizes_renew, hinv.sizes]
  · exact hinv

/-- An observation of `service_traffic` is no call of the callback. -/
lemma ArrivalInv.sizes_concat {o : RxObs} (hinv : ArrivalInv base as pc rx)
    (ho : callbackSizes [o] = []) :
    callbackSizes (rx.log ++ [o]) = base ++ (sent as).done.map List.length := by
  rw [callbackSizes_append, ho, List.append_nil, hinv.sizes]

/-- **A step of `service_traffic`** arms the endpoint at `ecm_rx_index`. -/
lemma ArrivalInv.traffic {s : Firmware} (hinv : ArrivalInv base as s.main s.ecm.rx)
    (hcredit : CreditInv s.main s.ecm.handle s.ecm.rx) :
    ArrivalInv base as (serviceTraffic s.main s.ecm).1 (serviceTraffic s.main s.ecm).2.rx := by
  obtain ⟨ecm, pc, xmit⟩ := s
  obtain ⟨hidx, harm, hun, hprep, hsizes⟩ := id hinv
  cases pc with
  | idle =>
      cases hmail : ecm.rx.receivedFrame with
      | none =>
          rw [serviceTraffic_empty hmail]
          exact hinv
      | some frame =>
          rw [serviceTraffic_take hmail]
          exact ⟨hidx, harm, hun, fun hp => (by rcases hp with hp | hp <;> cases hp), hsizes⟩
  | taken frame =>
      exact ⟨hidx, harm, hun, fun hp => (by rcases hp with hp | hp <;> cases hp),
        hinv.sizes_concat rfl⟩
  | inside frame | returned frame =>
      exact ⟨hidx, harm, hun, fun hp => (by rcases hp with hp | hp <;> cases hp), hsizes⟩
  | renew =>
      obtain ⟨hv, -, -⟩ := hcredit.quiet rfl
      refine ⟨hidx, fun hvalid => ?_, fun _ => hun hv, fun _ => ⟨rfl, rfl⟩,
        hinv.sizes_concat rfl⟩
      exact absurd (hv.symm.trans hvalid) (by simp)
  | prepared =>
      obtain ⟨hv, -, -⟩ := hcredit.quiet rfl
      rw [serviceTraffic_lock hcredit.lock]
      refine ⟨hidx, fun hvalid => ?_, fun _ => hun hv, fun _ => ?_, hsizes⟩
      · exact absurd (hv.symm.trans (by simpa using hvalid)) (by simp)
      · simpa using hprep (Or.inl rfl)
  | locked =>
      obtain ⟨hv, -, -⟩ := hcredit.quiet rfl
      obtain ⟨hbuff, hcount⟩ := hprep (Or.inr rfl)
      refine ⟨hidx, fun _ => ⟨?_, hcount⟩, fun hvalid => (by cases hvalid),
        fun hp => (by rcases hp with hp | hp <;> cases hp), hsizes⟩
      exact (hbuff.trans hidx).trans (by rw [hun hv, Nat.zero_add])
  | validated =>
      exact ⟨hidx, harm, hun, fun hp => (by rcases hp with hp | hp <;> cases hp), hsizes⟩
  | store outcome =>
      exact ⟨hidx, harm, hun, fun hp => (by rcases hp with hp | hp <;> cases hp),
        hinv.sizes_concat rfl⟩

end Steps

/-- **One step** of the configured device. -/
lemma arrivalInv_step {base : List ℕ} {as : List Arrival} {s t : Firmware} {e : Event}
    (he : e.Configured) (hcredit : CreditInv s.main s.ecm.handle s.ecm.rx)
    (hinv : ArrivalInv base as s.main s.ecm.rx) (hstep : step s e = some t) :
    ArrivalInv base (as ++ arrival s e) t.main t.ecm.rx := by
  cases e with
  | init | deInit => exact he.elim
  | dataOut c alloc =>
      obtain ⟨hv, rfl⟩ := step_dataOut hstep
      exact hinv.dataOut hcredit hv
  | dataIn k =>
      cases hstep
      simp only [arrival, List.append_nil]
      exact hinv
  | sof =>
      cases hstep
      simp only [arrival, List.append_nil]
      exact hinv.sof hcredit
  | traffic =>
      obtain ⟨-, rfl⟩ := step_traffic hstep
      simp only [arrival, List.append_nil]
      exact hinv.traffic hcredit
  | xmitCall p =>
      obtain ⟨-, -, rfl⟩ := step_xmitCall hstep
      simp only [arrival, List.append_nil]
      exact hinv
  | xmitStep =>
      obtain ⟨-, rfl⟩ := step_xmitStep hstep
      simp only [arrival, List.append_nil]
      exact hinv

/-- **Every run** of the configured device, from a state in which both invariants hold. -/
lemma arrivalInv_run {base : List ℕ} {es : List Event} {s t : Firmware}
    (hes : ∀ e ∈ es, e.Configured) (hcredit : CreditInv s.main s.ecm.handle s.ecm.rx)
    (hinv : ArrivalInv base [] s.main s.ecm.rx) (hrun : run step s es = some t) :
    CreditInv t.main t.ecm.handle t.ecm.rx ∧
      ArrivalInv base (arrivals s es) t.main t.ecm.rx :=
  run_observed (I := fun as s => CreditInv s.main s.ecm.handle s.ecm.rx ∧
      ArrivalInv base as s.main s.ecm.rx) ⟨hcredit, hinv⟩
    (fun _ _ _ _ he hI hstep => ⟨(creditInv_step he hI.1 hstep).1,
      arrivalInv_step he hI.1 hI.2 hstep⟩) hes hrun

lemma arrivalInv_configured :
    ArrivalInv [] [] Firmware.configured.main Firmware.configured.ecm.rx where
  index := rfl
  armed := fun _ => ⟨rfl, rfl⟩
  unarmed := fun _ => rfl
  prepared := fun hp => (by rcases hp with hp | hp <;> cases hp)
  sizes := rfl

/-! ### The bound of the buffer -/

/-- Every chunk fits behind what has been received of its frame and, if it is the first one after
a frame that was dropped, behind that frame. -/
def FitsBuffer (as : List Arrival) : Prop :=
  ∀ pre a post, as = pre ++ a :: post → a.bytes ≠ [] →
    dropped pre + received pre + a.bytes.length ≤ ecmMaxSegmentSize

lemma FitsBuffer.of_append {as as' : List Arrival} (h : FitsBuffer (as ++ as')) :
    FitsBuffer as := by
  rintro pre a post rfl
  exact h pre a (post ++ as') (by simp)

lemma fitsBuffer_iff {as : List Arrival} :
    FitsBuffer as ↔ ∀ i (h : i < as.length), as[i].bytes ≠ [] →
      dropped (as.take i) + received (as.take i) + as[i].bytes.length ≤ ecmMaxSegmentSize := by
  constructor
  · intro hfits i hi hnil
    exact hfits (as.take i) as[i] (as.drop (i + 1))
      (by rw [List.getElem_cons_drop, List.take_append_drop]) hnil
  · rintro hall pre a post rfl hnil
    have hle := hall pre.length (by simp) (by simpa using hnil)
    simpa using hle

instance (as : List Arrival) : Decidable (FitsBuffer as) :=
  decidable_of_iff _ fitsBuffer_iff.symm

/-- Then no frame is longer than the buffer. -/
lemma FitsBuffer.length_le {as : List Arrival} (h : FitsBuffer as) :
    received as ≤ ecmMaxSegmentSize ∧
      ∀ f ∈ (sent as).done, f.length ≤ ecmMaxSegmentSize := by
  induction as using List.reverseRecOn with
  | nil => exact ⟨Nat.zero_le _, fun f hf => (by cases hf)⟩
  | append_singleton as a ih =>
      obtain ⟨hrec, hdone⟩ := ih h.of_append
      have hfit : received as + a.bytes.length ≤ ecmMaxSegmentSize := by
        by_cases hnil : a.bytes = []
        · rw [hnil]
          exact hrec
        · have hle := h as a [] rfl hnil
          omega
      by_cases hlt : a.bytes.length < ecmDataOutSz
      · rw [received_concat_of_lt hlt, sent_concat_of_lt hlt]
        refine ⟨Nat.zero_le _, fun f hf => ?_⟩
        rcases List.mem_append.mp hf with hf | hf
        · exact hdone f hf
        · rw [List.mem_singleton.mp hf, List.length_append]
          exact hfit
      · have hle : ecmDataOutSz ≤ a.bytes.length := Nat.not_lt.mp hlt
        rw [received_concat_of_le hle, sent_concat_of_le hle]
        exact ⟨hfit, hdone⟩

lemma length_arrival_le (s : Firmware) (e : Event) : (arrival s e).length ≤ 1 := by
  cases e <;> simp [arrival]

/-- An event that brings a chunk. -/
lemma eq_dataOut_of_arrival {s : Firmware} {e : Event} {a : Arrival} (h : arrival s e = [a]) :
    ∃ c alloc, e = .dataOut c alloc ∧ a = ⟨c.bytes, alloc, s.ecm.handle.hpcdLock⟩ := by
  cases e with
  | dataOut c alloc => exact ⟨c, alloc, rfl, by simpa [arrival] using h.symm⟩
  | _ => simp [arrival] at h

/-- **The bound of the receive buffer**, against any host.  In a run of the configured device,
every byte of every chunk is stored inside `ecm_rx_buffer` and every size passed to
`usb_ecm_recv_callback` is at most `ECM_MAX_SEGMENT_SIZE` if and only if every chunk that arrives
fits behind the bytes of its frame and behind a frame just dropped. -/
theorem stores_inside_iff (es : List Event) (hes : ∀ e ∈ es, e.Configured) :
    ((∀ s c alloc, Takes step Firmware.configured es s (.dataOut c alloc) →
        ∀ i < c.bytes.length, s.ecm.rx.outEp.xferBuff + i < ecmMaxSegmentSize) ∧
      ∀ s, Visits step Firmware.configured es s → ∀ occupied size,
        .recvCallback occupied size ∈ s.ecm.rx.log → size ≤ ecmMaxSegmentSize) ↔
      FitsBuffer (arrivals Firmware.configured es) := by
  have hinv : ∀ pre post s, es = pre ++ post → run step Firmware.configured pre = some s →
      ArrivalInv [] (arrivals Firmware.configured pre) s.main s.ecm.rx := by
    rintro pre post s rfl hrun
    exact (arrivalInv_run (fun e he => hes e (by simp [he])) creditInv_configured
      arrivalInv_configured hrun).2
  constructor
  · rintro ⟨hstores, -⟩ pre a post has hnil
    obtain ⟨es₁, e, es₂, s, t, rfl, hrun, hstep, hobs, hpre⟩ :=
      exists_of_observed_eq length_arrival_le has
    obtain ⟨c, alloc, rfl, rfl⟩ := eq_dataOut_of_arrival hobs
    have hbuff := ((hinv es₁ _ s rfl hrun).armed (step_dataOut hstep).1).1
    have hpos : 0 < c.bytes.length := List.length_pos_iff.mpr hnil
    have hlast := hstores s c alloc ⟨es₁, es₂, rfl, hrun, by rw [hstep]; rfl⟩
      (c.bytes.length - 1) (by omega)
    rw [hbuff, arrivals, hpre] at hlast
    change dropped pre + received pre + c.bytes.length ≤ _
    omega
  · intro hfits
    refine ⟨?_, ?_⟩
    · rintro s c alloc ⟨es₁, es₂, rfl, hrun, hsome⟩ i hi
      obtain ⟨t, hstep⟩ := Option.isSome_iff_exists.mp hsome
      have hbuff := ((hinv es₁ _ s rfl hrun).armed (step_dataOut hstep).1).1
      have hnil : c.bytes ≠ [] := List.length_pos_iff.mp (by omega)
      have hle : dropped (arrivals Firmware.configured es₁) +
          received (arrivals Firmware.configured es₁) + c.bytes.length ≤ ecmMaxSegmentSize :=
        hfits _ ⟨c.bytes, alloc, s.ecm.handle.hpcdLock⟩ (arrivals t es₂)
          (by rw [arrivals_append _ hrun, arrivals, observed_cons hstep]; rfl) hnil
      rw [hbuff]
      omega
    · rintro s ⟨es₁, es₂, rfl, hrun⟩ occupied size hmem
      rw [arrivals_append _ hrun] at hfits
      have hsize : size ∈ callbackSizes s.ecm.rx.log :=
        List.mem_filterMap.mpr ⟨_, hmem, rfl⟩
      rw [(hinv es₁ _ s rfl hrun).sizes, List.nil_append] at hsize
      obtain ⟨f, hf, rfl⟩ := List.mem_map.mp hsize
      exact hfits.of_append.length_le.2 f hf

/-- A full chunk. -/
def fullChunk : Event := .dataOut sevens true

/-- A host that sends no short chunk: the 24th full one is stored from offset 1472 on, with
1514 bytes in the buffer. -/
theorem stores_outside :
    ∃ s c, Takes step Firmware.configured (List.replicate 24 fullChunk) s (.dataOut c true) ∧
      s.ecm.rx.outEp.xferBuff = 1472 ∧ c.bytes.length = 64 ∧
      ¬ ∀ i < c.bytes.length, s.ecm.rx.outEp.xferBuff + i < ecmMaxSegmentSize := by
  obtain ⟨s, hrun, hbuff, hvalid⟩ :
      ∃ s, run step Firmware.configured (List.replicate 23 fullChunk) = some s ∧
        s.ecm.rx.outEp.xferBuff = 1472 ∧ s.ecm.rx.outEp.valid = true :=
    ⟨_, rfl, by decide +kernel, by decide +kernel⟩
  refine ⟨s, ⟨List.replicate 64 7, 0, by decide⟩,
    ⟨List.replicate 23 fullChunk, [], rfl, hrun, by simp [step, hvalid]⟩, hbuff, by decide, ?_⟩
  intro h
  have hlast := h 63 (by decide)
  rw [hbuff] at hlast
  exact absurd hlast (by decide)

/-- The longest frame: 23 full chunks and one of 42 bytes. -/
def longestFrame : List Event :=
  List.replicate 23 fullChunk ++ [.dataOut ⟨List.replicate 42 7, 0, by decide⟩ true]

/-- It fits. -/
theorem stores_inside_iff_longestFrame :
    ∃ t, run step Firmware.configured longestFrame = some t ∧
      callbackSizes t.ecm.rx.log = [1514] ∧
      FitsBuffer (arrivals Firmware.configured longestFrame) ∧
      ∀ s c alloc, Takes step Firmware.configured longestFrame s (.dataOut c alloc) →
        ∀ i < c.bytes.length, s.ecm.rx.outEp.xferBuff + i < ecmMaxSegmentSize := by
  have hfits : FitsBuffer (arrivals Firmware.configured longestFrame) := by decide +kernel
  have hconf : ∀ e ∈ longestFrame, e.Configured := by
    rintro e he
    rcases List.mem_append.mp he with he | he
    · rw [List.eq_of_mem_replicate he]
      trivial
    · rw [List.mem_singleton.mp he]
      trivial
  exact ⟨_, rfl, by decide +kernel, hfits, ((stores_inside_iff longestFrame hconf).mpr hfits).1⟩

end Stm32Ecm
