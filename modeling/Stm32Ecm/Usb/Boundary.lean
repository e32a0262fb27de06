import Stm32Ecm.Usb.Transmit

/-!
Packet boundaries on the IN endpoint.  The receiver of this driver closes a packet at the first
chunk shorter than 64 bytes (`USBD_ECM_DataOut`, and `Framing.feed` here); the transmitter splits
a packet into chunks of 64 bytes and stops when nothing remains, so a packet whose length is a
multiple of 64 is not closed.

* `sendPackets`: the packets are passed to `usb_ecm_xmit_packet` one after another, each when
  `can_xmit` is true, with every chunk completed by a `USBD_ECM_DataIn` before the next;
  `run_sendPackets` says that this schedule runs through for every list of packets;
* `map_snd_submitted`: whatever the schedule, once nothing remains the receiver has seen the
  plain splitting of the packets;
* `boundaries_agree_iff`: it gives the packets back exactly when no length is a multiple of 64,
  and `boundaries_merged` is a packet of 64 bytes merged with the next one.
-/

namespace Stm32Ecm

open Transition Framing

/-! ### The schedule -/

/-- One packet: the call, its steps, the start of frame that submits the first chunk, and one
completion for each chunk, numbered from `k` on. -/
def sendPacket (k : ℕ) (p : PbufChain) : List Event :=
  .xmitCall p :: (List.replicate (p.segs.length + 3) .xmitStep ++
    .sof :: (List.range' k (chunkCount ecmDataInSz p.bytes)).map .dataIn)

/-- The packets one after another, the chunks numbered from `k` on. -/
def sendPackets : ℕ → List PbufChain → List Event
  | _, [] => []
  | k, p :: ps => sendPacket k p ++ sendPackets (k + chunkCount ecmDataInSz p.bytes) ps

/-- What an interrupt can add to the log: nothing but start of frames, completions, chunks and
the release of `can_xmit`; a chunk is accepted unless the handle is locked. -/
def TxObs.FromInterrupt (h : UsbHandle) : TxObs → Prop
  | .sof | .dataIn _ | .enableXmit => True
  | .transmit _ _ _ outcome => outcome = if h.hpcdLock then .busy else .ok
  | .init | .accept _ => False

lemma ecmIncomingAttempt_log (h : UsbHandle) (tx : EcmTx) :
    ∃ d, (ecmIncomingAttempt h tx).log = tx.log ++ d ∧ ∀ o ∈ d, o.FromInterrupt h := by
  rw [ecmIncomingAttempt]
  split_ifs
  · exact ⟨[], by simp, by simp⟩
  · refine ⟨_, rfl, fun o ho => ?_⟩
    rw [List.mem_singleton.mp ho]
    cases hl : h.hpcdLock <;> simp [TxObs.FromInterrupt, hl]

lemma clearBusy_log (h : UsbHandle) (tx : EcmTx) :
    ∃ d, (clearBusy tx).log = tx.log ++ d ∧ ∀ o ∈ d, o.FromInterrupt h := by
  rw [clearBusy]
  split_ifs
  · refine ⟨_, rfl, fun o ho => ?_⟩
    rw [List.mem_singleton.mp ho]
    trivial
  · exact ⟨[], by simp, by simp⟩

/-- The log of `USBD_ECM_DataIn`. -/
lemma usbdEcmDataIn_log (h : UsbHandle) (k : ℕ) (tx : EcmTx) :
    ∃ d, (usbdEcmDataIn h k tx).log = tx.log ++ d ∧ ∀ o ∈ d, o.FromInterrupt h := by
  obtain ⟨d₁, h₁, hd₁⟩ := clearBusy_log h { tx with log := tx.log ++ [.dataIn k] }
  obtain ⟨d₂, h₂, hd₂⟩ :=
    ecmIncomingAttempt_log h (clearBusy { tx with log := tx.log ++ [.dataIn k] })
  refine ⟨.dataIn k :: (d₁ ++ d₂), by rw [usbdEcmDataIn, h₂, h₁]; simp, fun o ho => ?_⟩
  rcases List.mem_cons.mp ho with rfl | ho
  · trivial
  · rcases List.mem_append.mp ho with ho | ho
    · exact hd₁ o ho
    · exact hd₂ o ho

lemma sinceInit_append {h : UsbHandle} {l d : List TxObs} (hd : ∀ o ∈ d, o.FromInterrupt h) :
    sinceInit (l ++ d) = sinceInit l ++ d := by
  induction d using List.reverseRecOn with
  | nil => simp
  | append_singleton d o ih =>
      have ho : o ≠ .init := by
        rintro rfl
        exact hd .init (by simp)
      rw [← List.append_assoc, sinceInit_concat_of_ne _ ho, ih fun x hx => hd x (by simp [hx]),
        List.append_assoc]

lemma accepted_eq_nil {h : UsbHandle} {d : List TxObs} (hd : ∀ o ∈ d, o.FromInterrupt h) :
    accepted d = [] := by
  refine List.filterMap_eq_nil_iff.mpr fun o ho => ?_
  have hio := hd o ho
  cases o with
  | accept p => exact hio.elim
  | _ => rfl

/-- An interrupt takes no packet. -/
lemma accepted_append_interrupt {h : UsbHandle} {l d : List TxObs}
    (hd : ∀ o ∈ d, o.FromInterrupt h) :
    accepted (sinceInit (l ++ d)) = accepted (sinceInit l) := by
  rw [sinceInit_append hd, accepted_append, accepted_eq_nil hd, List.append_nil]

/-! ### The schedule runs through -/

/-- Every chunk was accepted. -/
def AllAccepted (log : List TxObs) : Prop :=
  ∀ pdev off bytes outcome, .transmit pdev off bytes outcome ∈ log → outcome = .ok

lemma AllAccepted.append {h : UsbHandle} {l d : List TxObs} (hl : AllAccepted l)
    (hlock : h.hpcdLock = false) (hd : ∀ o ∈ d, o.FromInterrupt h) : AllAccepted (l ++ d) := by
  intro pdev off bytes outcome hmem
  rcases List.mem_append.mp hmem with hmem | hmem
  · exact hl pdev off bytes outcome hmem
  · simpa [TxObs.FromInterrupt, hlock] using hd _ hmem

/-- The rest of the state while a packet is sent: the main loop is outside `service_traffic` and
`usb_ecm_xmit_packet`, a device is registered and its handle is not locked. -/
structure Quiet (s : Firmware) : Prop where
  main : s.main = .idle
  xmit : s.xmit = .out
  handle : s.ecm.handle = ⟨true, false⟩
  accepted : AllAccepted s.ecm.tx.log

/-- The copying loop runs to the end and the critical section takes the packet. -/
lemma run_copy (p : PbufChain) (q : List (List UInt8)) {s : Firmware} {data packetSize : ℕ}
    (hpc : s.xmit = .copy p q data packetSize) :
    ∃ t, run step s (List.replicate (q.length + 1) .xmitStep) = some t ∧ t.main = s.main ∧
      t.xmit = .out ∧ t.ecm.handle = s.ecm.handle ∧
      t.ecm.tx.ecmTxRemaining = packetSize + q.flatten.length ∧
      t.ecm.tx.ecmTxBusy = s.ecm.tx.ecmTxBusy ∧
      t.ecm.tx.log = s.ecm.tx.log ++ [.accept p] := by
  induction q generalizing s data packetSize with
  | nil =>
      refine ⟨{ s with
          xmit := .out
          ecm := { s.ecm with tx := { s.ecm.tx with
            canXmit := false, ecmTxPtr := 0, ecmTxRemaining := packetSize,
            copyLength := packetSize, log := s.ecm.tx.log ++ [.accept p] } } },
        ?_, rfl, rfl, rfl, rfl, rfl, rfl⟩
      rw [List.length_nil, Nat.zero_add, List.replicate_one, run_cons, step,
        if_neg (by rw [hpc]; exact fun h => by cases h), hpc]
      rfl
  | cons q qs ih =>
      obtain ⟨t, hrun, hmain, hxmit, hhandle, hrem, hbusy, hlog⟩ := ih
        (s := { s with
          xmit := .copy p qs (data + q.length) (packetSize + q.length)
          ecm := { s.ecm with tx := { s.ecm.tx with
            ecmTxBuffer := Memory.write s.ecm.tx.ecmTxBuffer data q } } }) rfl
      refine ⟨t, ?_, hmain, hxmit, hhandle, ?_, hbusy, hlog⟩
      · rw [List.length_cons, List.replicate_succ, run_cons, step,
          if_neg (by rw [hpc]; exact fun h => by cases h), Option.bind_some, hpc]
        exact hrun
      · rw [hrem, List.flatten_cons, List.length_append]
        omega

/-- Without a chunk left, a completion releases `can_xmit`. -/
lemma usbdEcmDataIn_last {h : UsbHandle} {k : ℕ} {tx : EcmTx} (h0 : tx.ecmTxRemaining = 0) :
    (usbdEcmDataIn h k tx).canXmit = true ∧ (usbdEcmDataIn h k tx).ecmTxRemaining = 0 := by
  have hclear : (clearBusy { tx with log := tx.log ++ [.dataIn k] }).ecmTxRemaining = 0 := by
    rw [clearBusy]
    split_ifs <;> exact h0
  rw [usbdEcmDataIn, ecmIncomingAttempt_of_remaining_eq_zero hclear]
  refine ⟨?_, hclear⟩
  rw [clearBusy, if_pos h0]

/-- With chunks left, a completion submits the next one. -/
lemma usbdEcmDataIn_next {h : UsbHandle} {k : ℕ} {tx : EcmTx} (h0 : tx.ecmTxRemaining ≠ 0) :
    (usbdEcmDataIn h k tx).ecmTxRemaining =
      tx.ecmTxRemaining - min tx.ecmTxRemaining ecmDataInSz := by
  rw [usbdEcmDataIn, clearBusy, if_neg h0, ecmIncomingAttempt, if_neg (by simpa using h0)]

/-- One completion for each chunk left and one more: the packet is sent. -/
lemma run_dataIns (n k : ℕ) {s : Firmware} (hq : Quiet s)
    (hn : (s.ecm.tx.ecmTxRemaining + 63) / 64 = n) :
    ∃ t, run step s ((List.range' k (n + 1)).map .dataIn) = some t ∧ Quiet t ∧
      t.ecm.tx.canXmit = true ∧ t.ecm.tx.ecmTxRemaining = 0 ∧
      Stm32Ecm.accepted (sinceInit t.ecm.tx.log) =
        Stm32Ecm.accepted (sinceInit s.ecm.tx.log) := by
  induction n generalizing k s with
  | zero =>
      have h0 : s.ecm.tx.ecmTxRemaining = 0 := by omega
      obtain ⟨hcan, hrem⟩ := usbdEcmDataIn_last (h := s.ecm.handle) (k := k) h0
      obtain ⟨d, hlog, hd⟩ := usbdEcmDataIn_log s.ecm.handle k s.ecm.tx
      refine ⟨_, rfl, ⟨hq.main, hq.xmit, hq.handle, ?_⟩, hcan, hrem, ?_⟩
      · simp only [hlog]
        exact hq.accepted.append (by rw [hq.handle]) hd
      · simp only [hlog]
        exact accepted_append_interrupt hd
  | succ n ih =>
      have h0 : s.ecm.tx.ecmTxRemaining ≠ 0 := by omega
      have hrem := usbdEcmDataIn_next (h := s.ecm.handle) (k := k) h0
      obtain ⟨d, hlog, hd⟩ := usbdEcmDataIn_log s.ecm.handle k s.ecm.tx
      obtain ⟨t, hrun, hqt, hcan, hremt, hacc⟩ := ih (k + 1)
        (s := { s with ecm := { s.ecm with tx := usbdEcmDataIn s.ecm.handle k s.ecm.tx } })
        ⟨hq.main, hq.xmit, hq.handle, by
          simp only [hlog]
          exact hq.accepted.append (by rw [hq.handle]) hd⟩
        (by simp only [hrem, ecmDataInSz]; omega)
      refine ⟨t, ?_, hqt, hcan, hremt, ?_⟩
      · rw [List.range'_succ, List.map_cons, run_cons, step, Option.bind_some]
        exact hrun
      · rw [hacc]
        simp only [hlog]
        exact accepted_append_interrupt hd

/-- A start of frame with nothing pending submits the first chunk. -/
lemma usbdEcmSof_first {s : Ecm} (hbusy : s.tx.ecmTxBusy = 0) (h0 : s.tx.ecmTxRemaining ≠ 0) :
    (usbdEcmSof s).tx.ecmTxRemaining =
        s.tx.ecmTxRemaining - min s.tx.ecmTxRemaining ecmDataInSz ∧
      ∃ d, (usbdEcmSof s).tx.log = s.tx.log ++ d ∧ ∀ o ∈ d, o.FromInterrupt s.handle := by
  have htx : (usbdEcmSof s).tx =
      ecmIncomingAttempt s.handle { s.tx with log := s.tx.log ++ [.sof] } := by
    rw [usbdEcmSof]
    simp only [countBusy, hbusy, if_true]
  rw [htx]
  constructor
  · rw [ecmIncomingAttempt, if_neg (by simp [h0, hbusy])]
  · obtain ⟨d, hlog, hd⟩ :=
      ecmIncomingAttempt_log s.handle { s.tx with log := s.tx.log ++ [.sof] }
    refine ⟨.sof :: d, by rw [hlog]; simp, fun o ho => ?_⟩
    rcases List.mem_cons.mp ho with rfl | ho
    · trivial
    · exact hd o ho

lemma AllAccepted.accept {l : List TxObs} {p : PbufChain} (hl : AllAccepted l) :
    AllAccepted (l ++ [.accept p]) := by
  intro pdev off bytes outcome hmem
  exact hl pdev off bytes outcome (by simpa using hmem)

/-- One packet is sent: it is taken, its chunks are accepted, and `can_xmit` is true again. -/
lemma run_sendPacket (k : ℕ) (p : PbufChain) {s : Firmware} (hq : Quiet s)
    (hinv : TxInv s.ecm.tx s.xmit) (hcan : s.ecm.tx.canXmit = true) :
    ∃ t, run step s (sendPacket k p) = some t ∧ Quiet t ∧ t.ecm.tx.canXmit = true ∧
      t.ecm.tx.ecmTxRemaining = 0 ∧
      Stm32Ecm.accepted (sinceInit t.ecm.tx.log) =
        Stm32Ecm.accepted (sinceInit s.ecm.tx.log) ++ [p.bytes] := by
  -- the call and the two tests lead into the copying loop
  have hpdev : s.ecm.handle.registeredPdev = true := by rw [hq.handle]
  have hcall : run step s (.xmitCall p :: List.replicate 2 .xmitStep) =
      some { s with xmit := .copy p p.segs 0 0 } := by
    simp [run_cons, step, hq.xmit, hq.main, MainPc.mayXmit, List.replicate, usbEcmXmitPacket,
      hpdev, hcan]
  obtain ⟨u, hcopy, hmain, hxmit, hhandle, hrem, hbusy, hlog⟩ :=
    run_copy p p.segs (s := { s with xmit := .copy p p.segs 0 0 }) rfl
  have hlen : u.ecm.tx.ecmTxRemaining = p.bytes.length := by
    rw [hrem, Nat.zero_add]
    rfl
  have hpos : 0 < p.bytes.length := p.pos
  have hidle : u.ecm.tx.ecmTxBusy = 0 := hbusy.trans (hinv.idle hcan).2
  have hlock : u.ecm.handle.hpcdLock = false := by
    rw [hhandle]
    exact congrArg UsbHandle.hpcdLock hq.handle
  -- the start of frame submits the first chunk, the completions the others
  obtain ⟨hsof, d, hdlog, hd⟩ := usbdEcmSof_first hidle (by omega)
  obtain ⟨t, hins, hqt, hcant, hremt, hacct⟩ := run_dataIns _ k
    (s := { u with ecm := usbdEcmSof u.ecm })
    ⟨hmain.trans hq.main, hxmit, hhandle.trans hq.handle, by
      simp only [hdlog, hlog]
      exact hq.accepted.accept.append hlock hd⟩ rfl
  refine ⟨t, ?_, hqt, hcant, hremt, ?_⟩
  · have hcount : chunkCount ecmDataInSz p.bytes =
        ((usbdEcmSof u.ecm).tx.ecmTxRemaining + 63) / 64 + 1 := by
      rw [hsof, hlen]
      simp only [chunkCount, ecmDataInSz]
      omega
    rw [sendPacket, hcount, show p.segs.length + 3 = 2 + (p.segs.length + 1) from by omega,
      List.replicate_add, List.append_assoc, ← List.cons_append, run_append, hcall,
      Option.bind_some, run_append, hcopy, Option.bind_some, run_cons, step, Option.bind_some]
    exact hins
  · rw [hacct]
    simp only [hdlog]
    rw [accepted_append_interrupt hd, hlog, sinceInit_concat_of_ne _ (by intro h; cases h),
      accepted_append, accepted_accept]

/-- The whole list is sent. -/
lemma run_sendPackets (ps : List PbufChain) (k : ℕ) {s : Firmware} (hq : Quiet s)
    (hinv : TxInv s.ecm.tx s.xmit) (hcan : s.ecm.tx.canXmit = true) :
    ∃ t, run step s (sendPackets k ps) = some t ∧ Quiet t ∧ t.ecm.tx.canXmit = true ∧
      Stm32Ecm.accepted (sinceInit t.ecm.tx.log) =
        Stm32Ecm.accepted (sinceInit s.ecm.tx.log) ++ ps.map PbufChain.bytes := by
  induction ps generalizing k s with
  | nil => exact ⟨s, rfl, hq, hcan, by simp⟩
  | cons p ps ih =>
      obtain ⟨u, hu, hqu, hcanu, -, haccu⟩ := run_sendPacket k p hq hinv hcan
      have hinvu : TxInv u.ecm.tx u.xmit :=
        run_invariant (P := fun _ => True) (I := fun s => TxInv s.ecm.tx s.xmit)
          (fun _ _ _ _ hinv hstep => txInv_step hinv hstep) (fun _ _ => trivial) hinv hu
      obtain ⟨t, ht, hqt, hcant, hacct⟩ :=
        ih (k + chunkCount ecmDataInSz p.bytes) hqu hinvu hcanu
      refine ⟨t, ?_, hqt, hcant, ?_⟩
      · rw [sendPackets, run_append, hu, Option.bind_some]
        exact ht
      · rw [hacct, haccu, List.append_assoc, List.map_cons, List.singleton_append]

/-- From reset, after one configuration. -/
lemma run_init_sendPackets (ps : List PbufChain) :
    ∃ s, run step Firmware.initial (.init :: sendPackets 0 ps) = some s ∧
      s.ecm.tx.canXmit = true ∧ s.ecm.tx.ecmTxRemaining = 0 ∧ AllAccepted s.ecm.tx.log ∧
      accepted (sinceInit s.ecm.tx.log) = ps.map PbufChain.bytes := by
  have hinit : run step Firmware.initial [.init] =
      some { Firmware.initial with ecm := usbdEcmInit Ecm.initial } := rfl
  obtain ⟨t, ht, hq, hcan, hacc⟩ := run_sendPackets ps 0
    (s := { Firmware.initial with ecm := usbdEcmInit Ecm.initial })
    ⟨rfl, rfl, rfl, fun _ _ _ _ h => by cases h with | tail _ h => cases h⟩
    (txInv_run hinit) rfl
  have hrun : run step Firmware.initial (.init :: sendPackets 0 ps) = some t := ht
  exact ⟨t, hrun, hcan, ((txInv_run hrun).idle hcan).1, hq.accepted, hacc⟩

/-! ### What the receiver makes of it -/

/-- Once nothing remains, the receiver sees the plain splitting of the packets taken. -/
lemma map_snd_submitted {es : List Event} {s : Firmware}
    (hrun : run step Firmware.initial es = some s) (h0 : s.ecm.tx.ecmTxRemaining = 0) :
    (submitted (sinceInit s.ecm.tx.log)).map Prod.snd =
      (accepted (sinceInit s.ecm.tx.log)).flatMap (chunks ecmDataInSz) := by
  rw [(txInv_run hrun).streamed.whole h0, map_snd_flatMap_packetChunks]

/-- **Packet boundaries.**  For every list of packets: there is a run that passes them one
after another to `usb_ecm_xmit_packet`, each when `can_xmit` is true, with every chunk accepted
and completed; and in every run that has sent exactly these packets, the receiver gives them
back with their boundaries if and only if no length is a multiple of 64. -/
theorem boundaries_agree_iff (ps : List PbufChain) :
    (∃ s, run step Firmware.initial (.init :: sendPackets 0 ps) = some s ∧
        s.ecm.tx.canXmit = true ∧ s.ecm.tx.ecmTxRemaining = 0 ∧ AllAccepted s.ecm.tx.log ∧
        accepted (sinceInit s.ecm.tx.log) = ps.map PbufChain.bytes) ∧
      ∀ es s, run step Firmware.initial es = some s → s.ecm.tx.ecmTxRemaining = 0 →
        accepted (sinceInit s.ecm.tx.log) = ps.map PbufChain.bytes →
        (reassemble ecmDataOutSz ((submitted (sinceInit s.ecm.tx.log)).map Prod.snd) =
            ⟨[], ps.map PbufChain.bytes⟩ ↔
          ∀ p ∈ ps, p.bytes.length % ecmDataInSz ≠ 0) := by
  refine ⟨run_init_sendPackets ps, fun es s hrun h0 hacc => ?_⟩
  rw [map_snd_submitted hrun h0, hacc]
  exact (reassemble_chunks_iff (by decide) _).trans List.forall_mem_map

/-- A packet of 64 bytes, then a packet of one byte. -/
def fullThenOne : List PbufChain :=
  [⟨[List.replicate 64 1], by decide, by decide⟩, ⟨[[2]], by decide, by decide⟩]

/-- The packet of 64 bytes is not closed: the receiver merges it with the next one. -/
theorem boundaries_merged :
    ∃ s, run step Firmware.initial (.init :: sendPackets 0 fullThenOne) = some s ∧
      AllAccepted s.ecm.tx.log ∧
      accepted (sinceInit s.ecm.tx.log) = [List.replicate 64 1, [2]] ∧
      reassemble ecmDataOutSz ((submitted (sinceInit s.ecm.tx.log)).map Prod.snd) =
        ⟨[], [List.replicate 64 1 ++ [2]]⟩ := by
  obtain ⟨s, hrun, -, h0, hok, hacc⟩ := run_init_sendPackets fullThenOne
  refine ⟨s, hrun, hok, hacc, ?_⟩
  rw [map_snd_submitted hrun h0, hacc]
  decide

end Stm32Ecm
