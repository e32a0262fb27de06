import Mathlib.Data.List.Infix
import Stm32Ecm.Library.Framing
import Stm32Ecm.Usb.Firmware

/-!
The transmit path over whole runs: what `USBD_LL_Transmit` is called with, in any order of
packets, completions, start-of-frame interrupts and (de)configurations.

* `sinceInit`, `accepted`, `submitted`: the part of the log since the last `USBD_ECM_Init`, the
  packets `usb_ecm_xmit_packet` took in it and the chunks passed down in it;
* `packetChunks`: the splitting of one packet into chunks of 64 bytes, with their offsets;
* `TxInv`: the relation among `can_xmit`, `ecm_tx_ptr`, `ecm_tx_remaining` and `ecm_tx_busy`
  that makes the unprotected copy into `ecm_tx_buffer` safe: while it goes on nothing remains
  to be sent, so no interrupt reads the buffer.  Every handler preserves it
  (`TxInv.attempt`, `TxInv.clear`, `TxInv.count`, `TxInv.xmit`);
* `submission_order`: between two configurations the chunks are the splitting of the packets,
  in order, the last packet possibly only in part.
-/

namespace Stm32Ecm

open Transition Framing

/-! ### Reading the log -/

/-- The log since the last `USBD_ECM_Init`. -/
def sinceInit (log : List TxObs) : List TxObs :=
  log.foldl (fun l o => if o = .init then [] else l ++ [o]) []

/-- The packets taken by `usb_ecm_xmit_packet`. -/
def accepted (log : List TxObs) : List (List UInt8) :=
  log.filterMap fun
    | .accept p => some p.bytes
    | _ => none

/-- The chunks passed to `USBD_LL_Transmit`, with their offsets in `ecm_tx_buffer`. -/
def submitted (log : List TxObs) : List (ℕ × List UInt8) :=
  log.filterMap fun
    | .transmit _ off bytes _ => some (off, bytes)
    | _ => none

lemma sinceInit_concat (log : List TxObs) (o : TxObs) :
    sinceInit (log ++ [o]) = if o = .init then [] else sinceInit log ++ [o] := by
  rw [sinceInit, List.foldl_append]
  rfl

@[simp] lemma sinceInit_init (log : List TxObs) : sinceInit (log ++ [.init]) = [] := by
  rw [sinceInit_concat, if_pos rfl]

lemma sinceInit_concat_of_ne (log : List TxObs) {o : TxObs} (h : o ≠ .init) :
    sinceInit (log ++ [o]) = sinceInit log ++ [o] := by
  rw [sinceInit_concat, if_neg h]

lemma accepted_append (l l' : List TxObs) : accepted (l ++ l') = accepted l ++ accepted l' :=
  List.filterMap_append

lemma submitted_append (l l' : List TxObs) :
    submitted (l ++ l') = submitted l ++ submitted l' :=
  List.filterMap_append

@[simp] lemma accepted_transmit {pdev : Bool} {off : ℕ} {bytes : List UInt8} {r : UsbdStatus} :
    accepted [.transmit pdev off bytes r] = [] := rfl

@[simp] lemma submitted_transmit {pdev : Bool} {off : ℕ} {bytes : List UInt8} {r : UsbdStatus} :
    submitted [.transmit pdev off bytes r] = [(off, bytes)] := rfl

@[simp] lemma accepted_accept {p : PbufChain} : accepted [.accept p] = [p.bytes] := rfl

@[simp] lemma submitted_accept {p : PbufChain} : submitted [.accept p] = [] := rfl

/-! ### The chunks of a packet -/

/-- The chunks of a packet with their offsets. -/
def packetChunks (l : List UInt8) : List (ℕ × List UInt8) :=
  (List.range (chunkCount ecmDataInSz l)).map fun i =>
    (ecmDataInSz * i, chunkAt ecmDataInSz l i)

lemma map_snd_packetChunks (l : List UInt8) :
    (packetChunks l).map Prod.snd = chunks ecmDataInSz l := by
  rw [packetChunks, List.map_map]
  rfl

/-- The chunks of a list of packets, without their offsets. -/
lemma map_snd_flatMap_packetChunks (ps : List (List UInt8)) :
    (ps.flatMap packetChunks).map Prod.snd = ps.flatMap (chunks ecmDataInSz) := by
  rw [List.map_flatMap]
  exact List.flatMap_congr fun p _ => map_snd_packetChunks p

/-- The chunks make up the bytes of the packets. -/
lemma flatten_packetChunks (ps : List (List UInt8)) :
    ((ps.flatMap packetChunks).map Prod.snd).flatten = ps.flatten := by
  rw [map_snd_flatMap_packetChunks]
  induction ps with
  | nil => rfl
  | cons p ps ih =>
      rw [List.flatMap_cons, List.flatten_append, flatten_chunks (by decide), ih,
        List.flatten_cons]

lemma length_packetChunks (l : List UInt8) :
    (packetChunks l).length = chunkCount ecmDataInSz l := by
  rw [packetChunks, List.length_map, List.length_range]

lemma take_succ_packetChunks {l : List UInt8} {k : ℕ} (h : ecmDataInSz * k < l.length) :
    (packetChunks l).take (k + 1) =
      (packetChunks l).take k ++ [(ecmDataInSz * k, chunkAt ecmDataInSz l k)] := by
  have hk : k < chunkCount ecmDataInSz l := by
    simp only [chunkCount, ecmDataInSz] at h ⊢
    omega
  rw [List.take_add_one, packetChunks, List.getElem?_map, List.getElem?_range hk]
  rfl

lemma take_packetChunks_of_le {l : List UInt8} {k : ℕ} (h : l.length ≤ ecmDataInSz * k) :
    (packetChunks l).take k = packetChunks l := by
  refine List.take_of_length_le ?_
  rw [length_packetChunks]
  simp only [chunkCount, ecmDataInSz] at h ⊢
  omega

/-! ### The invariant -/

/-- Where the current packet stands.  With nothing remaining every packet taken has been passed
down whole; otherwise the last one has been passed down up to `ecm_tx_ptr`, and the buffer
still holds it. -/
structure Streamed (tx : EcmTx) : Prop where
  whole : tx.ecmTxRemaining = 0 →
    submitted (sinceInit tx.log) = (accepted (sinceInit tx.log)).flatMap packetChunks
  part : tx.ecmTxRemaining ≠ 0 → ∃ ps p k,
    accepted (sinceInit tx.log) = ps ++ [p] ∧ tx.ecmTxPtr = ecmDataInSz * k ∧
    tx.ecmTxPtr + tx.ecmTxRemaining = p.length ∧ p.length ≤ ecmMaxSegmentSize ∧
    Memory.read tx.ecmTxBuffer 0 p.length = p ∧
    submitted (sinceInit tx.log) = ps.flatMap packetChunks ++ (packetChunks p).take k

/-- Every chunk passed down lies inside the packet that was current. -/
def ReadsInside (log : List TxObs) : Prop :=
  ∀ l₁ pdev off bytes outcome l₂, log = l₁ ++ .transmit pdev off bytes outcome :: l₂ →
    ∃ ps p, accepted l₁ = ps ++ [p] ∧ off + bytes.length ≤ p.length ∧
      p.length ≤ ecmMaxSegmentSize ∧ bytes = (p.drop off).take bytes.length

/-- The invariant of the transmit path. -/
structure TxInv (tx : EcmTx) (pc : XmitPc) : Prop where
  streamed : Streamed tx
  inside : ReadsInside (sinceInit tx.log)
  busy_le : tx.ecmTxBusy ≤ 32
  idle : tx.canXmit = true → tx.ecmTxRemaining = 0 ∧ tx.ecmTxBusy = 0
  copying : ∀ p q data packetSize, pc = .copy p q data packetSize →
    tx.ecmTxRemaining = 0 ∧ tx.ecmTxBusy = 0 ∧ packetSize = data ∧
      ∃ copied, p.segs = copied ++ q ∧ data = copied.flatten.length ∧
        Memory.read tx.ecmTxBuffer 0 data = copied.flatten

/-- An observation that is neither a packet, a chunk nor a configuration. -/
def TxObs.Silent : TxObs → Prop
  | .sof | .dataIn _ | .enableXmit => True
  | _ => False

lemma TxObs.Silent.ne_init {o : TxObs} (h : o.Silent) : o ≠ .init := by
  rintro rfl
  exact h

lemma TxObs.Silent.accepted_eq {o : TxObs} (h : o.Silent) : accepted [o] = [] := by
  cases o <;> first | rfl | exact h.elim

lemma TxObs.Silent.submitted_eq {o : TxObs} (h : o.Silent) : submitted [o] = [] := by
  cases o <;> first | rfl | exact h.elim

lemma ReadsInside.concat {l : List TxObs} {o : TxObs} (h : ReadsInside l)
    (ho : ∀ pdev off bytes outcome, o = .transmit pdev off bytes outcome →
      ∃ ps p, accepted l = ps ++ [p] ∧ off + bytes.length ≤ p.length ∧
        p.length ≤ ecmMaxSegmentSize ∧ bytes = (p.drop off).take bytes.length) :
    ReadsInside (l ++ [o]) := by
  intro l₁ pdev off bytes outcome l₂ hsplit
  rcases concat_eq_append_cons hsplit with ⟨-, rfl, rfl⟩ | ⟨l₂', -, hl⟩
  · exact ho pdev off bytes outcome rfl
  · exact h l₁ pdev off bytes outcome l₂' hl

/-- A silent observation changes nothing the invariant reads. -/
lemma Streamed.silent {tx : EcmTx} {o : TxObs} (h : Streamed tx) (ho : o.Silent) :
    Streamed { tx with log := tx.log ++ [o] } := by
  have hlog := sinceInit_concat_of_ne tx.log ho.ne_init
  have hacc : accepted (sinceInit (tx.log ++ [o])) = accepted (sinceInit tx.log) := by
    rw [hlog, accepted_append, ho.accepted_eq, List.append_nil]
  have hsub : submitted (sinceInit (tx.log ++ [o])) = submitted (sinceInit tx.log) := by
    rw [hlog, submitted_append, ho.submitted_eq, List.append_nil]
  constructor
  · intro h0
    simpa only [hacc, hsub] using h.whole h0
  · intro h0
    simpa only [hacc, hsub] using h.part h0

lemma TxInv.silent {tx : EcmTx} {pc : XmitPc} {o : TxObs} (h : TxInv tx pc) (ho : o.Silent) :
    TxInv { tx with log := tx.log ++ [o] } pc where
  streamed := h.streamed.silent ho
  inside := by
    rw [sinceInit_concat_of_ne _ ho.ne_init]
    refine h.inside.concat fun pdev off bytes outcome heq => ?_
    subst heq
    exact ho.elim
  busy_le := h.busy_le
  idle := h.idle
  copying := h.copying

/-! ### The handlers preserve it -/

/-- With nothing remaining, `ecm_incoming_attempt` does nothing. -/
lemma ecmIncomingAttempt_of_remaining_eq_zero {h : UsbHandle} {tx : EcmTx}
    (h0 : tx.ecmTxRemaining = 0) : ecmIncomingAttempt h tx = tx := by
  rw [ecmIncomingAttempt, if_pos (Or.inl h0)]

/-- The chunk `ecm_incoming_attempt` reads is the next chunk of the packet in the buffer. -/
lemma read_next_chunk {m : ℕ → UInt8} {p : List UInt8} {k r : ℕ}
    (hm : Memory.read m 0 p.length = p) (hlen : ecmDataInSz * k + r = p.length) :
    Memory.read m (ecmDataInSz * k) (min r ecmDataInSz) = chunkAt ecmDataInSz p k := by
  have hdrop : p.drop (ecmDataInSz * k) = Memory.read m (ecmDataInSz * k) r := by
    conv_lhs => rw [← hm]
    rw [Memory.drop_read (by omega), Nat.zero_add]
    congr 1
    omega
  rw [chunkAt, hdrop]
  by_cases hr : r ≤ ecmDataInSz
  · rw [min_eq_left hr, List.take_of_length_le (by rw [Memory.length_read]; exact hr)]
  · rw [min_eq_right (by omega), Memory.take_read (by omega)]

lemma TxInv.attempt {h : UsbHandle} {tx : EcmTx} {pc : XmitPc}
    (hinv : TxInv tx pc) : TxInv (ecmIncomingAttempt h tx) pc := by
  by_cases hidle : tx.ecmTxRemaining = 0 ∨ tx.ecmTxBusy ≠ 0
  · rw [ecmIncomingAttempt, if_pos hidle]
    exact hinv
  · have h0 : tx.ecmTxRemaining ≠ 0 := fun h => hidle (Or.inl h)
    obtain ⟨ps, p, k, hacc, hptr, hlen, hmax, hbuf, hsub⟩ := hinv.streamed.part h0
    have hread : Memory.read tx.ecmTxBuffer (ecmDataInSz * k)
        (min tx.ecmTxRemaining ecmDataInSz) = chunkAt ecmDataInSz p k :=
      read_next_chunk hbuf (by omega)
    have hlt : ecmDataInSz * k < p.length := by omega
    have hmin : min tx.ecmTxRemaining ecmDataInSz ≤ tx.ecmTxRemaining := min_le_left _ _
    have hnext : ∀ r, sinceInit (tx.log ++ [.transmit h.registeredPdev tx.ecmTxPtr
          (Memory.read tx.ecmTxBuffer tx.ecmTxPtr (min tx.ecmTxRemaining ecmDataInSz)) r]) =
        sinceInit tx.log ++ [.transmit h.registeredPdev (ecmDataInSz * k)
          (chunkAt ecmDataInSz p k) r] := by
      intro r
      rw [sinceInit_concat_of_ne _ (by intro heq; cases heq), hptr, hread]
    rw [ecmIncomingAttempt, if_neg hidle]
    refine ⟨⟨?_, ?_⟩, ?_, by simp, ?_, ?_⟩
    · intro hrem
      simp only at hrem
      rw [hnext, accepted_append, submitted_append, hacc, hsub, accepted_transmit,
        submitted_transmit, List.append_nil, List.append_assoc, ← take_succ_packetChunks hlt,
        take_packetChunks_of_le, List.flatMap_append, List.flatMap_singleton]
      simp only [ecmDataInSz] at hrem hptr ⊢
      omega
    · intro hrem
      simp only at hrem
      refine ⟨ps, p, k + 1, ?_, ?_, ?_, hmax, hbuf, ?_⟩
      · rw [hnext, accepted_append, hacc, accepted_transmit, List.append_nil]
      · simp only [ecmDataInSz] at hrem hptr ⊢
        omega
      · simp only
        omega
      · rw [hnext, submitted_append, hsub, submitted_transmit, take_succ_packetChunks hlt,
          List.append_assoc]
    · rw [hnext]
      refine hinv.inside.concat fun pdev off bytes outcome heq => ?_
      simp only [TxObs.transmit.injEq] at heq
      obtain ⟨-, rfl, rfl, -⟩ := heq
      refine ⟨ps, p, hacc, ?_, hmax, ?_⟩
      · rw [← hread, Memory.length_read]
        omega
      · rw [chunkAt, List.length_take]
        exact List.take_eq_take_min
    · intro hcan
      exact absurd (hinv.idle hcan).1 h0
    · intro p' q data packetSize hpc
      exact absurd (hinv.copying p' q data packetSize hpc).1 h0

lemma TxInv.clear {tx : EcmTx} {pc : XmitPc} (hinv : TxInv tx pc) :
    TxInv (clearBusy tx) pc := by
  rw [clearBusy]
  have hcopy : ∀ p q data packetSize, pc = .copy p q data packetSize →
      tx.ecmTxRemaining = 0 ∧ (0 : ℕ) = 0 ∧ packetSize = data ∧
        ∃ copied, p.segs = copied ++ q ∧ data = copied.flatten.length ∧
          Memory.read tx.ecmTxBuffer 0 data = copied.flatten := by
    intro p q data packetSize hpc
    obtain ⟨hr, -, hrest⟩ := hinv.copying p q data packetSize hpc
    exact ⟨hr, rfl, hrest⟩
  by_cases h0 : tx.ecmTxRemaining = 0
  · rw [if_pos h0]
    have hs := hinv.silent (o := .enableXmit) trivial
    exact ⟨⟨hs.streamed.whole, hs.streamed.part⟩, hs.inside, by simp, fun _ => ⟨h0, rfl⟩, hcopy⟩
  · rw [if_neg h0]
    refine ⟨⟨hinv.streamed.whole, hinv.streamed.part⟩, hinv.inside, by simp, ?_, hcopy⟩
    intro hcan
    exact absurd (hinv.idle hcan).1 h0

lemma TxInv.count {tx : EcmTx} {pc : XmitPc} (hinv : TxInv tx pc) :
    TxInv (countBusy tx) pc := by
  obtain ⟨heq, -⟩ | ⟨heq, -⟩ | ⟨heq, h0, hlt⟩ := @countBusy_cases tx
  · rw [heq]
    exact hinv
  · rw [heq]
    exact hinv.clear
  · rw [heq]
    refine ⟨⟨hinv.streamed.whole, hinv.streamed.part⟩, hinv.inside, by simp only; omega, ?_, ?_⟩
    · intro hcan
      exact absurd (hinv.idle hcan).2 h0
    · intro p q data packetSize hpc
      exact absurd (hinv.copying p q data packetSize hpc).2.1 h0

/-- The main loop's own steps.  In the copying loop nothing remains to be sent, so the write to
the buffer is seen by no one; the critical section then starts the packet. -/
lemma TxInv.xmit {h : UsbHandle} {tx : EcmTx} {pc : XmitPc} (hinv : TxInv tx pc) :
    TxInv (usbEcmXmitPacket h pc tx).2 (usbEcmXmitPacket h pc tx).1 := by
  have hleave : TxInv tx .out :=
    ⟨hinv.streamed, hinv.inside, hinv.busy_le, hinv.idle, fun _ _ _ _ hpc => by cases hpc⟩
  cases pc with
  | out => exact hinv
  | enter p =>
      rw [usbEcmXmitPacket]
      split_ifs
      · exact ⟨hinv.streamed, hinv.inside, hinv.busy_le, hinv.idle,
          fun _ _ _ _ hpc => by cases hpc⟩
      · exact hleave
  | check p =>
      rw [usbEcmXmitPacket]
      split_ifs with hcan
      · refine ⟨hinv.streamed, hinv.inside, hinv.busy_le, hinv.idle, ?_⟩
        intro p' q data packetSize hpc
        cases hpc
        obtain ⟨hr, hb⟩ := hinv.idle hcan
        exact ⟨hr, hb, rfl, [], rfl, rfl, rfl⟩
      · exact hleave
  | copy p q data packetSize =>
      obtain ⟨hr, hb, rfl, copied, hsegs, rfl, hread⟩ := hinv.copying p q data packetSize rfl
      cases q with
      | cons q qs =>
          refine ⟨⟨hinv.streamed.whole, fun h0 => absurd hr h0⟩, hinv.inside, hinv.busy_le,
            hinv.idle, ?_⟩
          intro p' q' data' packetSize' hpc
          cases hpc
          refine ⟨hr, hb, rfl, copied ++ [q], by simp [hsegs], by simp, ?_⟩
          rw [usbEcmXmitPacket, Memory.read_write_append_zero, hread]
          simp
      | nil =>
          have hbytes : p.bytes = copied.flatten := by
            rw [PbufChain.bytes, hsegs, List.append_nil]
          have hlog : sinceInit (tx.log ++ [.accept p]) = sinceInit tx.log ++ [.accept p] :=
            sinceInit_concat_of_ne _ (by intro heq; cases heq)
          refine ⟨⟨?_, ?_⟩, ?_, hinv.busy_le, fun hcan => (by cases hcan),
            fun _ _ _ _ hpc => (by cases hpc)⟩
          · intro h0
            have hpos := p.pos
            rw [← PbufChain.bytes, hbytes] at hpos
            change copied.flatten.length = 0 at h0
            omega
          · intro _
            refine ⟨accepted (sinceInit tx.log), p.bytes, 0, ?_, rfl, ?_, p.fits, ?_, ?_⟩
            · simp only [usbEcmXmitPacket]
              rw [hlog, accepted_append, accepted_accept]
            · simp only [usbEcmXmitPacket, hbytes, Nat.zero_add]
            · rw [hbytes]
              exact hread
            · simp only [usbEcmXmitPacket]
              rw [hlog, submitted_append, submitted_accept, hinv.streamed.whole hr]
              simp
          · simp only [usbEcmXmitPacket]
            rw [hlog]
            exact hinv.inside.concat fun pdev off bytes outcome heq => by cases heq

/-! ### Runs -/

lemma ReadsInside.nil : ReadsInside [] := by
  intro l₁ pdev off bytes outcome l₂ hsplit
  simp at hsplit

lemma TxInv.initial : TxInv Firmware.initial.ecm.tx Firmware.initial.xmit where
  streamed := ⟨fun _ => rfl, fun h0 => absurd rfl h0⟩
  inside := ReadsInside.nil
  busy_le := by decide
  idle := fun hcan => by cases hcan
  copying := fun _ _ _ _ hpc => by cases hpc

/-- `USBD_ECM_Init` drops what remained of the packet under way and starts a new part of the
log; a copy that is going on stays as it was. -/
lemma TxInv.configure {s : Ecm} {pc : XmitPc} (hinv : TxInv s.tx pc) :
    TxInv (usbdEcmInit s).tx pc where
  streamed := by
    refine ⟨fun _ => ?_, fun h0 => absurd rfl h0⟩
    change submitted (sinceInit (s.tx.log ++ [.init])) =
      (accepted (sinceInit (s.tx.log ++ [.init]))).flatMap packetChunks
    rw [sinceInit_init]
    rfl
  inside := by
    change ReadsInside (sinceInit (s.tx.log ++ [.init]))
    rw [sinceInit_init]
    exact ReadsInside.nil
  busy_le := Nat.zero_le 32
  idle := fun _ => ⟨rfl, rfl⟩
  copying := fun p q data packetSize hpc => by
    obtain ⟨-, -, hrest⟩ := hinv.copying p q data packetSize hpc
    exact ⟨rfl, rfl, hrest⟩

/-- **One step** of the firmware preserves the invariant of the transmit path. -/
lemma txInv_step {s t : Firmware} {e : Event} (hinv : TxInv s.ecm.tx s.xmit)
    (hstep : step s e = some t) : TxInv t.ecm.tx t.xmit := by
  cases e with
  | init =>
      cases hstep
      exact hinv.configure
  | deInit =>
      cases hstep
      exact ⟨⟨hinv.streamed.whole, hinv.streamed.part⟩, hinv.inside, hinv.busy_le,
        fun hcan => (by cases hcan), hinv.copying⟩
  | dataOut c alloc =>
      obtain ⟨-, rfl⟩ := step_dataOut hstep
      exact hinv
  | dataIn k =>
      cases hstep
      exact (hinv.silent (o := .dataIn k) trivial).clear.attempt
  | sof =>
      cases hstep
      exact (hinv.silent (o := .sof) trivial).count.attempt
  | traffic =>
      obtain ⟨-, rfl⟩ := step_traffic hstep
      rw [serviceTraffic_tx]
      exact hinv
  | xmitCall p =>
      obtain ⟨-, -, rfl⟩ := step_xmitCall hstep
      exact ⟨hinv.streamed, hinv.inside, hinv.busy_le, hinv.idle,
        fun _ _ _ _ hpc => by cases hpc⟩
  | xmitStep =>
      obtain ⟨-, rfl⟩ := step_xmitStep hstep
      exact hinv.xmit

/-- **Every run** keeps the invariant of the transmit path. -/
lemma txInv_run {es : List Event} {s : Firmware}
    (hrun : run step Firmware.initial es = some s) : TxInv s.ecm.tx s.xmit :=
  run_invariant (P := fun _ => True) (I := fun s => TxInv s.ecm.tx s.xmit)
    (fun _ _ _ _ hinv hstep => txInv_step hinv hstep) (fun _ _ => trivial) TxInv.initial hrun

/-- The chunks passed down are an initial part of the splitting of the packets taken, and only
chunks of the last packet can be missing. -/
lemma Streamed.prefix_chunks {tx : EcmTx} (h : Streamed tx) :
    submitted (sinceInit tx.log) <+: (accepted (sinceInit tx.log)).flatMap packetChunks ∧
      (accepted (sinceInit tx.log)).dropLast.flatMap packetChunks <+:
        submitted (sinceInit tx.log) := by
  by_cases h0 : tx.ecmTxRemaining = 0
  · rw [h.whole h0]
    exact ⟨List.prefix_rfl, (List.dropLast_prefix _).flatMap _⟩
  · obtain ⟨ps, p, k, hacc, -, -, -, -, hsub⟩ := h.part h0
    rw [hacc, hsub, List.flatMap_append, List.flatMap_singleton, List.dropLast_concat]
    exact ⟨(List.prefix_append_right_inj _).mpr (List.take_prefix _ _), List.prefix_append _ _⟩

/-- **Submission order.**  In every run, since the last `USBD_ECM_Init`: the chunks passed to
`USBD_LL_Transmit` are the 64-byte splitting of the packets taken, in order, the last packet
possibly only in part; their bytes are an initial part of the bytes of the packets; each chunk
lies inside the packet that was current; and `can_xmit` implies that nothing remains and nothing
is pending, with `ecm_tx_busy` never above 32.  A run that ends right before a configuration
gives the part between two configurations. -/
theorem submission_order (es : List Event) (s : Firmware)
    (hrun : run step Firmware.initial es = some s) :
    submitted (sinceInit s.ecm.tx.log) <+:
        (accepted (sinceInit s.ecm.tx.log)).flatMap packetChunks ∧
      (accepted (sinceInit s.ecm.tx.log)).dropLast.flatMap packetChunks <+:
        submitted (sinceInit s.ecm.tx.log) ∧
      ((submitted (sinceInit s.ecm.tx.log)).map Prod.snd).flatten <+:
        (accepted (sinceInit s.ecm.tx.log)).flatten ∧
      ReadsInside (sinceInit s.ecm.tx.log) ∧
      (s.ecm.tx.canXmit = true → s.ecm.tx.ecmTxRemaining = 0 ∧ s.ecm.tx.ecmTxBusy = 0) ∧
      s.ecm.tx.ecmTxBusy ≤ 32 := by
  have hinv := txInv_run hrun
  obtain ⟨hpre, hlast⟩ := hinv.streamed.prefix_chunks
  refine ⟨hpre, hlast, ?_, hinv.inside, hinv.idle, hinv.busy_le⟩
  rw [← flatten_packetChunks (accepted (sinceInit s.ecm.tx.log))]
  exact (hpre.map Prod.snd).flatten

/-- A run with one packet of two pbufs: it is taken and passed down as one chunk. -/
def twoPbufs : List Event :=
  [.init, .xmitCall ⟨[[1, 2], [3]], by decide, by decide⟩, .xmitStep, .xmitStep, .xmitStep,
    .xmitStep, .xmitStep, .sof]

theorem submission_order_twoPbufs :
    ∃ s, run step Firmware.initial twoPbufs = some s ∧
      submitted (sinceInit s.ecm.tx.log) = [(0, [1, 2, 3])] ∧
      submitted (sinceInit s.ecm.tx.log) <+:
        (accepted (sinceInit s.ecm.tx.log)).flatMap packetChunks :=
  ⟨_, rfl, by decide, (submission_order twoPbufs _ rfl).1⟩

end Stm32Ecm
