import Stm32Ecm.Usb.Boundary

/-!
Chunks refused by the handle lock.  `ecm_incoming_attempt` does not read the status of
`USBD_LL_Transmit`: the chunk counts as passed down whether it was taken or not.  The lock is held
by the main loop inside `HAL_PCD_EP_Receive`, and an interrupt that submits a chunk there loses it.

* `taken`: the chunks `USBD_LL_Transmit` answered with `USBD_OK`;
* `NoChunkLost`: every chunk was taken, so the chunks taken make up the packets;
* `SubmitsLocked`: an interrupt that passes a chunk down finds the handle locked;
* `chunks_taken_iff`: a run loses no chunk exactly when it takes no such step.
-/

namespace Stm32Ecm

open Transition Framing

/-- The chunks `USBD_LL_Transmit` answered with `USBD_OK`, with their offsets. -/
def taken (log : List TxObs) : List (ℕ × List UInt8) :=
  log.filterMap fun
    | .transmit _ off bytes .ok => some (off, bytes)
    | _ => none

/-- Every chunk passed down was taken, and since the last `USBD_ECM_Init` the chunks taken are
the splitting of the packets, the last packet possibly only in part. -/
structure NoChunkLost (tx : EcmTx) : Prop where
  all : AllAccepted tx.log
  split : taken (sinceInit tx.log) <+: (accepted (sinceInit tx.log)).flatMap packetChunks
  whole : tx.ecmTxRemaining = 0 →
    taken (sinceInit tx.log) = (accepted (sinceInit tx.log)).flatMap packetChunks ∧
      ((taken (sinceInit tx.log)).map Prod.snd).flatten = (accepted (sinceInit tx.log)).flatten

/-- The interrupt passes a chunk down: something remains, and the completion or the timeout
clears `ecm_tx_busy`, or it is 0 already. -/
def Submits (tx : EcmTx) : Event → Prop
  | .dataIn _ => tx.ecmTxRemaining ≠ 0
  | .sof => tx.ecmTxRemaining ≠ 0 ∧ (tx.ecmTxBusy = 0 ∨ 32 ≤ tx.ecmTxBusy)
  | _ => False

/-- It does so while the handle is locked. -/
def SubmitsLocked (s : Firmware) (e : Event) : Prop :=
  Submits s.ecm.tx e ∧ s.ecm.handle.hpcdLock = true

/-! ### One step -/

lemma taken_eq_submitted {log : List TxObs} (h : AllAccepted log) : taken log = submitted log := by
  refine List.filterMap_congr fun o ho => ?_
  cases o with
  | transmit pdev off bytes outcome =>
      obtain rfl := h pdev off bytes outcome ho
      rfl
  | _ => rfl

lemma mem_of_mem_sinceInit {log : List TxObs} {o : TxObs} (h : o ∈ sinceInit log) : o ∈ log := by
  induction log using List.reverseRecOn with
  | nil => exact h
  | append_singleton log x ih =>
      rw [sinceInit_concat] at h
      split_ifs at h with hx
      · cases h
      · rcases List.mem_append.mp h with h | h
        · exact List.mem_append_left _ (ih h)
        · exact List.mem_append_right _ h

/-- In a reachable state it is enough that every chunk was taken. -/
lemma noChunkLost_iff {tx : EcmTx} {pc : XmitPc} (hinv : TxInv tx pc) :
    NoChunkLost tx ↔ AllAccepted tx.log := by
  refine ⟨NoChunkLost.all, fun hall => ?_⟩
  have heq : taken (sinceInit tx.log) = submitted (sinceInit tx.log) :=
    taken_eq_submitted fun pdev off bytes outcome hmem =>
      hall pdev off bytes outcome (mem_of_mem_sinceInit hmem)
  refine ⟨hall, ?_, fun h0 => ?_⟩
  · rw [heq]
    exact hinv.streamed.prefix_chunks.1
  · rw [heq, hinv.streamed.whole h0]
    exact ⟨rfl, flatten_packetChunks _⟩

lemma allAccepted_append {l d : List TxObs} :
    AllAccepted (l ++ d) ↔ AllAccepted l ∧ AllAccepted d := by
  simp only [AllAccepted, List.mem_append, or_imp, forall_and]

lemma allAccepted_of_silent {o : TxObs} (ho : o.Silent) : AllAccepted [o] := by
  intro pdev off bytes outcome hmem
  rw [← List.mem_singleton.mp hmem] at ho
  exact ho.elim

/-- `ecm_incoming_attempt` loses a chunk exactly when it submits one to a locked handle. -/
lemma allAccepted_attempt {h : UsbHandle} {tx : EcmTx} (hall : AllAccepted tx.log) :
    AllAccepted (ecmIncomingAttempt h tx).log ↔
      ¬ ((tx.ecmTxRemaining ≠ 0 ∧ tx.ecmTxBusy = 0) ∧ h.hpcdLock = true) := by
  rw [ecmIncomingAttempt]
  split_ifs with hidle
  · refine iff_of_true hall ?_
    rintro ⟨⟨h0, hb⟩, -⟩
    exact hidle.elim h0 fun hne => hne hb
  · rw [not_or, not_not] at hidle
    simp only [allAccepted_append, hall, true_and]
    cases hl : h.hpcdLock with
    | false =>
        refine iff_of_true ?_ (by simp)
        intro pdev off bytes outcome hmem
        obtain ⟨-, -, -, rfl⟩ := TxObs.transmit.inj (List.mem_singleton.mp hmem)
        rfl
    | true =>
        refine iff_of_false ?_ (by simp [hidle])
        intro hbad
        have hbusy := hbad _ _ _ _ (List.mem_singleton.mpr rfl)
        cases hbusy

lemma allAccepted_clearBusy {tx : EcmTx} :
    AllAccepted (clearBusy tx).log ↔ AllAccepted tx.log := by
  rw [clearBusy]
  split_ifs
  · simp only [allAccepted_append]
    exact and_iff_left (allAccepted_of_silent trivial)
  · rfl

@[simp] lemma clearBusy_ecmTxRemaining {tx : EcmTx} :
    (clearBusy tx).ecmTxRemaining = tx.ecmTxRemaining := by
  rw [clearBusy]; split <;> rfl

@[simp] lemma clearBusy_ecmTxBusy {tx : EcmTx} : (clearBusy tx).ecmTxBusy = 0 := by
  rw [clearBusy]; split <;> rfl

/-- The counting of `USBD_ECM_SOF` ends with nothing pending, or with `ecm_tx_busy` above 0. -/
lemma countBusy_spec (tx : EcmTx) :
    (AllAccepted (countBusy tx).log ↔ AllAccepted tx.log) ∧
      (countBusy tx).ecmTxRemaining = tx.ecmTxRemaining ∧
      ((countBusy tx).ecmTxBusy = 0 ↔ tx.ecmTxBusy = 0 ∨ 32 ≤ tx.ecmTxBusy) := by
  obtain ⟨heq, h0⟩ | ⟨heq, h32⟩ | ⟨heq, h0, hlt⟩ := @countBusy_cases tx
  · rw [heq]
    exact ⟨Iff.rfl, rfl, by simp [h0]⟩
  · rw [heq]
    exact ⟨allAccepted_clearBusy, clearBusy_ecmTxRemaining, by simp [h32]⟩
  · rw [heq]
    refine ⟨Iff.rfl, rfl, ?_⟩
    simp only
    omega

/-- **One step** loses a chunk exactly when an interrupt submits one to the locked handle. -/
lemma allAccepted_step {s t : Firmware} {e : Event} (hall : AllAccepted s.ecm.tx.log)
    (hstep : step s e = some t) : AllAccepted t.ecm.tx.log ↔ ¬ SubmitsLocked s e := by
  cases e with
  | init =>
      cases hstep
      refine iff_of_true (allAccepted_append.mpr ⟨hall, fun _ _ _ _ h => ?_⟩) fun h => h.1
      cases List.mem_singleton.mp h
  | deInit =>
      cases hstep
      exact iff_of_true hall fun h => h.1
  | dataOut c alloc =>
      obtain ⟨-, rfl⟩ := step_dataOut hstep
      exact iff_of_true hall fun h => h.1
  | dataIn k =>
      cases hstep
      have hlog :
          AllAccepted (clearBusy { s.ecm.tx with log := s.ecm.tx.log ++ [.dataIn k] }).log :=
        allAccepted_clearBusy.mpr
          (allAccepted_append.mpr ⟨hall, allAccepted_of_silent (o := .dataIn k) trivial⟩)
      refine (allAccepted_attempt hlog).trans (not_congr (and_congr_left fun _ => ?_))
      rw [clearBusy_ecmTxRemaining, clearBusy_ecmTxBusy]
      exact and_iff_left rfl
  | sof =>
      cases hstep
      obtain ⟨hlog, hrem, hbusy⟩ := countBusy_spec { s.ecm.tx with log := s.ecm.tx.log ++ [.sof] }
      have hcount := hlog.mpr
        (allAccepted_append.mpr ⟨hall, allAccepted_of_silent (o := .sof) trivial⟩)
      refine (allAccepted_attempt hcount).trans (not_congr (and_congr_left fun _ => ?_))
      rw [hrem, hbusy]
      rfl
  | traffic =>
      obtain ⟨-, rfl⟩ := step_traffic hstep
      rw [serviceTraffic_tx]
      exact iff_of_true hall fun h => h.1
  | xmitCall p =>
      obtain ⟨-, -, rfl⟩ := step_xmitCall hstep
      exact iff_of_true hall fun h => h.1
  | xmitStep =>
      obtain ⟨-, rfl⟩ := step_xmitStep hstep
      refine iff_of_true ?_ fun h => h.1
      rcases usbEcmXmitPacket_log s.ecm.handle s.xmit s.ecm.tx with hlog | ⟨p, hlog⟩
      · simp only [hlog]
        exact hall
      · simp only [hlog]
        exact hall.accept

/-- **Chunks taken.**  In every run from reset no chunk is lost, so that the chunks taken with
`USBD_OK` make up the packets, if and only if no interrupt passes a chunk down while the main
loop holds the lock of the handle. -/
theorem chunks_taken_iff (es : List Event) :
    (∀ s, Visits step Firmware.initial es s → NoChunkLost s.ecm.tx) ↔
      ∀ s e, Takes step Firmware.initial es s e → ¬ SubmitsLocked s e := by
  refine visits_iff_takes (P := fun _ => True) (I := fun s : Firmware => TxInv s.ecm.tx s.xmit)
    ?_ (fun _ _ => trivial) TxInv.initial ?_
  · intro s e t _ hinv hgood hstep
    have hinv' := txInv_step hinv hstep
    exact ⟨hinv', (noChunkLost_iff hinv').trans (allAccepted_step hgood.all hstep)⟩
  · exact (noChunkLost_iff TxInv.initial).mpr fun _ _ _ _ h => by cases h

/-- A packet of three bytes is taken, then a frame arrives; the start of frame that passes the
packet down preempts the main loop while it holds the lock. -/
def submittedLocked : List Event :=
  [.init, .xmitCall ⟨[[1, 2, 3]], by decide, by decide⟩, .xmitStep, .xmitStep, .xmitStep,
    .xmitStep, .dataOut ⟨[9], 0, by decide⟩ true, .traffic, .traffic, .traffic, .traffic,
    .traffic, .traffic, .sof]

/-- The packet counts as passed down, but `USBD_LL_Transmit` has refused it. -/
theorem chunk_lost :
    ∃ s, run step Firmware.initial submittedLocked = some s ∧
      accepted (sinceInit s.ecm.tx.log) = [[1, 2, 3]] ∧ s.ecm.tx.ecmTxRemaining = 0 ∧
      submitted (sinceInit s.ecm.tx.log) = [(0, [1, 2, 3])] ∧
      taken (sinceInit s.ecm.tx.log) = [] ∧ ¬ NoChunkLost s.ecm.tx := by
  refine ⟨_, rfl, by decide, by decide, by decide, by decide, fun h => ?_⟩
  exact absurd (h.whole (by decide)).1 (by decide)

end Stm32Ecm
