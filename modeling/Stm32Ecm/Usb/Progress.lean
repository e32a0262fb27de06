import Mathlib.Logic.Function.Iterate
import Stm32Ecm.Usb.Busy

/-!
The transmitter makes progress with start-of-frame interrupts alone: no completion has to arrive.

* `Live`: unless `can_xmit` is set something is pending, and `ecm_tx_busy` has not run over; the
  handlers preserve it (`Live.attempt`, `Live.clear`, `Live.count`), and so does every event but a
  `USBD_ECM_DeInit`;
* `sofsNeeded`: the number of start-of-frame interrupts until nothing is pending; each one takes
  away one (`sofsNeeded_attempt_count`);
* `transmitter_progress`: hence the transmitter is idle again after a number of them that depends
  on `ecm_tx_remaining` only.
-/

namespace Stm32Ecm

open Transition

/-- The transmitter accepts a packet, or something is pending that will make it do so. -/
structure Live (tx : EcmTx) : Prop where
  busy_le : tx.ecmTxBusy ≤ 32
  pending : tx.canXmit = true ∨ tx.ecmTxRemaining ≠ 0 ∨ tx.ecmTxBusy ≠ 0

/-- The chunks of what remains: `ecm_tx_remaining` over 64, rounded up. -/
def chunksLeft (tx : EcmTx) : ℕ := (tx.ecmTxRemaining + 63) / 64

/-- The start-of-frame interrupts until nothing is pending: 32 for each chunk, one to pass the
first one down, and less by those that the chunk under way has seen. -/
def sofsNeeded (tx : EcmTx) : ℕ :=
  if tx.ecmTxBusy ≠ 0 then 33 - tx.ecmTxBusy + 32 * chunksLeft tx
  else if tx.ecmTxRemaining ≠ 0 then 1 + 32 * chunksLeft tx
  else 0

/-! ### The handlers -/

section Handlers

variable {h : UsbHandle} {tx : EcmTx} {s : Ecm}

/-- `ecm_incoming_attempt` does nothing, or passes down the next chunk. -/
lemma ecmIncomingAttempt_cases :
    (ecmIncomingAttempt h tx = tx ∧ (tx.ecmTxRemaining = 0 ∨ tx.ecmTxBusy ≠ 0)) ∨
      (tx.ecmTxRemaining ≠ 0 ∧ tx.ecmTxBusy = 0 ∧
        (ecmIncomingAttempt h tx).ecmTxRemaining = tx.ecmTxRemaining - 64 ∧
        (ecmIncomingAttempt h tx).ecmTxBusy = 1) := by
  rw [ecmIncomingAttempt]
  split_ifs with hidle
  · exact Or.inl ⟨rfl, hidle⟩
  · rw [not_or, not_not] at hidle
    refine Or.inr ⟨hidle.1, hidle.2, ?_, rfl⟩
    simp only [ecmDataInSz]
    omega

lemma Live.attempt (hlive : Live tx) : Live (ecmIncomingAttempt h tx) := by
  obtain ⟨heq, -⟩ | ⟨-, -, -, hbusy⟩ := @ecmIncomingAttempt_cases h tx
  · rw [heq]
    exact hlive
  · exact ⟨by omega, Or.inr (Or.inr (by omega))⟩

/-- The test of `ecm_tx_remaining` makes up for what is no longer pending. -/
lemma Live.clear (tx : EcmTx) : Live (clearBusy tx) := by
  refine ⟨by simp, ?_⟩
  by_cases hrem : tx.ecmTxRemaining = 0
  · rw [clearBusy, if_pos hrem]
    exact Or.inl rfl
  · rw [clearBusy_ecmTxRemaining]
    exact Or.inr (Or.inl hrem)

lemma Live.count (hlive : Live tx) : Live (countBusy tx) := by
  obtain ⟨heq, -⟩ | ⟨heq, -⟩ | ⟨heq, -, hlt⟩ := @countBusy_cases tx
  · rw [heq]
    exact hlive
  · rw [heq]
    exact Live.clear tx
  · rw [heq]
    exact ⟨Nat.succ_le_of_lt hlt, Or.inr (Or.inr (Nat.succ_ne_zero _))⟩

lemma Live.sof (hlive : Live s.tx) : Live (usbdEcmSof s).tx := by
  have hlog : Live { s.tx with log := s.tx.log ++ [.sof] } := ⟨hlive.busy_le, hlive.pending⟩
  exact hlog.count.attempt

/-- With the counting done, the attempt takes the one that passes a chunk down. -/
lemma sofsNeeded_attempt :
    sofsNeeded (ecmIncomingAttempt h tx) =
      if tx.ecmTxBusy = 0 then sofsNeeded tx - 1 else sofsNeeded tx := by
  obtain ⟨heq, hidle⟩ | ⟨hrem, hbusy, hrem', hbusy'⟩ := @ecmIncomingAttempt_cases h tx
  · rw [heq]
    split_ifs with hzero
    · rcases hidle with hrem | hbusy
      · rw [sofsNeeded, if_neg (not_not.mpr hzero), if_neg (not_not.mpr hrem)]
      · exact absurd hzero hbusy
    · rfl
  · rw [if_pos hbusy, sofsNeeded, if_pos (by omega), sofsNeeded, if_neg (not_not.mpr hbusy),
      if_pos hrem, chunksLeft, chunksLeft, hrem', hbusy']
    omega

/-- **One start of frame** takes away one. -/
lemma sofsNeeded_attempt_count (hle : tx.ecmTxBusy ≤ 32) :
    sofsNeeded (ecmIncomingAttempt h (countBusy tx)) = sofsNeeded tx - 1 := by
  rw [sofsNeeded_attempt]
  obtain ⟨heq, hzero⟩ | ⟨heq, hfull⟩ | ⟨heq, hpos, hlt⟩ := @countBusy_cases tx
  · rw [heq, if_pos hzero]
  · -- the chunk is given up, and the next one is passed down by the same interrupt
    have hbusy : tx.ecmTxBusy = 32 := by omega
    rw [heq, if_pos clearBusy_ecmTxBusy]
    simp only [sofsNeeded, chunksLeft, clearBusy_ecmTxBusy, clearBusy_ecmTxRemaining, hbusy]
    split_ifs <;> omega
  · have hne : ¬ (countBusy tx).ecmTxBusy = 0 := by
      rw [heq]
      exact Nat.succ_ne_zero _
    rw [if_neg hne, sofsNeeded, if_pos hne, sofsNeeded, if_pos hpos, heq]
    simp only [chunksLeft]
    omega

/-- Some start-of-frame interrupts in a row. -/
lemma sofsNeeded_iterate (n : ℕ) (hlive : Live s.tx) :
    Live (usbdEcmSof^[n] s).tx ∧ sofsNeeded (usbdEcmSof^[n] s).tx = sofsNeeded s.tx - n := by
  induction n with
  | zero => exact ⟨hlive, rfl⟩
  | succ n ih =>
      obtain ⟨hlive', hneeded⟩ := ih
      have hlog : sofsNeeded (usbdEcmSof (usbdEcmSof^[n] s)).tx =
          sofsNeeded (usbdEcmSof^[n] s).tx - 1 := sofsNeeded_attempt_count hlive'.busy_le
      rw [Function.iterate_succ_apply']
      exact ⟨hlive'.sof, by omega⟩

lemma Live.idle_of_sofsNeeded_eq_zero (hlive : Live tx) (hzero : sofsNeeded tx = 0) :
    tx.canXmit = true ∧ tx.ecmTxRemaining = 0 ∧ tx.ecmTxBusy = 0 := by
  have hle := hlive.busy_le
  have hidle : tx.ecmTxRemaining = 0 ∧ tx.ecmTxBusy = 0 := by
    rw [sofsNeeded] at hzero
    split_ifs at hzero <;> omega
  refine ⟨hlive.pending.resolve_right ?_, hidle⟩
  rintro (hrem | hbusy)
  · exact hrem hidle.1
  · exact hbusy hidle.2

end Handlers

/-! ### Runs -/

/-- **One step** other than a `USBD_ECM_DeInit` keeps the transmitter alive.  The packet that
`usb_ecm_xmit_packet` takes is not empty. -/
lemma live_step {s t : Firmware} {e : Event} (hinv : TxInv s.ecm.tx s.xmit)
    (hlive : Live s.ecm.tx) (he : e ≠ .deInit) (hstep : step s e = some t) : Live t.ecm.tx := by
  cases e with
  | init =>
      cases hstep
      exact ⟨Nat.zero_le 32, Or.inl rfl⟩
  | deInit => exact absurd rfl he
  | dataOut c alloc =>
      obtain ⟨-, rfl⟩ := step_dataOut hstep
      exact hlive
  | dataIn k =>
      cases hstep
      exact (Live.clear _).attempt
  | sof =>
      cases hstep
      exact hlive.sof
  | traffic =>
      obtain ⟨-, rfl⟩ := step_traffic hstep
      rw [serviceTraffic_tx]
      exact hlive
  | xmitCall p =>
      obtain ⟨-, -, rfl⟩ := step_xmitCall hstep
      exact hlive
  | xmitStep =>
      obtain ⟨-, rfl⟩ := step_xmitStep hstep
      simp only
      cases hpc : s.xmit with
      | out => exact hlive
      | enter p =>
          rw [usbEcmXmitPacket]
          split_ifs <;> exact hlive
      | check p =>
          rw [usbEcmXmitPacket]
          split_ifs <;> exact hlive
      | copy p q data packetSize =>
          cases q with
          | cons q qs => exact ⟨hlive.busy_le, hlive.pending⟩
          | nil =>
              obtain ⟨-, -, rfl, copied, hsegs, hdata, -⟩ := hinv.copying p [] data packetSize hpc
              have hpos := p.pos
              rw [hsegs, List.append_nil, ← hdata] at hpos
              exact ⟨hlive.busy_le, Or.inr (Or.inl (Nat.pos_iff_ne_zero.mp hpos))⟩

/-- **Every run** after a `USBD_ECM_Init` and before a `USBD_ECM_DeInit` keeps it alive. -/
lemma live_run {es es' : List Event} {s : Firmware}
    (hrun : run step Firmware.initial (es ++ .init :: es') = some s) (hes' : .deInit ∉ es') :
    Live s.ecm.tx := by
  obtain ⟨u, hu, hrest⟩ := run_append_eq_some.mp hrun
  obtain ⟨v, hv, hrest⟩ := run_cons_eq_some.mp hrest
  have hinit : Live v.ecm.tx := by
    cases hv
    exact ⟨Nat.zero_le 32, Or.inl rfl⟩
  have hinv := txInv_step (txInv_run hu) hv
  refine (run_invariant (P := fun e => e ≠ .deInit)
    (I := fun s : Firmware => TxInv s.ecm.tx s.xmit ∧ Live s.ecm.tx) ?_ ?_ ⟨hinv, hinit⟩ hrest).2
  · rintro s e t he ⟨hinv, hlive⟩ hstep
    exact ⟨txInv_step hinv hstep, live_step hinv hlive he hstep⟩
  · rintro e he rfl
    exact hes' he

/-- **Progress.**  In every state after a `USBD_ECM_Init` and before the next `USBD_ECM_DeInit`,
whatever packets, completions, start-of-frame interrupts, received packets and steps of the main
loop came before and in whatever order, 33 start-of-frame interrupts for each chunk of what remains
and 33 more leave the transmitter idle: it accepts packets, nothing remains and nothing is
pending. -/
theorem transmitter_progress (es es' : List Event) (s : Firmware) (t : Ecm)
    (hrun : run step Firmware.initial (es ++ .init :: es') = some s) (hes' : .deInit ∉ es')
    (ht : t = usbdEcmSof^[33 * ((s.ecm.tx.ecmTxRemaining + 63) / 64 + 1)] s.ecm) :
    t.tx.canXmit = true ∧ t.tx.ecmTxRemaining = 0 ∧ t.tx.ecmTxBusy = 0 := by
  obtain ⟨hlive, hneeded⟩ := sofsNeeded_iterate
    (33 * ((s.ecm.tx.ecmTxRemaining + 63) / 64 + 1)) (live_run hrun hes')
  rw [← ht] at hlive hneeded
  refine hlive.idle_of_sofsNeeded_eq_zero (hneeded.trans ?_)
  rw [sofsNeeded, chunksLeft]
  split_ifs <;> omega

/-- A packet of three bytes, taken and passed down; its completion never arrives. -/
theorem transmitter_progress_lost_completion :
    ∃ s, run step Firmware.initial ([] ++ .init ::
        [.xmitCall ⟨[[1, 2, 3]], by decide, by decide⟩, .xmitStep, .xmitStep, .xmitStep,
          .xmitStep, .sof]) = some s ∧
      s.ecm.tx.canXmit = false ∧ s.ecm.tx.ecmTxBusy = 1 ∧
      (usbdEcmSof^[33] s.ecm).tx.canXmit = true := by
  obtain ⟨s, hrun, hcan, hrem, hbusy⟩ : ∃ s, run step Firmware.initial ([] ++ .init ::
        [.xmitCall ⟨[[1, 2, 3]], by decide, by decide⟩, .xmitStep, .xmitStep, .xmitStep,
          .xmitStep, .sof]) = some s ∧
      s.ecm.tx.canXmit = false ∧ s.ecm.tx.ecmTxRemaining = 0 ∧ s.ecm.tx.ecmTxBusy = 1 :=
    ⟨_, rfl, rfl, rfl, rfl⟩
  have hidle := transmitter_progress _ _ s (usbdEcmSof^[33] s.ecm) hrun (by decide) (by rw [hrem])
  exact ⟨s, hrun, hcan, hbusy, hidle.1⟩

end Stm32Ecm
