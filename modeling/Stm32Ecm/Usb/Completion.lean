import Stm32Ecm.Usb.Transmit

/-!
When the driver gives up waiting for a chunk.  `ecm_tx_busy` is cleared by `USBD_ECM_DataIn`, and
by the timeout of `USBD_ECM_SOF` when no completion is reported; the driver is not told which
chunk a completion is about.

* `LastChunk`: the last chunk passed down and what was logged since;
* `TxObs.Releases`: the observations that presuppose a completed chunk, the next call of
  `USBD_LL_Transmit` and the setting of `can_xmit`;
* `Released`: a completion was reported, or 32 start of frames were counted;
* `WaitInv`: while `ecm_tx_busy` is not 0 it is one more than the start of frames counted since
  the last chunk, and once it is 0 the chunk is released;
* `chunk_replaced_only_after`: a chunk not completed by its own `USBD_ECM_DataIn` is replaced
  only after the timeout, or after the completion of another chunk.
-/

namespace Stm32Ecm

open Transition

/-! ### Reading the log -/

/-- A call of `USBD_LL_Transmit`. -/
def TxObs.isTransmit : TxObs → Bool
  | .transmit .. => true
  | _ => false

/-- An observation that presupposes that the last chunk was sent. -/
def TxObs.Releases (o : TxObs) : Prop := o.isTransmit = true ∨ o = .enableXmit

/-- The last chunk passed down in `log` is the one right after `before`, that is the chunk with
number `(submitted before).length`, and `since` is what was logged after it. -/
def LastChunk (log before since : List TxObs) : Prop :=
  ∃ c, log = before ++ c :: since ∧ c.isTransmit = true ∧ ∀ x ∈ since, x.isTransmit = false

/-- The driver stops waiting for the chunk: a completion, or the timeout. -/
def Released (since : List TxObs) : Prop :=
  (∃ k, .dataIn k ∈ since) ∨ 32 ≤ since.count .sof

/-- Wherever the log presupposes that the last chunk was sent, it was released. -/
def Justified (log : List TxObs) : Prop :=
  ∀ l o rest before since, log = l ++ o :: rest → o.Releases → LastChunk l before since →
    Released since

section Concat

variable {log before since : List TxObs} {o : TxObs}

lemma LastChunk.of_concat (ho : o.isTransmit = false)
    (h : LastChunk (log ++ [o]) before since) :
    ∃ since', since = since' ++ [o] ∧ LastChunk log before since' := by
  obtain ⟨c, hsplit, hc, hsince⟩ := h
  rcases concat_eq_append_cons hsplit with ⟨-, -, rfl⟩ | ⟨since', rfl, hlog⟩
  · rw [ho] at hc
    cases hc
  · exact ⟨since', rfl, c, hlog, hc, fun x hx => hsince x (List.mem_append_left _ hx)⟩

lemma LastChunk.of_transmit (ho : o.isTransmit = true)
    (h : LastChunk (log ++ [o]) before since) : before = log ∧ since = [] := by
  obtain ⟨c, hsplit, -, hsince⟩ := h
  rcases concat_eq_append_cons hsplit with ⟨rfl, rfl, -⟩ | ⟨since', rfl, -⟩
  · exact ⟨rfl, rfl⟩
  · rw [hsince o (by simp)] at ho
    cases ho

lemma Released.concat (h : Released since) : Released (since ++ [o]) := by
  rcases h with ⟨k, hk⟩ | hcount
  · exact Or.inl ⟨k, List.mem_append_left _ hk⟩
  · refine Or.inr (hcount.trans ?_)
    rw [List.count_append]
    exact Nat.le_add_right _ _

lemma Justified.concat (h : Justified log)
    (ho : o.Releases → ∀ before since, LastChunk log before since → Released since) :
    Justified (log ++ [o]) := by
  intro l x rest before since hsplit hx hlast
  rcases concat_eq_append_cons hsplit with ⟨-, rfl, rfl⟩ | ⟨rest', -, hlog⟩
  · exact ho hx before since hlast
  · exact h l x rest' before since hlog hx hlast

end Concat

/-! ### The invariant -/

/-- The log since the configuration and `ecm_tx_busy` agree. -/
structure WaitInv (log : List TxObs) (busy : ℕ) : Prop where
  justified : Justified log
  released : busy = 0 → ∀ before since, LastChunk log before since → Released since
  counted : busy ≠ 0 → ∀ before since, LastChunk log before since →
    busy = 1 + since.count .sof

namespace WaitInv

variable {log : List TxObs} {busy : ℕ} {o : TxObs}

/-- An observation of the main loop. -/
lemma other (h : WaitInv log busy) (ho : o.isTransmit = false) (hx : o ≠ .enableXmit)
    (hsof : o ≠ .sof) : WaitInv (log ++ [o]) busy where
  justified := h.justified.concat fun hr => by
    rcases hr with hr | hr
    · rw [ho] at hr
      cases hr
    · exact absurd hr hx
  released := by
    intro h0 before since hlast
    obtain ⟨since', rfl, hlast'⟩ := hlast.of_concat ho
    exact (h.released h0 before since' hlast').concat
  counted := by
    intro h0 before since hlast
    obtain ⟨since', rfl, hlast'⟩ := hlast.of_concat ho
    rw [h.counted h0 before since' hlast', List.count_append, List.count_singleton]
    simp [hsof]

/-- `can_xmit` is set when the last chunk is released. -/
lemma enable (h : WaitInv log 0) : WaitInv (log ++ [.enableXmit]) 0 where
  justified := h.justified.concat fun _ => h.released rfl
  released := by
    intro _ before since hlast
    obtain ⟨since', rfl, hlast'⟩ := hlast.of_concat rfl
    exact (h.released rfl before since' hlast').concat
  counted := fun h0 => absurd rfl h0

/-- The next chunk is passed down when the last one is released. -/
lemma submit (h : WaitInv log 0) (ho : o.isTransmit = true) : WaitInv (log ++ [o]) 1 where
  justified := h.justified.concat fun _ => h.released rfl
  released := fun h0 => absurd h0 (by decide)
  counted := by
    intro _ before since hlast
    rw [(hlast.of_transmit ho).2]
    rfl

/-- A completion releases the last chunk, whichever chunk it is about. -/
lemma complete {k : ℕ} (h : WaitInv log busy) : WaitInv (log ++ [.dataIn k]) 0 where
  justified := (h.other rfl (by simp) (by simp)).justified
  released := by
    intro _ before since hlast
    obtain ⟨since', rfl, -⟩ := hlast.of_concat rfl
    exact Or.inl ⟨k, by simp⟩
  counted := fun h0 => absurd rfl h0

/-- A start of frame with a chunk pending. -/
lemma count (h : WaitInv log busy) (h0 : busy ≠ 0) : WaitInv (log ++ [.sof]) (busy + 1) where
  justified := h.justified.concat fun hr => by
    rcases hr with hr | hr <;> cases hr
  released := fun h1 => absurd h1 (by omega)
  counted := by
    intro _ before since hlast
    obtain ⟨since', rfl, hlast'⟩ := hlast.of_concat rfl
    rw [h.counted h0 before since' hlast', List.count_append, List.count_singleton_self]
    omega

/-- A start of frame with nothing pending. -/
lemma tick (h : WaitInv log 0) : WaitInv (log ++ [.sof]) 0 where
  justified := h.justified.concat fun hr => by
    rcases hr with hr | hr <;> cases hr
  released := by
    intro _ before since hlast
    obtain ⟨since', rfl, hlast'⟩ := hlast.of_concat rfl
    exact (h.released rfl before since' hlast').concat
  counted := fun h0 => absurd rfl h0

/-- The timeout releases the last chunk. -/
lemma timeout (h : WaitInv log busy) (h32 : 32 < busy) : WaitInv log 0 where
  justified := h.justified
  released := by
    intro _ before since hlast
    have hcount := h.counted (by omega) before since hlast
    exact Or.inr (by omega)
  counted := fun h0 => absurd rfl h0

lemma nil : WaitInv [] busy := by
  have hnone : ∀ before since, ¬ LastChunk [] before since := by
    rintro before since ⟨c, hsplit, -⟩
    simp at hsplit
  refine ⟨?_, fun _ before since h => absurd h (hnone before since),
    fun _ before since h => absurd h (hnone before since)⟩
  intro l o rest before since hsplit
  simp at hsplit

end WaitInv

/-! ### The handlers preserve it -/

/-- `ecm_tx_busy` and the log agree. -/
def Waiting (tx : EcmTx) : Prop := WaitInv (sinceInit tx.log) tx.ecmTxBusy

lemma waiting_clearBusy {tx : EcmTx} (h : WaitInv (sinceInit tx.log) 0) :
    Waiting (clearBusy tx) := by
  rw [clearBusy]
  split_ifs
  · rw [Waiting, sinceInit_concat_of_ne _ (by simp)]
    exact h.enable
  · exact h

lemma waiting_attempt {h : UsbHandle} {tx : EcmTx} (hw : Waiting tx) :
    Waiting (ecmIncomingAttempt h tx) := by
  rw [ecmIncomingAttempt]
  split_ifs with hidle
  · exact hw
  · have hbusy : tx.ecmTxBusy = 0 := by
      rw [not_or, not_not] at hidle
      exact hidle.2
    rw [Waiting, hbusy] at hw
    rw [Waiting, sinceInit_concat_of_ne _ (by simp)]
    exact hw.submit rfl

lemma waiting_dataIn {h : UsbHandle} {k : ℕ} {tx : EcmTx} (hw : Waiting tx) :
    Waiting (usbdEcmDataIn h k tx) := by
  refine waiting_attempt (waiting_clearBusy ?_)
  rw [sinceInit_concat_of_ne _ (by simp)]
  exact hw.complete

lemma waiting_countBusy {tx : EcmTx} (hw : Waiting tx) :
    Waiting (countBusy { tx with log := tx.log ++ [.sof] }) := by
  have hsof : sinceInit (tx.log ++ [.sof]) = sinceInit tx.log ++ [.sof] :=
    sinceInit_concat_of_ne _ (by simp)
  obtain ⟨heq, h0⟩ | ⟨heq, h32⟩ | ⟨heq, h0, -⟩ :=
    @countBusy_cases { tx with log := tx.log ++ [.sof] }
  · have hbusy : tx.ecmTxBusy = 0 := h0
    rw [Waiting, hbusy] at hw
    rw [heq, Waiting, hsof, h0]
    exact hw.tick
  · have hfull : 32 ≤ tx.ecmTxBusy := h32
    rw [heq]
    refine waiting_clearBusy ?_
    rw [hsof]
    exact (hw.count (by omega)).timeout (by omega)
  · rw [heq, Waiting, hsof]
    exact hw.count h0

/-- **One step** keeps `ecm_tx_busy` and the log in agreement. -/
lemma waiting_step {s t : Firmware} {e : Event} (hw : Waiting s.ecm.tx)
    (hstep : step s e = some t) : Waiting t.ecm.tx := by
  cases e with
  | init =>
      cases hstep
      rw [Waiting, show sinceInit (usbdEcmInit s.ecm).tx.log = [] from sinceInit_init _]
      exact WaitInv.nil
  | deInit =>
      cases hstep
      exact hw
  | dataOut c alloc =>
      obtain ⟨-, rfl⟩ := step_dataOut hstep
      exact hw
  | dataIn k =>
      cases hstep
      exact waiting_dataIn hw
  | sof =>
      cases hstep
      exact waiting_attempt (waiting_countBusy hw)
  | traffic =>
      obtain ⟨-, rfl⟩ := step_traffic hstep
      rw [serviceTraffic_tx]
      exact hw
  | xmitCall p =>
      obtain ⟨-, -, rfl⟩ := step_xmitCall hstep
      exact hw
  | xmitStep =>
      obtain ⟨-, rfl⟩ := step_xmitStep hstep
      rw [Waiting, usbEcmXmitPacket_ecmTxBusy]
      rcases usbEcmXmitPacket_log s.ecm.handle s.xmit s.ecm.tx with hlog | ⟨p, hlog⟩
      · rw [hlog]
        exact hw
      · rw [hlog, sinceInit_concat_of_ne _ (by simp)]
        exact hw.other rfl (by simp) (by simp)

lemma waiting_initial : Waiting Firmware.initial.ecm.tx := WaitInv.nil

/-- **Every run** keeps them in agreement. -/
lemma waiting_run {es : List Event} {s : Firmware}
    (hrun : run step Firmware.initial es = some s) : Waiting s.ecm.tx :=
  run_invariant (P := fun _ => True) (I := fun s => Waiting s.ecm.tx)
    (fun _ _ _ _ hw hstep => waiting_step hw hstep) (fun _ _ => trivial) waiting_initial
    hrun

/-- **When a chunk is replaced.**  In every run, since the last configuration: wherever
`USBD_LL_Transmit` is called again or `can_xmit` is set, the last chunk passed down was completed
by its own `USBD_ECM_DataIn`, or 32 start of frames were counted since, or the completion of
another chunk was reported since. -/
theorem chunk_replaced_only_after (es : List Event) (s : Firmware)
    (hrun : run step Firmware.initial es = some s) :
    ∀ l o rest before since, sinceInit s.ecm.tx.log = l ++ o :: rest → o.Releases →
      LastChunk l before since →
      .dataIn (submitted before).length ∈ since ∨ 32 ≤ since.count .sof ∨
        ∃ k, k ≠ (submitted before).length ∧ .dataIn k ∈ since := by
  intro l o rest before since hsplit ho hlast
  rcases (waiting_run hrun).justified l o rest before since hsplit ho hlast with ⟨k, hk⟩ | hcount
  · by_cases hown : k = (submitted before).length
    · exact Or.inl (hown ▸ hk)
    · exact Or.inr (Or.inr ⟨k, hown, hk⟩)
  · exact Or.inr (Or.inl hcount)

/-- A packet of 65 bytes. -/
def twoChunks : PbufChain := ⟨[List.replicate 65 1], by decide, by decide⟩

/-- The first chunk of `twoChunks` is not completed within 32 start of frames; then its completion
is reported, with the second chunk pending. -/
def lateCompletion : List Event :=
  [.init, .xmitCall twoChunks, .xmitStep, .xmitStep, .xmitStep, .xmitStep] ++
    List.replicate 33 .sof ++ [.dataIn 0]

/-- The log up to the second chunk. -/
def lateLog : List TxObs :=
  .accept twoChunks :: .sof :: .transmit true 0 (List.replicate 64 1) .ok ::
    List.replicate 32 .sof

lemma run_lateCompletion :
    ∃ s, run step Firmware.initial lateCompletion = some s ∧
      sinceInit s.ecm.tx.log =
        lateLog ++ [.transmit true 64 [1] .ok, .dataIn 0, .enableXmit] :=
  ⟨_, rfl, by decide +kernel⟩

lemma lastChunk_lateLog : LastChunk lateLog [.accept twoChunks, .sof] (List.replicate 32 .sof) :=
  ⟨_, rfl, rfl, by decide⟩

/-- The second chunk is passed down before the first one is completed, and `can_xmit` is set
before the second one is completed. -/
theorem chunk_replaced :
    ∃ s, run step Firmware.initial lateCompletion = some s ∧
      (∃ l o rest before since, sinceInit s.ecm.tx.log = l ++ o :: rest ∧ o.isTransmit = true ∧
        LastChunk l before since ∧ .dataIn (submitted before).length ∉ since) ∧
      ∃ l rest before since, sinceInit s.ecm.tx.log = l ++ .enableXmit :: rest ∧
        LastChunk l before since ∧ .dataIn (submitted before).length ∉ since := by
  obtain ⟨s, hrun, hlog⟩ := run_lateCompletion
  refine ⟨s, hrun, ?_, ?_⟩
  · exact ⟨lateLog, _, _, _, _, hlog, rfl, lastChunk_lateLog, by decide⟩
  · refine ⟨lateLog ++ [.transmit true 64 [1] .ok, .dataIn 0], [], lateLog, [.dataIn 0], ?_,
      ⟨_, rfl, rfl, by decide⟩, by decide⟩
    rw [hlog, List.append_assoc]
    rfl

theorem chunk_replaced_only_after_timeout :
    ∃ s, run step Firmware.initial lateCompletion = some s ∧
      ((.dataIn 0 ∈ List.replicate 32 TxObs.sof) ∨ 32 ≤ (List.replicate 32 TxObs.sof).count .sof ∨
        ∃ k, k ≠ 0 ∧ .dataIn k ∈ List.replicate 32 TxObs.sof) := by
  obtain ⟨s, hrun, hlog⟩ := run_lateCompletion
  exact ⟨s, hrun, chunk_replaced_only_after lateCompletion s hrun lateLog _ _ _ _ hlog
    (Or.inl rfl) lastChunk_lateLog⟩

end Stm32Ecm
