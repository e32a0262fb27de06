import Stm32Ecm.Usb.Request

/-!
The transfers of the control endpoint.

* `controlStep_reset`, `controlStep_setup`, ...: what a step can do; `ControlInv` is what every
  step keeps;
* `Left`: the packets of an answer that have not gone to the host yet, read off the state;
  `Intact`: the first of them is in the buffer; `Left.of_setup` is the beginning of a transfer,
  `Left.step` one step of it;
* `Overwrites`: a chunk of the class is written over a packet that waits in the same buffer;
* `transfer_packets`: without such a step, what the host takes is an initial part of the answer,
  and the device has the next packet ready until it has gone;
* `host_reads`: the host then reads exactly the data of the answer, and the device takes the
  status;
* `transfer_halts_iff`: a transfer of data comes to a halt exactly when a packet of it is
  completed while the main loop holds the lock;
* `unanswered_iff`: the requests that get no answer.
-/

namespace Stm32Ecm

open Transition Framing

/-! ### What a step can do -/

section Cases

variable {deviceserial : UInt32} {s t : Control}

lemma controlStep_reset (h : controlStep deviceserial s .reset = some t) :
    s.fault = false ∧ t = pcdIrqReset s := by
  rw [controlStep] at h
  split_ifs at h with hf
  exact ⟨Bool.eq_false_of_not_eq_true hf, (Option.some.inj h).symm⟩

lemma controlStep_setup {addr : ℕ} {psetup : List UInt8}
    (h : controlStep deviceserial s (.setup addr psetup) = some t) :
    s.fault = false ∧ s.daddr = some addr ∧ psetup.length = 8 ∧
      t = usbdLlSetupStage deviceserial (s.setupReceived psetup) psetup := by
  rw [controlStep] at h
  split_ifs at h with hc
  exact ⟨hc.1, hc.2.1, hc.2.2.2, (Option.some.inj h).symm⟩

lemma controlStep_dataIn {addr : ℕ} (h : controlStep deviceserial s (.dataIn addr) = some t) :
    s.fault = false ∧ s.daddr = some addr ∧ s.txStat = .valid ∧
      t = pcdEp0IsrIn { s with txStat := .nak } := by
  rw [controlStep] at h
  split_ifs at h with hc
  exact ⟨hc.1, hc.2.1, hc.2.2, (Option.some.inj h).symm⟩

lemma controlStep_dataOut {addr : ℕ} {data : List UInt8}
    (h : controlStep deviceserial s (.dataOut addr data) = some t) :
    s.fault = false ∧ s.daddr = some addr ∧ s.rxStat = .valid ∧ data.length ≤ s.rxCount ∧
      t = pcdEp0IsrOut { s.received data with rxStat := .nak } data := by
  rw [controlStep] at h
  split_ifs at h with hc
  exact ⟨hc.1, hc.2.1, hc.2.2.1, hc.2.2.2, (Option.some.inj h).symm⟩

lemma controlStep_resubmit {len : ℕ} (h : controlStep deviceserial s (.resubmit len) = some t) :
    s.fault = false ∧ t = pcdDataInResubmit s len := by
  rw [controlStep] at h
  split_ifs at h with hc
  exact ⟨hc.1, (Option.some.inj h).symm⟩

lemma controlStep_firmware {e : Event} (h : controlStep deviceserial s (.firmware e) = some t) :
    s.fault = false ∧ ∃ u, coreStep s.usbd (.firmware e) = some u ∧ t = firmwareUpdate s e u := by
  rw [controlStep] at h
  split_ifs at h with hf
  obtain ⟨u, hu, rfl⟩ := Option.map_eq_some_iff.mp h
  exact ⟨Bool.eq_false_of_not_eq_true hf, u, hu, rfl⟩

/-- In a step of the firmware a packet is written for `ECM_DATA_IN_EP`. -/
def StoresChunk (s : Control) (e : Event) (u : Usbd) : Prop :=
  (s.dataInCount ≠ 0 ∧ ∃ k, e = .dataIn k) ∨ ∃ c ∈ chunkCalls s.usbd u, c.accepted = true

/-- The calls of a step change packet memory, unless none is accepted. -/
lemma foldl_transmit_eq (calls : List ChunkCall) (s : Control) :
    ∃ p b c, calls.foldl halPcdDataInTransmit s =
        { s with pma := p, dataInBuff := b, dataInCount := c } ∧
      ((∀ x ∈ calls, x.accepted ≠ true) → p = s.pma) := by
  induction calls generalizing s with
  | nil => exact ⟨_, _, _, rfl, fun _ => rfl⟩
  | cons x calls ih =>
      obtain ⟨p, b, c, h, hkeep⟩ := ih (halPcdDataInTransmit s x)
      rw [List.foldl_cons, h]
      cases hx : x.accepted with
      | true =>
          refine ⟨p, b, c, ?_, fun hnone => absurd hx (hnone x (List.mem_cons_self ..))⟩
          simp only [halPcdDataInTransmit, hx, if_true, writeDataIn]
      | false =>
          simp only [halPcdDataInTransmit, hx, Bool.false_eq_true, if_false] at hkeep ⊢
          exact ⟨p, b, c, rfl, fun hnone => hkeep fun y hy => hnone y (List.mem_cons_of_mem _ hy)⟩

/-- The packet that is written once more. -/
lemma pcdDataInIsrIn_eq (s : Control) :
    ∃ p b, pcdDataInIsrIn s = { s with pma := p, dataInBuff := b } ∧
      (s.dataInCount = 0 → p = s.pma) := by
  rw [pcdDataInIsrIn]
  by_cases hcount : s.dataInCount = 0
  · rw [if_neg (by simp [hcount])]
    exact ⟨_, _, rfl, fun _ => rfl⟩
  · rw [if_pos hcount]
    exact ⟨_, _, rfl, fun h => absurd h hcount⟩

/-- The submission of a refused chunk changes packet memory and the fields of `ECM_DATA_IN_EP`. -/
lemma pcdDataInResubmit_eq (s : Control) (len : ℕ) :
    ∃ p b c, pcdDataInResubmit s len = { s with pma := p, dataInBuff := b, dataInCount := c } := by
  obtain ⟨p, b, hisr, -⟩ := pcdDataInIsrIn_eq s
  simp only [pcdDataInResubmit, hisr]
  obtain ⟨p', b', c', hcall, -⟩ := foldl_transmit_eq
    [⟨b, len, !({ s with pma := p, dataInBuff := b } : Control).locked⟩]
    { s with pma := p, dataInBuff := b }
  exact ⟨p', b', c', hcall⟩

/-- A step of the firmware changes the core, packet memory and the fields of `ECM_DATA_IN_EP`. -/
lemma firmwareUpdate_eq (s : Control) (e : Event) (u : Usbd) :
    ∃ p b c, firmwareUpdate s e u =
        { s with usbd := u, pma := p, dataInBuff := b, dataInCount := c } ∧
      (¬ StoresChunk s e u → p = s.pma) := by
  have hcalls : ∀ p b, (¬ StoresChunk s e u → p = s.pma) → ∃ p' b' c',
      (chunkCalls s.usbd u).foldl halPcdDataInTransmit
          { s with usbd := u, pma := p, dataInBuff := b } =
        { s with usbd := u, pma := p', dataInBuff := b', dataInCount := c' } ∧
      (¬ StoresChunk s e u → p' = s.pma) := by
    intro p b hp
    obtain ⟨p', b', c', h, hkeep⟩ := foldl_transmit_eq (chunkCalls s.usbd u)
      { s with usbd := u, pma := p, dataInBuff := b }
    refine ⟨p', b', c', h, fun hno => ?_⟩
    rw [hkeep fun x hx hacc => hno (Or.inr ⟨x, hx, hacc⟩)]
    exact hp hno
  cases e with
  | dataIn k =>
      obtain ⟨p, b, hisr, hp⟩ := pcdDataInIsrIn_eq s
      simp only [firmwareUpdate, hisr]
      exact hcalls p b fun hno => hp <| by
        by_contra hcount
        exact hno (Or.inl ⟨hcount, k, rfl⟩)
  | _ => exact hcalls s.pma s.dataInBuff fun _ => rfl

/-- An answer changes the fields of the transfer only. -/
lemma Gives.eq {v : Control} {a : Answer} (h : Gives v a t) :
    ∃ st tl rl xb xl p n tx rx, t = { v with
      ep0State := st, totalLength := tl, remLength := rl, xferBuff := xb, xferLen := xl,
      pma := p, txCount := n, txStat := tx, rxStat := rx } := by
  cases h with
  | data pbuf len hpos hle =>
      simp only [usbdCtlSendData, halPcdEp0Transmit]
      split_ifs <;> exact ⟨_, _, _, _, _, _, _, _, _, rfl⟩
  | status =>
      simp only [usbdCtlSendStatus, halPcdEp0Transmit]
      split_ifs <;> exact ⟨_, _, _, _, _, _, _, _, _, rfl⟩
  | stall =>
      rw [stallEp0]
      split_ifs <;> exact ⟨_, _, _, _, _, _, _, _, _, rfl⟩
  | none => exact ⟨_, _, _, _, _, _, _, _, _, rfl⟩

/-- A packet that has gone to the host changes the fields of the transfer, and the address. -/
lemma pcdEp0IsrIn_eq (s : Control) :
    ∃ st dl rl xb xl p n tx rx rc, usbdLlDataInStage { s with
        xferBuff := s.xferBuff.drop s.txCount } (s.xferBuff.drop s.txCount) = { s with
          ep0State := st, ep0DataLen := dl, remLength := rl, xferBuff := xb, xferLen := xl,
          pma := p, txCount := n, txStat := tx, rxStat := rx, rxCount := rc } := by
  simp only [usbdLlDataInStage, halPcdEp0Transmit, usbdCtlReceiveStatus, halPcdEp0Receive]
  split_ifs <;> exact ⟨_, _, _, _, _, _, _, _, _, _, rfl⟩

end Cases

/-! ### The sizes -/

/-- The packet sizes once the device listens, and the size of `USBD_StrDesc`. -/
structure ControlInv (s : Control) : Prop where
  strDesc : s.strDesc.length = 256
  sizes : s.daddr ≠ none → s.maxpacket = usbMaxEp0Size ∧ s.inMaxpacket = usbMaxEp0Size ∧
    s.outMaxpacket = usbMaxEp0Size

lemma controlInv_initial : ControlInv Control.initial where
  strDesc := List.length_replicate
  sizes := fun h => absurd rfl h

section Sizes

variable {deviceserial : UInt32} {s t : Control}

/-- The last step of an interrupt of endpoint 0: an address may be applied. -/
lemma pcdEp0IsrIn_cases (s : Control) :
    ∃ st dl rl xb xl p n tx rx rc, pcdEp0IsrIn s = { s with
        ep0State := st, ep0DataLen := dl, remLength := rl, xferBuff := xb, xferLen := xl,
        pma := p, txCount := n, txStat := tx, rxStat := rx, rxCount := rc } ∨
      pcdEp0IsrIn s = { s with
        ep0State := st, ep0DataLen := dl, remLength := rl, xferBuff := xb, xferLen := xl,
        pma := p, txCount := n, txStat := tx, rxStat := rx, rxCount := rc,
        daddr := some s.usbAddress, usbAddress := 0 } ∧ 0 < s.usbAddress := by
  obtain ⟨st, dl, rl, xb, xl, p, n, tx, rx, rc, h⟩ := pcdEp0IsrIn_eq s
  refine ⟨st, dl, rl, xb, xl, p, n, tx, rx, rc, ?_⟩
  simp only [pcdEp0IsrIn, h]
  split_ifs with hc
  · exact Or.inr ⟨rfl, hc.1⟩
  · exact Or.inl rfl

lemma ControlInv.step {e : CtlEvent} (hinv : ControlInv s)
    (h : controlStep deviceserial s e = some t) : ControlInv t := by
  cases e with
  | reset =>
      obtain ⟨-, rfl⟩ := controlStep_reset h
      simp only [pcdIrqReset, halPcdSetAddress]
      split_ifs <;> exact ⟨hinv.strDesc, fun _ => ⟨rfl, rfl, rfl⟩⟩
  | setup addr psetup =>
      obtain ⟨-, hd, -, rfl⟩ := controlStep_setup h
      obtain ⟨v, heff, hgives⟩ := @setup_effect deviceserial
        (s.setupReceived psetup) _ psetup hinv.strDesc rfl
      obtain ⟨st, tl, rl, xb, xl, p, n, tx, rx, heq⟩ := hgives.eq
      rw [heq]
      refine ⟨heff.strDesc hinv.strDesc, fun _ => ?_⟩
      obtain ⟨hmax, hin, hout⟩ := hinv.sizes (by rw [hd]; simp)
      exact ⟨heff.maxpacket.trans hmax, heff.inMaxpacket.trans hin, heff.outMaxpacket.trans hout⟩
  | dataIn addr =>
      obtain ⟨-, hd, -, rfl⟩ := controlStep_dataIn h
      have hsizes := hinv.sizes (by rw [hd]; simp)
      obtain ⟨st, dl, rl, xb, xl, p, n, tx, rx, rc, heq | ⟨heq, -⟩⟩ :=
        pcdEp0IsrIn_cases { s with txStat := .nak }
      all_goals
        rw [heq]
        exact ⟨hinv.strDesc, fun _ => hsizes⟩
  | dataOut addr data =>
      obtain ⟨-, -, -, -, rfl⟩ := controlStep_dataOut h
      rw [pcdEp0IsrOut]
      split_ifs <;> exact ⟨hinv.strDesc, hinv.sizes⟩
  | resubmit len =>
      obtain ⟨-, rfl⟩ := controlStep_resubmit h
      obtain ⟨p, b, c, heq⟩ := pcdDataInResubmit_eq s len
      rw [heq]
      exact ⟨hinv.strDesc, hinv.sizes⟩
  | firmware e =>
      obtain ⟨-, u, -, rfl⟩ := controlStep_firmware h
      obtain ⟨p, b, c, heq, -⟩ := firmwareUpdate_eq s e u
      rw [heq]
      exact ⟨hinv.strDesc, hinv.sizes⟩

lemma ControlInv.run {es : List CtlEvent} (hinv : ControlInv s)
    (h : run (controlStep deviceserial) s es = some t) : ControlInv t :=
  run_invariant (P := fun _ => True) (fun _ _ _ _ hi hu => hi.step hu) (fun _ _ => trivial) hinv h

end Sizes

/-! ### What is left of an answer -/

/-- The packets of an answer to a request of `wLength` bytes. -/
def Answer.packets (wLength : ℕ) : Answer → List (List UInt8)
  | .data d => requested usbMaxEp0Size wLength d
  | .status => [[]]
  | .stall | .none => []

/-- The empty packet after the last full one. -/
def closingPacket (s : Control) : List (List UInt8) :=
  if s.totalLength % usbMaxEp0Size = 0 ∧ usbMaxEp0Size ≤ s.totalLength ∧
      s.totalLength < s.ep0DataLen then [[]] else []

/-- The packets of an answer that have not gone to the host yet. -/
inductive Left (s : Control) : Answer → List (List UInt8) → Prop
  /-- The bytes `r` are left, and the closing packet. -/
  | chunk (d r : List UInt8) (hstate : s.ep0State = .dataIn) (htx : s.txStat = .valid)
      (hrx : s.rxStat = .nak) (hr : r ≠ []) (hrem : s.remLength = r.length)
      (hcount : s.txCount = min r.length usbMaxEp0Size) (hbuff : r <+: s.xferBuff) :
      Left s (.data d) (chunks usbMaxEp0Size r ++ closingPacket s)
  /-- The closing packet is left. -/
  | closing (d : List UInt8) (hstate : s.ep0State = .dataIn) (htx : s.txStat = .valid)
      (hrx : s.rxStat = .nak) (hrem : s.remLength ≤ usbMaxEp0Size) (hcount : s.txCount = 0)
      (hlen : s.ep0DataLen = 0) : Left s (.data d) [[]]
  /-- The host may send the status. -/
  | dataDone (d : List UInt8) (hstate : s.ep0State = .statusOut) (htx : s.txStat = .nak)
      (hrx : s.rxStat = .valid) : Left s (.data d) []
  | status (hstate : s.ep0State = .statusIn) (htx : s.txStat = .valid) (hrx : s.rxStat = .nak)
      (hcount : s.txCount = 0) : Left s .status [[]]
  | statusDone (hstate : s.ep0State = .statusIn) (htx : s.txStat = .nak)
      (hrx : s.rxStat = .nak) : Left s .status []
  | stall (htx : s.txStat = .stall) (hrx : s.rxStat = .stall) : Left s .stall []
  | none (htx : s.txStat = .nak) (hrx : s.rxStat = .nak) : Left s .none []

/-- If a packet waits in the buffer, it is the first one left. -/
def Intact (s : Control) (rest : List (List UInt8)) : Prop :=
  s.txStat = .valid → rest.head? = some s.packet

/-- What the host takes in a step. -/
def inPacket (s : Control) : CtlEvent → List (List UInt8)
  | .dataIn _ => [s.packet]
  | _ => []

/-- The step ends the transfer, or refuses its next packet because the main loop holds the
lock. -/
def EndsTransfer (s : Control) : CtlEvent → Prop
  | .reset => True
  | .setup _ _ => True
  | .dataIn _ => s.ep0State = .dataIn ∧ s.locked = true
  | .dataOut _ _ => False
  | .resubmit _ => False
  | .firmware _ => False

/-- The step writes a chunk of the class over a packet that waits in the buffer. -/
def Overwrites (s : Control) : CtlEvent → Prop
  | .resubmit _ => s.txStat = .valid ∧ s.txCount ≠ 0
  | .firmware e =>
      s.txStat = .valid ∧ s.txCount ≠ 0 ∧
        ∃ u, coreStep s.usbd (.firmware e) = some u ∧ StoresChunk s e u
  | _ => False

section Transfer

variable {deviceserial : UInt32} {s t : Control} {a : Answer} {rest : List (List UInt8)}

/-- The status of endpoint 0, towards the host. -/
lemma Left.txStat_iff (h : Left s a rest) : s.txStat = .valid ↔ rest ≠ [] := by
  cases h with
  | chunk d r _ htx _ hr =>
      refine iff_of_true htx ?_
      rw [chunks_of_ne_nil (by decide) hr]
      exact List.cons_ne_nil _ _
  | closing d _ htx => exact iff_of_true htx (by simp)
  | status _ htx => exact iff_of_true htx (by simp)
  | dataDone d _ htx => exact iff_of_false (by simp [htx]) (by simp)
  | statusDone _ htx => exact iff_of_false (by simp [htx]) (by simp)
  | stall htx => exact iff_of_false (by simp [htx]) (by simp)
  | none htx => exact iff_of_false (by simp [htx]) (by simp)

/-- The device takes the status of a transfer of data when the data has gone. -/
lemma Left.rxStat_of_nil {d : List UInt8} (h : Left s (.data d) rest) (hrest : rest = []) :
    s.rxStat = .valid := by
  have hne := h.txStat_iff
  cases h with
  | chunk _ r _ htx => exact absurd hrest (hne.mp htx)
  | closing => cases hrest
  | dataDone _ _ _ hrx => exact hrx

/-- A transfer of data has one direction open. -/
lemma Left.open_of_data {d : List UInt8} (h : Left s (.data d) rest) :
    ¬ (s.txStat = .nak ∧ s.rxStat = .nak) := by
  rintro ⟨htx, hrx⟩
  have hnil : rest = [] := by
    by_contra hne
    exact absurd (htx.symm.trans (h.txStat_iff.mpr hne)) (by simp)
  exact absurd (hrx.symm.trans (h.rxStat_of_nil hnil)) (by simp)

/-- What is left does not depend on the firmware and its chunks, nor on the address. -/
lemma Left.other (h : Left s a rest) (u : Usbd) (da : Option ℕ) (ua rc : ℕ) (f : Bool)
    (p : ℕ → UInt8) (b c : ℕ) :
    Left { s with
      usbd := u, daddr := da, usbAddress := ua, rxCount := rc, fault := f, pma := p,
      dataInBuff := b, dataInCount := c } a rest := by
  cases h with
  | chunk d r hstate htx hrx hr hrem hcount hbuff =>
      exact Left.chunk d r hstate htx hrx hr hrem hcount hbuff
  | closing d hstate htx hrx hrem hcount hlen =>
      exact Left.closing d hstate htx hrx hrem hcount hlen
  | dataDone d hstate htx hrx => exact Left.dataDone d hstate htx hrx
  | status hstate htx hrx hcount => exact Left.status hstate htx hrx hcount
  | statusDone hstate htx hrx => exact Left.statusDone hstate htx hrx
  | stall htx hrx => exact Left.stall htx hrx
  | none htx hrx => exact Left.none htx hrx

/-- Without bytes to read, the buffer does not matter. -/
lemma packet_of_txCount (h : s.txCount = 0) : s.packet = [] := by
  rw [Control.packet, h, Memory.read_zero]

/-- The packet of a transfer of `r`, an initial part of the buffer. -/
lemma read_transmitted {pma : ℕ → UInt8} {x m : ℕ} {r pBuf : List UInt8} (hr : r <+: pBuf) :
    Memory.read (pcdWritePma pma pBuf x (min r.length m)) x (min r.length m) = r.take m := by
  obtain ⟨l, rfl⟩ := hr
  rw [read_pcdWritePma (by rw [List.length_append]; omega),
    List.take_append_of_le_length (Nat.min_le_left _ _), List.take_eq_take_iff]
  omega

/-- The first packet of a data stage. -/
lemma usbdCtlSendData_of_free {v : Control} {pbuf : List UInt8} {len : ℕ}
    (hfree : v.locked = false) (hmax : v.maxpacket = usbMaxEp0Size) :
    usbdCtlSendData v pbuf len = { v with
      ep0State := .dataIn
      totalLength := len
      remLength := len
      xferBuff := pbuf
      xferLen := len - usbMaxEp0Size
      pma := pcdWritePma v.pma pbuf Endpoint.controlIn.pmaAdress (min len usbMaxEp0Size)
      txCount := min len usbMaxEp0Size
      txStat := .valid } := by
  rw [usbdCtlSendData, halPcdEp0Transmit_of_free (by exact hfree)]
  simp only [hmax]

/-- **The beginning of a transfer.** -/
lemma Left.of_setup {addr : ℕ} {psetup : List UInt8} {req : SetupReq} (hinv : ControlInv s)
    (hfree : s.locked = false) (hreq : usbdParseSetupRequest psetup = req)
    (h : controlStep deviceserial s (.setup addr psetup) = some t) :
    Left t (answer deviceserial s req) ((answer deviceserial s req).packets req.wLength) ∧
      Intact t ((answer deviceserial s req).packets req.wLength) := by
  obtain ⟨-, hd, -, ht⟩ := controlStep_setup h
  obtain ⟨hmax, -, -⟩ := hinv.sizes (by rw [hd]; simp)
  obtain ⟨v, heff, hgives⟩ := @setup_effect deviceserial
    (s.setupReceived psetup) _ psetup hinv.strDesc hreq
  rw [← ht] at hgives
  have hlock : v.locked = false := heff.locked.trans hfree
  have hans : answer deviceserial (s.setupReceived psetup) req = answer deviceserial s req := rfl
  rw [hans] at hgives
  generalize answer deviceserial s req = a at hgives
  cases hgives with
  | data pbuf len hpos hle =>
      have hlen : (pbuf.take len).length = len := by rw [List.length_take, Nat.min_eq_left hle]
      rw [usbdCtlSendData_of_free hlock (heff.maxpacket.trans hmax)]
      have hasked : v.ep0DataLen = req.wLength := heff.ep0DataLen
      rw [Answer.packets, requested, hlen, ← hasked]
      refine ⟨Left.chunk (pbuf.take len) (pbuf.take len) rfl rfl heff.rxStat hpos hlen.symm
        (by rw [hlen]) (List.take_prefix _ _), fun _ => ?_⟩
      have hread := @read_transmitted v.pma Endpoint.controlIn.pmaAdress usbMaxEp0Size _ _
        (List.take_prefix len pbuf)
      rw [hlen] at hread
      rw [chunks_of_ne_nil (by decide) hpos, List.cons_append, List.head?_cons, Control.packet,
        hread]
  | status =>
      rw [usbdCtlSendStatus_of_free hlock]
      exact ⟨Left.status rfl rfl heff.rxStat rfl, fun _ => rfl⟩
  | stall =>
      rw [stallEp0, if_neg (by simp [hlock])]
      exact ⟨Left.stall rfl rfl, fun htx => absurd htx (by simp)⟩
  | none =>
      exact ⟨Left.none heff.txStat heff.rxStat,
        fun htx => absurd (htx.symm.trans heff.txStat) (by simp [Control.setupReceived])⟩

lemma usbdCtlReceiveStatus_of_free {v : Control} (hfree : v.locked = false) :
    usbdCtlReceiveStatus v = { v with ep0State := .statusOut, rxCount := 0, rxStat := .valid } :=
  if_neg (by simpa [Control.locked] using hfree)

/-- The closing packet, put to the peripheral. -/
lemma halPcdEp0Transmit_nil {v : Control} (hfree : v.locked = false) :
    halPcdEp0Transmit v [] 0 =
      { v with xferBuff := [], xferLen := 0, txCount := 0, txStat := .valid } := by
  rw [halPcdEp0Transmit_of_free hfree, Nat.zero_sub, Nat.zero_min, pcdWritePma_zero]

/-- **The step of a data stage.**  The packet that has gone was the first one left, and the next
one is put into the buffer. -/
lemma Left.dataStage {d : List UInt8} (h : Left s (.data d) rest) (hst : s.ep0State = .dataIn)
    (hmax : s.maxpacket = usbMaxEp0Size) (hin : s.inMaxpacket = usbMaxEp0Size)
    (hfree : s.locked = false) {v : Control}
    (hv : usbdLlDataInStage { s with txStat := .nak, xferBuff := s.xferBuff.drop s.txCount }
      (s.xferBuff.drop s.txCount) = v) :
    ∃ first rest', rest = first :: rest' ∧ Left v (.data d) rest' ∧ Intact v rest' := by
  have h64 : 0 < usbMaxEp0Size := by decide
  subst hv
  cases h with
  | dataDone _ hstate => exact absurd (hstate.symm.trans hst) (by simp)
  | closing _ hstate htx hrx hrem hcount hlen =>
      refine ⟨[], [], rfl, ?_⟩
      simp only [usbdLlDataInStage, hst, if_true, hin, hlen]
      rw [if_neg (by omega), if_neg (by omega), usbdCtlReceiveStatus_of_free (by exact hfree)]
      exact ⟨Left.dataDone d rfl rfl rfl, fun htx => absurd htx (by simp)⟩
  | chunk _ r hstate htx hrx hr hrem hcount hbuff =>
      rw [chunks_of_ne_nil h64 hr, List.cons_append]
      refine ⟨_, _, rfl, ?_⟩
      simp only [usbdLlDataInStage, hst, if_true, hin, hrem]
      by_cases hmore : usbMaxEp0Size < r.length
      · -- another packet with data
        have hlen : s.txCount = usbMaxEp0Size := by rw [hcount, Nat.min_eq_right hmore.le]
        have hdrop : (r.drop usbMaxEp0Size).length = r.length - usbMaxEp0Size :=
          List.length_drop
        have hnext : r.drop usbMaxEp0Size <+: s.xferBuff.drop usbMaxEp0Size := by
          obtain ⟨l, hl⟩ := hbuff
          exact ⟨l, by rw [← hl, List.drop_append_of_le_length hmore.le]⟩
        have hne : r.drop usbMaxEp0Size ≠ [] := List.length_pos_iff.mp (by omega)
        rw [if_pos hmore, hlen, ← hdrop, halPcdEp0Transmit_of_free (by exact hfree)]
        simp only [hmax]
        refine ⟨Left.chunk d (r.drop usbMaxEp0Size) rfl rfl hrx hne rfl rfl hnext, fun _ => ?_⟩
        rw [chunks_of_ne_nil h64 hne, List.cons_append, List.head?_cons, Control.packet,
          read_transmitted hnext]
      · have hall : r.drop usbMaxEp0Size = [] := List.drop_of_length_le (Nat.le_of_not_lt hmore)
        rw [if_neg hmore, hall, chunks_nil h64, List.nil_append, closingPacket]
        split_ifs with hclose
        · rw [halPcdEp0Transmit_nil (by exact hfree)]
          exact ⟨Left.closing d rfl rfl hrx (Nat.le_of_not_lt hmore) rfl rfl, fun _ => rfl⟩
        · rw [usbdCtlReceiveStatus_of_free (by exact hfree)]
          exact ⟨Left.dataDone d rfl rfl rfl, fun htx => absurd htx (by simp)⟩

/-- The interrupt does what the data stage does, and may apply an address. -/
lemma pcdEp0IsrIn_of_stage {v : Control} (hv : usbdLlDataInStage
      { s with xferBuff := s.xferBuff.drop s.txCount } (s.xferBuff.drop s.txCount) = v) :
    pcdEp0IsrIn s = v ∨ pcdEp0IsrIn s = { v with daddr := some v.usbAddress, usbAddress := 0 } := by
  rw [pcdEp0IsrIn]
  simp only [hv]
  split_ifs
  · exact Or.inr rfl
  · exact Or.inl rfl

lemma Left.isrIn {v : Control} (hv : usbdLlDataInStage
      { s with xferBuff := s.xferBuff.drop s.txCount } (s.xferBuff.drop s.txCount) = v)
    (h : Left v a rest) : Left (pcdEp0IsrIn s) a rest := by
  rcases pcdEp0IsrIn_of_stage hv with heq | heq <;> rw [heq]
  · exact h
  · exact h.other _ _ _ _ _ _ _ _

lemma Intact.isrIn {v : Control} (hv : usbdLlDataInStage
      { s with xferBuff := s.xferBuff.drop s.txCount } (s.xferBuff.drop s.txCount) = v)
    (h : Intact v rest) : Intact (pcdEp0IsrIn s) rest := by
  rcases pcdEp0IsrIn_of_stage hv with heq | heq <;> rw [heq] <;> exact h

/-- A packet of a transfer that has gone. -/
lemma Left.dataIn (h : Left s a rest) (htx : s.txStat = .valid)
    (hmax : s.maxpacket = usbMaxEp0Size) (hin : s.inMaxpacket = usbMaxEp0Size)
    (hfree : s.ep0State = .dataIn → s.locked = false) :
    ∃ first rest', rest = first :: rest' ∧
      Left (pcdEp0IsrIn { s with txStat := .nak }) a rest' ∧
        Intact (pcdEp0IsrIn { s with txStat := .nak }) rest' := by
  have hdata : ∀ d, Left s (.data d) rest → s.ep0State = .dataIn →
      ∃ first rest', rest = first :: rest' ∧
        Left (pcdEp0IsrIn { s with txStat := .nak }) (.data d) rest' ∧
          Intact (pcdEp0IsrIn { s with txStat := .nak }) rest' := by
    intro d h hstate
    obtain ⟨first, rest', hrest, hleft, hintact⟩ :=
      h.dataStage hstate hmax hin (hfree hstate) rfl
    exact ⟨first, rest', hrest, Left.isrIn rfl hleft, Intact.isrIn rfl hintact⟩
  cases h with
  | chunk d r hstate htx hrx hr hrem hcount hbuff =>
      exact hdata d (Left.chunk d r hstate htx hrx hr hrem hcount hbuff) hstate
  | closing d hstate htx hrx hrem hcount hlen =>
      exact hdata d (Left.closing d hstate htx hrx hrem hcount hlen) hstate
  | status hstate _ hrx hcount =>
      have hstage : usbdLlDataInStage { s with
          txStat := .nak, xferBuff := s.xferBuff.drop s.txCount } (s.xferBuff.drop s.txCount) =
          { s with txStat := .nak, xferBuff := s.xferBuff.drop s.txCount } := by
        rw [usbdLlDataInStage, if_neg (by simp [hstate])]
      exact ⟨[], [], rfl, Left.isrIn hstage (Left.statusDone hstate rfl hrx),
        Intact.isrIn hstage fun htx => absurd htx (by simp)⟩
  | dataDone _ _ hnak => exact absurd (htx.symm.trans hnak) (by simp)
  | statusDone _ hnak => exact absurd (htx.symm.trans hnak) (by simp)
  | stall hstall => exact absurd (htx.symm.trans hstall) (by simp)
  | none hnak => exact absurd (htx.symm.trans hnak) (by simp)

/-- A packet from the host comes only when all packets have gone. -/
lemma Left.dataOut (h : Left s a rest) (hrx : s.rxStat = .valid) (data : List UInt8) :
    Left (pcdEp0IsrOut { s.received data with rxStat := .nak } data) a rest ∧
      Intact (pcdEp0IsrOut { s.received data with rxStat := .nak } data) rest := by
  cases h with
  | dataDone d hstate htx =>
      rw [pcdEp0IsrOut]
      split_ifs <;>
        exact ⟨Left.dataDone d hstate htx rfl, fun hval => absurd (hval.symm.trans htx) (by simp)⟩
  | chunk _ _ _ _ hnak => exact absurd (hrx.symm.trans hnak) (by simp)
  | closing _ _ _ hnak => exact absurd (hrx.symm.trans hnak) (by simp)
  | status _ _ hnak => exact absurd (hrx.symm.trans hnak) (by simp)
  | statusDone _ _ hnak => exact absurd (hrx.symm.trans hnak) (by simp)
  | stall _ hstall => exact absurd (hrx.symm.trans hstall) (by simp)
  | none _ hnak => exact absurd (hrx.symm.trans hnak) (by simp)

/-- An empty packet is not overwritten. -/
lemma Intact.resubmit {len : ℕ} (h : Intact s rest) (he : ¬ Overwrites s (.resubmit len)) :
    Intact (pcdDataInResubmit s len) rest := by
  obtain ⟨p, b, c, heq⟩ := pcdDataInResubmit_eq s len
  rw [heq]
  intro htx
  have hcount : s.txCount = 0 := by
    by_contra hcount
    exact he ⟨htx, hcount⟩
  have hempty : ({ s with pma := p, dataInBuff := b, dataInCount := c } : Control).packet = [] :=
    packet_of_txCount hcount
  rw [h htx, packet_of_txCount hcount, hempty]

/-- A step of the firmware leaves the packet that waits alone, unless it writes a chunk. -/
lemma Intact.firmware {e : Event} {u : Usbd} (h : Intact s rest)
    (he : ¬ Overwrites s (.firmware e)) (hu : coreStep s.usbd (.firmware e) = some u) :
    Intact (firmwareUpdate s e u) rest := by
  obtain ⟨p, b, c, heq, hkeep⟩ := firmwareUpdate_eq s e u
  rw [heq]
  intro htx
  rw [h htx, Control.packet, Control.packet]
  by_cases hcount : s.txCount = 0
  · simp only [hcount, Memory.read_zero]
  · rw [hkeep fun hstores => he ⟨htx, hcount, u, hu, hstores⟩]

/-- **A step of a transfer**: the first packet left may go, and the host takes it as it was put into
the buffer unless a chunk was written there. -/
lemma Left.step {e : CtlEvent} (h : Left s a rest) (hinv : ControlInv s)
    (he : ¬ EndsTransfer s e) (hstep : controlStep deviceserial s e = some t) :
    ∃ gone rest', rest = gone ++ rest' ∧ Left t a rest' ∧
      (Intact s rest → ¬ Overwrites s e → gone = inPacket s e ∧ Intact t rest') := by
  cases e with
  | reset | setup => exact absurd trivial he
  | resubmit len =>
      obtain ⟨-, rfl⟩ := controlStep_resubmit hstep
      refine ⟨[], rest, rfl, ?_, fun hintact hno => ⟨rfl, hintact.resubmit hno⟩⟩
      obtain ⟨p, b, c, heq⟩ := pcdDataInResubmit_eq s len
      rw [heq]
      exact h.other s.usbd _ _ _ _ p b c
  | firmware e =>
      obtain ⟨-, u, hu, rfl⟩ := controlStep_firmware hstep
      refine ⟨[], rest, rfl, ?_, fun hintact hno => ⟨rfl, hintact.firmware hno hu⟩⟩
      obtain ⟨p, b, c, heq, -⟩ := firmwareUpdate_eq s e u
      rw [heq]
      exact h.other u _ _ _ _ p b c
  | dataOut addr data =>
      obtain ⟨-, -, hrx, -, rfl⟩ := controlStep_dataOut hstep
      obtain ⟨hleft, hintact⟩ := h.dataOut hrx data
      exact ⟨[], rest, rfl, hleft, fun _ _ => ⟨rfl, hintact⟩⟩
  | dataIn addr =>
      obtain ⟨-, hd, htx, rfl⟩ := controlStep_dataIn hstep
      obtain ⟨hmax, hin, -⟩ := hinv.sizes (by rw [hd]; simp)
      obtain ⟨first, rest', rfl, hleft, hintact⟩ := h.dataIn htx hmax hin fun hst =>
        Bool.eq_false_of_not_eq_true fun hl => he ⟨hst, hl⟩
      refine ⟨[first], rest', rfl, hleft, fun hs _ => ⟨?_, hintact⟩⟩
      rw [inPacket, Option.some.inj (hs htx)]

end Transfer

/-! ### Transfers -/

section Runs

variable {deviceserial : UInt32} {s t u : Control} {es es' : List CtlEvent} {addr : ℕ}
  {psetup : List UInt8} {req : SetupReq} {a : Answer}

/-- A transfer goes on until a step ends it. -/
lemma left_run {rest : List (List UInt8)} (hinv : ControlInv t) (h : Left t a rest)
    (hkeep : ∀ v e, Takes (controlStep deviceserial) t es v e → ¬ EndsTransfer v e)
    (hrun : run (controlStep deviceserial) t es = some u) : ∃ rest', Left u a rest' := by
  have hboth : ControlInv u ∧ ∃ rest', Left u a rest' := by
    refine run_invariant_of_takes (I := fun v => ControlInv v ∧ ∃ rest', Left v a rest')
      ?_ hkeep ⟨hinv, rest, h⟩ hrun
    rintro e v w ⟨hv, rest', hleft⟩ hend hstep
    obtain ⟨gone, rest'', -, hnext, -⟩ := hleft.step hv hend hstep
    exact ⟨hv.step hstep, rest'', hnext⟩
  exact hboth.2

/-- What the host has taken, and what is left, after a run whose steps neither end the transfer nor
write over its packets. -/
lemma intact_run {rest : List (List UInt8)} (hinv : ControlInv t)
    (h : Left t a rest ∧ Intact t rest)
    (hkeep : ∀ v e, Takes (controlStep deviceserial) t es v e →
      ¬ EndsTransfer v e ∧ ¬ Overwrites v e)
    (hrun : run (controlStep deviceserial) t es = some u) :
    ∃ rest', rest = observed (controlStep deviceserial) inPacket t es ++ rest' ∧
      Left u a rest' := by
  have hboth : ControlInv u ∧ ∃ rest',
      rest = observed (controlStep deviceserial) inPacket t es ++ rest' ∧
        Left u a rest' ∧ Intact u rest' := by
    refine run_observed_of_takes
      (I := fun bs v => ControlInv v ∧ ∃ rest', rest = bs ++ rest' ∧ Left v a rest' ∧
        Intact v rest')
      ⟨hinv, rest, rfl, h⟩ ?_ (fun v e htakes => not_or.mpr (hkeep v e htakes)) hrun
    rintro bs e v w ⟨hv, rest', rfl, hleft, hintact⟩ hno hstep
    obtain ⟨hend, hover⟩ := not_or.mp hno
    obtain ⟨gone, rest'', rfl, hnext, hgone⟩ := hleft.step hv hend hstep
    obtain ⟨rfl, hnext'⟩ := hgone hintact hover
    exact ⟨hv.step hstep, rest'', by rw [List.append_assoc], hnext, hnext'⟩
  obtain ⟨-, rest', hrest, hleft, -⟩ := hboth
  exact ⟨rest', hrest, hleft⟩

/-- A device that listens. -/
def Control.listening : Control := pcdIrqReset Control.initial

/-- A request for 64 bytes of the device descriptor. -/
def deviceRequest : List UInt8 := [0x80, 6, 0, 1, 0, 0, 64, 0]

/-- A request for 255 bytes of the configuration descriptor, which are two packets. -/
def configRequest : List UInt8 := [0x80, 6, 0, 2, 0, 0, 255, 0]

/-- The device after a `SETUP` packet. -/
def Control.asked (deviceserial : UInt32) (s : Control) (psetup : List UInt8) : Control :=
  usbdLlSetupStage deviceserial (s.setupReceived psetup) psetup

lemma listening_run :
    run (controlStep deviceserial) Control.initial [.reset] = some Control.listening := rfl

lemma listening_setup (hlen : psetup.length = 8) :
    controlStep deviceserial Control.listening (.setup 0 psetup) =
      some (Control.asked deviceserial Control.listening psetup) := by
  rw [controlStep]
  exact if_pos ⟨rfl, rfl, by decide, hlen⟩

/-- `SET_ADDRESS`, with the address 5. -/
def setAddressRequest : List UInt8 := [0, 5, 5, 0, 0, 0, 0, 0]

/-- `SET_CONFIGURATION`. -/
def setConfigRequest : List UInt8 := [0, 9, 1, 0, 0, 0, 0, 0]

/-- The host gives the device its address and configures it. -/
def toConfigured : List CtlEvent :=
  [.reset, .setup 0 setAddressRequest, .dataIn 0, .setup 5 setConfigRequest, .dataIn 5]

/-- The host takes two packets, with a start of frame in between. -/
def twoPackets : List CtlEvent := [.dataIn 0, .firmware .sof, .dataIn 0]

lemma keeps_twoPackets : ∀ v e,
    Takes (controlStep 7) (Control.asked 7 Control.listening configRequest) twoPackets v e →
      ¬ EndsTransfer v e ∧ ¬ Overwrites v e := by
  rw [twoPackets, forall_takes_cons rfl, forall_takes_cons rfl, forall_takes_cons rfl]
  refine ⟨⟨?_, id⟩, ⟨id, ?_⟩, ⟨?_, id⟩, fun v e h => absurd h not_takes_nil⟩
  · exact fun hend => absurd hend.2 (by decide)
  · rintro ⟨-, -, u, hu, hisr | ⟨c, hc, -⟩⟩
    · exact hisr.1 rfl
    · obtain rfl := Option.some.inj hu
      simp [chunkCalls] at hc
  · exact fun hend => absurd hend.2 (by decide)

/-- **The packets of a transfer.**  The lock is free at the `SETUP` packet, and no packet of a data
stage is completed while it is held.  Then what the host takes until the next `SETUP` packet or
reset is an initial part of the packets of the answer, and the device has a packet ready exactly
until all of them have gone. -/
theorem transfer_packets (hs : run (controlStep deviceserial) Control.initial es = some s)
    (hfree : s.locked = false)
    (ht : controlStep deviceserial s (.setup addr psetup) = some t)
    (hkeep : ∀ v e, Takes (controlStep deviceserial) t es' v e →
      ¬ EndsTransfer v e ∧ ¬ Overwrites v e)
    (hu : run (controlStep deviceserial) t es' = some u) :
    let req := usbdParseSetupRequest psetup
    ∃ rest, (answer deviceserial s req).packets req.wLength =
        observed (controlStep deviceserial) inPacket t es' ++ rest ∧
      (u.txStat = .valid ↔ rest ≠ []) := by
  intro req
  have hinv : ControlInv s := controlInv_initial.run hs
  obtain ⟨rest, hrest, hleft⟩ :=
    intact_run (hinv.step ht) (Left.of_setup hinv hfree rfl ht) hkeep hu
  exact ⟨rest, hrest, hleft.txStat_iff⟩

/-- The configuration descriptor is two packets. -/
theorem transfer_packets_config : ∃ u rest,
    run (controlStep 7) (Control.asked 7 Control.listening configRequest) twoPackets = some u ∧
      (answer 7 Control.listening (usbdParseSetupRequest configRequest)).packets 255 =
        observed (controlStep 7) inPacket (Control.asked 7 Control.listening configRequest)
          twoPackets ++ rest ∧ (u.txStat = .valid ↔ rest ≠ []) := by
  have hu : run (controlStep 7) (Control.asked 7 Control.listening configRequest) twoPackets =
      some _ := rfl
  obtain ⟨rest, h⟩ :=
    transfer_packets listening_run rfl (listening_setup rfl) keeps_twoPackets hu
  exact ⟨_, rest, hu, h⟩

/-- The data of an answer has bytes. -/
lemma answer_ne_nil {d : List UInt8} (hinv : ControlInv s) (h : answer deviceserial s req = .data d)
    (hreq : usbdParseSetupRequest psetup = req) : d ≠ [] := by
  obtain ⟨v, -, hgives⟩ := @setup_effect deviceserial s req psetup hinv.strDesc hreq
  rw [h] at hgives
  generalize usbdLlSetupStage deviceserial s psetup = t at hgives
  cases hgives with
  | data pbuf len hpos => exact hpos

/-- `GET_STATUS` alone may send more than it was asked for. -/
lemma answer_fits {d : List UInt8} (h : answer deviceserial s req = .data d)
    (hask : req.bRequest = 0 → 2 ≤ req.wLength) : d.length ≤ req.wLength := by
  have hdev : deviceAnswer deviceserial s req = .data d → d.length ≤ req.wLength := by
    intro h
    rw [deviceAnswer] at h
    split at h
    · split_ifs at h
      all_goals
        cases h
        exact hask ‹_›
    · split_ifs at h
    · split_ifs at h
    · split_ifs at h
    · split at h
      · cases h
      · split_ifs at h
        cases h
        exact List.length_take_le _ _
    · split_ifs at h with hw
      all_goals
        cases h
        rw [List.length_singleton]
        omega
    · split_ifs at h
    · cases h
  have hitf : interfaceAnswer s req ≠ .data d := by
    rw [interfaceAnswer]
    split_ifs <;> simp
  have hep : endpointAnswer s req = .data d → d.length ≤ req.wLength := by
    intro h
    rw [endpointAnswer] at h
    split at h
    · split_ifs at h
    · cases h
    · split at h
      · cases h
        exact hask ‹_›
      · split_ifs at h
      · cases h
      · cases h
  rw [answer] at h
  split at h
  · exact hdev h
  · exact absurd h hitf
  · exact hep h
  · cases h

/-- **The host reads the data of the answer.**  When the device has no packet left, the host that
asked for `wLength` bytes has read exactly the data, with no packet left over, and the device takes
the status.  `GET_STATUS` must ask for its two bytes. -/
theorem host_reads {d : List UInt8}
    (hs : run (controlStep deviceserial) Control.initial es = some s)
    (hfree : s.locked = false)
    (hans : answer deviceserial s (usbdParseSetupRequest psetup) = .data d)
    (hask : (usbdParseSetupRequest psetup).bRequest = 0 →
      2 ≤ (usbdParseSetupRequest psetup).wLength)
    (ht : controlStep deviceserial s (.setup addr psetup) = some t)
    (hkeep : ∀ v e, Takes (controlStep deviceserial) t es' v e →
      ¬ EndsTransfer v e ∧ ¬ Overwrites v e)
    (hu : run (controlStep deviceserial) t es' = some u) (hgone : u.txStat ≠ .valid) :
    collect usbMaxEp0Size (usbdParseSetupRequest psetup).wLength
        (observed (controlStep deviceserial) inPacket t es') = (d, []) ∧ u.rxStat = .valid := by
  have hinv : ControlInv s := controlInv_initial.run hs
  have hstart := Left.of_setup hinv hfree rfl ht
  rw [hans] at hstart
  obtain ⟨rest, hrest, hleft⟩ := intact_run (hinv.step ht) hstart hkeep hu
  have hnil : rest = [] := by
    by_contra hne
    exact hgone (hleft.txStat_iff.mpr hne)
  refine ⟨?_, hleft.rxStat_of_nil hnil⟩
  have hread := collect_requested (n := usbMaxEp0Size) (by decide) (answer_ne_nil hinv hans rfl)
    (answer_fits hans hask) []
  rwa [List.append_nil, ← Answer.packets, hrest, hnil, List.append_nil] at hread

/-- The host reads the configuration descriptor. -/
theorem host_reads_config : ∃ u,
    run (controlStep 7) (Control.asked 7 Control.listening configRequest) twoPackets = some u ∧
      collect usbMaxEp0Size 255 (observed (controlStep 7) inPacket
        (Control.asked 7 Control.listening configRequest) twoPackets) = (cfgFsDesc, []) ∧
      u.rxStat = .valid :=
  ⟨_, rfl, host_reads listening_run rfl rfl (by decide) (@listening_setup 7 configRequest rfl)
     keeps_twoPackets rfl (by decide)⟩

/-- lwIP sends eight bytes, and the host asks for the device descriptor before the next start of
frame.  The chunk is written over the first bytes of the descriptor. -/
example :
    (run (controlStep 7) Control.initial (toConfigured ++
      .firmware (.xmitCall ⟨[[1, 2, 3, 4, 5, 6, 7, 8]], by decide, by decide⟩) ::
      List.replicate 4 (.firmware .xmitStep) ++ [.setup 5 deviceRequest])).map
        (fun t => observed (controlStep 7) inPacket t [.firmware .sof, .dataIn 5]) =
      some [[1, 2, 3, 4, 5, 6, 7, 8] ++ deviceDesc.drop 8] := rfl

/-! ### Transfers that come to a halt -/

/-- Neither a reset nor a `SETUP` packet. -/
def CtlEvent.IsQuiet : CtlEvent → Prop
  | .reset => False
  | .setup _ _ => False
  | _ => True

/-- Nothing happens on endpoint 0 while both directions are `NAK`. -/
lemma left_none_step {e : CtlEvent} (h : Left s .none []) (he : e.IsQuiet)
    (hstep : controlStep deviceserial s e = some t) : Left t .none [] := by
  cases h with
  | none htx hrx =>
      cases e with
      | reset | setup => exact absurd he id
      | resubmit len =>
          obtain ⟨-, rfl⟩ := controlStep_resubmit hstep
          obtain ⟨p, b, c, heq⟩ := pcdDataInResubmit_eq s len
          rw [heq]
          exact Left.none htx hrx
      | firmware e =>
          obtain ⟨-, u, -, rfl⟩ := controlStep_firmware hstep
          obtain ⟨p, b, c, heq, -⟩ := firmwareUpdate_eq s e u
          rw [heq]
          exact Left.none htx hrx
      | dataOut addr data =>
          obtain ⟨-, -, hval, -⟩ := controlStep_dataOut hstep
          exact absurd (hrx.symm.trans hval) (by simp)
      | dataIn addr =>
          obtain ⟨-, -, hval, -⟩ := controlStep_dataIn hstep
          exact absurd (htx.symm.trans hval) (by simp)

lemma left_none_run (h : Left s .none []) (hquiet : ∀ e ∈ es, e.IsQuiet)
    (hrun : run (controlStep deviceserial) s es = some t) : Left t .none [] :=
  run_invariant (I := fun v => Left v .none []) (P := CtlEvent.IsQuiet)
    (fun _ _ _ he hv hstep => left_none_step hv he hstep) hquiet h hrun

/-- A packet of a data stage that is completed while the lock is held is the last one. -/
lemma left_none_of_locked {d : List UInt8} {rest : List (List UInt8)} (h : Left s (.data d) rest)
    (hstate : s.ep0State = .dataIn) (hl : s.locked = true) :
    Left (pcdEp0IsrIn { s with txStat := .nak }) .none [] := by
  have hrx : s.rxStat = .nak := by
    cases h with
    | chunk _ _ _ _ hrx => exact hrx
    | closing _ _ _ hrx => exact hrx
    | dataDone _ hst => exact absurd (hst.symm.trans hstate) (by simp)
  refine Left.isrIn rfl ?_
  have hrefused : ∀ (v : Control) (pBuf : List UInt8) (len : ℕ), v.locked = true →
      v.txStat = .nak → v.rxStat = .nak → Left (halPcdEp0Transmit v pBuf len) .none [] := by
    intro v pBuf len hv htx hrx
    rw [halPcdEp0Transmit_of_locked hv]
    exact Left.none htx hrx
  simp only [usbdLlDataInStage, hstate, if_true]
  split_ifs
  · exact hrefused _ _ _ hl rfl hrx
  · rw [halPcdEp0Transmit_of_locked (by exact hl)]
    exact Left.none rfl hrx
  · rw [usbdCtlReceiveStatus, halPcdEp0Receive, if_pos (by exact hl)]
    exact Left.none rfl hrx

/-- The step that ends a transfer of data leaves nothing of it. -/
lemma left_none_of_ends {d : List UInt8} {e : CtlEvent}
    (hleft : (∃ rest, Left s (.data d) rest) ∨ Left s .none []) (he : e.IsQuiet)
    (hend : EndsTransfer s e) (hstep : controlStep deviceserial s e = some t) :
    Left t .none [] := by
  cases e with
  | reset | setup => exact absurd he id
  | dataOut | resubmit | firmware => exact absurd hend id
  | dataIn a =>
      rcases hleft with ⟨rest, hleft⟩ | hleft
      · obtain ⟨-, -, -, rfl⟩ := controlStep_dataIn hstep
        exact left_none_of_locked hleft hend.1 hend.2
      · exact left_none_step hleft he hstep

/-- A transfer of data goes on or has come to a halt. -/
lemma left_or_none_run {d : List UInt8} {rest : List (List UInt8)} (hinv : ControlInv t)
    (h : Left t (.data d) rest) (hquiet : ∀ e ∈ es, e.IsQuiet)
    (hrun : run (controlStep deviceserial) t es = some u) :
    (∃ rest, Left u (.data d) rest) ∨ Left u .none [] := by
  have hboth : ControlInv u ∧ ((∃ rest, Left u (.data d) rest) ∨ Left u .none []) := by
    refine run_invariant (P := CtlEvent.IsQuiet)
      (I := fun v => ControlInv v ∧ ((∃ rest, Left v (.data d) rest) ∨ Left v .none []))
      ?_ hquiet ⟨hinv, Or.inl ⟨rest, h⟩⟩ hrun
    rintro v e w he ⟨hv, hleft⟩ hstep
    refine ⟨hv.step hstep, ?_⟩
    by_cases hend : EndsTransfer v e
    · exact Or.inr (left_none_of_ends hleft he hend hstep)
    · rcases hleft with ⟨rest, hleft⟩ | hleft
      · obtain ⟨gone, rest', -, hnext, -⟩ := hleft.step hv hend hstep
        exact Or.inl ⟨rest', hnext⟩
      · exact Or.inr (left_none_step hleft he hstep)
  exact hboth.2

/-- **Transfers that come to a halt.**  After a request that is answered with data, the endpoint
takes part in no transaction any more, until the next `SETUP` packet or reset, exactly when one of
the packets was completed while the main loop held the lock. -/
theorem transfer_halts_iff {d : List UInt8}
    (hs : run (controlStep deviceserial) Control.initial es = some s)
    (hfree : s.locked = false)
    (hans : answer deviceserial s (usbdParseSetupRequest psetup) = .data d)
    (ht : controlStep deviceserial s (.setup addr psetup) = some t)
    (hquiet : ∀ e ∈ es', e.IsQuiet) (hu : run (controlStep deviceserial) t es' = some u) :
    u.txStat = .nak ∧ u.rxStat = .nak ↔
      ∃ v e, Takes (controlStep deviceserial) t es' v e ∧ EndsTransfer v e := by
  have hinv : ControlInv s := controlInv_initial.run hs
  have hstart := (Left.of_setup hinv hfree rfl ht).1
  rw [hans] at hstart
  constructor
  · intro hnak
    by_contra hno
    obtain ⟨rest, hleft⟩ := left_run (hinv.step ht) hstart
      (fun v e htakes hend => hno ⟨v, e, htakes, hend⟩) hu
    exact hleft.open_of_data hnak
  · rintro ⟨v, e, ⟨pre, post, rfl, hv, -⟩, hend⟩
    obtain ⟨w, hw, hpost⟩ : ∃ w, controlStep deviceserial v e = some w ∧
        run (controlStep deviceserial) w post = some u := by
      obtain ⟨v', hv', hrest⟩ := run_append_eq_some.mp hu
      obtain rfl := Option.some.inj (hv.symm.trans hv')
      exact run_cons_eq_some.mp hrest
    have hpre := left_or_none_run (hinv.step ht) hstart (fun x hx => hquiet x (by simp [hx])) hv
    have hnone : Left w .none [] := left_none_of_ends hpre (hquiet e (by simp)) hend hw
    cases left_none_run hnone (fun x hx => hquiet x (by simp [hx])) hpost with
    | none htx hrx => exact ⟨htx, hrx⟩

/-- The main loop has a frame of two bytes and is about to renew. -/
def toRenew : List CtlEvent :=
  toConfigured ++ .firmware (.dataOut ⟨[1, 2], 0, by decide⟩ true) ::
    List.replicate 4 (.firmware .traffic)

/-- The main loop takes the lock, and the host takes the first packet of two. -/
def takenUnderLock : List CtlEvent := [.firmware .traffic, .firmware .traffic, .dataIn 5]

/-- The second packet of the configuration descriptor is refused. -/
theorem transfer_halts_iff_takenUnderLock : ∃ s t u,
    run (controlStep 7) Control.initial toRenew = some s ∧
      controlStep 7 s (.setup 5 configRequest) = some t ∧
      run (controlStep 7) t takenUnderLock = some u ∧ (u.txStat = .nak ∧ u.rxStat = .nak) ∧
      ∃ v e, Takes (controlStep 7) t takenUnderLock v e ∧ EndsTransfer v e := by
  have hs : run (controlStep 7) Control.initial toRenew = some _ := rfl
  have hquiet : ∀ e ∈ takenUnderLock, e.IsQuiet := by simp [takenUnderLock, CtlEvent.IsQuiet]
  refine ⟨_, _, _, hs, rfl, rfl, ⟨rfl, rfl⟩, ?_⟩
  exact (@transfer_halts_iff 7 _ _ _ toRenew takenUnderLock 5 configRequest _ hs rfl rfl rfl
    hquiet rfl).mp ⟨rfl, rfl⟩

/-! ### Requests without an answer -/

/-- The device has the descriptor that is asked for. -/
def KnownDescriptor (wValue : ℕ) : Prop :=
  wValue / 256 = 1 ∨ wValue / 256 = 2 ∨ wValue / 256 = 3 ∧ wValue % 256 ≤ 3

/-- The requests the device neither answers nor stalls. -/
def Unanswered (s : Control) (req : SetupReq) : Prop :=
  (req.bmRequest % 32 = 0 ∧
    (req.bRequest = 3 ∧ req.wValue ≠ 1 ∨
      req.bRequest = 1 ∧ s.usbd.devState ≠ .default ∧ req.wValue ≠ 1 ∨
      req.bRequest = 6 ∧ KnownDescriptor req.wValue ∧ req.wLength = 0)) ∨
  (req.bmRequest % 32 = 1 ∧ s.usbd.devState = .configured ∧
    req.wIndex % 256 ≤ usbdMaxNumInterfaces ∧ req.wLength ≠ 0) ∨
  (req.bmRequest % 32 = 2 ∧
    (¬ req.IsFeature ∨ s.usbd.devState = .addressed ∨
      s.usbd.devState = .configured ∧ req.bRequest = 1 ∧ req.wValue ≠ 0))

lemma descriptorOf_isSome_iff {strDesc : List UInt8} {wValue : ℕ} :
    (descriptorOf deviceserial strDesc wValue).isSome = true ↔ KnownDescriptor wValue := by
  rw [KnownDescriptor]
  simp only [descriptorOf]
  split
  · simp [*]
  · simp [*]
  · split
    · simp [*]
    · simp [*]
    · simp [*]
    · simp [*]
    · rename_i hne0 hne1 hne2 hne3
      refine iff_of_false (by simp) ?_
      rintro (h | h | ⟨-, h⟩)
      · omega
      · omega
      · have hvalue : wValue % 256 = 0 ∨ wValue % 256 = 1 ∨ wValue % 256 = 2 ∨
            wValue % 256 = 3 := by omega
        rcases hvalue with h | h | h | h
        · exact hne0 h
        · exact hne1 h
        · exact hne2 h
        · exact hne3 h
  · rename_i hne1 hne2 hne3
    refine iff_of_false (by simp) ?_
    rintro (h | h | ⟨h, -⟩)
    · exact hne1 h
    · exact hne2 h
    · exact hne3 h

lemma deviceAnswer_eq_none_iff :
    deviceAnswer deviceserial s req = .none ↔
      req.bRequest = 3 ∧ req.wValue ≠ 1 ∨
      req.bRequest = 1 ∧ s.usbd.devState ≠ .default ∧ req.wValue ≠ 1 ∨
      req.bRequest = 6 ∧ KnownDescriptor req.wValue ∧ req.wLength = 0 := by
  rw [← @descriptorOf_isSome_iff deviceserial s.strDesc, deviceAnswer]
  split
  · split_ifs <;> simp [*]
  · split_ifs <;> simp [*]
  · split_ifs <;> simp [*]
  · split_ifs <;> simp [*]
  · split
    · simp [*]
    · split_ifs <;> simp [*]
  · split_ifs <;> simp [*]
  · split_ifs <;> simp [*]
  · rename_i hne0 hne1 hne3 hne5 hne6 hne8 hne9
    refine iff_of_false (by simp) ?_
    rintro (h | h | h)
    · exact hne3 h.1
    · exact hne1 h.1
    · exact hne6 h.1

lemma endpointAnswer_eq_none_iff :
    endpointAnswer s req = .none ↔
      ¬ req.IsFeature ∨ s.usbd.devState = .addressed ∨
      s.usbd.devState = .configured ∧ req.bRequest = 1 ∧ req.wValue ≠ 0 := by
  rw [endpointAnswer]
  split
  · split_ifs <;> simp [*]
  · simp [*]
  · split
    · rename_i hb
      have hfeature : req.IsFeature := Or.inl hb
      split_ifs <;> simp [*]
    · rename_i hb
      have hfeature : req.IsFeature := Or.inr (Or.inl hb)
      split_ifs <;> simp [*]
    · rename_i hb
      have hfeature : req.IsFeature := Or.inr (Or.inr hb)
      simp [*]
    · rename_i hne0 hne1 hne3
      exact iff_of_true rfl (Or.inl fun h => h.elim hne0 fun h => h.elim hne1 hne3)

lemma answer_eq_none_iff : answer deviceserial s req = .none ↔ Unanswered s req := by
  have hitf : interfaceAnswer s req = .none ↔ s.usbd.devState = .configured ∧
      req.wIndex % 256 ≤ usbdMaxNumInterfaces ∧ req.wLength ≠ 0 := by
    rw [interfaceAnswer]
    split_ifs <;> simp_all
  rw [Unanswered, ← @deviceAnswer_eq_none_iff deviceserial, ← hitf, ← endpointAnswer_eq_none_iff,
    answer]
  split
  · simp [*]
  · simp [*]
  · simp [*]
  · rename_i hne0 hne1 hne2
    refine iff_of_false (by simp) ?_
    rintro (h | h | h)
    · exact hne0 h.1
    · exact hne1 h.1
    · exact hne2 h.1

/-- While the lock is held no answer reaches the peripheral. -/
lemma Gives.of_locked {v : Control} (h : Gives v a t) (hl : v.locked = true) :
    t.txStat = v.txStat ∧ t.rxStat = v.rxStat := by
  cases h with
  | data pbuf len =>
      rw [usbdCtlSendData, halPcdEp0Transmit_of_locked (by exact hl)]
      exact ⟨rfl, rfl⟩
  | status =>
      rw [usbdCtlSendStatus_of_locked hl]
      exact ⟨rfl, rfl⟩
  | stall =>
      rw [stallEp0, if_pos hl]
      exact ⟨rfl, rfl⟩
  | none => exact ⟨rfl, rfl⟩

/-- **Requests without an answer.**  A `SETUP` packet leaves both directions of the endpoint `NAK`
until the next one or a reset, whatever else happens, exactly when the main loop holds the lock at
that moment or the request is one of `Unanswered`. -/
theorem unanswered_iff (hs : run (controlStep deviceserial) Control.initial es = some s)
    (ht : controlStep deviceserial s (.setup addr psetup) = some t) :
    (∀ es' u, (∀ e ∈ es', e.IsQuiet) → run (controlStep deviceserial) t es' = some u →
      u.txStat = .nak ∧ u.rxStat = .nak) ↔
      s.locked = true ∨ Unanswered s (usbdParseSetupRequest psetup) := by
  have hinv : ControlInv s := controlInv_initial.run hs
  constructor
  · intro hnak
    by_contra hno
    rw [not_or, ← @answer_eq_none_iff deviceserial] at hno
    have hleft := (Left.of_setup hinv (Bool.eq_false_of_not_eq_true hno.1) rfl ht).1
    obtain ⟨htx, hrx⟩ := hnak [] t (by simp) rfl
    cases hans : answer deviceserial s (usbdParseSetupRequest psetup) with
    | none => exact hno.2 hans
    | data d =>
        rw [hans] at hleft
        exact hleft.open_of_data ⟨htx, hrx⟩
    | status =>
        rw [hans, Answer.packets] at hleft
        exact absurd (htx.symm.trans (hleft.txStat_iff.mpr (by simp))) (by simp)
    | stall =>
        rw [hans] at hleft
        cases hleft with
        | stall hstall => exact absurd (htx.symm.trans hstall) (by simp)
  · intro hwhy es' u hquiet hu
    suffices hnone : Left t .none [] by
      cases left_none_run hnone hquiet hu with
      | none htx hrx => exact ⟨htx, hrx⟩
    obtain ⟨-, -, -, htt⟩ := controlStep_setup ht
    obtain ⟨v, heff, hgives⟩ := @setup_effect deviceserial
      (s.setupReceived psetup) _ psetup hinv.strDesc rfl
    rw [← htt] at hgives
    rcases hwhy with hl | hun
    · obtain ⟨htx, hrx⟩ := hgives.of_locked (heff.locked.trans hl)
      exact Left.none (htx.trans heff.txStat) (hrx.trans heff.rxStat)
    · have hans : answer deviceserial (s.setupReceived psetup)
          (usbdParseSetupRequest psetup) = .none := answer_eq_none_iff.mpr hun
      rw [hans] at hgives
      cases hgives with
      | none => exact Left.none heff.txStat heff.rxStat

/-- `SET_FEATURE` of a feature the device does not have. -/
theorem unanswered_setFeature : ∃ t,
    controlStep 7 Control.listening (.setup 0 [0, 3, 2, 0, 0, 0, 0, 0]) = some t ∧
      ∀ es' u, (∀ e ∈ es', e.IsQuiet) → run (controlStep 7) t es' = some u →
        u.txStat = .nak ∧ u.rxStat = .nak := by
  have ht : controlStep 7 Control.listening (.setup 0 [0, 3, 2, 0, 0, 0, 0, 0]) = some _ :=
    listening_setup rfl
  refine ⟨_, ht, (unanswered_iff listening_run ht).mpr (Or.inr (Or.inl ⟨rfl, Or.inl ⟨rfl, ?_⟩⟩))⟩
  decide

end Runs

end Stm32Ecm
