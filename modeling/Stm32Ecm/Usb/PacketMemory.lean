import Mathlib.Algebra.Group.Nat.Defs
import Stm32Ecm.Usb.Driver

/-!
The layout of packet memory (`USBD_LL_Init`, `USBD_ECM_PMAConfig`, `HAL_PCDEx_PMAConfig`) and what
it means for the packets of the endpoints.

`USBD_LL_Init` advances its cursor with `pma_address =+ USB_MAX_EP0_SIZE`, which assigns `+64`.
Both directions of endpoint 0 and the first class endpoint get the address 64.

* `usbdLlInit`: the addresses as the code computes them, `pmaAdress_eq` their values;
* `Transfer`: a packet is stored in the buffer of an endpoint (by `PCD_WritePMA` for an IN
  endpoint, by the peripheral for an OUT endpoint) or taken out of it;
* `Endpoint.overlaid`: the three endpoints that share a buffer, `pmaAdress_disjoint` says that
  all others are apart;
* `buffers_isolated`: every packet taken out is the last one stored for its endpoint, as long as
  no endpoint that shares the buffer has stored one in between; the BTABLE is never written.
-/

namespace Stm32Ecm

/-! ### Addresses -/

/-- `USB_MAX_EP0_SIZE`. -/
@[simp] def usbMaxEp0Size : ℕ := 64

/-- `ECM_NOTIFICATION_IN_SZ`. -/
@[simp] def ecmNotificationInSz : ℕ := 64

/-- The endpoints in use. -/
inductive Endpoint where
  | control | controlIn | dataIn | dataOut | notificationIn
  deriving DecidableEq, Repr

/-- The endpoint addresses of `usbd_conf.h`. -/
def Endpoint.address : Endpoint → ℕ
  | .control => 0x00
  | .controlIn => 0x80
  | .dataIn => 0x82
  | .dataOut => 0x03
  | .notificationIn => 0x81

/-- The field `pmaadress` of `hpcd.IN_ep` and `hpcd.OUT_ep`. -/
structure PmaTable where
  inEp : ℕ → ℕ
  outEp : ℕ → ℕ

/-- `HAL_PCDEx_PMAConfig` with `PCD_SNG_BUF`. -/
def halPcdExPmaConfig (t : PmaTable) (epAddr pmaadress : ℕ) : PmaTable :=
  if epAddr &&& 0x80 = 0x80 then
    { t with inEp := Function.update t.inEp (epAddr &&& 0x7F) (pmaadress % 2 ^ 16) }
  else { t with outEp := Function.update t.outEp epAddr (pmaadress % 2 ^ 16) }

/-- `USBD_ECM_PMAConfig`: each address is assigned and the cursor advanced behind it. -/
def usbdEcmPmaConfig (t : PmaTable) (pmaAddress : ℕ) : PmaTable × ℕ :=
  let t := halPcdExPmaConfig t Endpoint.dataIn.address pmaAddress
  let pmaAddress := pmaAddress + ecmDataInSz
  let t := halPcdExPmaConfig t Endpoint.dataOut.address pmaAddress
  let pmaAddress := pmaAddress + ecmDataOutSz
  let t := halPcdExPmaConfig t Endpoint.notificationIn.address pmaAddress
  (t, pmaAddress + ecmNotificationInSz)

/-- The expression `x =+ n`: the value `+n` is assigned, the old value is dropped. -/
def assignPlus (_x n : ℕ) : ℕ := n

/-- The allocation of `USBD_LL_Init`. -/
def usbdLlInit : PmaTable :=
  let t : PmaTable := { inEp := fun _ => 0, outEp := fun _ => 0 }
  let pmaAddress := 8 * max 8 8
  let pmaAddress := assignPlus pmaAddress usbMaxEp0Size
  let t := halPcdExPmaConfig t Endpoint.control.address pmaAddress
  let pmaAddress := assignPlus pmaAddress usbMaxEp0Size
  let t := halPcdExPmaConfig t Endpoint.controlIn.address pmaAddress
  (usbdEcmPmaConfig t pmaAddress).1

/-- The address of the buffer of an endpoint. -/
def Endpoint.pmaAdress (ep : Endpoint) : ℕ :=
  if ep.address &&& 0x80 = 0x80 then usbdLlInit.inEp (ep.address &&& 0x7F)
  else usbdLlInit.outEp ep.address

/-- The size of the BTABLE: 8 bytes for each of 8 endpoints. -/
def btableSize : ℕ := 64

/-- The endpoints whose buffers are one and the same. -/
def Endpoint.overlaid : Endpoint → Bool
  | .control | .controlIn | .dataIn => true
  | .dataOut | .notificationIn => false

/-- The addresses the code assigns. -/
lemma pmaAdress_eq (ep : Endpoint) :
    ep.pmaAdress =
      match ep with
      | .control | .controlIn | .dataIn => 64
      | .dataOut => 128
      | .notificationIn => 192 := by
  cases ep <;> rfl

/-- Two endpoints that are not both overlaid have buffers apart. -/
lemma pmaAdress_disjoint {ep ep' : Endpoint} (hne : ep ≠ ep')
    (h : ¬ (ep.overlaid = true ∧ ep'.overlaid = true)) :
    ep.pmaAdress + 64 ≤ ep'.pmaAdress ∨ ep'.pmaAdress + 64 ≤ ep.pmaAdress := by
  rw [pmaAdress_eq, pmaAdress_eq]
  cases ep <;> cases ep' <;> first | exact absurd rfl hne | exact absurd ⟨rfl, rfl⟩ h | decide

lemma btableSize_le_pmaAdress (ep : Endpoint) : btableSize ≤ ep.pmaAdress := by
  rw [pmaAdress_eq]
  cases ep <;> decide

/-! ### Transfers -/

/-- Packet memory, and the packet lengths the driver and the peripheral keep for each endpoint
in the count fields of the BTABLE. -/
structure PacketMemory where
  pma : ℕ → UInt8
  count : Endpoint → ℕ

/-- The transfers between host and firmware.  `OutPacket.readPma` is the half-word image of a
packet in either direction. -/
inductive Transfer where
  /-- The host sends a packet to an OUT endpoint, or the firmware writes one for an IN endpoint:
  in `HAL_PCD_EP_Transmit`, and once more in `PCD_EP_ISR_Handler`, which writes the packet again
  when its completion is reported. -/
  | store (ep : Endpoint) (c : OutPacket)
  /-- The firmware reads the packet of an OUT endpoint, or the host that of an IN endpoint. -/
  | fetch (ep : Endpoint)
  deriving DecidableEq, Repr

/-- One transfer. -/
def transfer (m : PacketMemory) : Transfer → PacketMemory
  | .store ep c =>
      { pma := Memory.write m.pma ep.pmaAdress c.readPma
        count := Function.update m.count ep c.bytes.length }
  | .fetch _ => m

/-- The bytes a reader of the endpoint gets. -/
def PacketMemory.fetched (m : PacketMemory) (ep : Endpoint) : List UInt8 :=
  Memory.read m.pma ep.pmaAdress (m.count ep)

/-- A run of transfers. -/
def transfers (m : PacketMemory) (es : List Transfer) : PacketMemory := es.foldl transfer m

/-- `c` is the last packet stored for `ep`, and `since` what happened after that. -/
def LastStored (es : List Transfer) (ep : Endpoint) (c : OutPacket) (since : List Transfer) :
    Prop :=
  ∃ before, es = before ++ .store ep c :: since ∧ ∀ c', .store ep c' ∉ since

/-- Every packet taken out is the last one stored for its endpoint. -/
def Isolated (m : PacketMemory) (es : List Transfer) : Prop :=
  ∀ pre ep post c since, es = pre ++ .fetch ep :: post → LastStored pre ep c since →
    (transfers m pre).fetched ep = c.bytes

/-- Between the storing and the taking out of a packet no other endpoint that shares the buffer
stores one, unless one of the two packets is empty. -/
def Undisturbed (es : List Transfer) : Prop :=
  ∀ pre ep post c since, es = pre ++ .fetch ep :: post → LastStored pre ep c since →
    ∀ ep' c', .store ep' c' ∈ since → ep.overlaid = true → ep'.overlaid = true →
      c'.bytes = [] ∨ c.bytes = []

lemma OutPacket.length_readPma_le (c : OutPacket) : c.readPma.length ≤ 64 := by
  have hfits := c.fits
  rw [c.length_readPma]
  simp only [ecmDataOutSz] at hfits
  omega

/-- A packet just stored can be taken out. -/
lemma fetched_store (m : PacketMemory) (ep : Endpoint) (c : OutPacket) :
    (transfer m (.store ep c)).fetched ep = c.bytes := by
  have hle : c.bytes.length ≤ c.readPma.length := by
    rw [c.length_readPma]
    omega
  simp only [PacketMemory.fetched, transfer, Function.update_self]
  rw [← Memory.take_read hle, Memory.read_write_self, OutPacket.readPma, List.take_left' rfl]

/-- **One transfer** leaves the packet of `ep` alone, unless it stores one in the same buffer. -/
lemma fetched_transfer {m : PacketMemory} {ep : Endpoint} {e : Transfer}
    (hcount : m.count ep ≤ 64) (hown : ∀ c', e ≠ .store ep c')
    (hshared : ∀ ep' c', e = .store ep' c' → ep.overlaid = true → ep'.overlaid = true →
      c'.bytes = [] ∨ m.count ep = 0) :
    (transfer m e).fetched ep = m.fetched ep ∧ (transfer m e).count ep = m.count ep := by
  cases e with
  | fetch ep' => exact ⟨rfl, rfl⟩
  | store ep' c' =>
      have hne : ep ≠ ep' := fun h => hown c' (by rw [h])
      have hkeep : (transfer m (.store ep' c')).count ep = m.count ep :=
        Function.update_of_ne hne _ _
      refine ⟨?_, hkeep⟩
      rw [PacketMemory.fetched, PacketMemory.fetched, hkeep]
      by_cases hover : ep.overlaid = true ∧ ep'.overlaid = true
      · rcases hshared ep' c' rfl hover.1 hover.2 with hnil | hzero
        · have himage : c'.readPma = [] := by rw [OutPacket.readPma, hnil]; rfl
          rw [transfer, himage, Memory.write_nil]
        · rw [hzero, Memory.read_zero, Memory.read_zero]
      · have hsize := c'.length_readPma_le
        refine Memory.read_write_of_disjoint ?_
        rcases pmaAdress_disjoint hne hover with h | h
        · exact Or.inl (by omega)
        · exact Or.inr (by omega)

/-- **A run** of transfers leaves it alone. -/
lemma fetched_transfers {ep : Endpoint} {c : OutPacket} {since : List Transfer} {m : PacketMemory}
    (hm : m.fetched ep = c.bytes) (hlen : m.count ep = c.bytes.length)
    (hown : ∀ c', .store ep c' ∉ since)
    (hshared : ∀ ep' c', .store ep' c' ∈ since → ep.overlaid = true → ep'.overlaid = true →
      c'.bytes = [] ∨ c.bytes = []) :
    (transfers m since).fetched ep = c.bytes := by
  induction since generalizing m with
  | nil => exact hm
  | cons e since ih =>
      have hfits : m.count ep ≤ 64 := by
        rw [hlen]
        exact c.fits
      obtain ⟨hkeep, hcount⟩ := fetched_transfer (e := e) hfits
        (fun c' he => hown c' (by rw [he]; exact List.mem_cons_self))
        (fun ep' c' he h h' => by
          rw [hlen, List.length_eq_zero_iff]
          exact hshared ep' c' (by rw [he]; exact List.mem_cons_self) h h')
      exact ih (hkeep.trans hm) (hcount.trans hlen)
        (fun c' hc' => hown c' (List.mem_cons_of_mem _ hc'))
        (fun ep' c' hc' => hshared ep' c' (List.mem_cons_of_mem _ hc'))

/-- No transfer writes below the buffers. -/
lemma transfers_btable (m : PacketMemory) (es : List Transfer) {i : ℕ} (hi : i < btableSize) :
    (transfers m es).pma i = m.pma i := by
  induction es generalizing m with
  | nil => rfl
  | cons e es ih =>
      rw [transfers, List.foldl_cons, ← transfers, ih]
      cases e with
      | fetch ep => rfl
      | store ep c =>
          exact Memory.write_apply_of_lt (Nat.lt_of_lt_of_le hi (btableSize_le_pmaAdress ep))

/-- **Isolation of the buffers.**  In every run in which no endpoint stores a packet in a shared
buffer between the storing and the taking out of another endpoint's packet, every packet taken
out is the last one stored for its endpoint; and no transfer writes to the BTABLE. -/
theorem buffers_isolated (m : PacketMemory) (es : List Transfer) (h : Undisturbed es) :
    Isolated m es ∧ ∀ pre post, es = pre ++ post → ∀ i < btableSize,
      (transfers m pre).pma i = m.pma i := by
  refine ⟨?_, fun pre _ _ i hi => transfers_btable m pre hi⟩
  intro pre ep post c since hsplit hlast
  have hshared := h pre ep post c since hsplit hlast
  obtain ⟨before, rfl, hown⟩ := hlast
  rw [transfers, List.foldl_append, List.foldl_cons, ← transfers, ← transfers]
  exact fetched_transfers (fetched_store _ ep c) (Function.update_self _ _ _) hown hshared

/-- A data packet is written, then a control packet arrives before the host has read it. -/
def controlOverData : List Transfer :=
  [.store .dataIn ⟨[1, 2, 3], 0, by decide⟩, .store .control ⟨[0x80, 6], 0, by decide⟩,
    .fetch .dataIn]

/-- The host reads the control packet in the place of the data. -/
theorem data_overwritten :
    (transfers ⟨fun _ => 0, fun _ => 0⟩ (controlOverData.take 2)).fetched .dataIn =
        [0x80, 6, 3] ∧
      ¬ Isolated ⟨fun _ => 0, fun _ => 0⟩ controlOverData := by
  refine ⟨by decide, fun h => ?_⟩
  have hread := h (controlOverData.take 2) .dataIn [] ⟨[1, 2, 3], 0, by decide⟩ _ rfl
    ⟨[], rfl, by simp⟩
  exact absurd hread (by decide)

/-- A data packet is written, and one arrives, before the host has read the first. -/
def dataBothWays : List Transfer :=
  [.store .dataIn ⟨[1, 2, 3], 0, by decide⟩, .store .dataOut ⟨[4], 0, by decide⟩, .fetch .dataIn]

theorem buffers_isolated_bothWays : Isolated ⟨fun _ => 0, fun _ => 0⟩ dataBothWays := by
  refine (buffers_isolated _ _ ?_).1
  rintro pre ep post c since hsplit ⟨before, rfl, hown⟩ ep' c' hmem - hover
  have hfetch : Transfer.fetch ep ∈ dataBothWays := by
    rw [hsplit]
    simp
  have hstore : Transfer.store ep' c' ∈ dataBothWays := by
    rw [hsplit]
    simp [hmem]
  obtain rfl : ep = .dataIn := by simpa [dataBothWays] using hfetch
  rcases (by simpa [dataBothWays] using hstore : (ep' = .dataIn ∧ _) ∨ (ep' = .dataOut ∧ _))
    with ⟨rfl, -⟩ | ⟨rfl, -⟩
  · exact absurd hmem (hown c')
  · cases hover

end Stm32Ecm
