import Stm32Ecm.Dhcp.Lease

/-!
What a reaction of the server depends on.  A datagram shorter than `dhcp_data` leaves the rest of
the previous message, or of the previous reply, in place, and the server reads on into it.

* `dispatch_congr`: the reaction depends on the assembled bytes and the table only, so that a
  datagram of at least `sizeof(dhcp_data)` bytes is answered independently of the history;
* `Stuck`: after every history, the message left in `dhcp_data` from `dp_chaddr` on is one the
  server does not react to a second time, so that a datagram that does not reach `dp_chaddr` has
  no effect at all; `stuck_step`, `stuck_serve`;
* `not_historyIndependent`: for every length in between there are two histories with the same
  table after which the same datagram is answered differently;
* `history_independent_iff`: the exact lengths.
-/

namespace Stm32Ecm.Dhcp

/-- For datagrams of `n` bytes: after any two histories that leave the table equal, the same
datagram leads to the same table and the same reply. -/
def HistoryIndependent (c : DhcpConfig) (entries : List DhcpEntry) (n : ℕ) : Prop :=
  ∀ ps qs : List Datagram,
    (serve c (boot entries) ps).entries = (serve c (boot entries) qs).entries →
    ∀ p : Datagram, p.payload.length = n →
      (udpRecvProc c (serve c (boot entries) ps) p).1.entries =
          (udpRecvProc c (serve c (boot entries) qs) p).1.entries ∧
        (udpRecvProc c (serve c (boot entries) ps) p).2 =
          (udpRecvProc c (serve c (boot entries) qs) p).2

/-! ### What the reaction reads -/

section Congr

variable {d d' : ℕ → UInt8} {c : DhcpConfig}

lemma requestedIp_congr (h : ∀ i, dpOptions ≤ i → i < 515 → d i = d' i) :
    requestedIp d = requestedIp d' := by
  have hopts : ∀ i < sizeofDpOptions, d (dpOptions + i) = d' (dpOptions + i) := by
    intro i hi
    simp only [sizeofDpOptions, dpOptions] at hi h ⊢
    exact h _ (by omega) (by omega)
  have hfind : findDhcpOption (fun i => d (dpOptions + i)) sizeofDpOptions 50 =
      findDhcpOption (fun i => d' (dpOptions + i)) sizeofDpOptions 50 :=
    findDhcpOptionLoop_congr hopts _ _
  rw [requestedIp, requestedIp, hfind]
  cases hi : findDhcpOption (fun i => d' (dpOptions + i)) sizeofDpOptions 50 with
  | none => rfl
  | some i =>
      have hle := findDhcpOptionLoop_le hi
      simp only [Nat.add_assoc, hopts (i + 1) (by omega)]

/-- The requested address lies inside the options. -/
lemma requestedIp_le {ptr : ℕ} (h : requestedIp d = some ptr) :
    dpOptions ≤ ptr ∧ ptr + 4 ≤ 515 := by
  rw [requestedIp] at h
  cases hi : findDhcpOption (fun i => d (dpOptions + i)) sizeofDpOptions 50 with
  | none =>
      rw [hi] at h
      cases h
  | some i =>
      have hle := findDhcpOptionLoop_le hi
      simp only [hi] at h
      split_ifs at h with hlen
      obtain rfl := Option.some.inj h
      have hfour : (d (dpOptions + (i + 1))).toNat = 4 := by
        rw [← Nat.add_assoc, not_not.mp hlen]
        rfl
      simp only [hfour, sizeofDpOptions] at hle
      simp only [dpOptions]
      omega

lemma dpChaddr_congr (h : ∀ i, 28 ≤ i → i < 34 → d i = d' i) : dpChaddr d = dpChaddr d' :=
  Subtype.ext (Memory.read_congr fun i hi => h _ (by omega) (by omega))

lemma readBytes_congr {ptr : ℕ} (h : ∀ i, dpOptions ≤ i → i < 515 → d i = d' i)
    (hptr : requestedIp d = some ptr) : readBytes d ptr 4 = readBytes d' ptr 4 := by
  obtain ⟨hlow, hhigh⟩ := requestedIp_le hptr
  exact Subtype.ext (Memory.read_congr fun i hi => h _ (by omega) (by omega))

lemma replyBytes_fillReply_congr {t : UInt8} {y : Bytes 4} {e : DhcpEntry}
    (h : ∀ i < sizeofDhcpData, d i = d' i) :
    replyBytes (fillReply c t y e d) = replyBytes (fillReply c t y e d') := by
  refine Memory.read_congr fun i hi => ?_
  simp only [fillReply]
  iterate 7 refine Memory.write_congr ?_
  exact h _ (by omega)

lemma discover_congr {alloc : Bool} {entries : List DhcpEntry}
    (h : ∀ i < sizeofDhcpData, d i = d' i) (hmac : dpChaddr d = dpChaddr d') :
    (discover c alloc ⟨d, entries⟩).1.entries = (discover c alloc ⟨d', entries⟩).1.entries ∧
      (discover c alloc ⟨d, entries⟩).2 = (discover c alloc ⟨d', entries⟩).2 := by
  simp only [discover, hmac]
  cases (entryByMac entries (dpChaddr d')).orElse fun _ => vacantAddress entries with
  | none => exact ⟨rfl, rfl⟩
  | some k =>
      simp only
      cases entries[k]? with
      | none => exact ⟨rfl, rfl⟩
      | some e => simp only [replyBytes_fillReply_congr h, and_self]

lemma request_congr {alloc : Bool} {entries : List DhcpEntry}
    (h : ∀ i < sizeofDhcpData, d i = d' i) (hmac : dpChaddr d = dpChaddr d') :
    (request c alloc ⟨d, entries⟩).1.entries = (request c alloc ⟨d', entries⟩).1.entries ∧
      (request c alloc ⟨d, entries⟩).2 = (request c alloc ⟨d', entries⟩).2 := by
  have hopts : ∀ i, dpOptions ≤ i → i < 515 → d i = d' i :=
    fun i _ hi => h i (by simp only [sizeofDhcpData]; omega)
  simp only [request, ← requestedIp_congr hopts]
  cases hptr : requestedIp d with
  | none => exact ⟨rfl, rfl⟩
  | some ptr =>
      simp only [hmac, ← readBytes_congr hopts hptr]
      cases entryByIp (freeClient entries (dpChaddr d')) (getIp (readBytes d ptr 4)) with
      | none => exact ⟨rfl, rfl⟩
      | some k =>
          simp only
          cases (freeClient entries (dpChaddr d'))[k]? with
          | none => exact ⟨rfl, rfl⟩
          | some e =>
              simp only [dpChaddr_fillReply, hmac, replyBytes_fillReply_congr h]
              split_ifs <;> exact ⟨rfl, rfl⟩

/-- **The reaction** depends on the assembled bytes and the table only. -/
lemma dispatch_congr {alloc : Bool} {entries : List DhcpEntry}
    (h : ∀ i < sizeofDhcpData, d i = d' i) :
    (dispatch c alloc ⟨d, entries⟩).1.entries = (dispatch c alloc ⟨d', entries⟩).1.entries ∧
      (dispatch c alloc ⟨d, entries⟩).2 = (dispatch c alloc ⟨d', entries⟩).2 := by
  have htype : messageType d = messageType d' := h _ (by decide)
  have hmac : dpChaddr d = dpChaddr d' :=
    dpChaddr_congr fun i _ hi => h i (by simp only [sizeofDhcpData]; omega)
  simp only [dispatch, htype]
  split_ifs
  · exact discover_congr h hmac
  · exact request_congr h hmac
  · exact ⟨rfl, rfl⟩

/-- A datagram that fills `dhcp_data` leaves nothing of the previous message. -/
lemma assemble_full {payload : List UInt8} (hlen : sizeofDhcpData ≤ payload.length) {i : ℕ}
    (hi : i < sizeofDhcpData) : assemble d payload i = assemble d' payload i := by
  have hlt : i < (payload.take sizeofDhcpData).length := by
    rw [List.length_take]
    omega
  simp only [assemble, Memory.write, if_pos (Nat.zero_le i), Nat.sub_zero,
    List.getElem?_eq_getElem hlt, Option.getD_some]

end Congr

/-! ### Datagrams that do not reach the hardware address -/

/-- The server does not react to what is in `dhcp_data` from `dp_chaddr` on. -/
def Stuck (c : DhcpConfig) (s : DhcpServer) : Prop :=
  ∀ (d : ℕ → UInt8) (alloc : Bool), (∀ i, 28 ≤ i → d i = s.data i) →
    (dispatch c alloc ⟨d, s.entries⟩).1.entries = s.entries ∧
      (dispatch c alloc ⟨d, s.entries⟩).2 = none

section Stuck

variable {fixed : List (Bytes 4 × Bytes 4 × UInt32)} {c : DhcpConfig} {s : DhcpServer}

/-- A message that is neither a discovery nor a request. -/
lemma stuck_of_messageType (h₁ : messageType s.data ≠ 1) (h₃ : messageType s.data ≠ 3) :
    Stuck c s := by
  intro d alloc h
  have htype : messageType d = messageType s.data := h _ (by decide)
  rw [dispatch, htype, if_neg h₁, if_neg h₃]
  exact ⟨rfl, rfl⟩

/-- Freeing the client's entry twice is freeing it once. -/
lemma freeClient_freeClient {entries : List DhcpEntry} {mac : Bytes 6}
    (h : MacsDistinct entries) :
    freeClient (freeClient entries mac) mac = freeClient entries mac := by
  rw [freeClient_eq_map h.freeClient, freeClient_eq_map h, List.map_map]
  refine List.map_congr_left fun e _ => ?_
  rw [Function.comp_apply]
  by_cases hem : e.mac = mac
  · rw [if_pos hem]
    split_ifs <;> rfl
  · rw [if_neg hem, if_neg hem]

/-- A discovery without an entry for the client and without a vacant one. -/
lemma stuck_of_full (h₁ : messageType s.data = 1)
    (hmac : entryByMac s.entries (dpChaddr s.data) = none)
    (hvacant : vacantAddress s.entries = none) : Stuck c s := by
  intro d alloc h
  have htype : messageType d = messageType s.data := h _ (by decide)
  have hch : dpChaddr d = dpChaddr s.data := dpChaddr_congr fun i hi _ => h i hi
  rw [dispatch, htype, if_pos h₁, discover]
  simp [hch, hmac, hvacant]

/-- A request that names no address, or one that is not to be had by this client. -/
lemma stuck_of_request (h₃ : messageType s.data = 3)
    (hfree : ∀ ptr, requestedIp s.data = some ptr →
      freeClient s.entries (dpChaddr s.data) = s.entries)
    (hno : ∀ ptr k e, requestedIp s.data = some ptr →
      entryByIp s.entries (getIp (readBytes s.data ptr 4)) = some k → s.entries[k]? = some e →
      e.isVacant = false) : Stuck c s := by
  intro d alloc h
  have htype : messageType d = messageType s.data := h _ (by decide)
  have hch : dpChaddr d = dpChaddr s.data := dpChaddr_congr fun i hi _ => h i hi
  have hopts : ∀ i, dpOptions ≤ i → i < 515 → d i = s.data i :=
    fun i hi _ => h i (Nat.le_trans (by decide) hi)
  have hreq : requestedIp d = requestedIp s.data := requestedIp_congr hopts
  rw [dispatch, htype, if_neg (by rw [h₃]; decide), if_pos h₃, request]
  simp only [hreq]
  cases hptr : requestedIp s.data with
  | none => exact ⟨rfl, rfl⟩
  | some ptr =>
      simp only [hch, hfree ptr hptr, readBytes_congr hopts (hreq.trans hptr)]
      cases hip : entryByIp s.entries (getIp (readBytes s.data ptr 4)) with
      | none => exact ⟨rfl, rfl⟩
      | some k =>
          simp only
          cases hk : s.entries[k]? with
          | none => exact ⟨rfl, rfl⟩
          | some e => simp [hno ptr k e hptr hip hk]

/-- **One datagram** leaves a message the server does not react to: a reply, or a message that
was not answered and is not answered again. -/
lemma stuck_step (p : Datagram) (h : TableInv fixed s.entries) :
    Stuck c (udpRecvProc c s p).1 := by
  have hreact := reaction_dispatch c p.alloc { s with data := assemble s.data p.payload }
  rw [udpRecvProc]
  generalize dispatch c p.alloc { s with data := assemble s.data p.payload } = out at hreact ⊢
  cases hreact with
  | ignore h₁ h₃ => exact stuck_of_messageType h₁ h₃
  | full h₁ hmac hvacant => exact stuck_of_full h₁ hmac hvacant
  | offer k e h₁ hk he => exact stuck_of_messageType (by simp) (by simp)
  | malformed h₃ hptr =>
      refine stuck_of_request h₃ (fun ptr hsome => ?_) fun ptr k e hsome => ?_
      all_goals exact absurd (hptr.symm.trans hsome) (by simp)
  | refuse ptr h₃ hptr hno =>
      refine stuck_of_request h₃ (fun _ _ => freeClient_freeClient h.macs)
        fun ptr' k e hptr' hk he => ?_
      obtain rfl : ptr = ptr' := Option.some.inj (hptr.symm.trans hptr')
      exact hno k e hk he
  | grant ptr k e h₃ hptr hip hk he hv =>
      split_ifs <;> exact stuck_of_messageType (by simp) (by simp)

/-- **Every history** leaves such a message. -/
lemma stuck_serve (ps : List Datagram) {s : DhcpServer} (h : TableInv fixed s.entries)
    (hs : Stuck c s) : Stuck c (serve c s ps) := by
  induction ps generalizing s with
  | nil => exact hs
  | cons p ps ih => exact ih (tableInv_step p h) (stuck_step p h)

/-- A datagram that does not reach `dp_chaddr` has no effect. -/
lemma udpRecvProc_short {p : Datagram} (hs : Stuck c s) (hlen : p.payload.length ≤ 28) :
    (udpRecvProc c s p).1.entries = s.entries ∧ (udpRecvProc c s p).2 = none := by
  refine hs (assemble s.data p.payload) p.alloc fun i hi => ?_
  refine Memory.write_apply_of_le ?_
  rw [List.length_take]
  omega

end Stuck

/-! ### Datagrams of the lengths in between -/

/-- A request of the client whose hardware address starts with `mac`, for the address `ip`, with
the padding byte `pad`. -/
def message (mac pad : UInt8) (ip : Bytes 4) : ℕ → UInt8 :=
  Memory.write (Memory.write (Memory.write (fun _ => 0) 28 [mac]) dpOptions
    ([53, 1, 3, 50, 4] ++ ip.1)) 515 [pad]

/-- Its first `n` bytes as a datagram. -/
def messagePart (n : ℕ) (mac pad : UInt8) (ip : Bytes 4) : Datagram where
  payload := Memory.read (message mac pad ip) 0 n
  alloc := true

section Leak

variable {c : DhcpConfig} {mac pad : UInt8} {ip : Bytes 4} {d : ℕ → UInt8}

/-- The hardware address with the first byte `mac`. -/
def macBytes (mac : UInt8) : Bytes 6 := ⟨[mac, 0, 0, 0, 0, 0], rfl⟩

lemma readBytes_message : readBytes (message mac pad ip) 245 4 = ip := by
  obtain ⟨l, hl⟩ := ip
  match l, hl with
  | [b₀, b₁, b₂, b₃], _ => rfl

/-- The search finds the option behind the message type. -/
lemma requestedIp_message : requestedIp (message mac pad ip) = some 245 := by
  have hfind : findDhcpOption (fun i => message mac pad ip (dpOptions + i)) sizeofDpOptions 50 =
      some 3 := by
    change findDhcpOptionLoop _ 275 50 (273 + 1 + 1) 0 = some 3
    have h₀ : message mac pad ip dpOptions = 53 := rfl
    have h₁ : message mac pad ip (dpOptions + 1) = 1 := rfl
    have h₃ : message mac pad ip (dpOptions + 3) = 50 := rfl
    have h₄ : message mac pad ip (dpOptions + 4) = 4 := rfl
    simp [findDhcpOptionLoop, h₀, h₁, h₃, h₄]
  rw [requestedIp, hfind]
  rfl

/-- How the server reads the message. -/
lemma message_fields (h : ∀ i < sizeofDhcpData, d i = message mac pad ip i) :
    messageType d = 3 ∧ dpChaddr d = macBytes mac ∧ requestedIp d = some 245 ∧
      readBytes d 245 4 = ip ∧ d 515 = pad := by
  have hopts : ∀ i, dpOptions ≤ i → i < 515 → d i = message mac pad ip i :=
    fun i _ hi => h i (by simp only [sizeofDhcpData]; omega)
  have hreq : requestedIp d = some 245 := (requestedIp_congr hopts).trans requestedIp_message
  refine ⟨(h _ (by decide)).trans rfl, ?_, hreq, ?_, (h _ (by decide)).trans rfl⟩
  · exact (dpChaddr_congr fun i _ hi => h i (by simp only [sizeofDhcpData]; omega)).trans rfl
  · exact (readBytes_congr hopts hreq).trans readBytes_message

/-- The copy of a part of a message over another one. -/
lemma assemble_messagePart {n i : ℕ} (hn : n ≤ sizeofDhcpData) :
    assemble d (messagePart n mac pad ip).payload i =
      if i < n then message mac pad ip i else d i := by
  have htake : (Memory.read (message mac pad ip) 0 n).take sizeofDhcpData =
      Memory.read (message mac pad ip) 0 n := by
    rw [List.take_of_length_le]
    rwa [Memory.length_read]
  rw [assemble, messagePart, htake, Memory.write_read_apply]

/-- A message for the address of the first entry: the first entry decides. -/
lemma dispatch_message {entries es : List DhcpEntry} {e : DhcpEntry}
    (h : ∀ i < sizeofDhcpData, d i = message mac pad e.addr i)
    (hfree : freeClient entries (macBytes mac) = e :: es) :
    dispatch c true ⟨d, entries⟩ =
      if e.isVacant then
        (⟨fillReply c 5 e.addr e d, { e with mac := macBytes mac } :: es⟩,
          some (replyBytes (fillReply c 5 e.addr e d)))
      else (⟨d, e :: es⟩, none) := by
  obtain ⟨htype, hmac, hptr, hip, -⟩ := message_fields h
  have hfirst : entryByIp (e :: es) (getIp e.addr) = some 0 := by
    simp [entryByIp, List.findIdx?_cons]
  rw [dispatch, htype, if_neg (by decide), if_pos rfl, request]
  simp only [hptr, hmac, hfree, hip, hfirst, List.getElem?_cons_zero]
  cases e.isVacant <;> simp [hmac]

/-- Every reply carries the padding byte of the assembled message. -/
lemma reply_pad {s : DhcpServer} {p : Datagram} {r : List UInt8}
    (hr : (udpRecvProc c s p).2 = some r) : r[515]? = some (assemble s.data p.payload 515) := by
  have hpad : ∀ t y e, (replyBytes (fillReply c t y e (assemble s.data p.payload)))[515]? =
      some (assemble s.data p.payload 515) := by
    intro t y e
    rw [replyBytes, Memory.getElem?_read (by decide), Nat.zero_add,
      fillReply_apply (by decide)]
  have hreact := reaction_dispatch c p.alloc { s with data := assemble s.data p.payload }
  rw [udpRecvProc] at hr
  generalize dispatch c p.alloc { s with data := assemble s.data p.payload } = out at hreact hr
  cases hreact with
  | ignore | full | malformed | refuse => cases hr
  | offer =>
      split_ifs at hr
      obtain rfl := Option.some.inj hr
      exact hpad _ _ _
  | grant =>
      split_ifs at hr
      obtain rfl := Option.some.inj hr
      exact hpad _ _ _

/-- A client without an entry has nothing to lose. -/
lemma freeClient_of_not_mem {entries : List DhcpEntry} {mac : Bytes 6}
    (h : ∀ e ∈ entries, e.mac ≠ mac) : freeClient entries mac = entries := by
  have hnone : entryByMac entries mac = none := List.findIdx?_eq_none_iff.mpr (by simpa using h)
  rw [freeClient, hnone]

variable {e : DhcpEntry} {es : List DhcpEntry} {s : DhcpServer}

/-- The first client asks for the first address, with all entries vacant: it is granted. -/
lemma first_granted (hvacant : ∀ x ∈ e :: es, x.isVacant = true) :
    (udpRecvProc c (boot (e :: es)) (messagePart sizeofDhcpData 1 0 e.addr)).1.entries =
        { e with mac := macBytes 1 } :: es ∧
      (udpRecvProc c (boot (e :: es)) (messagePart sizeofDhcpData 1 0 e.addr)).1.data 515 =
        0 := by
  have hmsg : ∀ i < sizeofDhcpData,
      assemble (fun _ => 0) (messagePart sizeofDhcpData 1 0 e.addr).payload i =
        message 1 0 e.addr i := by
    intro i hi
    rw [assemble_messagePart (Nat.le_refl _), if_pos hi]
  have hfree : freeClient (e :: es) (macBytes 1) = e :: es := by
    refine freeClient_of_not_mem fun x hx => ?_
    rw [isVacant_iff.mp (hvacant x hx)]
    decide
  rw [udpRecvProc, boot]
  have hgrant := dispatch_message (c := c) hmsg hfree
  rw [if_pos (hvacant e List.mem_cons_self)] at hgrant
  rw [show (messagePart sizeofDhcpData 1 0 e.addr).alloc = true from rfl, hgrant]
  refine ⟨rfl, ?_⟩
  dsimp only
  rw [fillReply_apply (by decide), hmsg 515 (by decide)]
  rfl

/-- A second client asks for the first address, which is taken: its request stays in
`dhcp_data`. -/
lemma second_refused (hvacant : ∀ x ∈ es, x.isVacant = true)
    (hs : s.entries = { e with mac := macBytes 1 } :: es) :
    udpRecvProc c s (messagePart sizeofDhcpData 2 0xAA e.addr) =
      (⟨assemble s.data (messagePart sizeofDhcpData 2 0xAA e.addr).payload, s.entries⟩,
        none) := by
  have hmsg : ∀ i < sizeofDhcpData,
      assemble s.data (messagePart sizeofDhcpData 2 0xAA e.addr).payload i =
        message 2 0xAA e.addr i := by
    intro i hi
    rw [assemble_messagePart (Nat.le_refl _), if_pos hi]
  have hfree : freeClient s.entries (macBytes 2) = { e with mac := macBytes 1 } :: es := by
    rw [hs]
    refine freeClient_of_not_mem fun x hx => ?_
    rcases List.mem_cons.mp hx with rfl | hx
    · exact (by decide : macBytes 1 ≠ macBytes 2)
    · rw [isVacant_iff.mp (hvacant x hx)]
      decide
  have htaken : DhcpEntry.isVacant { e with mac := macBytes 1 } = false := by
    simp [DhcpEntry.isVacant]
    decide
  have hrefuse := dispatch_message (c := c) (e := { e with mac := macBytes 1 }) hmsg hfree
  rw [htaken, if_neg (by simp)] at hrefuse
  rw [udpRecvProc, hs]
  rw [hs] at hrefuse
  exact hrefuse

lemma message_pad {pad' : UInt8} {i : ℕ} (hi : i < 515) :
    message mac pad ip i = message mac pad' ip i := by
  rw [message, message, Memory.write_apply_of_lt hi, Memory.write_apply_of_lt hi]

lemma message_mac {mac' : UInt8} {i : ℕ} (hi : 28 < i) :
    message mac pad ip i = message mac' pad ip i := by
  refine Memory.write_congr (Memory.write_congr ?_)
  rw [Memory.write_apply_of_le (Nat.succ_le_of_lt hi),
    Memory.write_apply_of_le (Nat.succ_le_of_lt hi)]

/-- The first part of the first client's request, completed from the second one's: it is granted
again, with the padding byte of the second request. -/
lemma first_again {n : ℕ} (hvacant : ∀ x ∈ e :: es, x.isVacant = true)
    (hs : s.entries = { e with mac := macBytes 1 } :: es) (hlow : 28 < n)
    (hhigh : n < sizeofDhcpData)
    (hdata : ∀ i < sizeofDhcpData, s.data i = message 2 0xAA e.addr i) :
    ∃ r, (udpRecvProc c s (messagePart n 1 0 e.addr)).2 = some r ∧ r[515]? = some 0xAA := by
  have hmsg : ∀ i < sizeofDhcpData,
      assemble s.data (messagePart n 1 0 e.addr).payload i = message 1 0xAA e.addr i := by
    intro i hi
    rw [assemble_messagePart (Nat.le_of_lt hhigh)]
    simp only [sizeofDhcpData] at hhigh
    split_ifs with hin
    · exact message_pad (by omega)
    · rw [hdata i hi]
      exact message_mac (by omega)
  have hfree : freeClient s.entries (macBytes 1) = e :: es := by
    have he : freeEntry { e with mac := macBytes 1 } = e := by
      rw [freeEntry, ← isVacant_iff.mp (hvacant e List.mem_cons_self)]
    have hmac : entryByMac ({ e with mac := macBytes 1 } :: es) (macBytes 1) = some 0 := by
      simp [entryByMac, List.findIdx?_cons]
    rw [hs, freeClient, hmac]
    simp only [List.modify_zero_cons, he]
  have hgrant := dispatch_message (c := c) hmsg hfree
  rw [if_pos (hvacant e List.mem_cons_self)] at hgrant
  have hr : (udpRecvProc c s (messagePart n 1 0 e.addr)).2 =
      some (replyBytes (fillReply c 5 e.addr e
        (assemble s.data (messagePart n 1 0 e.addr).payload))) := congrArg Prod.snd hgrant
  refine ⟨_, hr, ?_⟩
  rw [reply_pad hr, hmsg _ (by decide)]
  rfl

/-- **The leak.**  After the two requests and after the first one alone the table is the same, and
the first part of the first request is answered differently. -/
lemma not_historyIndependent {n : ℕ} (hvacant : ∀ x ∈ e :: es, x.isVacant = true)
    (hlow : 28 < n) (hhigh : n < sizeofDhcpData) : ¬ HistoryIndependent c (e :: es) n := by
  intro hind
  obtain ⟨hentries, hpad⟩ := first_granted (c := c) hvacant
  have hsecond := second_refused (c := c) (fun x hx => hvacant x (List.mem_cons_of_mem _ hx))
    hentries
  -- the two histories, and the state they leave
  generalize hT : messagePart sizeofDhcpData 1 0 e.addr = T at hentries hpad hsecond
  generalize hT' : messagePart sizeofDhcpData 2 0xAA e.addr = T' at hsecond
  generalize hs₁ : (udpRecvProc c (boot (e :: es)) T).1 = s₁ at hentries hpad hsecond
  have hone : serve c (boot (e :: es)) [T] = s₁ := hs₁
  have htwo : serve c (boot (e :: es)) [T, T'] = ⟨assemble s₁.data T'.payload, s₁.entries⟩ := by
    rw [serve_cons, serve_cons, hs₁, hsecond]
    rfl
  have hsame := (hind [T] [T, T'] (by rw [hone, htwo]) (messagePart n 1 0 e.addr)
    Memory.length_read).2
  rw [hone, htwo] at hsame
  obtain ⟨r, hr, hlast⟩ := first_again (c := c) (s := ⟨assemble s₁.data T'.payload, s₁.entries⟩)
    hvacant hentries hlow hhigh (fun i hi => by
      change assemble s₁.data T'.payload i = _
      rw [← hT', assemble_messagePart (Nat.le_refl _), if_pos hi])
  have hlast₁ := reply_pad (hsame.trans hr)
  simp only [sizeofDhcpData] at hhigh
  rw [assemble_messagePart (Nat.le_of_lt hhigh), if_neg (by omega), hlast, hpad] at hlast₁
  exact absurd hlast₁ (by decide)

end Leak

/-- With no entry there is nothing to offer or to grant. -/
lemma udpRecvProc_empty {c : DhcpConfig} {s : DhcpServer} (h : s.entries = []) (p : Datagram) :
    (udpRecvProc c s p).1.entries = [] ∧ (udpRecvProc c s p).2 = none := by
  have hfree : ∀ mac, freeClient s.entries mac = [] := by
    intro mac
    rw [h]
    rfl
  have hreact := reaction_dispatch c p.alloc { s with data := assemble s.data p.payload }
  rw [udpRecvProc]
  generalize dispatch c p.alloc { s with data := assemble s.data p.payload } = out at hreact ⊢
  cases hreact with
  | ignore | full | malformed => exact ⟨h, rfl⟩
  | refuse => exact ⟨hfree _, rfl⟩
  | offer k e h₁ hk =>
      rw [h] at hk
      cases hk
  | grant ptr k e h₃ hptr hip hk he =>
      rw [hfree] at he
      cases he

/-- **History independence.**  From any table of vacant entries: the reaction to a datagram of
`n` bytes depends on the datagram and the table only, after every history, if and only if the
datagram fills `dhcp_data`, or does not reach `dp_chaddr`, or the table is empty. -/
theorem history_independent_iff (c : DhcpConfig) (entries : List DhcpEntry)
    (hvacant : ∀ e ∈ entries, e.isVacant = true) (n : ℕ) :
    HistoryIndependent c entries n ↔ n ≤ 28 ∨ sizeofDhcpData ≤ n ∨ entries = [] := by
  have hinv : TableInv (entries.map DhcpEntry.fixed) (boot entries).entries :=
    tableInv_vacant hvacant
  constructor
  · intro hind
    by_contra hnot
    rw [not_or, not_or] at hnot
    obtain ⟨hlow, hhigh, hne⟩ := hnot
    obtain ⟨e, es, rfl⟩ := List.exists_cons_of_ne_nil hne
    exact not_historyIndependent hvacant (by omega) (by omega) hind
  · rintro hcase ps qs htable p hlen
    rcases hcase with hshort | hfull | rfl
    · have hboot : Stuck c (boot entries) :=
        stuck_of_messageType (by simp [messageType, boot]) (by simp [messageType, boot])
      have hp : p.payload.length ≤ 28 := by omega
      obtain ⟨h₁, h₂⟩ := udpRecvProc_short (stuck_serve ps hinv hboot) hp
      obtain ⟨h₁', h₂'⟩ := udpRecvProc_short (stuck_serve qs hinv hboot) hp
      exact ⟨h₁.trans (htable.trans h₁'.symm), h₂.trans h₂'.symm⟩
    · rw [udpRecvProc, udpRecvProc, htable]
      exact dispatch_congr fun i hi => assemble_full (by omega) hi
    · have hnil : ∀ ps, (serve c (boot []) ps).entries = [] := fun ps =>
        List.map_eq_nil_iff.mp (tableInv_serve ps hinv).fixed_eq
      obtain ⟨h₁, h₂⟩ := udpRecvProc_empty (c := c) (hnil ps) p
      obtain ⟨h₁', h₂'⟩ := udpRecvProc_empty (c := c) (hnil qs) p
      exact ⟨h₁.trans h₁'.symm, h₂.trans h₂'.symm⟩

/-- The histories of `not_historyIndependent` at the server of `main.c`: the first client's
request, without and with a request of a second client for the same address. -/
def oneRequest : List Datagram := [messagePart 516 1 0 (mainEntry 2).addr]

/-- The second history. -/
def twoRequests : List Datagram := oneRequest ++ [messagePart 516 2 0xAA (mainEntry 2).addr]

/-- The tables are equal, and the first 100 bytes of the first client's request, which end before
the options, are ignored after the one history and acknowledged after the other. -/
theorem history_leaks :
    (serve mainConfig (boot mainEntries) oneRequest).entries =
        (serve mainConfig (boot mainEntries) twoRequests).entries ∧
      (udpRecvProc mainConfig (serve mainConfig (boot mainEntries) oneRequest)
        (messagePart 100 1 0 (mainEntry 2).addr)).2 = none ∧
      (udpRecvProc mainConfig (serve mainConfig (boot mainEntries) twoRequests)
        (messagePart 100 1 0 (mainEntry 2).addr)).2.isSome :=
  ⟨by decide +kernel, by decide +kernel, by decide +kernel⟩

theorem history_independent_iff_full : HistoryIndependent mainConfig mainEntries 548 :=
  (history_independent_iff mainConfig mainEntries (by decide) 548).mpr
    (Or.inr (Or.inl (by decide)))

end Stm32Ecm.Dhcp
