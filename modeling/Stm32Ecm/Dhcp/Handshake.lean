import Stm32Ecm.Dhcp.History

/-!
The handshake of a client, and what a request that is not granted leaves behind.

* `Datagram.Full`: a datagram that fills `dhcp_data`, so that the assembled message is its own
  (`assemble_of_full`);
* `unbound_step`, `offered_serve`: an entry that is vacant stays as it is until its address is
  acknowledged to somebody;
* `request_granted`: the client that asks for the address of its own entry, or of a vacant one,
  gets it;
* `handshake_completes`: an offer, any traffic of other clients, the request, and the request
  again;
* `refusal_keeps_table_iff`: a request without an acknowledgement leaves the table as it was
  exactly when it does not come as far as `free_entry` with an entry to free.
-/

namespace Stm32Ecm.Dhcp

/-! ### Datagrams that fill the message -/

/-- The bytes of a datagram. -/
def Datagram.byte (p : Datagram) (i : ℕ) : UInt8 := p.payload[i]?.getD 0

/-- The datagram fills `dhcp_data`. -/
def Datagram.Full (p : Datagram) : Prop := sizeofDhcpData ≤ p.payload.length

instance (p : Datagram) : Decidable p.Full := inferInstanceAs (Decidable (_ ≤ _))

/-- A message of the client `m`, with the message type as its first option. -/
structure ClientMessage (p : Datagram) (msgType : UInt8) (m : Bytes 6) : Prop where
  full : p.Full
  option : p.byte dpOptions = 53 ∧ p.byte (dpOptions + 1) = 1
  type : p.byte (dpOptions + 2) = msgType
  chaddr : dpChaddr p.byte = m

/-- The reply carries the transaction and the hardware address of the message. -/
def Echoes (r : List UInt8) (p : Datagram) : Prop :=
  (r.drop 4).take 4 = (p.payload.drop 4).take 4 ∧
    (r.drop 28).take 16 = (p.payload.drop 28).take 16

section Full

variable {p : Datagram} {d : ℕ → UInt8}

lemma assemble_of_full (h : p.Full) {i : ℕ} (hi : i < sizeofDhcpData) :
    assemble d p.payload i = p.byte i := by
  have hlen : i < p.payload.length := Nat.lt_of_lt_of_le hi h
  rw [assemble, Memory.write, if_pos (Nat.zero_le i), Nat.sub_zero, List.getElem?_take_of_lt hi,
    Datagram.byte, List.getElem?_eq_getElem hlen, Option.getD_some, Option.getD_some]

/-- A block of the datagram. -/
lemma read_byte {a n : ℕ} (h : a + n ≤ p.payload.length) :
    Memory.read p.byte a n = (p.payload.drop a).take n := by
  refine List.ext_getElem? fun i => ?_
  by_cases hi : i < n
  · have hlen : a + i < p.payload.length := by omega
    rw [Memory.getElem?_read hi, List.getElem?_take_of_lt hi, List.getElem?_drop, Datagram.byte,
      List.getElem?_eq_getElem hlen, Option.getD_some]
  · rw [List.getElem?_eq_none (by simpa using hi), List.getElem?_eq_none]
    rw [List.length_take]
    omega

lemma ClientMessage.messageType {t : UInt8} {m : Bytes 6} (h : ClientMessage p t m) :
    messageType (assemble d p.payload) = t := by
  rw [Dhcp.messageType, assemble_of_full h.full (by decide), h.type]

lemma dpChaddr_of_full (h : p.Full) : dpChaddr (assemble d p.payload) = dpChaddr p.byte :=
  dpChaddr_congr fun i _ hi => assemble_of_full h (by simp only [sizeofDhcpData]; omega)

lemma requestedIp_of_full (h : p.Full) :
    requestedIp (assemble d p.payload) = requestedIp p.byte :=
  requestedIp_congr fun i _ hi => assemble_of_full h (by simp only [sizeofDhcpData]; omega)

/-- A reply keeps the transaction and the hardware address. -/
lemma echoes_fillReply {c : DhcpConfig} {t : UInt8} {y : Bytes 4} {e : DhcpEntry}
    (h : p.Full) : Echoes (replyBytes (fillReply c t y e (assemble d p.payload))) p := by
  have hblock : ∀ a n, (∀ i < n, (1 ≤ a + i ∧ a + i < 8) ∨ (20 ≤ a + i ∧ a + i < 236)) →
      a + n ≤ 236 →
      ((replyBytes (fillReply c t y e (assemble d p.payload))).drop a).take n =
        (p.payload.drop a).take n := by
    intro a n hkeep hle
    have hfull : 516 ≤ p.payload.length := h
    rw [replyBytes, Memory.drop_read (by simp only [sizeofDhcpData]; omega),
      Memory.take_read (by simp only [sizeofDhcpData]; omega), ← read_byte (by omega),
      Nat.zero_add]
    refine Memory.read_congr fun i hi => ?_
    have hcases := hkeep i hi
    rw [fillReply_apply (by omega), assemble_of_full h (by simp only [sizeofDhcpData]; omega)]
  exact ⟨hblock 4 4 (fun i hi => Or.inl (by omega)) (by omega),
    hblock 28 16 (fun i hi => Or.inr (by omega)) (by omega)⟩

/-- The options of a reply: the options area is cleared and filled. -/
lemma fillReply_option {c : DhcpConfig} {t : UInt8} {y : Bytes 4} {e : DhcpEntry} {i : ℕ}
    (hi : i < sizeofDpOptions) :
    fillReply c t y e d (dpOptions + i) =
      ((fillOptions t c.domain (getIp c.dns) e.lease (getIp c.addr) (getIp c.addr)
        (getIp e.subnet))[i]?).getD 0 := by
  simp only [fillReply]
  rw [Memory.write, if_pos (Nat.le_add_right _ _), Nat.add_sub_cancel_left, Memory.write,
    if_pos (Nat.le_add_right _ _), Nat.add_sub_cancel_left]
  rw [List.getElem?_replicate_of_lt hi, Option.getD_some]

/-- Offer and acknowledgement of an entry differ in the message type only. -/
lemma option_eq_of_ne {c : DhcpConfig} {t t' : UInt8} {y y' : Bytes 4} {e : DhcpEntry}
    {d' : ℕ → UInt8} {i : ℕ} (hlow : dpOptions ≤ i) (hhigh : i < dpOptions + sizeofDpOptions)
    (hne : i ≠ dpOptions + 2) :
    fillReply c t y e d i = fillReply c t' y' e d' i := by
  obtain ⟨j, rfl⟩ := Nat.exists_eq_add_of_le hlow
  rw [fillReply_option (by omega), fillReply_option (by omega)]
  match j, hne with
  | 0, _ => rfl
  | 1, _ => rfl
  | j + 3, _ => rfl

end Full

/-! ### The entry of the offer -/

section Table

variable {fixed : List (Bytes 4 × Bytes 4 × UInt32)} {c : DhcpConfig} {s : DhcpServer} {k : ℕ}
  {e : DhcpEntry} {m : Bytes 6}

/-- A vacant entry is not changed by freeing another one. -/
lemma getElem?_freeClient_of_vacant {entries : List DhcpEntry} {mac : Bytes 6}
    (h : MacsDistinct entries) (hk : entries[k]? = some e) (hv : e.isVacant = true) :
    (freeClient entries mac)[k]? = some e := by
  rw [freeClient_eq_map h, List.getElem?_map, hk, Option.map_some]
  split_ifs
  · rw [freeEntry_of_vacant (isVacant_iff.mp hv)]
  · rfl

/-- **One datagram** leaves a vacant entry alone unless its address is acknowledged. -/
lemma unbound_step {q : Datagram} (h : TableInv fixed s.entries) (hk : s.entries[k]? = some e)
    (hv : e.isVacant = true)
    (hno : ∀ r, (udpRecvProc c s q).2 = some r → replyType r = some 5 →
      replyYiaddr r ≠ e.addr.1) :
    (udpRecvProc c s q).1.entries[k]? = some e := by
  have hreact := reaction_dispatch c q.alloc { s with data := assemble s.data q.payload }
  rw [udpRecvProc] at hno ⊢
  generalize dispatch c q.alloc { s with data := assemble s.data q.payload } = out
    at hreact hno ⊢
  have hfree : ∀ mac, (freeClient s.entries mac)[k]? = some e :=
    fun mac => getElem?_freeClient_of_vacant h.macs hk hv
  cases hreact with
  | ignore | full | offer | malformed => exact hk
  | refuse => exact hfree _
  | grant ptr k' e' h₃ hptr hip _ he' hv' =>
      split_ifs at hno ⊢
      · have hne : k' ≠ k := by
          rintro rfl
          obtain rfl : e' = e := Option.some.inj (he'.symm.trans (hfree _))
          exact hno _ rfl replyType_fillReply replyYiaddr_fillReply
        exact (List.getElem?_modify_ne _ _ hne).trans (hfree _)
      · exact hfree _

/-- The entry of the offer: the client's own, or a vacant one. -/
def Offered (m : Bytes 6) (k : ℕ) (e : DhcpEntry) (s : DhcpServer) : Prop :=
  s.entries[k]? = some e ∧ (e.mac = m ∨ e.isVacant = true)

/-- **The traffic of other clients** leaves the entry of the offer alone unless its address is
acknowledged to one of them. -/
lemma offered_serve (hm : m ≠ zeroBytes 6) (ps : List Datagram) {s : DhcpServer}
    (h : TableInv fixed s.entries) (hs : Offered m k e s)
    (hother : ∀ q ∈ ps, q.Full ∧ dpChaddr q.byte ≠ m)
    (hno : ∀ qs q rest r, ps = qs ++ q :: rest → (udpRecvProc c (serve c s qs) q).2 = some r →
      replyType r = some 5 → replyYiaddr r ≠ e.addr.1) :
    Offered m k e (serve c s ps) := by
  induction ps generalizing s with
  | nil => exact hs
  | cons q ps ih =>
      obtain ⟨hfull, hne⟩ := hother q List.mem_cons_self
      refine ih (tableInv_step q h) ⟨?_, hs.2⟩ (fun x hx => hother x (List.mem_cons_of_mem _ hx))
        fun qs x rest r hsplit => hno (q :: qs) x rest r (by rw [hsplit, List.cons_append])
      rcases hs.2 with hmac | hv
      · refine holder_step h hs.1 (by rwa [hmac]) ?_
        rintro ⟨-, hch, -⟩
        rw [dpChaddr_of_full hfull, hmac] at hch
        exact hne (Subtype.ext hch)
      · exact unbound_step h hs.1 hv fun r => hno [] q ps r rfl

/-- After its entry is freed, or if it was vacant, the entry of the offer is vacant. -/
lemma getElem?_freeClient_offered (h : MacsDistinct s.entries) (hs : Offered m k e s) :
    (freeClient s.entries m)[k]? = some (freeEntry e) := by
  rcases hs.2 with hmac | hv
  · rw [freeClient_eq_map h, List.getElem?_map, hs.1, Option.map_some, if_pos hmac]
  · rw [freeEntry_of_vacant (isVacant_iff.mp hv)]
    exact getElem?_freeClient_of_vacant h hs.1 hv

/-- The address of an entry is found at that entry. -/
lemma entryByIp_addr {entries : List DhcpEntry} (h : TableInv fixed entries)
    (hfixed : (fixed.map Prod.fst).Nodup) (hk : entries[k]? = some e) :
    entryByIp entries (getIp e.addr) = some k := by
  cases hip : entryByIp entries (getIp e.addr) with
  | none =>
      have hall := List.findIdx?_eq_none_iff.mp hip e (List.mem_of_getElem? hk)
      simp at hall
  | some j =>
      obtain ⟨e', hj, he'⟩ := getElem?_of_findIdx? hip
      rw [h.addr_inj hfixed hk hj (getIp_inj.mp (by simpa using he')).symm]

/-- **The grant.**  A request of the client for the address of its own entry or of a vacant one,
with a pbuf for the reply. -/
lemma request_granted {d : ℕ → UInt8} {ptr : ℕ} (h : TableInv fixed s.entries)
    (hfixed : (fixed.map Prod.fst).Nodup) (hs : Offered m k e s) (h₃ : messageType d = 3)
    (hch : dpChaddr d = m) (hptr : requestedIp d = some ptr)
    (hip : readBytes d ptr 4 = e.addr) :
    dispatch c true ⟨d, s.entries⟩ =
      (⟨fillReply c 5 e.addr e d,
          (freeClient s.entries m).modify k fun e => { e with mac := m }⟩,
        some (replyBytes (fillReply c 5 e.addr e d))) := by
  have hk := getElem?_freeClient_offered h.macs hs
  have hfind : entryByIp (freeClient s.entries m) (getIp e.addr) = some k :=
    entryByIp_addr (e := freeEntry e) h.freeClient hfixed hk
  have hvacant : (freeEntry e).isVacant = true := isVacant_iff.mpr rfl
  rw [dispatch, h₃, if_neg (by decide), if_pos rfl, request]
  simp only [hptr, hch, hip, hfind, hk, hvacant, not_true_eq_false, if_false, if_true,
    dpChaddr_fillReply]
  rfl

/-- The table after the grant: the entry is the client's, and no other one is. -/
lemma getElem?_granted {i : ℕ} {x : DhcpEntry} (hm : m ≠ zeroBytes 6)
    (h : TableInv fixed s.entries) (hs : Offered m k e s)
    (hi : ((freeClient s.entries m).modify k fun e => { e with mac := m })[i]? = some x) :
    (i = k ∧ x = { e with mac := m }) ∨ (i ≠ k ∧ x.mac ≠ m) := by
  have hk := getElem?_freeClient_offered h.macs hs
  rw [List.getElem?_modify, Option.map_eq_map, Option.map_eq_some_iff] at hi
  obtain ⟨y, hy, hxy⟩ := hi
  by_cases hki : k = i
  · subst hki
    obtain rfl : freeEntry e = y := Option.some.inj (hk.symm.trans hy)
    rw [if_pos rfl] at hxy
    exact Or.inl ⟨rfl, hxy.symm⟩
  · rw [if_neg hki] at hxy
    obtain rfl : y = x := hxy
    refine Or.inr ⟨Ne.symm hki, fun hym => ?_⟩
    exact (getElem?_of_freeClient h.macs hy (by rwa [hym])).2 hym

/-- Granting again changes nothing. -/
lemma granted_granted {entries : List DhcpEntry} (hmacs : MacsDistinct entries)
    (hk : entries[k]? = some e) (hmac : e.mac = m)
    (honly : ∀ (i : ℕ) x, entries[i]? = some x → x.mac = m → i = k) :
    ((freeClient entries m).modify k fun e => { e with mac := m }) = entries := by
  refine List.ext_getElem? fun i => ?_
  rw [List.getElem?_modify, Option.map_eq_map, freeClient_eq_map hmacs, List.getElem?_map,
    Option.map_map]
  cases hi : entries[i]? with
  | none => rfl
  | some x =>
      rw [Option.map_some, Option.some.injEq, Function.comp_apply]
      by_cases hki : k = i
      · subst hki
        obtain rfl : e = x := Option.some.inj (hk.symm.trans hi)
        rw [if_pos rfl, if_pos hmac, freeEntry, ← hmac]
      · rw [if_neg hki, if_neg fun hxm => hki (honly i x hi hxm).symm]

end Table

/-! ### The handshake -/

/-- A discovery that is answered is answered with an offer of the client's entry or of a vacant
one. -/
lemma offered_of_reply {c : DhcpConfig} {s : DhcpServer} {p : Datagram} {m : Bytes 6}
    {r : List UInt8} (hp : ClientMessage p 1 m) (hr : (udpRecvProc c s p).2 = some r) :
    ∃ k e, Offered m k e (udpRecvProc c s p).1 ∧
      r = replyBytes (fillReply c 2 e.addr e (assemble s.data p.payload)) := by
  have hreact := reaction_dispatch c p.alloc { s with data := assemble s.data p.payload }
  have htype : messageType (assemble s.data p.payload) = 1 := hp.messageType
  have hch : dpChaddr (assemble s.data p.payload) = m := by
    rw [dpChaddr_of_full hp.full, hp.chaddr]
  rw [udpRecvProc] at hr ⊢
  generalize dispatch c p.alloc { s with data := assemble s.data p.payload } = out at hreact hr ⊢
  cases hreact with
  | ignore | full | malformed | refuse => cases hr
  | offer k e h₁ hk he =>
      split_ifs at hr
      refine ⟨k, e, ⟨hk, ?_⟩, (Option.some.inj hr).symm⟩
      exact he.imp_left fun hmac => hmac.trans hch
  | grant ptr k e h₃ =>
      rw [htype] at h₃
      cases h₃

/-- A reply goes to the client of the message. -/
lemma replyChaddr_of_reply {c : DhcpConfig} {s : DhcpServer} {p : Datagram} {r : List UInt8}
    (hfull : p.Full) (hr : (udpRecvProc c s p).2 = some r) :
    replyChaddr r = (dpChaddr p.byte).1 := by
  have hreact := reaction_dispatch c p.alloc { s with data := assemble s.data p.payload }
  rw [udpRecvProc] at hr
  generalize dispatch c p.alloc { s with data := assemble s.data p.payload } = out at hreact hr
  rw [← dpChaddr_of_full hfull]
  cases hreact with
  | ignore | full | malformed | refuse => cases hr
  | offer k e =>
      split_ifs at hr
      rw [← Option.some.inj hr, replyChaddr_fillReply]
  | grant ptr k e =>
      split_ifs at hr
      rw [← Option.some.inj hr, replyChaddr_fillReply]

/-- The request of the client for the address of the offer, as a datagram. -/
lemma udpRecvProc_granted {fixed : List (Bytes 4 × Bytes 4 × UInt32)} {c : DhcpConfig}
    {s : DhcpServer} {k ptr : ℕ} {e : DhcpEntry} {m : Bytes 6} {q : Datagram}
    (h : TableInv fixed s.entries) (hfixed : (fixed.map Prod.fst).Nodup)
    (hs : Offered m k e s) (hq : ClientMessage q 3 m) (hptr : requestedIp q.byte = some ptr)
    (hip : Memory.read q.byte ptr 4 = e.addr.1) (halloc : q.alloc = true) :
    udpRecvProc c s q =
      (⟨fillReply c 5 e.addr e (assemble s.data q.payload),
          (freeClient s.entries m).modify k fun e => { e with mac := m }⟩,
        some (replyBytes (fillReply c 5 e.addr e (assemble s.data q.payload)))) := by
  have hptr' : requestedIp (assemble s.data q.payload) = some ptr :=
    (requestedIp_of_full hq.full).trans hptr
  have hip' : readBytes (assemble s.data q.payload) ptr 4 = e.addr := by
    refine (readBytes_congr (fun i _ hi => ?_) hptr').trans (Subtype.ext hip)
    exact assemble_of_full hq.full (by simp only [sizeofDhcpData]; omega)
  rw [udpRecvProc, halloc]
  exact request_granted h hfixed hs hq.messageType
    ((dpChaddr_of_full hq.full).trans hq.chaddr) hptr' hip'

/-- **The request** for the address of the offer: it is acknowledged, the entry becomes the
client's and no other one is, and the same request again changes nothing. -/
lemma request_completes {fixed : List (Bytes 4 × Bytes 4 × UInt32)} {c : DhcpConfig}
    {t : DhcpServer} {k ptr : ℕ} {e : DhcpEntry} {m : Bytes 6} {q : Datagram}
    (hm : m ≠ zeroBytes 6) (h : TableInv fixed t.entries) (hfixed : (fixed.map Prod.fst).Nodup)
    (hs : Offered m k e t) (hq : ClientMessage q 3 m) (hptr : requestedIp q.byte = some ptr)
    (hip : Memory.read q.byte ptr 4 = e.addr.1) (halloc : q.alloc = true) :
    (udpRecvProc c t q).2 =
        some (replyBytes (fillReply c 5 e.addr e (assemble t.data q.payload))) ∧
      (∃ x ∈ (serve c t [q]).entries, x.mac = m) ∧
      (∀ x ∈ (serve c t [q]).entries, x.mac = m ↔ x.addr.1 = e.addr.1) ∧
      (udpRecvProc c (serve c t [q]) q).2 =
        some (replyBytes (fillReply c 5 e.addr e (assemble t.data q.payload))) ∧
      (serve c t [q, q]).entries = (serve c t [q]).entries := by
  have hgrant := udpRecvProc_granted (c := c) h hfixed hs hq hptr hip halloc
  have hone : (serve c t [q]).entries =
      (freeClient t.entries m).modify k fun e => { e with mac := m } :=
    congrArg (fun out => out.1.entries) hgrant
  have hbound : Offered m k { e with mac := m } (serve c t [q]) := by
    refine ⟨?_, Or.inl rfl⟩
    rw [hone]
    refine (List.getElem?_modify_eq _ _ _).trans ?_
    rw [getElem?_freeClient_offered h.macs hs]
    rfl
  have h' : TableInv fixed (serve c t [q]).entries := tableInv_step q h
  have hagain := udpRecvProc_granted (c := c) h' hfixed hbound hq hptr hip halloc
  have honly : ∀ (i : ℕ) x, (serve c t [q]).entries[i]? = some x →
      (i = k ∧ x = { e with mac := m }) ∨ (i ≠ k ∧ x.mac ≠ m) := by
    intro i x hi
    rw [hone] at hi
    exact getElem?_granted hm h hs hi
  refine ⟨congrArg Prod.snd hgrant, ⟨_, List.mem_of_getElem? hbound.1, rfl⟩, ?_, ?_, ?_⟩
  · intro x hx
    obtain ⟨i, hi⟩ := List.getElem?_of_mem hx
    rcases honly i x hi with ⟨-, rfl⟩ | ⟨hne, hxm⟩
    · exact iff_of_true rfl rfl
    · refine iff_of_false hxm fun haddr => hne ?_
      exact h'.addr_inj hfixed hi hbound.1 (Subtype.ext haddr)
  · rw [hagain]
    exact congrArg some (replyBytes_fillReply_congr fun i hi => assemble_full hq.full hi)
  · have htwo : (serve c t [q, q]).entries =
        (freeClient (serve c t [q]).entries m).modify k fun e => { e with mac := m } :=
      congrArg (fun out => out.1.entries) hagain
    rw [htwo]
    refine granted_granted h'.macs hbound.1 rfl fun i x hi hxm => ?_
    rcases honly i x hi with ⟨hik, -⟩ | ⟨-, hne⟩
    · exact hik
    · exact absurd hxm hne

/-- **The handshake.**  From any table of vacant entries with distinct addresses, after any
history: if a discovery of the client `m` is answered with the offer `r`, then, after any traffic
of other clients in which the address offered is not acknowledged to another client, the request
of `m` for it is answered with an acknowledgement `r'` of this address.  The entry of the address
is then the client's, and no other entry is.  Offer and acknowledgement echo the transaction and
the hardware address of the message they answer, and their options agree except for the message
type.  The same request again is answered with the same acknowledgement and changes nothing. -/
theorem handshake_completes (c : DhcpConfig) (s : DhcpServer)
    (hvacant : ∀ e ∈ s.entries, e.isVacant = true)
    (hdistinct : (s.entries.map DhcpEntry.addr).Nodup) (before between : List Datagram)
    (m : Bytes 6) (hm : m ≠ zeroBytes 6) (p q : Datagram) (r : List UInt8)
    (hp : ClientMessage p 1 m) (hr : (udpRecvProc c (serve c s before) p).2 = some r)
    (hother : ∀ x ∈ between, x.Full ∧ dpChaddr x.byte ≠ m)
    (hno : ∀ xs x rest r', between = xs ++ x :: rest →
      (udpRecvProc c (serve c s (before ++ p :: xs)) x).2 = some r' → replyType r' = some 5 →
      replyYiaddr r' = replyYiaddr r → replyChaddr r' = m.1)
    (hq : ClientMessage q 3 m) (ptr : ℕ) (hptr : requestedIp q.byte = some ptr)
    (hip : Memory.read q.byte ptr 4 = replyYiaddr r) (halloc : q.alloc = true) :
    replyType r = some 2 ∧ Echoes r p ∧
    ∃ r', (udpRecvProc c (serve c s (before ++ p :: between)) q).2 = some r' ∧
      replyType r' = some 5 ∧ replyYiaddr r' = replyYiaddr r ∧ Echoes r' q ∧
      (∀ i, dpOptions ≤ i → i < dpOptions + sizeofDpOptions → i ≠ dpOptions + 2 →
        r[i]? = r'[i]?) ∧
      (∃ e ∈ (serve c s (before ++ p :: between ++ [q])).entries, e.mac = m) ∧
      (∀ e ∈ (serve c s (before ++ p :: between ++ [q])).entries,
        e.mac = m ↔ e.addr.1 = replyYiaddr r) ∧
      (udpRecvProc c (serve c s (before ++ p :: between ++ [q])) q).2 = some r' ∧
      (serve c s (before ++ p :: between ++ [q, q])).entries =
        (serve c s (before ++ p :: between ++ [q])).entries := by
  have hinv := tableInv_vacant hvacant
  have hfixed : ((s.entries.map DhcpEntry.fixed).map Prod.fst).Nodup := by
    rw [List.map_map]
    exact hdistinct
  -- the offer, and its entry up to the request
  obtain ⟨k, e, hoff, hoffer⟩ := offered_of_reply hp hr
  have hyi : replyYiaddr r = e.addr.1 := by rw [hoffer, replyYiaddr_fillReply]
  rw [hyi] at hno hip ⊢
  have hserve : ∀ xs, serve c s (before ++ p :: xs) =
      serve c (udpRecvProc c (serve c s before) p).1 xs := fun xs => by
    rw [serve_append, serve_cons]
  have hoff' : Offered m k e (serve c s (before ++ p :: between)) := by
    rw [hserve]
    refine offered_serve hm between (tableInv_step p (tableInv_serve before hinv)) hoff hother
      fun xs x rest r' hsplit hr' hack haddr => ?_
    rw [← hserve] at hr'
    have hx := hother x (by rw [hsplit]; simp)
    have hown := replyChaddr_of_reply hx.1 hr'
    exact hx.2 (Subtype.ext (hown.symm.trans (hno xs x rest r' hsplit hr' hack haddr)))
  have htable : TableInv (s.entries.map DhcpEntry.fixed)
      (serve c s (before ++ p :: between)).entries := tableInv_serve _ hinv
  have happ : ∀ xs, serve c s (before ++ p :: between ++ xs) =
      serve c (serve c s (before ++ p :: between)) xs := fun xs => serve_append _ _ _ _
  simp only [happ]
  obtain ⟨hack, hbound, honly, hagain, hsame⟩ :=
    request_completes (c := c) hm htable hfixed hoff' hq hptr hip halloc
  refine ⟨by rw [hoffer, replyType_fillReply], by rw [hoffer]; exact echoes_fillReply hp.full,
    _, hack, replyType_fillReply, replyYiaddr_fillReply, echoes_fillReply hq.full, ?_, hbound,
    honly, hagain, hsame⟩
  intro i hlow hhigh hne
  have hi : i < sizeofDhcpData := by
    simp only [dpOptions, sizeofDpOptions, sizeofDhcpData] at hhigh ⊢
    omega
  rw [hoffer, replyBytes, replyBytes, Memory.getElem?_read hi, Memory.getElem?_read hi,
    Nat.zero_add, option_eq_of_ne hlow hhigh hne]

/-- A discovery of the client whose hardware address starts with `mac`. -/
def discoverFrom (mac : UInt8) : Datagram where
  payload := List.replicate 28 0 ++ (mac :: List.replicate 211 0) ++ [53, 1, 1] ++
    List.replicate 273 0
  alloc := true

/-- The offer to the first client. -/
def firstOffer : List UInt8 :=
  (udpRecvProc mainConfig (boot mainEntries) (discoverFrom 1)).2.getD []

/-- The first client is offered the first address, the second client gets the second one, and the
first client's request is acknowledged. -/
theorem handshake_completes_main :
    replyYiaddr firstOffer = [192, 168, 7, 2] ∧
      ∃ r', (udpRecvProc mainConfig (serve mainConfig (boot mainEntries)
          ([] ++ discoverFrom 1 :: [requestFor 2 3])) (requestFor 1 2)).2 = some r' ∧
        replyType r' = some 5 := by
  refine ⟨by decide +kernel, ?_⟩
  obtain ⟨-, -, r', hr', htype, -⟩ := handshake_completes mainConfig (boot mainEntries)
    (by decide) (by decide) [] [requestFor 2 3] (macBytes 1) (by decide) (discoverFrom 1)
    (requestFor 1 2) firstOffer
    ⟨by decide +kernel, by decide, by decide, by decide⟩
    (Option.getD_of_ne_none (by decide +kernel) []).symm
    (by
      intro x hx
      rw [List.mem_singleton.mp hx]
      exact ⟨by decide +kernel, by decide⟩)
    (by
      intro xs x rest r' hsplit hr' _ hyi
      obtain ⟨rfl, rfl, rfl⟩ : xs = [] ∧ requestFor 2 3 = x ∧ [] = rest := by
        cases xs with
        | nil => simpa using hsplit
        | cons y ys => simp at hsplit
      have hthree : ((udpRecvProc mainConfig (serve mainConfig (boot mainEntries)
          ([] ++ discoverFrom 1 :: [])) (requestFor 2 3)).2.map replyYiaddr) =
            some [192, 168, 7, 3] := by decide +kernel
      rw [hr', Option.map_some, hyi] at hthree
      exact absurd hthree (by decide +kernel))
    ⟨by decide +kernel, by decide, by decide, by decide⟩ 245
    (by decide +kernel) (by decide +kernel) rfl
  exact ⟨r', hr', htype⟩

/-! ### Requests that are not granted -/

/-- Freeing the entry of a client that has one, and is not the vacant address itself, changes the
table. -/
lemma freeClient_eq_self_iff {entries : List DhcpEntry} {mac : Bytes 6} :
    freeClient entries mac = entries ↔
      entryByMac entries mac = none ∨ mac = zeroBytes 6 := by
  rw [freeClient]
  cases hmac : entryByMac entries mac with
  | none => exact iff_of_true rfl (Or.inl rfl)
  | some j =>
      obtain ⟨e, hj, he⟩ := getElem?_of_findIdx? hmac
      have hem : e.mac = mac := by simpa using he
      simp only [reduceCtorEq, false_or]
      constructor
      · intro heq
        have hfree : (entries.modify j freeEntry)[j]? = some (freeEntry e) := by
          refine (List.getElem?_modify_eq _ _ _).trans ?_
          rw [hj]
          rfl
        rw [heq, hj, Option.some.injEq] at hfree
        rw [← hem, hfree]
        rfl
      · intro hzero
        have hid : freeEntry e = e := freeEntry_of_vacant (hem.trans hzero)
        refine List.ext_getElem? fun i => ?_
        rw [List.getElem?_modify, Option.map_eq_map]
        by_cases hji : j = i
        · subst hji
          rw [hj, Option.map_some, if_pos rfl, hid]
        · simp [hji]

/-- **Refused requests.**  For every table and every datagram handled as a request, if no
acknowledgement is sent then the table is unchanged if and only if the message has no option 50
of length 4, or the client has no entry, or its hardware address is all zero. -/
theorem refusal_keeps_table_iff (c : DhcpConfig) (s : DhcpServer) (p : Datagram)
    (h₃ : messageType (assemble s.data p.payload) = 3) (hnone : (udpRecvProc c s p).2 = none) :
    (udpRecvProc c s p).1.entries = s.entries ↔
      requestedIp (assemble s.data p.payload) = none ∨
        entryByMac s.entries (dpChaddr (assemble s.data p.payload)) = none ∨
        dpChaddr (assemble s.data p.payload) = zeroBytes 6 := by
  have hreact := reaction_dispatch c p.alloc { s with data := assemble s.data p.payload }
  rw [udpRecvProc] at hnone ⊢
  generalize dispatch c p.alloc { s with data := assemble s.data p.payload } = out
    at hreact hnone ⊢
  have hptr : ∀ {ptr}, requestedIp (assemble s.data p.payload) = some ptr →
      (freeClient s.entries (dpChaddr (assemble s.data p.payload)) = s.entries ↔
        requestedIp (assemble s.data p.payload) = none ∨
          entryByMac s.entries (dpChaddr (assemble s.data p.payload)) = none ∨
          dpChaddr (assemble s.data p.payload) = zeroBytes 6) := by
    intro ptr hptr
    rw [freeClient_eq_self_iff, hptr]
    simp
  cases hreact with
  | ignore _ hne => exact absurd h₃ hne
  | full h₁ | offer _ _ h₁ =>
      have h₁' : messageType (assemble s.data p.payload) = 1 := h₁
      rw [h₃] at h₁'
      exact absurd h₁' (by decide)
  | malformed _ hno => exact iff_of_true rfl (Or.inl hno)
  | refuse ptr _ hsome => exact hptr hsome
  | grant ptr k e _ hsome =>
      split_ifs at hnone ⊢
      exact hptr hsome

/-- The client that has the first address asks for one that is not in the table: it is not
answered, and has lost its entry. -/
theorem refusal_drops_binding :
    (udpRecvProc mainConfig (serve mainConfig (boot mainEntries) [requestFor 1 2])
        (requestFor 1 9)).2 = none ∧
      (udpRecvProc mainConfig (serve mainConfig (boot mainEntries) [requestFor 1 2])
        (requestFor 1 9)).1.entries ≠
          (serve mainConfig (boot mainEntries) [requestFor 1 2]).entries := by
  exact ⟨by decide +kernel, by decide +kernel⟩

/-- A client without an entry. -/
theorem refusal_keeps_table_iff_stranger :
    (udpRecvProc mainConfig (boot mainEntries) (requestFor 1 9)).2 = none ∧
      (udpRecvProc mainConfig (boot mainEntries) (requestFor 1 9)).1.entries = mainEntries := by
  have hnone : (udpRecvProc mainConfig (boot mainEntries) (requestFor 1 9)).2 = none := by
    decide +kernel
  refine ⟨hnone, (refusal_keeps_table_iff mainConfig (boot mainEntries) (requestFor 1 9)
    (by decide +kernel) hnone).mpr (Or.inr (Or.inl (by decide +kernel)))⟩

end Stm32Ecm.Dhcp
