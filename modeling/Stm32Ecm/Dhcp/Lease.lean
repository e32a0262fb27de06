import Mathlib.Data.List.Nodup
import Stm32Ecm.Dhcp.Server

/-!
Exclusive addresses over whole histories of datagrams.

* `TableInv`: no client has two entries, and addresses, subnets and lease times are those of the
  configuration; `tableInv_step`, `tableInv_serve`;
* `Reassigns`: the one kind of message that can take an address away from a client, a request
  with the client's hardware address and a requested address;
* `holder_step`, `holder_serve`: without such a message the client keeps its entry;
* `addresses_exclusive`: the table is exclusive in every state, and after an acknowledgement the
  address is offered or acknowledged to nobody else before such a message.
-/

namespace Stm32Ecm.Dhcp

/-! ### The table -/

/-- The part of an entry the server never changes. -/
def DhcpEntry.fixed (e : DhcpEntry) : Bytes 4 × Bytes 4 × UInt32 := (e.addr, e.subnet, e.lease)

/-- No client has two entries. -/
def MacsDistinct (entries : List DhcpEntry) : Prop :=
  ∀ (i j : ℕ) (e e' : DhcpEntry), entries[i]? = some e → entries[j]? = some e' → e.mac = e'.mac →
    e.mac ≠ zeroBytes 6 → i = j

/-- The invariant of the table, for the configured addresses `fixed`. -/
structure TableInv (fixed : List (Bytes 4 × Bytes 4 × UInt32)) (entries : List DhcpEntry) :
    Prop where
  macs : MacsDistinct entries
  fixed_eq : entries.map DhcpEntry.fixed = fixed

section Table

variable {fixed : List (Bytes 4 × Bytes 4 × UInt32)} {entries : List DhcpEntry} {mac : Bytes 6}

lemma isVacant_iff {e : DhcpEntry} : e.isVacant = true ↔ e.mac = zeroBytes 6 := by
  simp [DhcpEntry.isVacant]

lemma freeEntry_of_vacant {e : DhcpEntry} (h : e.mac = zeroBytes 6) : freeEntry e = e := by
  rw [freeEntry, ← h]

/-- Freeing the client's entry: since no client has two, every entry of the client is freed. -/
lemma freeClient_eq_map (h : MacsDistinct entries) :
    freeClient entries mac = entries.map fun e => if e.mac = mac then freeEntry e else e := by
  refine List.ext_getElem? fun i => ?_
  rw [freeClient, List.getElem?_map]
  cases hmac : entryByMac entries mac with
  | none =>
      cases hi : entries[i]? with
      | none => rfl
      | some e =>
          have hne : e.mac ≠ mac := by
            have hall := List.findIdx?_eq_none_iff.mp hmac e (List.mem_of_getElem? hi)
            simpa using hall
          rw [Option.map_some, if_neg hne]
  | some j =>
      obtain ⟨e, hj, he⟩ := getElem?_of_findIdx? hmac
      have hem : e.mac = mac := by simpa using he
      rw [List.getElem?_modify, Option.map_eq_map]
      cases hi : entries[i]? with
      | none => rfl
      | some e' =>
          rw [Option.map_some, Option.map_some, Option.some.injEq]
          by_cases hij : j = i
          · subst hij
            obtain rfl : e = e' := by simpa [hj] using hi
            rw [if_pos rfl, if_pos hem]
          · rw [if_neg hij]
            split_ifs with hem'
            · -- a second entry with this hardware address is a vacant one
              by_cases hzero : e'.mac = zeroBytes 6
              · exact (freeEntry_of_vacant hzero).symm
              · exact absurd (h i j e' e hi hj (hem'.trans hem.symm) hzero) (Ne.symm hij)
            · rfl

/-- An entry that is still taken after the client's entry was freed. -/
lemma getElem?_of_freeClient {i : ℕ} {e : DhcpEntry} (h : MacsDistinct entries)
    (hi : (freeClient entries mac)[i]? = some e) (he : e.mac ≠ zeroBytes 6) :
    entries[i]? = some e ∧ e.mac ≠ mac := by
  rw [freeClient_eq_map h, List.getElem?_map, Option.map_eq_some_iff] at hi
  obtain ⟨e', hi, hmap⟩ := hi
  split_ifs at hmap with hem
  · exact absurd (congrArg DhcpEntry.mac hmap).symm he
  · subst hmap
    exact ⟨hi, hem⟩

/-- The entries of other clients stay. -/
lemma getElem?_freeClient_of_ne {i : ℕ} {e : DhcpEntry} (h : MacsDistinct entries)
    (hi : entries[i]? = some e) (he : e.mac ≠ mac) : (freeClient entries mac)[i]? = some e := by
  rw [freeClient_eq_map h, List.getElem?_map, hi, Option.map_some, if_neg he]

lemma MacsDistinct.freeClient (h : MacsDistinct entries) :
    MacsDistinct (freeClient entries mac) := by
  intro i j e e' hi hj hmac hzero
  obtain ⟨hi', -⟩ := getElem?_of_freeClient h hi hzero
  obtain ⟨hj', -⟩ := getElem?_of_freeClient h hj (hmac ▸ hzero)
  exact h i j e e' hi' hj' hmac hzero

/-- An entry can be given to a client that has none. -/
lemma MacsDistinct.bind {k : ℕ} (h : MacsDistinct entries)
    (hnone : ∀ (i : ℕ) e, entries[i]? = some e → e.mac = mac → mac = zeroBytes 6) :
    MacsDistinct (entries.modify k fun e => { e with mac := mac }) := by
  have hcases : ∀ {i : ℕ} {e : DhcpEntry},
      (entries.modify k fun e => { e with mac := mac })[i]? = some e →
      (k = i ∧ e.mac = mac) ∨ (k ≠ i ∧ entries[i]? = some e) := by
    intro i e hi
    rw [List.getElem?_modify, Option.map_eq_map, Option.map_eq_some_iff] at hi
    obtain ⟨e', hi, hmod⟩ := hi
    by_cases hki : k = i
    · rw [if_pos hki] at hmod
      exact Or.inl ⟨hki, by rw [← hmod]⟩
    · rw [if_neg hki] at hmod
      exact Or.inr ⟨hki, hmod ▸ hi⟩
  intro i j e e' hi hj hmac hzero
  rcases hcases hi with ⟨hki, hem⟩ | ⟨-, hi'⟩ <;> rcases hcases hj with ⟨hkj, hem'⟩ | ⟨-, hj'⟩
  · exact hki.symm.trans hkj
  · exact absurd (hem.trans (hnone j e' hj' (hmac.symm.trans hem))) hzero
  · exact absurd (hmac.trans (hem'.trans (hnone i e hi' (hmac.trans hem')))) hzero
  · exact h i j e e' hi' hj' hmac hzero

lemma map_fixed_modify {k : ℕ} {f : DhcpEntry → DhcpEntry} (hf : ∀ e, (f e).fixed = e.fixed) :
    (entries.modify k f).map DhcpEntry.fixed = entries.map DhcpEntry.fixed := by
  refine List.ext_getElem? fun i => ?_
  rw [List.getElem?_map, List.getElem?_map, List.getElem?_modify, Option.map_eq_map,
    Option.map_map]
  refine Option.map_congr fun e _ => ?_
  rw [Function.comp_apply]
  split_ifs
  · exact hf e
  · rfl

lemma map_fixed_freeClient :
    (freeClient entries mac).map DhcpEntry.fixed = entries.map DhcpEntry.fixed := by
  rw [Dhcp.freeClient]
  split
  · rfl
  · exact map_fixed_modify fun _ => rfl

lemma TableInv.freeClient (h : TableInv fixed entries) :
    TableInv fixed (freeClient entries mac) where
  macs := h.macs.freeClient
  fixed_eq := map_fixed_freeClient.trans h.fixed_eq

lemma TableInv.bind {k : ℕ} (h : TableInv fixed entries) :
    TableInv fixed ((Dhcp.freeClient entries mac).modify k fun e => { e with mac := mac }) where
  macs := by
    refine h.macs.freeClient.bind fun i e hi hem => ?_
    by_contra hzero
    exact (getElem?_of_freeClient h.macs hi (by rwa [hem])).2 hem
  fixed_eq := by
    rw [map_fixed_modify (by intro e; rfl)]
    exact h.freeClient.fixed_eq

end Table

/-- **One datagram** keeps the table exclusive. -/
lemma tableInv_step {fixed : List (Bytes 4 × Bytes 4 × UInt32)} {c : DhcpConfig} {s : DhcpServer}
    (p : Datagram) (h : TableInv fixed s.entries) :
    TableInv fixed (udpRecvProc c s p).1.entries := by
  have hreact := reaction_dispatch c p.alloc { s with data := assemble s.data p.payload }
  rw [udpRecvProc]
  generalize dispatch c p.alloc { s with data := assemble s.data p.payload } = out at hreact ⊢
  cases hreact with
  | ignore | full | offer | malformed => exact h
  | refuse => exact h.freeClient
  | grant =>
      split_ifs
      · exact h.bind
      · exact h.freeClient

lemma serve_append (c : DhcpConfig) (s : DhcpServer) (ps qs : List Datagram) :
    serve c s (ps ++ qs) = serve c (serve c s ps) qs :=
  List.foldl_append

lemma serve_cons (c : DhcpConfig) (s : DhcpServer) (p : Datagram) (ps : List Datagram) :
    serve c s (p :: ps) = serve c (udpRecvProc c s p).1 ps :=
  rfl

/-- **Every history** keeps the table exclusive. -/
lemma tableInv_serve {fixed : List (Bytes 4 × Bytes 4 × UInt32)} {c : DhcpConfig}
    (ps : List Datagram) {s : DhcpServer} (h : TableInv fixed s.entries) :
    TableInv fixed (serve c s ps).entries := by
  induction ps generalizing s with
  | nil => exact h
  | cons p ps ih => exact ih (tableInv_step p h)

/-- Entries with one address are one entry. -/
lemma TableInv.addr_inj {fixed : List (Bytes 4 × Bytes 4 × UInt32)} {entries : List DhcpEntry}
    (h : TableInv fixed entries) (hfixed : (fixed.map Prod.fst).Nodup) {i j : ℕ}
    {e e' : DhcpEntry} (hi : entries[i]? = some e) (hj : entries[j]? = some e')
    (haddr : e.addr = e'.addr) : i = j := by
  have hmap : entries.map DhcpEntry.addr = fixed.map Prod.fst := by
    rw [← h.fixed_eq, List.map_map]
    rfl
  rw [← hmap] at hfixed
  have hlen : i < (entries.map DhcpEntry.addr).length := by
    rw [List.length_map]
    exact (List.getElem?_eq_some_iff.mp hi).1
  refine (List.getElem?_inj hlen hfixed).mp ?_
  rw [List.getElem?_map, List.getElem?_map, hi, hj, Option.map_some, Option.map_some, haddr]

/-! ### Replies -/

/-- The message type of a reply. -/
def replyType (r : List UInt8) : Option UInt8 := r[dpOptions + 2]?

/-- The address a reply is about. -/
def replyYiaddr (r : List UInt8) : List UInt8 := (r.drop 16).take 4

/-- The client a reply is for: the first six bytes of its hardware address. -/
def replyChaddr (r : List UInt8) : List UInt8 := (r.drop 28).take 6

section Reply

variable {c : DhcpConfig} {t : UInt8} {y : Bytes 4} {e : DhcpEntry} {d : ℕ → UInt8}

lemma replyType_fillReply : replyType (replyBytes (fillReply c t y e d)) = some t := by
  rw [replyType, replyBytes, Memory.getElem?_read (by decide), Nat.zero_add]
  exact congrArg some messageType_fillReply

lemma replyYiaddr_fillReply : replyYiaddr (replyBytes (fillReply c t y e d)) = y.1 := by
  rw [replyYiaddr, replyBytes, Memory.drop_read (by decide), Memory.take_read (by decide)]
  exact congrArg Subtype.val yiaddr_fillReply

lemma replyChaddr_fillReply :
    replyChaddr (replyBytes (fillReply c t y e d)) = (dpChaddr d).1 := by
  rw [replyChaddr, replyBytes, Memory.drop_read (by decide), Memory.take_read (by decide)]
  have hchaddr : dpChaddr (fillReply c t y e d) = dpChaddr d := dpChaddr_fillReply
  exact congrArg Subtype.val hchaddr

end Reply

/-! ### The holder of an address -/

/-- A request of the client `mac` with a requested address, as assembled in `dhcp_data`: it is
the one kind of message by which the client can lose its entry. -/
def Reassigns (mac : List UInt8) (d : ℕ → UInt8) : Prop :=
  messageType d = 3 ∧ (dpChaddr d).1 = mac ∧ (requestedIp d).isSome

section Holder

variable {fixed : List (Bytes 4 × Bytes 4 × UInt32)} {c : DhcpConfig} {s : DhcpServer}
  {p : Datagram} {k : ℕ} {e : DhcpEntry}

/-- **One datagram** leaves the entry of a client alone, unless it is such a request. -/
lemma holder_step (h : TableInv fixed s.entries) (hk : s.entries[k]? = some e)
    (he : e.mac ≠ zeroBytes 6) (hno : ¬ Reassigns e.mac.1 (assemble s.data p.payload)) :
    (udpRecvProc c s p).1.entries[k]? = some e := by
  have hreact := reaction_dispatch c p.alloc { s with data := assemble s.data p.payload }
  rw [udpRecvProc]
  generalize dispatch c p.alloc { s with data := assemble s.data p.payload } = out at hreact ⊢
  have hother : messageType (assemble s.data p.payload) = 3 →
      ∀ {ptr}, requestedIp (assemble s.data p.payload) = some ptr →
      (freeClient s.entries (dpChaddr (assemble s.data p.payload)))[k]? = some e := by
    intro h₃ ptr hptr
    refine getElem?_freeClient_of_ne h.macs hk fun hem => hno ⟨h₃, ?_, ?_⟩
    · rw [hem]
    · rw [hptr]
      rfl
  cases hreact with
  | ignore | full | offer | malformed => exact hk
  | refuse ptr h₃ hptr => exact hother h₃ hptr
  | grant ptr k' e' h₃ hptr hip _ he' hv =>
      have hkeep := hother h₃ hptr
      split_ifs
      · have hne : k' ≠ k := by
          rintro rfl
          obtain rfl : e' = e := by simpa [he'] using hkeep
          exact he (isVacant_iff.mp hv)
        exact (List.getElem?_modify_ne _ _ hne).trans hkeep
      · exact hkeep

/-- After an acknowledgement the client holds the address. -/
lemma holder_of_ack {r : List UInt8} (hr : (udpRecvProc c s p).2 = some r)
    (hack : replyType r = some 5) :
    ∃ (k : ℕ) (e : DhcpEntry), (udpRecvProc c s p).1.entries[k]? = some e ∧
      e.mac.1 = replyChaddr r ∧ e.addr.1 = replyYiaddr r := by
  have hreact := reaction_dispatch c p.alloc { s with data := assemble s.data p.payload }
  rw [udpRecvProc] at hr ⊢
  generalize dispatch c p.alloc { s with data := assemble s.data p.payload } = out at hreact hr ⊢
  cases hreact with
  | ignore | full | malformed | refuse => cases hr
  | offer k e =>
      split_ifs at hr
      obtain rfl := Option.some.inj hr
      rw [replyType_fillReply] at hack
      cases hack
  | grant ptr k e h₃ hptr hip _ he hv =>
      split_ifs at hr ⊢ with halloc
      · obtain rfl := Option.some.inj hr
        refine ⟨k, { e with mac := dpChaddr (assemble s.data p.payload) }, ?_, ?_, ?_⟩
        · refine (List.getElem?_modify_eq _ _ _).trans ?_
          rw [he]
          rfl
        · rw [replyChaddr_fillReply]
        · rw [replyYiaddr_fillReply]

/-- While a client holds an address, nobody else is offered it or gets it acknowledged. -/
lemma reply_of_holder {r : List UInt8} (h : TableInv fixed s.entries)
    (hfixed : (fixed.map Prod.fst).Nodup) (hk : s.entries[k]? = some e)
    (he : e.mac ≠ zeroBytes 6) (hr : (udpRecvProc c s p).2 = some r)
    (haddr : replyYiaddr r = e.addr.1) : replyChaddr r = e.mac.1 := by
  have hreact := reaction_dispatch c p.alloc { s with data := assemble s.data p.payload }
  rw [udpRecvProc] at hr
  generalize dispatch c p.alloc { s with data := assemble s.data p.payload } = out at hreact hr
  cases hreact with
  | ignore | full | malformed | refuse => cases hr
  | offer k' e' h₁ hk' he' =>
      split_ifs at hr
      obtain rfl := Option.some.inj hr
      rw [replyYiaddr_fillReply] at haddr
      obtain rfl : k' = k := h.addr_inj hfixed hk' hk (Subtype.ext haddr)
      obtain rfl : e' = e := Option.some.inj (hk'.symm.trans hk)
      rcases he' with hem | hv
      · rw [replyChaddr_fillReply, hem]
      · exact absurd (isVacant_iff.mp hv) he
  | grant ptr k' e' h₃ hptr hip _ hk' hv =>
      split_ifs at hr
      obtain rfl := Option.some.inj hr
      rw [replyYiaddr_fillReply] at haddr
      rw [replyChaddr_fillReply]
      by_contra hne
      have hkeep : (freeClient s.entries (dpChaddr (assemble s.data p.payload)))[k]? = some e :=
        getElem?_freeClient_of_ne h.macs hk fun hem => hne (by rw [hem])
      obtain rfl : k' = k := h.freeClient.addr_inj hfixed hk' hkeep (Subtype.ext haddr)
      obtain rfl : e' = e := Option.some.inj (hk'.symm.trans hkeep)
      exact he (isVacant_iff.mp hv)

/-- **A history** leaves the entry of a client alone, unless it has such a request. -/
lemma holder_serve (ps : List Datagram) {s : DhcpServer} (h : TableInv fixed s.entries)
    (hk : s.entries[k]? = some e) (he : e.mac ≠ zeroBytes 6)
    (hno : ∀ qs q rest, ps = qs ++ q :: rest →
      ¬ Reassigns e.mac.1 (assemble (serve c s qs).data q.payload)) :
    (serve c s ps).entries[k]? = some e := by
  induction ps generalizing s with
  | nil => exact hk
  | cons p ps ih =>
      refine ih (tableInv_step p h) (holder_step h hk he (hno [] p ps rfl)) ?_
      intro qs q rest hsplit
      exact hno (p :: qs) q rest (by rw [hsplit, List.cons_append])

end Holder

/-! ### Whole histories -/

/-- A vacant table with distinct addresses. -/
lemma tableInv_vacant {entries : List DhcpEntry} (hvacant : ∀ e ∈ entries, e.isVacant = true) :
    TableInv (entries.map DhcpEntry.fixed) entries where
  macs := by
    intro i j e e' hi _ _ hzero
    exact absurd (isVacant_iff.mp (hvacant e (List.mem_of_getElem? hi))) hzero
  fixed_eq := rfl

/-- **Exclusive addresses.**  From any table of vacant entries with distinct addresses, for every
history of datagrams and allocation outcomes: no client has two entries, and addresses, subnets
and lease times stay as configured; and after an acknowledgement of an address to a client with a
nonzero hardware address, no offer or acknowledgement of this address goes to another client
before a request that carries the first client's hardware address and an option 50 of length 4
was assembled in `dhcp_data`. -/
theorem addresses_exclusive (c : DhcpConfig) (s : DhcpServer)
    (hvacant : ∀ e ∈ s.entries, e.isVacant = true)
    (hdistinct : (s.entries.map DhcpEntry.addr).Nodup) (ps : List Datagram) :
    (MacsDistinct (serve c s ps).entries ∧
      (serve c s ps).entries.map DhcpEntry.fixed = s.entries.map DhcpEntry.fixed) ∧
    ∀ before p between q after r r', ps = before ++ p :: (between ++ q :: after) →
      (udpRecvProc c (serve c s before) p).2 = some r → replyType r = some 5 →
      replyChaddr r ≠ (zeroBytes 6).1 →
      (udpRecvProc c (serve c s (before ++ p :: between)) q).2 = some r' →
      replyType r' = some 2 ∨ replyType r' = some 5 →
      replyYiaddr r' = replyYiaddr r → replyChaddr r' ≠ replyChaddr r →
      ∃ qs x rest, between = qs ++ x :: rest ∧
        Reassigns (replyChaddr r)
          (assemble (serve c s (before ++ p :: qs)).data x.payload) := by
  have hinv := tableInv_vacant hvacant
  have hfinal := tableInv_serve (c := c) ps hinv
  refine ⟨⟨hfinal.macs, hfinal.fixed_eq⟩, ?_⟩
  intro before p between q after r r' _ hr hack hzero hr' _ haddr hne
  by_contra hnone
  have hfixed : ((s.entries.map DhcpEntry.fixed).map Prod.fst).Nodup := by
    rw [List.map_map]
    exact hdistinct
  -- the client of the acknowledgement holds the address, and keeps it through `between`
  obtain ⟨k, e, hk, hmac, hip⟩ := holder_of_ack hr hack
  have hstart : TableInv _ (udpRecvProc c (serve c s before) p).1.entries :=
    tableInv_step p (tableInv_serve before hinv)
  have he : e.mac ≠ zeroBytes 6 := fun h => hzero (by rw [← hmac, h])
  have hserve : ∀ qs, serve c s (before ++ p :: qs) =
      serve c (udpRecvProc c (serve c s before) p).1 qs := by
    intro qs
    rw [serve_append, serve_cons]
  have hkeep : (serve c s (before ++ p :: between)).entries[k]? = some e := by
    rw [hserve]
    refine holder_serve between hstart hk he fun qs x rest hsplit hre => hnone ?_
    refine ⟨qs, x, rest, hsplit, ?_⟩
    rw [hserve, ← hmac]
    exact hre
  have hown := reply_of_holder (tableInv_serve _ hinv) hfixed hkeep he hr' (haddr.trans hip.symm)
  exact hne (hown.trans hmac)

/-- A request for the address `192.168.7.host` by the client whose hardware address starts with
`mac`. -/
def requestFor (mac host : UInt8) : Datagram where
  payload := List.replicate 28 0 ++ (mac :: List.replicate 211 0) ++
    [53, 1, 3, 50, 4, 192, 168, 7, host] ++ List.replicate 267 0
  alloc := true

/-- The acknowledgement to the first client. -/
def firstAck : List UInt8 :=
  (udpRecvProc mainConfig (boot mainEntries) (requestFor 1 2)).2.getD []

/-- The acknowledgement to the second client, after the first has moved to another address. -/
def secondAck : List UInt8 :=
  (udpRecvProc mainConfig (serve mainConfig (boot mainEntries) [requestFor 1 2, requestFor 1 3])
    (requestFor 2 2)).2.getD []

/-- The address of the first client goes to the second one; the theorem finds the request by
which the first has given it up. -/
theorem addresses_exclusive_handover :
    replyYiaddr secondAck = replyYiaddr firstAck ∧
      ∃ qs x rest, [requestFor 1 3] = qs ++ x :: rest ∧
        Reassigns (replyChaddr firstAck)
          (assemble (serve mainConfig (boot mainEntries) ([] ++ requestFor 1 2 :: qs)).data
            x.payload) :=
  ⟨by decide +kernel,
    (addresses_exclusive mainConfig (boot mainEntries) (by decide) (by decide)
      [requestFor 1 2, requestFor 1 3, requestFor 2 2]).2 [] (requestFor 1 2) [requestFor 1 3]
      (requestFor 2 2) [] firstAck secondAck rfl
      (Option.getD_of_ne_none (by decide +kernel) []).symm (by decide +kernel)
      (by decide +kernel) (Option.getD_of_ne_none (by decide +kernel) []).symm
      (by decide +kernel) (by decide +kernel) (by decide +kernel)⟩

end Stm32Ecm.Dhcp
