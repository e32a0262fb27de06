import Stm32Ecm.Library.Memory

/-!
The DHCP server (`dhserver.c`).  The server assembles each datagram in the global `dhcp_data`,
which is overwritten only as far as the datagram reaches, and answers from there.

* `DhcpEntry`, `DhcpConfig`, `DhcpServer`: the lease table, the fixed part of the configuration,
  and the state; `dhcp_data` is a memory of which the first `sizeof(dhcp_data)` cells are used, so
  that its fields are blocks of it;
* `findDhcpOption`, `fillOptions`: reading and writing the options;
* `udpRecvProc`: one datagram.  `assemble` is the copy into `dhcp_data`, `discover` and `request`
  are the two cases of the `switch`, `fillReply` is the part they share.
-/

namespace Stm32Ecm.Dhcp

/-! ### Data -/

/-- An array of `n` bytes. -/
abbrev Bytes (n : ℕ) : Type := { l : List UInt8 // l.length = n }

/-- `memcpy` of `n` bytes out of a memory. -/
def readBytes (m : ℕ → UInt8) (off n : ℕ) : Bytes n := ⟨Memory.read m off n, Memory.length_read⟩

/-- `n` zero bytes. -/
def zeroBytes (n : ℕ) : Bytes n := ⟨List.replicate n 0, List.length_replicate⟩

/-- `get_ip`: four bytes as a little-endian word. -/
def getIp (pnt : Bytes 4) : ℕ := pnt.1.foldr (fun b v => b.toNat + 256 * v) 0

/-- `set_ip`: the four bytes of a little-endian word. -/
def setIp (value : ℕ) : List UInt8 :=
  [.ofNat value, .ofNat (value / 256), .ofNat (value / 65536), .ofNat (value / 16777216)]

/-- `dhcp_entry_t`. -/
structure DhcpEntry where
  mac : Bytes 6
  addr : Bytes 4
  subnet : Bytes 4
  lease : UInt32
  deriving DecidableEq

/-- `dhcp_config_t` without the table: the options of a reply fit into `dp_options` with the
domain. -/
structure DhcpConfig where
  addr : Bytes 4
  dns : Bytes 4
  domain : Option (List UInt8)
  fits : ∀ d ∈ domain, d.length ≤ 239

/-- The state: `dhcp_data` and the table `config->entries`. -/
structure DhcpServer where
  data : ℕ → UInt8
  entries : List DhcpEntry

/-- The server as it starts: `dhcp_data` is zero. -/
def boot (entries : List DhcpEntry) : DhcpServer := ⟨fun _ => 0, entries⟩

/-- `sizeof(dhcp_data)`: 515 bytes of fields and one byte of padding. -/
def sizeofDhcpData : ℕ := 516

/-- `sizeof(dhcp_data.dp_options)`. -/
def sizeofDpOptions : ℕ := 275

/-- The offset of `dp_options`. -/
def dpOptions : ℕ := 240

/-- The first six bytes of `dp_chaddr`. -/
def dpChaddr (d : ℕ → UInt8) : Bytes 6 := readBytes d 28 6

/-- `dp_options[2]`, where the server looks for the message type. -/
def messageType (d : ℕ → UInt8) : UInt8 := d (dpOptions + 2)

/-! ### The table -/

/-- `is_vacant`. -/
def DhcpEntry.isVacant (e : DhcpEntry) : Bool := e.mac = zeroBytes 6

/-- `free_entry`. -/
def freeEntry (e : DhcpEntry) : DhcpEntry := { e with mac := zeroBytes 6 }

/-- `entry_by_ip`: the index of the first entry with the address. -/
def entryByIp (entries : List DhcpEntry) (ip : ℕ) : Option ℕ :=
  entries.findIdx? fun e => getIp e.addr = ip

/-- `entry_by_mac`. -/
def entryByMac (entries : List DhcpEntry) (mac : Bytes 6) : Option ℕ :=
  entries.findIdx? fun e => e.mac = mac

/-- `vacant_address`. -/
def vacantAddress (entries : List DhcpEntry) : Option ℕ :=
  entries.findIdx? DhcpEntry.isVacant

/-! ### Options -/

/-- The loop of `find_dhcp_option`, `fuel` bounding the number of rounds. -/
def findDhcpOptionLoop (attrs : ℕ → UInt8) (size : ℕ) (attr : UInt8) : ℕ → ℕ → Option ℕ
  | 0, _ => none
  | fuel + 1, i =>
      if i + 1 < size then
        let next := i + (attrs (i + 1)).toNat + 2
        if next > size then none
        else if attrs i = attr then some i
        else findDhcpOptionLoop attrs size attr fuel next
      else none

/-- `find_dhcp_option`: the index of the option.  Each round advances, so `size` rounds are
enough. -/
def findDhcpOption (attrs : ℕ → UInt8) (size : ℕ) (attr : UInt8) : Option ℕ :=
  findDhcpOptionLoop attrs size attr size 0

/-- One option as it is written: its code, its length and its data. -/
def dhcpOption (code : UInt8) (val : List UInt8) : List UInt8 :=
  code :: UInt8.ofNat val.length :: val

/-- The lease time, high byte first. -/
def leaseBytes (leaseTime : UInt32) : List UInt8 :=
  [(leaseTime >>> 24).toUInt8, (leaseTime >>> 16).toUInt8, (leaseTime >>> 8).toUInt8,
    leaseTime.toUInt8]

/-- `fill_options`: `DHCP_MESSAGETYPE`, `DHCP_SERVERID`, `DHCP_LEASETIME`, `DHCP_SUBNETMASK`,
`DHCP_ROUTER`, `DHCP_DNSDOMAIN`, `DHCP_DNSSERVER` and `DHCP_END`. -/
def fillOptions (msgType : UInt8) (domain : Option (List UInt8)) (dns : ℕ) (leaseTime : UInt32)
    (serverid router subnet : ℕ) : List UInt8 :=
  dhcpOption 53 [msgType] ++ dhcpOption 54 (setIp serverid) ++
    dhcpOption 51 (leaseBytes leaseTime) ++ dhcpOption 1 (setIp subnet) ++
    (if router ≠ 0 then dhcpOption 3 (setIp router) else []) ++
    domain.elim [] (dhcpOption 15) ++
    (if dns ≠ 0 then dhcpOption 6 (setIp dns) else []) ++ [255]

/-- The loop stops by itself: rounds beyond `size` change nothing. -/
lemma findDhcpOptionLoop_add {attrs : ℕ → UInt8} {size : ℕ} {attr : UInt8} (fuel k : ℕ) {i : ℕ}
    (h : size ≤ i + fuel) :
    findDhcpOptionLoop attrs size attr (fuel + k) i =
      findDhcpOptionLoop attrs size attr fuel i := by
  induction fuel generalizing i with
  | zero =>
      cases k with
      | zero => rfl
      | succ k =>
          have hstop : ¬ i + 1 < size := by omega
          simp [findDhcpOptionLoop, hstop]
  | succ fuel ih =>
      rw [Nat.succ_add, findDhcpOptionLoop, findDhcpOptionLoop]
      simp only [ih (show size ≤ i + (attrs (i + 1)).toNat + 2 + fuel from by omega)]

/-- The option found lies inside the options, with its data. -/
lemma findDhcpOptionLoop_le {attrs : ℕ → UInt8} {size : ℕ} {attr : UInt8} {fuel i j : ℕ}
    (h : findDhcpOptionLoop attrs size attr fuel i = some j) :
    j + (attrs (j + 1)).toNat + 2 ≤ size := by
  induction fuel generalizing i with
  | zero => cases h
  | succ fuel ih =>
      rw [findDhcpOptionLoop] at h
      simp only at h
      split_ifs at h with hsize hnext hattr
      · obtain rfl := Option.some.inj h
        omega
      · exact ih h

/-- The search reads nothing but the options. -/
lemma findDhcpOptionLoop_congr {attrs attrs' : ℕ → UInt8} {size : ℕ} {attr : UInt8}
    (h : ∀ i < size, attrs i = attrs' i) (fuel i : ℕ) :
    findDhcpOptionLoop attrs size attr fuel i = findDhcpOptionLoop attrs' size attr fuel i := by
  induction fuel generalizing i with
  | zero => rfl
  | succ fuel ih =>
      rw [findDhcpOptionLoop, findDhcpOptionLoop]
      by_cases hsize : i + 1 < size
      · simp only [if_pos hsize, h (i + 1) hsize, h i (by omega), ih]
      · rw [if_neg hsize, if_neg hsize]

/-! ### One datagram -/

/-- `magic_cookie`. -/
def magicCookie : List UInt8 := [0x63, 0x82, 0x53, 0x63]

/-- `memcpy(&dhcp_data, p->payload, n)`, with `n` cut off at `sizeof(dhcp_data)`. -/
def assemble (d : ℕ → UInt8) (payload : List UInt8) : ℕ → UInt8 :=
  Memory.write d 0 (payload.take sizeofDhcpData)

/-- The fields of a reply: `dp_op`, `dp_secs`, `dp_flags`, `dp_yiaddr`, `dp_magic`, and
`dp_options`, cleared and filled. -/
def fillReply (c : DhcpConfig) (msgType : UInt8) (yiaddr : Bytes 4) (e : DhcpEntry)
    (d : ℕ → UInt8) : ℕ → UInt8 :=
  let d := Memory.write d 0 [2]
  let d := Memory.write d 8 [0, 0]
  let d := Memory.write d 10 [0, 0]
  let d := Memory.write d 16 yiaddr.1
  let d := Memory.write d 236 magicCookie
  let d := Memory.write d dpOptions (List.replicate sizeofDpOptions 0)
  Memory.write d dpOptions
    (fillOptions msgType c.domain (getIp c.dns) e.lease (getIp c.addr) (getIp c.addr)
      (getIp e.subnet))

/-- The bytes sent: all of `dhcp_data`. -/
def replyBytes (d : ℕ → UInt8) : List UInt8 := Memory.read d 0 sizeofDhcpData

/-- `DHCP_DISCOVER` = 1, answered with `DHCP_OFFER` = 2; `alloc` is the outcome of
`pbuf_alloc`. -/
def discover (c : DhcpConfig) (alloc : Bool) (s : DhcpServer) :
    DhcpServer × Option (List UInt8) :=
  match (entryByMac s.entries (dpChaddr s.data)).orElse fun _ => vacantAddress s.entries with
  | none => (s, none)
  | some k =>
      match s.entries[k]? with
      | none => (s, none)
      | some e =>
          let d := fillReply c 2 ⟨setIp (getIp e.addr), rfl⟩ e s.data
          ({ s with data := d }, if alloc then some (replyBytes d) else none)

/-- The option 50 of a request, if it has length 4: the offset of its data in `dhcp_data`. -/
def requestedIp (d : ℕ → UInt8) : Option ℕ :=
  match findDhcpOption (fun i => d (dpOptions + i)) sizeofDpOptions 50 with
  | none => none
  | some i => if d (dpOptions + i + 1) ≠ 4 then none else some (dpOptions + i + 2)

/-- The table after step 2 of a request: the entry of the client is freed. -/
def freeClient (entries : List DhcpEntry) (mac : Bytes 6) : List DhcpEntry :=
  match entryByMac entries mac with
  | none => entries
  | some j => entries.modify j freeEntry

/-- `DHCP_REQUEST` = 3, answered with `DHCP_ACK` = 5. -/
def request (c : DhcpConfig) (alloc : Bool) (s : DhcpServer) :
    DhcpServer × Option (List UInt8) :=
  match requestedIp s.data with
  | none => (s, none)
  | some ptr =>
      let s := { s with entries := freeClient s.entries (dpChaddr s.data) }
      let ip := readBytes s.data ptr 4
      match entryByIp s.entries (getIp ip) with
      | none => (s, none)
      | some k =>
          match s.entries[k]? with
          | none => (s, none)
          | some e =>
              if ¬ e.isVacant then (s, none)
              else
                let d := fillReply c 5 ip e s.data
                if alloc then
                  ({ data := d
                     entries := s.entries.modify k fun e => { e with mac := dpChaddr d } },
                    some (replyBytes d))
                else ({ s with data := d }, none)

/-- The `switch` of `udp_recv_proc` on the assembled message. -/
def dispatch (c : DhcpConfig) (alloc : Bool) (s : DhcpServer) :
    DhcpServer × Option (List UInt8) :=
  if messageType s.data = 1 then discover c alloc s
  else if messageType s.data = 3 then request c alloc s
  else (s, none)

/-- A datagram: the bytes of its first pbuf, and the outcome of `pbuf_alloc` for the reply. -/
structure Datagram where
  payload : List UInt8
  alloc : Bool
  deriving DecidableEq, Repr

/-- `udp_recv_proc`: the state after it and the reply, if one is sent. -/
def udpRecvProc (c : DhcpConfig) (s : DhcpServer) (p : Datagram) :
    DhcpServer × Option (List UInt8) :=
  dispatch c p.alloc { s with data := assemble s.data p.payload }

/-- The state after a history of datagrams. -/
def serve (c : DhcpConfig) (s : DhcpServer) (ps : List Datagram) : DhcpServer :=
  ps.foldl (fun s p => (udpRecvProc c s p).1) s

/-! ### Addresses -/

lemma UInt8.ofNat_eq_of_mod {n : ℕ} {b : UInt8} (h : n % 256 = b.toNat) : UInt8.ofNat n = b := by
  rw [← UInt8.toNat_inj]
  simpa using h

/-- `set_ip` undoes `get_ip`. -/
lemma setIp_getIp (b : Bytes 4) : setIp (getIp b) = b.1 := by
  obtain ⟨l, hl⟩ := b
  obtain ⟨b₀, b₁, b₂, b₃, rfl⟩ : ∃ b₀ b₁ b₂ b₃, l = [b₀, b₁, b₂, b₃] := by
    match l, hl with
    | [b₀, b₁, b₂, b₃], _ => exact ⟨b₀, b₁, b₂, b₃, rfl⟩
  have h₀ := b₀.toNat_lt
  have h₁ := b₁.toNat_lt
  have h₂ := b₂.toNat_lt
  have h₃ := b₃.toNat_lt
  have hval : getIp ⟨[b₀, b₁, b₂, b₃], hl⟩ =
      b₀.toNat + 256 * (b₁.toNat + 256 * (b₂.toNat + 256 * (b₃.toNat + 256 * 0))) := rfl
  rw [setIp, hval, UInt8.ofNat_eq_of_mod (b := b₀) (by omega),
    UInt8.ofNat_eq_of_mod (b := b₁) (by omega), UInt8.ofNat_eq_of_mod (b := b₂) (by omega),
    UInt8.ofNat_eq_of_mod (b := b₃) (by omega)]

/-- Two addresses compare equal exactly when their bytes are. -/
lemma getIp_inj {a b : Bytes 4} : getIp a = getIp b ↔ a = b := by
  refine ⟨fun h => Subtype.ext ?_, fun h => by rw [h]⟩
  rw [← setIp_getIp a, h, setIp_getIp]

/-! ### The fields of a reply -/

section Reply

variable {c : DhcpConfig} {msgType : UInt8} {yiaddr : Bytes 4} {e : DhcpEntry} {d : ℕ → UInt8}

lemma length_dhcpOption (code : UInt8) (val : List UInt8) :
    (dhcpOption code val).length = val.length + 2 := rfl

lemma length_fillOptions_le (dns lease serverid router subnet) :
    (fillOptions msgType c.domain dns lease serverid router subnet).length ≤ sizeofDpOptions := by
  have hdomain : (c.domain.elim [] (dhcpOption 15)).length ≤ 241 := by
    cases h : c.domain with
    | none => simp
    | some name =>
        have hfits := c.fits name (by simp [h])
        rw [Option.elim_some, length_dhcpOption]
        omega
  simp only [fillOptions, List.length_append, length_dhcpOption, leaseBytes, setIp]
  split_ifs <;> simp [length_dhcpOption, sizeofDpOptions] <;> omega

/-- What a reply keeps of the assembled message. -/
lemma fillReply_apply {i : ℕ}
    (hi : (1 ≤ i ∧ i < 8) ∨ (12 ≤ i ∧ i < 16) ∨ (20 ≤ i ∧ i < 236) ∨ 515 ≤ i) :
    fillReply c msgType yiaddr e d i = d i := by
  have hopts := @length_fillOptions_le c msgType (getIp c.dns) e.lease
    (getIp c.addr) (getIp c.addr) (getIp e.subnet)
  have hip := yiaddr.2
  simp only [sizeofDpOptions] at hopts
  have hskip : ∀ (m : ℕ → UInt8) (a : ℕ) (bs : List UInt8), i < a ∨ a + bs.length ≤ i →
      Memory.write m a bs i = m i := fun m a bs h =>
    h.elim Memory.write_apply_of_lt Memory.write_apply_of_le
  simp only [fillReply]
  rw [hskip _ _ _ (by simp only [dpOptions]; omega),
    hskip _ _ _ (by simp only [dpOptions, sizeofDpOptions, List.length_replicate]; omega),
    hskip _ _ _ (by simp only [magicCookie, List.length_cons, List.length_nil]; omega),
    hskip _ _ _ (by omega),
    hskip _ _ _ (by simp only [List.length_cons, List.length_nil]; omega),
    hskip _ _ _ (by simp only [List.length_cons, List.length_nil]; omega),
    hskip _ _ _ (by simp only [List.length_cons, List.length_nil]; omega)]

@[simp] lemma dpChaddr_fillReply : dpChaddr (fillReply c msgType yiaddr e d) = dpChaddr d :=
  Subtype.ext (Memory.read_congr fun i hi => fillReply_apply (by omega))

@[simp] lemma messageType_fillReply : messageType (fillReply c msgType yiaddr e d) = msgType := by
  rw [messageType, fillReply]
  simp only [Memory.write, dpOptions]
  rfl

@[simp] lemma yiaddr_fillReply : readBytes (fillReply c msgType yiaddr e d) 16 4 = yiaddr := by
  refine Subtype.ext ?_
  have hlast : ∀ (m : ℕ → UInt8) (a : ℕ) (bs : List UInt8), 20 ≤ a →
      Memory.read (Memory.write m a bs) 16 4 = Memory.read m 16 4 :=
    fun m a bs ha => Memory.read_write_of_disjoint (Or.inl (by omega))
  have hself : ∀ m : ℕ → UInt8, Memory.read (Memory.write m 16 yiaddr.1) 16 4 = yiaddr.1 := by
    intro m
    have hread : Memory.read (Memory.write m 16 yiaddr.1) 16 yiaddr.1.length = yiaddr.1 :=
      Memory.read_write_self
    rw [yiaddr.2] at hread
    exact hread
  simp only [readBytes, fillReply]
  rw [hlast _ _ _ (by decide), hlast _ _ _ (by decide), hlast _ _ _ (by decide), hself]

end Reply

/-! ### What a datagram can do -/

/-- The reactions to the message assembled in `dhcp_data`. -/
inductive Reaction (c : DhcpConfig) (alloc : Bool) (s : DhcpServer) :
    DhcpServer × Option (List UInt8) → Prop where
  /-- Neither a discovery nor a request. -/
  | ignore (h₁ : messageType s.data ≠ 1) (h₃ : messageType s.data ≠ 3) :
      Reaction c alloc s (s, none)
  /-- A discovery, with no entry for the client and none vacant. -/
  | full (h₁ : messageType s.data = 1) (hmac : entryByMac s.entries (dpChaddr s.data) = none)
      (hvacant : vacantAddress s.entries = none) : Reaction c alloc s (s, none)
  /-- A discovery: the address of the client's entry or of a vacant one is offered. -/
  | offer (k : ℕ) (e : DhcpEntry) (h₁ : messageType s.data = 1) (hk : s.entries[k]? = some e)
      (he : e.mac = dpChaddr s.data ∨ e.isVacant = true) :
      Reaction c alloc s ({ s with data := fillReply c 2 e.addr e s.data },
        if alloc then some (replyBytes (fillReply c 2 e.addr e s.data)) else none)
  /-- A request without a requested address. -/
  | malformed (h₃ : messageType s.data = 3) (hptr : requestedIp s.data = none) :
      Reaction c alloc s (s, none)
  /-- A request for an address that is not in the table or not vacant: the client has lost its
  entry all the same. -/
  | refuse (ptr : ℕ) (h₃ : messageType s.data = 3) (hptr : requestedIp s.data = some ptr)
      (hno : ∀ k e, entryByIp (freeClient s.entries (dpChaddr s.data))
          (getIp (readBytes s.data ptr 4)) = some k →
        (freeClient s.entries (dpChaddr s.data))[k]? = some e → e.isVacant = false) :
      Reaction c alloc s
        ({ s with entries := freeClient s.entries (dpChaddr s.data) }, none)
  /-- A request granted, and answered if the reply can be allocated. -/
  | grant (ptr k : ℕ) (e : DhcpEntry) (h₃ : messageType s.data = 3)
      (hptr : requestedIp s.data = some ptr) (hip : e.addr = readBytes s.data ptr 4)
      (hk : entryByIp (freeClient s.entries (dpChaddr s.data))
        (getIp (readBytes s.data ptr 4)) = some k)
      (he : (freeClient s.entries (dpChaddr s.data))[k]? = some e) (hv : e.isVacant = true) :
      Reaction c alloc s
        (if alloc then
          ({ data := fillReply c 5 e.addr e s.data
             entries := (freeClient s.entries (dpChaddr s.data)).modify k fun e =>
               { e with mac := dpChaddr s.data } },
            some (replyBytes (fillReply c 5 e.addr e s.data)))
        else
          ({ data := fillReply c 5 e.addr e s.data
             entries := freeClient s.entries (dpChaddr s.data) }, none))

/-- What `findIdx?` finds is in the list and satisfies the test. -/
lemma getElem?_of_findIdx? {l : List DhcpEntry} {p : DhcpEntry → Bool} {k : ℕ}
    (h : l.findIdx? p = some k) : ∃ e, l[k]? = some e ∧ p e = true := by
  have hof := List.of_findIdx?_eq_some h
  cases he : l[k]? with
  | none =>
      rw [he] at hof
      cases hof
  | some e =>
      rw [he] at hof
      exact ⟨e, rfl, hof⟩

/-- **Inversion** of the `switch`. -/
lemma reaction_dispatch (c : DhcpConfig) (alloc : Bool) (s : DhcpServer) :
    Reaction c alloc s (dispatch c alloc s) := by
  rw [dispatch]
  split_ifs with h₁ h₃
  · rw [discover]
    cases hmac : entryByMac s.entries (dpChaddr s.data) with
    | some k =>
        obtain ⟨e, hk, he⟩ := getElem?_of_findIdx? hmac
        have hoffer : Reaction c alloc s _ := .offer k e h₁ hk (Or.inl (by simpa using he))
        simpa [hk, setIp_getIp] using hoffer
    | none =>
        cases hvacant : vacantAddress s.entries with
        | none => exact .full h₁ hmac hvacant
        | some k =>
            obtain ⟨e, hk, he⟩ := getElem?_of_findIdx? hvacant
            have hoffer : Reaction c alloc s _ := .offer k e h₁ hk (Or.inr he)
            simpa [hk, setIp_getIp] using hoffer
  · rw [request]
    cases hptr : requestedIp s.data with
    | none => exact .malformed h₃ hptr
    | some ptr =>
        simp only
        cases hip : entryByIp (freeClient s.entries (dpChaddr s.data))
            (getIp (readBytes s.data ptr 4)) with
        | none =>
            refine .refuse ptr h₃ hptr fun k e hk => ?_
            rw [hip] at hk
            cases hk
        | some k =>
            obtain ⟨e, hk, he⟩ := getElem?_of_findIdx? hip
            have haddr : e.addr = readBytes s.data ptr 4 := getIp_inj.mp (by simpa using he)
            simp only [hk]
            cases hv : e.isVacant with
            | false =>
                simp only [Bool.false_eq_true, not_false_eq_true, if_true]
                refine .refuse ptr h₃ hptr fun k' e' hk' he' => ?_
                obtain rfl : k = k' := by simpa using hip.symm.trans hk'
                rw [hk, Option.some.injEq] at he'
                exact he' ▸ hv
            | true =>
                have hgrant : Reaction c alloc s _ := .grant ptr k e h₃ hptr haddr hip hk hv
                rw [← haddr]
                simpa [dpChaddr_fillReply] using hgrant
  · exact .ignore h₁ h₃

/-! ### The configuration of `main.c` -/

/-- `ipaddr`. -/
def ipaddr : Bytes 4 := ⟨[192, 168, 7, 1], rfl⟩

/-- `dhcp_config`. -/
def mainConfig : DhcpConfig where
  addr := ⟨[192, 168, 7, 1], rfl⟩
  dns := ⟨[192, 168, 7, 1], rfl⟩
  domain := some [0x73, 0x74, 0x6d]
  fits := by decide

/-- One of the `entries`. -/
def mainEntry (host : UInt8) : DhcpEntry where
  mac := zeroBytes 6
  addr := ⟨[192, 168, 7, host], rfl⟩
  subnet := ⟨[255, 255, 255, 0], rfl⟩
  lease := 86400

/-- `entries`. -/
def mainEntries : List DhcpEntry := [mainEntry 2, mainEntry 3, mainEntry 4]

end Stm32Ecm.Dhcp
