import Mathlib.Data.Int.Notation
import Stm32Ecm.Dhcp.Server
import Stm32Ecm.Library.DnsMessage

/-!
The DNS server (`dnserver.c`).

* `DnsQuery`: the static `query` of `udp_recv_proc`, kept from one datagram to the next; its name
  is a memory of which the first `DNS_MAX_HOST_NAME_LEN` cells are used;
* `labelLoop`, `parseNextQuery`: the parser of a question;
* `udpRecvProc`: one datagram; `replyTo` is the answer, a prefix of the datagram with a few fields
  of the header patched and one record behind it;
* `parseNextQuery_labels`: what the parser accepts is a name without pointers and four more bytes.
-/

namespace Stm32Ecm.Dns

open Dhcp (Bytes Datagram)
open DnsMessage

/-! ### The parser -/

/-- `DNS_MAX_HOST_NAME_LEN`. -/
def dnsMaxHostNameLen : ℕ := 128

/-- `dns_query_t`. -/
structure DnsQuery where
  name : ℕ → UInt8
  type : ℕ
  Class : ℕ

/-- `get_uint16`: the bytes as they lie in memory, low byte first. -/
def getUint16 (data : ℕ → UInt8) (pnt : ℕ) : ℕ :=
  (data pnt).toNat + 256 * (data (pnt + 1)).toNat

/-- The locals of `parse_next_query` and the name it writes. -/
structure Cursor where
  ptr : ℕ
  size : ℕ
  len : ℕ
  lables : ℕ
  name : ℕ → UInt8

/-- The name after the separator, if one is written. -/
def Cursor.separate (c : Cursor) : Cursor :=
  if 0 < c.lables then { c with name := Memory.write c.name c.len [46], len := c.len + 1 } else c

/-- The label behind the cursor, copied. -/
def Cursor.copyLabel (c : Cursor) (data : ℕ → UInt8) (lableLen : ℕ) : Cursor where
  ptr := c.ptr + lableLen
  size := c.size - lableLen
  len := c.len + lableLen
  lables := c.lables + 1
  name := Memory.write c.name c.len (Memory.read data c.ptr lableLen)

/-- The loop of `parse_next_query`, up to `break` or to a `return` with an error and the name
written so far.  Each round takes a byte, so that `size + 1` rounds are enough. -/
def labelLoop (data : ℕ → UInt8) : ℕ → Cursor → Except (ℤ × (ℕ → UInt8)) Cursor
  | 0, c => .error (-1, c.name)
  | fuel + 1, c =>
      if c.size = 0 then .error (-1, c.name)
      else
        let lableLen := (data c.ptr).toNat
        let c := { c with ptr := c.ptr + 1, size := c.size - 1 }
        if lableLen = 0 then .ok c
        -- the separator is written before the label is known to fit
        else if 0 < c.lables ∧ c.len = dnsMaxHostNameLen then .error (-2, c.name)
        else
          let c := c.separate
          if lableLen > c.size then .error (-1, c.name)
          else if c.len + lableLen ≥ dnsMaxHostNameLen then .error (-2, c.name)
          else labelLoop data fuel (c.copyLabel data lableLen)

/-- `parse_next_query`: the length of the question or an error, and the query. -/
def parseNextQuery (data : ℕ → UInt8) (size : ℕ) (query : DnsQuery) : ℤ × DnsQuery :=
  match labelLoop data (size + 1) ⟨0, size, 0, 0, query.name⟩ with
  | .error (err, name) => (err, { query with name })
  | .ok c =>
      if c.size < 4 then (-1, { query with name := c.name })
      else
        (c.ptr + 4, { name := Memory.write c.name c.len [0]
                      type := getUint16 data c.ptr
                      Class := getUint16 data (c.ptr + 2) })

/-! ### One datagram -/

/-- `sizeof(dns_header_t)`. -/
def sizeofDnsHeader : ℕ := 12

/-- The bytes behind the header. -/
def question (payload : List UInt8) : ℕ → UInt8 := fun i => payload.getD (sizeofDnsHeader + i) 0

/-- A name as the C string that `query_proc` is given. -/
def cString (name : ℕ → UInt8) : List UInt8 :=
  (Memory.read name 0 dnsMaxHostNameLen).takeWhile (· ≠ 0)

/-- `dns_answer_t`: the name `0xC00C`, the type and the class 1, the time to live 32, the length 4
and the address. -/
def dnsAnswer (addr : Bytes 4) : List UInt8 :=
  [0xC0, 0x0C, 0, 1, 0, 1, 0, 0, 0, 32, 0, 4] ++ addr.1

/-- The reply: the first `len` bytes of the datagram with `flags.qr` and `n_record[1]` set to 1,
and the answer. -/
def replyTo (payload : List UInt8) (len : ℕ) (addr : Bytes 4) : List UInt8 :=
  (((payload.take len).modify 2 (· ||| 0x80)).set 6 0).set 7 1 ++ dnsAnswer addr

/-- `udp_recv_proc`: the query after it and the reply, if one is sent. -/
def udpRecvProc (queryProc : List UInt8 → Option (Bytes 4)) (query : DnsQuery) (p : Datagram) :
    DnsQuery × Option (List UInt8) :=
  if p.payload.length ≤ sizeofDnsHeader then (query, none)
  -- `flags.qr` is the high bit of the third byte, `n_record[0]` the third word
  else if p.payload.getD 2 0 &&& 0x80 ≠ 0 then (query, none)
  else if field p.payload 4 ≠ 1 then (query, none)
  else
    let out := parseNextQuery (question p.payload) (p.payload.length - sizeofDnsHeader) query
    if out.1 < 0 then (out.2, none)
    else
      match queryProc (cString out.2.name) with
      | none => (out.2, none)
      | some addr =>
          if p.alloc then (out.2, some (replyTo p.payload (out.1.toNat + sizeofDnsHeader) addr))
          else (out.2, none)

/-! ### What the parser accepts -/

section Parser

variable {data : ℕ → UInt8} {c c' : Cursor} {fuel size : ℕ} {query : DnsQuery}

@[simp] lemma Cursor.ptr_separate : c.separate.ptr = c.ptr := by
  rw [Cursor.separate]
  split_ifs <;> rfl

@[simp] lemma Cursor.size_separate : c.separate.size = c.size := by
  rw [Cursor.separate]
  split_ifs <;> rfl

@[simp] lemma Cursor.lables_separate : c.separate.lables = c.lables := by
  rw [Cursor.separate]
  split_ifs <;> rfl

lemma Cursor.len_separate : c.separate.len = if 0 < c.lables then c.len + 1 else c.len := by
  rw [Cursor.separate]
  split_ifs <;> rfl

/-- **Inversion** of a round that does not fail: the end of the name, or one label and the rest. -/
lemma labelLoop_succ_eq_ok (h : labelLoop data (fuel + 1) c = .ok c') :
    0 < c.size ∧
      ((data c.ptr = 0 ∧ c' = { c with ptr := c.ptr + 1, size := c.size - 1 }) ∨
        ∃ b : Cursor, b.ptr = c.ptr + 1 ∧ b.size = c.size - 1 ∧ b.lables = c.lables ∧
          b.len = (if 0 < c.lables then c.len + 1 else c.len) ∧ (data c.ptr).toNat ≠ 0 ∧
          (data c.ptr).toNat ≤ b.size ∧ b.len + (data c.ptr).toNat < dnsMaxHostNameLen ∧
          labelLoop data fuel (b.copyLabel data (data c.ptr).toNat) = .ok c') := by
  rw [labelLoop] at h
  simp only at h
  split_ifs at h with hsize hzero hfull hfits hlong
  · refine ⟨by omega, Or.inl ⟨?_, ?_⟩⟩
    · rw [← UInt8.toNat_inj, hzero, UInt8.toNat_zero]
    · exact (Except.ok.inj h).symm
  · exact ⟨by omega, Or.inr ⟨Cursor.separate { c with ptr := c.ptr + 1, size := c.size - 1 },
      Cursor.ptr_separate, Cursor.size_separate, Cursor.lables_separate, Cursor.len_separate,
      hzero, by omega, by omega, h⟩⟩

lemma labelLoop_eq_error {e : ℤ × (ℕ → UInt8)} (h : labelLoop data fuel c = .error e) :
    e.1 < 0 := by
  induction fuel generalizing c with
  | zero => exact (Except.error.inj h) ▸ (by decide : (-1 : ℤ) < 0)
  | succ fuel ih =>
      rw [labelLoop] at h
      simp only at h
      split_ifs at h
      · exact (Except.error.inj h) ▸ (by decide : (-1 : ℤ) < 0)
      · exact (Except.error.inj h) ▸ (by decide : (-2 : ℤ) < 0)
      · exact (Except.error.inj h) ▸ (by decide : (-1 : ℤ) < 0)
      · exact (Except.error.inj h) ▸ (by decide : (-2 : ℤ) < 0)
      · exact ih h

/-- **The loop** accepts names without pointers, and short ones only. -/
lemma labelLoop_eq_ok (hlen : c.len < dnsMaxHostNameLen) (h : labelLoop data fuel c = .ok c') :
    ∃ ls, (∀ l ∈ ls, l ≠ []) ∧
      Memory.read data c.ptr (nameOctets ls) = encodeName ls ∧
      c'.ptr = c.ptr + nameOctets ls ∧ c.size = c'.size + nameOctets ls ∧
      c.len + nameOctets ls ≤ if 0 < c.lables then 128 else 129 := by
  induction fuel generalizing c with
  | zero => cases h
  | succ fuel ih =>
      obtain ⟨hsize, ⟨hzero, rfl⟩ | ⟨b, hptr, hbsize, hlab, hblen, hne, hfits, hshort, hrec⟩⟩ :=
        labelLoop_succ_eq_ok h
      · refine ⟨[], by simp, ?_, rfl, ?_, ?_⟩
        · rw [nameOctets, List.map_nil, List.sum_nil, Memory.read_succ, hzero]
          rfl
        · simp only [nameOctets, List.map_nil, List.sum_nil]
          omega
        · simp only [nameOctets, List.map_nil, List.sum_nil, dnsMaxHostNameLen] at hlen ⊢
          split_ifs <;> omega
      · have hmore : 0 < (b.copyLabel data (data c.ptr).toNat).lables := Nat.succ_pos b.lables
        obtain ⟨ls, hls, hread, hptr', hsize', hle⟩ := ih hshort hrec
        rw [if_pos hmore] at hle
        simp only [Cursor.copyLabel] at hread hptr' hsize' hle
        have hocts : nameOctets (Memory.read data (c.ptr + 1) (data c.ptr).toNat :: ls) =
            (data c.ptr).toNat + nameOctets ls + 1 := by
          simp only [nameOctets, List.map_cons, List.sum_cons, Memory.length_read]
          omega
        refine ⟨Memory.read data (c.ptr + 1) (data c.ptr).toNat :: ls, ?_, ?_, ?_, ?_, ?_⟩
        · intro l hl
          rcases List.mem_cons.mp hl with rfl | hl
          · exact List.ne_nil_of_length_pos (by rw [Memory.length_read]; omega)
          · exact hls l hl
        · rw [hocts, Memory.read_succ, Memory.read_add, ← hptr, hread, encodeName_cons,
            Memory.length_read, UInt8.ofNat_toNat]
        · rw [hocts]
          omega
        · rw [hocts]
          omega
        · rw [hocts]
          split_ifs at hblen ⊢ <;> omega

/-- **What the parser accepts**: a name without pointers and four more bytes. -/
lemma parseNextQuery_labels (h : 0 ≤ (parseNextQuery data size query).1) :
    ∃ ls, (∀ l ∈ ls, l ≠ []) ∧ nameOctets ls ≤ 129 ∧
      Memory.read data 0 (nameOctets ls) = encodeName ls ∧ nameOctets ls + 4 ≤ size ∧
      (parseNextQuery data size query).1 = nameOctets ls + 4 := by
  rw [parseNextQuery] at h ⊢
  cases hloop : labelLoop data (size + 1) ⟨0, size, 0, 0, query.name⟩ with
  | error e =>
      have hneg := labelLoop_eq_error hloop
      rw [hloop] at h
      exact absurd h (Int.not_le.mpr hneg)
  | ok c =>
      obtain ⟨ls, hls, hread, hptr, hsize, hle⟩ :=
        labelLoop_eq_ok (show 0 < dnsMaxHostNameLen by decide) hloop
      simp only [hloop] at h ⊢
      simp only [Nat.zero_add, Nat.lt_irrefl, if_false] at hptr hsize hle
      split_ifs at h ⊢ with hfour
      · exact absurd h (show ¬ (0 : ℤ) ≤ -1 by decide)
      · refine ⟨ls, hls, hle, hread, by omega, ?_⟩
        rw [hptr]

end Parser

/-! ### The configuration of `main.c` -/

/-- `dns_query_proc`: `run.stm` and `www.run.stm` have the address of the device. -/
def dnsQueryProc (name : List UInt8) : Option (Bytes 4) :=
  if name = [114, 117, 110, 46, 115, 116, 109] ∨
      name = [119, 119, 119, 46, 114, 117, 110, 46, 115, 116, 109] then
    some Dhcp.ipaddr
  else none

end Stm32Ecm.Dns
