import Stm32Ecm.Dns.Server

/-!
The replies of the DNS server, read as messages of RFC 1035.

* `AnswersQuery`: the reply is a message of the grammar with the identifier and the question of the
  query and one answer, for the name of the question;
* `Accepted`: the parts of a datagram that the server answers;
* `Accepted.parseMessage_reply`: the reply to it is a message of the grammar exactly if the header
  of the query counts nothing behind the question and the labels of the question are short;
* `reply_well_formed_iff`: hence the server answers a query correctly exactly in this case.
-/

namespace Stm32Ecm.Dns

open Dhcp (Bytes Datagram)
open DnsMessage

/-- **A correct reply.**  The reply is a message of the grammar: `parseMessage` reads as many
questions and records as its counts say, and nothing is left.  It has the identifier of the query,
is marked as a response, repeats the question of the query byte for byte, and has one answer, for
the name of this question, of type A and class IN and with the address. -/
def AnswersQuery (query reply : List UInt8) (addr : Bytes 4) : Prop :=
  ∃ m q ttl bytes rest rest', parseMessage reply = some m ∧ m.id = field query 0 ∧ m.qr = true ∧
    query.drop 12 = bytes ++ rest ∧ parseQuestion query (query.drop 12) = some (q, rest) ∧
    reply.drop 12 = bytes ++ rest' ∧ m.questions = [q] ∧
    m.answers = [⟨q.name, 1, 1, ttl, addr.1⟩] ∧ m.authority = [] ∧ m.additional = []

/-- The question of the query starts with labels of at most 63 bytes, up to a zero byte. -/
def ShortLabels (query : List UInt8) : Prop :=
  ∃ ls, (∀ l ∈ ls, l ≠ [] ∧ l.length < 64) ∧ encodeName ls <+: query.drop 12

/-- The parts of a datagram that the parser accepts: the header, the labels of the name, the type
and the class of the question, and the rest. -/
structure Accepted where
  (b₀ b₁ b₂ b₃ b₄ b₅ b₆ b₇ b₈ b₉ b₁₀ b₁₁ : UInt8)
  labels : List (List UInt8)
  (t₁ t₂ c₁ c₂ : UInt8)
  rest : List UInt8
  ne_nil : ∀ l ∈ labels, l ≠ []
  octets : nameOctets labels ≤ 129

/-- The datagram. -/
def Accepted.payload (a : Accepted) : List UInt8 :=
  a.b₀ :: a.b₁ :: a.b₂ :: a.b₃ :: a.b₄ :: a.b₅ :: a.b₆ :: a.b₇ :: a.b₈ :: a.b₉ :: a.b₁₀ ::
    a.b₁₁ :: (encodeName a.labels ++ a.t₁ :: a.t₂ :: a.c₁ :: a.c₂ :: a.rest)

/-- The reply, byte by byte. -/
def Accepted.reply (a : Accepted) (addr : Bytes 4) : List UInt8 :=
  a.b₀ :: a.b₁ :: (a.b₂ ||| 0x80) :: a.b₃ :: a.b₄ :: a.b₅ :: 0 :: 1 :: a.b₈ :: a.b₉ :: a.b₁₀ ::
    a.b₁₁ :: (encodeName a.labels ++ a.t₁ :: a.t₂ :: a.c₁ :: a.c₂ :: dnsAnswer addr)

section Parts

variable {payload : List UInt8} {query : DnsQuery} {addr : Bytes 4}

/-- What the parser accepts has these parts. -/
lemma exists_accepted (hlen : sizeofDnsHeader < payload.length)
    (h : 0 ≤ (parseNextQuery (question payload) (payload.length - sizeofDnsHeader) query).1) :
    ∃ a : Accepted, payload = a.payload ∧
      (parseNextQuery (question payload) (payload.length - sizeofDnsHeader) query).1 =
        nameOctets a.labels + 4 := by
  obtain ⟨ls, hls, hocts, hread, hfits, hout⟩ := parseNextQuery_labels h
  rw [sizeofDnsHeader] at hlen hfits
  have htake : (payload.drop 12).take (nameOctets ls) = encodeName ls :=
    (Memory.read_getD (by omega)).symm.trans hread
  match payload, hlen with
  | b₀ :: b₁ :: b₂ :: b₃ :: b₄ :: b₅ :: b₆ :: b₇ :: b₈ :: b₉ :: b₁₀ :: b₁₁ :: tail, hlen =>
      have hbehind : 4 ≤ (tail.drop (nameOctets ls)).length := by
        simp only [List.length_cons, List.length_drop] at hfits ⊢
        omega
      obtain ⟨t₁, t₂, c₁, c₂, rest, hrest⟩ :
          ∃ t₁ t₂ c₁ c₂ rest, tail.drop (nameOctets ls) = t₁ :: t₂ :: c₁ :: c₂ :: rest := by
        match tail.drop (nameOctets ls), hbehind with
        | t₁ :: t₂ :: c₁ :: c₂ :: rest, _ => exact ⟨t₁, t₂, c₁, c₂, rest, rfl⟩
      have htail : tail = encodeName ls ++ t₁ :: t₂ :: c₁ :: c₂ :: rest := by
        rw [← hrest, ← htake]
        exact (List.take_append_drop (nameOctets ls) tail).symm
      exact ⟨⟨b₀, b₁, b₂, b₃, b₄, b₅, b₆, b₇, b₈, b₉, b₁₀, b₁₁, ls, t₁, t₂, c₁, c₂, rest,
        hls, hocts⟩, by rw [htail]; rfl, hout⟩

variable (a : Accepted)

lemma Accepted.short {l : List UInt8} (hl : l ∈ a.labels) : l ≠ [] ∧ l.length < 192 := by
  have hle := length_add_two_le_nameOctets hl
  have hocts := a.octets
  exact ⟨a.ne_nil l hl, by omega⟩

lemma Accepted.replyTo_payload :
    replyTo a.payload (nameOctets a.labels + 4 + sizeofDnsHeader) addr = a.reply addr := by
  have htake : (encodeName a.labels ++ a.t₁ :: a.t₂ :: a.c₁ :: a.c₂ :: a.rest).take
      (nameOctets a.labels + 4) = encodeName a.labels ++ [a.t₁, a.t₂, a.c₁, a.c₂] := by
    rw [← length_encodeName, List.take_length_add_append]
    rfl
  rw [replyTo, Accepted.payload, sizeofDnsHeader]
  simp only [List.take_succ_cons, htake]
  simp [Accepted.reply]

/-- The query and the reply have the same question. -/
lemma Accepted.parseQuestion_eq {msg rest : List UInt8} (hlen : a.labels.length < msg.length) :
    parseQuestion msg (encodeName a.labels ++ a.t₁ :: a.t₂ :: a.c₁ :: a.c₂ :: rest) =
      if ∀ l ∈ a.labels, l.length < 64 then
        some (⟨a.labels, word a.t₁ a.t₂, word a.c₁ a.c₂⟩, rest) else none := by
  have hocts := a.octets
  exact parseQuestion_encodeName hlen (by omega) fun l => a.short

lemma length_dnsAnswer : (dnsAnswer addr).length = 16 := by
  rw [dnsAnswer, List.length_append, addr.2]
  rfl

lemma Accepted.length_reply : (a.reply addr).length = nameOctets a.labels + 32 := by
  simp only [Accepted.reply, List.length_cons, List.length_append, length_encodeName,
    length_dnsAnswer]

lemma Accepted.drop_reply : (a.reply addr).drop 12 =
    encodeName a.labels ++ a.t₁ :: a.t₂ :: a.c₁ :: a.c₂ :: dnsAnswer addr := rfl

/-- The pointer of the answer leads to the name of the question. -/
lemma Accepted.parseName_dnsAnswer (hshort : ∀ l ∈ a.labels, l.length < 64) :
    parseName (a.reply addr) (dnsAnswer addr) =
      some (a.labels, [0, 1, 0, 1, 0, 0, 0, 32, 0, 4] ++ addr.1) := by
  have hlen := @Accepted.length_reply addr a
  have hlabels := @length_lt_nameOctets a.labels
  have hocts := a.octets
  have hpointer : parseLabels (a.reply addr) (nameOctets a.labels + 31 + 1) (dnsAnswer addr) =
      some (a.labels, [0, 1, 0, 1, 0, 0, 0, 32, 0, 4] ++ addr.1) := by
    rw [dnsAnswer, List.cons_append, List.cons_append, parseLabels_pointer (by decide), if_pos ?_]
    · rw [show 256 * (UInt8.toNat 0xC0 - 192) + UInt8.toNat 0x0C = 12 from rfl, a.drop_reply,
        parseLabels_encodeName (by omega) fun l => a.short, if_pos hshort, Option.map_some]
    · rw [hlen, List.length_append, addr.2]
      simp only [UInt8.reduceToNat, List.length_cons, List.length_nil]
      omega
  rw [parseName, hlen, hpointer]
  simp only [Option.filter_some, decide_eq_true_eq]
  rw [if_pos (by omega)]

/-- The answer of the reply. -/
lemma Accepted.parseRecord_dnsAnswer (hshort : ∀ l ∈ a.labels, l.length < 64) :
    parseRecord (a.reply addr) (dnsAnswer addr) = some (⟨a.labels, 1, 1, 32, addr.1⟩, []) := by
  have hlen : word 0 4 = addr.1.length := addr.2.symm
  rw [parseRecord, a.parseName_dnsAnswer hshort, Option.bind_some]
  simp only [List.cons_append, List.nil_append]
  rw [hlen, if_pos (Nat.le_refl _), List.take_length, List.drop_length]
  rfl

/-- **The reply as a message.** -/
lemma Accepted.parseMessage_reply (hqd : word a.b₄ a.b₅ = 1) :
    parseMessage (a.reply addr) =
      if (∀ l ∈ a.labels, l.length < 64) ∧ word a.b₈ a.b₉ = 0 ∧ word a.b₁₀ a.b₁₁ = 0 then
        some ⟨word a.b₀ a.b₁, true, [⟨a.labels, word a.t₁ a.t₂, word a.c₁ a.c₂⟩],
          [⟨a.labels, 1, 1, 32, addr.1⟩], [], []⟩
      else none := by
  have hlen := @Accepted.length_reply addr a
  have hlabels := @length_lt_nameOctets a.labels
  have hqr : 128 ≤ ((a.reply addr).getD 2 0).toNat := by
    show 128 ≤ (a.b₂ ||| 0x80).toNat
    rw [UInt8.toNat_or]
    exact Nat.right_le_or
  have hfields : field (a.reply addr) 0 = word a.b₀ a.b₁ ∧ field (a.reply addr) 4 = 1 ∧
      field (a.reply addr) 6 = 1 ∧ field (a.reply addr) 8 = word a.b₈ a.b₉ ∧
      field (a.reply addr) 10 = word a.b₁₀ a.b₁₁ := ⟨rfl, hqd, rfl, rfl, rfl⟩
  obtain ⟨h0, h4, h6, h8, h10⟩ := hfields
  rw [parseMessage, if_neg (by omega), h0, h4, h6, h8, h10, a.drop_reply, decide_eq_true hqr]
  simp only [parseMany]
  rw [a.parseQuestion_eq (by omega)]
  by_cases hshort : ∀ l ∈ a.labels, l.length < 64
  · rw [if_pos hshort, Option.bind_some, Option.map_some, Option.bind_some,
      a.parseRecord_dnsAnswer hshort, Option.bind_some, Option.map_some, Option.bind_some,
      parseMany_parseRecord_nil]
    by_cases hns : word a.b₈ a.b₉ = 0
    · rw [if_pos hns, Option.bind_some, parseMany_parseRecord_nil]
      by_cases har : word a.b₁₀ a.b₁₁ = 0
      · simpa [har, hns] using hshort
      · simp [har]
    · simp [hns]
  · rw [if_neg hshort, if_neg fun h => hshort h.1]
    rfl

lemma Accepted.shortLabels_iff : ShortLabels a.payload ↔ ∀ l ∈ a.labels, l.length < 64 := by
  have hdrop : a.payload.drop 12 =
      encodeName a.labels ++ a.t₁ :: a.t₂ :: a.c₁ :: a.c₂ :: a.rest := rfl
  rw [ShortLabels, hdrop]
  constructor
  · rintro ⟨ls, hls, rest, hrest⟩
    have heq : ls = a.labels := by
      refine (encodeName_append_inj (fun l hl => ?_) (fun l hl => ?_) hrest).1
      · have hlt := (hls l hl).2
        exact ⟨(hls l hl).1, by omega⟩
      · have hlt := (a.short hl).2
        exact ⟨(a.short hl).1, by omega⟩
    rw [← heq]
    exact fun l hl => (hls l hl).2
  · intro hshort
    exact ⟨a.labels, fun l hl => ⟨a.ne_nil l hl, hshort l hl⟩, List.prefix_append _ _⟩

/-- The reply answers the query if it is a message of the grammar. -/
lemma Accepted.answersQuery_iff (hqd : word a.b₄ a.b₅ = 1) :
    AnswersQuery a.payload (a.reply addr) addr ↔
      field a.payload 8 = 0 ∧ field a.payload 10 = 0 ∧ ShortLabels a.payload := by
  rw [a.shortLabels_iff]
  have hparse := @Accepted.parseMessage_reply addr a hqd
  constructor
  · rintro ⟨m, q, ttl, bytes, rest, rest', hm, -⟩
    rw [hparse] at hm
    split_ifs at hm with hgood
    exact ⟨hgood.2.1, hgood.2.2, hgood.1⟩
  · rintro ⟨hns, har, hshort⟩
    rw [if_pos ⟨hshort, hns, har⟩] at hparse
    have hlt : a.labels.length < a.payload.length := by
      have hlabels := @length_lt_nameOctets a.labels
      simp only [Accepted.payload, List.length_cons, List.length_append, length_encodeName]
      omega
    refine ⟨_, ⟨a.labels, word a.t₁ a.t₂, word a.c₁ a.c₂⟩, 32,
      encodeName a.labels ++ [a.t₁, a.t₂, a.c₁, a.c₂], a.rest, dnsAnswer addr, hparse, rfl, rfl,
      ?_, ?_, ?_, rfl, rfl, rfl, rfl⟩
    · rw [List.append_assoc]
      rfl
    · have hq := @Accepted.parseQuestion_eq a a.payload a.rest hlt
      rw [if_pos hshort] at hq
      exact hq
    · rw [a.drop_reply, List.append_assoc]
      rfl

/-- **Inversion** of an answered datagram. -/
lemma udpRecvProc_eq_some {queryProc : List UInt8 → Option (Bytes 4)} {p : Datagram}
    {r : List UInt8} (h : (udpRecvProc queryProc query p).2 = some r) :
    ∃ (a : Accepted) (addr : Bytes 4), p.payload = a.payload ∧ word a.b₄ a.b₅ = 1 ∧
      queryProc (cString (udpRecvProc queryProc query p).1.name) = some addr ∧
      r = a.reply addr := by
  rw [udpRecvProc] at h ⊢
  simp only at h ⊢
  split_ifs at h ⊢ with hlen hqr hqd hneg halloc
  · obtain ⟨a, hpayload, hout⟩ := exists_accepted (by omega) (Int.not_lt.mp hneg)
    cases haddr : queryProc (cString (parseNextQuery (question p.payload)
        (p.payload.length - sizeofDnsHeader) query).2.name) with
    | none =>
        rw [haddr] at h
        cases h
    | some addr =>
        simp only [haddr] at h ⊢
        refine ⟨a, addr, hpayload, ?_, rfl, ?_⟩
        · have hfield := not_not.mp hqd
          rw [hpayload] at hfield
          exact hfield
        · rw [hout] at h
          rw [← a.replyTo_payload, ← hpayload]
          exact (Option.some.inj h).symm
  · cases haddr : queryProc (cString (parseNextQuery (question p.payload)
        (p.payload.length - sizeofDnsHeader) query).2.name) <;> rw [haddr] at h <;> cases h

end Parts

/-- **Replies.**  For every datagram that is answered, with the address that `query_proc` gives,
the reply is a correct one if and only if the header of the query counts no authority and no
additional records and the labels of the question have at most 63 bytes. -/
theorem reply_well_formed_iff (queryProc : List UInt8 → Option (Bytes 4)) (query : DnsQuery)
    (p : Datagram) (r : List UInt8) (hr : (udpRecvProc queryProc query p).2 = some r) :
    ∃ addr, queryProc (cString (udpRecvProc queryProc query p).1.name) = some addr ∧
      (AnswersQuery p.payload r addr ↔
        field p.payload 8 = 0 ∧ field p.payload 10 = 0 ∧ ShortLabels p.payload) := by
  obtain ⟨a, addr, hpayload, hqd, haddr, rfl⟩ := udpRecvProc_eq_some hr
  rw [hpayload]
  exact ⟨addr, haddr, a.answersQuery_iff hqd⟩

/-- The query before the first datagram. -/
def noQuery : DnsQuery := ⟨fun _ => 0, 0, 0⟩

/-- A query for the address of `run.stm`. -/
def plainQuery : List UInt8 :=
  [0x12, 0x34, 1, 0, 0, 1, 0, 0, 0, 0, 0, 0, 3, 114, 117, 110, 3, 115, 116, 109, 0, 0, 1, 0, 1]

/-- The same with an EDNS record behind the question, which is counted as an additional one. -/
def ednsQuery : List UInt8 :=
  [0x12, 0x34, 1, 0, 0, 1, 0, 0, 0, 0, 0, 1, 3, 114, 117, 110, 3, 115, 116, 109, 0, 0, 1, 0, 1,
    0, 0, 41, 16, 0, 0, 0, 0, 0, 0, 0]

theorem reply_well_formed_iff_plainQuery :
    ∃ r, (udpRecvProc dnsQueryProc noQuery ⟨plainQuery, true⟩).2 = some r ∧
      AnswersQuery plainQuery r ⟨[192, 168, 7, 1], rfl⟩ := by
  obtain ⟨r, hr⟩ : ∃ r, (udpRecvProc dnsQueryProc noQuery ⟨plainQuery, true⟩).2 = some r :=
    Option.isSome_iff_exists.mp (by decide +kernel)
  obtain ⟨addr, haddr, hiff⟩ := reply_well_formed_iff dnsQueryProc noQuery ⟨plainQuery, true⟩ r hr
  have hmain : dnsQueryProc (cString (udpRecvProc dnsQueryProc noQuery
      ⟨plainQuery, true⟩).1.name) = some ⟨[192, 168, 7, 1], rfl⟩ := by decide +kernel
  obtain rfl : addr = ⟨[192, 168, 7, 1], rfl⟩ := Option.some.inj (haddr.symm.trans hmain)
  refine ⟨r, hr, hiff.mpr ⟨by decide, by decide, [[114, 117, 110], [115, 116, 109]], ?_, ?_⟩⟩
  · decide
  · decide

/-- The reply to the query with an EDNS record counts an additional record that it does not
have. -/
theorem edns_reply_malformed :
    ∃ r, (udpRecvProc dnsQueryProc noQuery ⟨ednsQuery, true⟩).2 = some r ∧
      field r 10 = 1 ∧ parseMessage r = none ∧ ∀ addr, ¬ AnswersQuery ednsQuery r addr := by
  obtain ⟨r, hr, hcount, hnone⟩ :
      ∃ r, (udpRecvProc dnsQueryProc noQuery ⟨ednsQuery, true⟩).2 = some r ∧ field r 10 = 1 ∧
        parseMessage r = none := ⟨_, rfl, by decide +kernel, by decide +kernel⟩
  refine ⟨r, hr, hcount, hnone, fun addr h => ?_⟩
  obtain ⟨m, q, ttl, bytes, rest, rest', hm, -⟩ := h
  rw [hnone] at hm
  cases hm

end Stm32Ecm.Dns
