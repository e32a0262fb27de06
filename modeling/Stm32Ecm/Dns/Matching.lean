import Stm32Ecm.Library.CString
import Stm32Ecm.Dns.Parser
import Stm32Ecm.Dns.Reply

/-!
The questions that the DNS server answers.

* `Answerable`: what a datagram must be to be answered, in terms of the labels of its question;
  `exists_answerable` and `Answerable.answered` say that just these datagrams are;
* `MatchesQuestion`: the answer has the type and the class of the question; the server reads these
  two words and does not look at them (`answer_matches_iff`);
* `Plain`: labels without dots and zero bytes.  They can be read back from the C string that
  `query_proc` is given (`eq_of_presented_eq`), and no others can be told from them
  (`labels_faithful_iff`).
-/

namespace Stm32Ecm.Dns

open Dhcp (Bytes Datagram)
open DnsMessage

/-! ### What is presented to `query_proc` -/

/-- The joined labels as a C string. -/
def presented (ls : List (List UInt8)) : List UInt8 := (joined ls).takeWhile (· ≠ 0)

/-- The labels of the question of a datagram. -/
def Asks (payload : List UInt8) (ls : List (List UInt8)) : Prop :=
  IsQuestion (question payload) (payload.length - sizeofDnsHeader) ls

section Presented

variable {data : ℕ → UInt8} {size : ℕ} {query : DnsQuery} {ls : List (List UInt8)}

lemma IsQuestion.cString_eq (h : IsQuestion data size ls) :
    cString (parseNextQuery data size query).2.name = presented ls := by
  have hshort := h.short
  obtain ⟨k, hk⟩ : ∃ k, dnsMaxHostNameLen = (joined ls ++ [0]).length + k :=
    ⟨127 - (joined ls).length, by rw [List.length_append, dnsMaxHostNameLen, List.length_singleton]
                                  omega⟩
  rw [h.parseNextQuery_eq, cString, hk, Memory.read_add, Memory.read_write_self, List.append_assoc]
  exact CString.takeWhile_ne_append_cons

end Presented

/-! ### What is answered -/

/-- **An answerable datagram**: a query of more than a header, not a response, with one question
for a name that `query_proc` knows, and there is memory for the reply. -/
structure Answerable (queryProc : List UInt8 → Option (Bytes 4)) (p : Datagram)
    (ls : List (List UInt8)) : Prop where
  long : sizeofDnsHeader < p.payload.length
  query : p.payload.getD 2 0 &&& 0x80 = 0
  one : field p.payload 4 = 1
  asks : Asks p.payload ls
  known : (queryProc (presented ls)).isSome
  alloc : p.alloc

/-- **The answer matches the question**: the type and the class of the record behind the question
in the reply are those of the question. -/
def MatchesQuestion (payload reply : List UInt8) : Prop :=
  ∃ ls, Asks payload ls ∧
    field payload (sizeofDnsHeader + nameOctets ls) =
      field reply (sizeofDnsHeader + nameOctets ls + 4 + 2) ∧
    field payload (sizeofDnsHeader + nameOctets ls + 2) =
      field reply (sizeofDnsHeader + nameOctets ls + 4 + 4)

/-- The question is for an address of the internet: type A, class IN. -/
def AsksForAddress (payload : List UInt8) (ls : List (List UInt8)) : Prop :=
  field payload (sizeofDnsHeader + nameOctets ls) = 1 ∧
    field payload (sizeofDnsHeader + nameOctets ls + 2) = 1

section Answers

variable {queryProc : List UInt8 → Option (Bytes 4)} {query : DnsQuery} {p : Datagram}
  {ls : List (List UInt8)} {r : List UInt8} {addr : Bytes 4}

lemma Answerable.answered (h : Answerable queryProc p ls) :
    ∃ r, (udpRecvProc queryProc query p).2 = some r := by
  obtain ⟨addr, haddr⟩ := Option.isSome_iff_exists.mp h.known
  have hlong := h.long
  have hpos : ¬ (parseNextQuery (question p.payload) (p.payload.length - sizeofDnsHeader)
      query).1 < 0 := by
    rw [IsQuestion.parseNextQuery_eq h.asks]
    exact Int.not_lt.mpr (Int.natCast_nonneg _)
  rw [udpRecvProc, if_neg (by omega), if_neg (not_not.mpr h.query), if_neg (not_not.mpr h.one)]
  simp only [if_neg hpos, IsQuestion.cString_eq h.asks, haddr, h.alloc, if_true]
  exact ⟨_, rfl⟩

/-- **Answered datagrams** are answerable. -/
lemma exists_answerable (h : (udpRecvProc queryProc query p).2 = some r) :
    ∃ ls, Answerable queryProc p ls := by
  rw [udpRecvProc] at h
  simp only at h
  split_ifs at h with hlen hqr hqd hneg halloc
  · obtain ⟨ls, hls⟩ := exists_isQuestion (Int.not_lt.mp hneg)
    refine ⟨ls, by omega, not_not.mp hqr, not_not.mp hqd, hls, ?_, halloc⟩
    rw [hls.cString_eq] at h
    cases haddr : queryProc (presented ls) with
    | none =>
        rw [haddr] at h
        cases h
    | some addr => rfl
  · obtain ⟨ls, hls⟩ := exists_isQuestion (Int.not_lt.mp hneg)
    rw [hls.cString_eq] at h
    cases haddr : queryProc (presented ls) <;> rw [haddr] at h <;> cases h

lemma Accepted.asks (a : Accepted) : Asks a.payload a.labels := by
  have hlen : a.payload.length = nameOctets a.labels + 4 + a.rest.length + 12 := by
    simp only [Accepted.payload, List.length_cons, List.length_append, length_encodeName]
    omega
  refine ⟨fun l hl => ⟨a.ne_nil l hl, ?_⟩, ?_, ?_, ?_⟩
  · have hshort := (a.short hl).2
    omega
  · refine (Memory.read_getD (by rw [sizeofDnsHeader]; omega)).trans ?_
    rw [← length_encodeName]
    exact List.take_left
  · rw [sizeofDnsHeader]
    omega
  · have hocts := a.octets
    exact length_joined_le hocts

/-- The type and the class of the answer. -/
lemma Accepted.field_reply (a : Accepted) :
    field (a.reply addr) (sizeofDnsHeader + nameOctets a.labels + 4 + 2) = 1 ∧
      field (a.reply addr) (sizeofDnsHeader + nameOctets a.labels + 4 + 4) = 1 := by
  have hparts : a.reply addr = ([a.b₀, a.b₁, a.b₂ ||| 0x80, a.b₃, a.b₄, a.b₅, 0, 1, a.b₈, a.b₉,
      a.b₁₀, a.b₁₁] ++ (encodeName a.labels ++ [a.t₁, a.t₂, a.c₁, a.c₂])) ++ dnsAnswer addr := by
    rw [List.append_assoc, List.append_assoc]
    rfl
  have hlen : sizeofDnsHeader + nameOctets a.labels + 4 = ([a.b₀, a.b₁, a.b₂ ||| 0x80, a.b₃, a.b₄,
      a.b₅, 0, 1, a.b₈, a.b₉, a.b₁₀, a.b₁₁] ++
        (encodeName a.labels ++ [a.t₁, a.t₂, a.c₁, a.c₂])).length := by
    rw [List.length_append, List.length_append, length_encodeName, sizeofDnsHeader]
    simp only [List.length_cons, List.length_nil]
    omega
  rw [hparts, hlen]
  exact ⟨field_append rfl, field_append rfl⟩

/-- **The type and the class** of an answered question. -/
lemma matchesQuestion_iff (h : (udpRecvProc queryProc query p).2 = some r)
    (hasks : Asks p.payload ls) : MatchesQuestion p.payload r ↔ AsksForAddress p.payload ls := by
  obtain ⟨a, addr, hpayload, -, -, rfl⟩ := udpRecvProc_eq_some h
  obtain ⟨htype, hclass⟩ := @Accepted.field_reply addr a
  rw [hpayload] at hasks ⊢
  obtain rfl := IsQuestion.labels_unique hasks a.asks
  rw [AsksForAddress]
  constructor
  · rintro ⟨ls, hls, hqtype, hqclass⟩
    obtain rfl := IsQuestion.labels_unique hls a.asks
    exact ⟨hqtype.trans htype, hqclass.trans hclass⟩
  · rintro ⟨hqtype, hqclass⟩
    exact ⟨a.labels, a.asks, hqtype.trans htype.symm, hqclass.trans hclass.symm⟩

end Answers

/-- **Types and classes.**  For every datagram, the server sends no answer but one that matches the
question if and only if the datagram is not answerable or asks for an address: nothing of the
receive path looks at the type and the class. -/
theorem answer_matches_iff (queryProc : List UInt8 → Option (Bytes 4)) (query : DnsQuery)
    (p : Datagram) :
    (∀ r, (udpRecvProc queryProc query p).2 = some r → MatchesQuestion p.payload r) ↔
      ∀ ls, Answerable queryProc p ls → AsksForAddress p.payload ls := by
  constructor
  · intro hall ls hls
    obtain ⟨r, hr⟩ := @Answerable.answered queryProc query p ls hls
    exact (matchesQuestion_iff hr hls.asks).mp (hall r hr)
  · intro hall r hr
    obtain ⟨ls, hls⟩ := exists_answerable hr
    exact (matchesQuestion_iff hr hls.asks).mpr (hall ls hls)

/-- A query for the IPv6 address (type 28) of `run.stm`. -/
def aaaaQuery : List UInt8 :=
  [0x12, 0x34, 1, 0, 0, 1, 0, 0, 0, 0, 0, 0, 3, 114, 117, 110, 3, 115, 116, 109, 0, 0, 28, 0, 1]

/-- It is answered with an IPv4 address. -/
theorem aaaa_answered_with_a :
    ∃ r, (udpRecvProc dnsQueryProc noQuery ⟨aaaaQuery, true⟩).2 = some r ∧
      ¬ MatchesQuestion aaaaQuery r := by
  have hasks : Asks aaaaQuery [[114, 117, 110], [115, 116, 109]] :=
    ⟨by decide, by decide, by decide, by decide⟩
  obtain ⟨r, hr⟩ : ∃ r, (udpRecvProc dnsQueryProc noQuery ⟨aaaaQuery, true⟩).2 = some r :=
    Option.isSome_iff_exists.mp (by decide +kernel)
  refine ⟨r, hr, fun hmatch => ?_⟩
  have htype := ((matchesQuestion_iff hr hasks).mp hmatch).1
  exact absurd htype (by decide)

/-! ### Labels and C strings -/

/-- Labels without dots and zero bytes. -/
def Plain (ls : List (List UInt8)) : Prop := ∀ l ∈ ls, 46 ∉ l ∧ 0 ∉ l

section Labels

variable {ls ls' : List (List UInt8)} {x : UInt8}

lemma mem_joined (h : x ∈ joined ls) : x = 46 ∨ ∃ l ∈ ls, x ∈ l := by
  cases ls with
  | nil => simp [joined, List.intercalate] at h
  | cons l ls =>
      rw [joined_cons, List.mem_append, List.mem_flatMap] at h
      rcases h with h | ⟨l', hl', h⟩
      · exact Or.inr ⟨l, by simp, h⟩
      · rcases List.mem_cons.mp h with rfl | h
        · exact Or.inl rfl
        · exact Or.inr ⟨l', by simp [hl'], h⟩

lemma presented_of_plain (h : Plain ls) : presented ls = joined ls := by
  refine CString.takeWhile_ne_of_not_mem fun hzero => ?_
  rcases mem_joined hzero with hdot | ⟨l, hl, hmem⟩
  · cases hdot
  · exact (h l hl).2 hmem

lemma joined_eq_nil_iff (hls : ∀ l ∈ ls, l ≠ []) : joined ls = [] ↔ ls = [] := by
  cases ls with
  | nil => simp [joined, List.intercalate]
  | cons l ls =>
      have hne := hls l (by simp)
      simp [joined_cons, hne]

/-- **Plain labels** can be read back from their C string. -/
lemma eq_of_presented_eq (hne : ∀ l ∈ ls, l ≠ []) (hne' : ∀ l ∈ ls', l ≠ []) (h : Plain ls)
    (h' : Plain ls') (heq : presented ls = presented ls') : ls = ls' := by
  rw [presented_of_plain h, presented_of_plain h'] at heq
  by_cases hnil : ls = []
  · rw [hnil] at heq
    rw [hnil, (joined_eq_nil_iff hne').mp heq.symm]
  · have hnil' : ls' ≠ [] := by
      intro hls'
      rw [hls'] at heq
      exact hnil ((joined_eq_nil_iff hne).mp heq)
    calc ls = (joined ls).splitOn 46 :=
          (List.splitOn_intercalate 46 (fun l hl => (h l hl).1) hnil).symm
      _ = (joined ls').splitOn 46 := by rw [heq]
      _ = ls' := List.splitOn_intercalate 46 (fun l hl => (h' l hl).1) hnil'

lemma dnsQueryProc_isSome {name : List UInt8} (h : (dnsQueryProc name).isSome) :
    name = joined [[114, 117, 110], [115, 116, 109]] ∨
      name = joined [[119, 119, 119], [114, 117, 110], [115, 116, 109]] := by
  rw [dnsQueryProc] at h
  split_ifs at h with hname
  · exact hname
  · cases h

end Labels

/-- **Labels.**  Two questions that the parser accepts and presents to `query_proc` as the same C
string, one of them of plain labels, have the same labels if and only if both are of plain labels.
Hence the question of a datagram that is answered with `dns_query_proc` is for `run` `stm` or for
`www` `run` `stm` if and only if its labels are plain. -/
theorem labels_faithful_iff (query query' : DnsQuery) :
    (∀ data data' size size' ls ls', IsQuestion data size ls → IsQuestion data' size' ls' →
      cString (parseNextQuery data size query).2.name =
        cString (parseNextQuery data' size' query').2.name →
      Plain ls ∨ Plain ls' → (ls = ls' ↔ Plain ls ∧ Plain ls')) ∧
    ∀ p r ls, (udpRecvProc dnsQueryProc query p).2 = some r → Asks p.payload ls →
      (ls = [[114, 117, 110], [115, 116, 109]] ∨
        ls = [[119, 119, 119], [114, 117, 110], [115, 116, 109]] ↔ Plain ls) := by
  have hrun : Plain [[114, 117, 110], [115, 116, 109]] := by
    rw [Plain]
    decide
  have hwww : Plain [[119, 119, 119], [114, 117, 110], [115, 116, 109]] := by
    rw [Plain]
    decide
  refine ⟨?_, ?_⟩
  · intro data data' size size' ls ls' h h' heq hplain
    rw [h.cString_eq, h'.cString_eq] at heq
    constructor
    · rintro rfl
      exact ⟨or_self_iff.mp hplain, or_self_iff.mp hplain⟩
    · rintro ⟨hls, hls'⟩
      exact eq_of_presented_eq (fun l hl => (h.labels l hl).1) (fun l hl => (h'.labels l hl).1)
        hls hls' heq
  · intro p r ls hr hasks
    constructor
    · rintro (rfl | rfl)
      · exact hrun
      · exact hwww
    · intro hplain
      obtain ⟨ls', hls'⟩ := exists_answerable hr
      obtain rfl := IsQuestion.labels_unique hasks hls'.asks
      have hne := fun l hl => (hasks.labels l hl).1
      rcases dnsQueryProc_isSome hls'.known with hname | hname
      · rw [← presented_of_plain hrun] at hname
        exact Or.inl (eq_of_presented_eq hne (by decide) hplain hrun hname)
      · rw [← presented_of_plain hwww] at hname
        exact Or.inr (eq_of_presented_eq hne (by decide) hplain hwww hname)

/-- A query for the address of the name with the one label `run.stm`. -/
def dottedQuery : List UInt8 :=
  [0x12, 0x34, 1, 0, 0, 1, 0, 0, 0, 0, 0, 0, 7, 114, 117, 110, 46, 115, 116, 109, 0, 0, 1, 0, 1]

/-- It is told from the query for `run` `stm` by the dot, and the answered query is for one of the
two names. -/
theorem labels_faithful_iff_queries :
    ∃ ls ls' : List (List UInt8), Asks dottedQuery ls ∧ Asks plainQuery ls' ∧
      (ls = ls' ↔ Plain ls ∧ Plain ls') ∧
      ∃ r, (udpRecvProc dnsQueryProc noQuery ⟨plainQuery, true⟩).2 = some r ∧
        (ls' = [[114, 117, 110], [115, 116, 109]] ∨
          ls' = [[119, 119, 119], [114, 117, 110], [115, 116, 109]] ↔ Plain ls') := by
  have hdotted : Asks dottedQuery [[114, 117, 110, 46, 115, 116, 109]] :=
    ⟨by decide, by decide, by decide, by decide⟩
  have hasks : Asks plainQuery [[114, 117, 110], [115, 116, 109]] :=
    ⟨by decide, by decide, by decide, by decide⟩
  have hplain : Plain [[114, 117, 110], [115, 116, 109]] := by
    rw [Plain]
    decide
  obtain ⟨r, hr⟩ : ∃ r, (udpRecvProc dnsQueryProc noQuery ⟨plainQuery, true⟩).2 = some r :=
    Option.isSome_iff_exists.mp (by decide +kernel)
  have hall := labels_faithful_iff noQuery noQuery
  exact ⟨_, _, hdotted, hasks,
    hall.1 _ _ _ _ _ _ hdotted hasks (by decide +kernel) (Or.inr hplain), r, hr,
    hall.2 _ _ _ hr hasks⟩

/-- It is answered as if it were for `run` `stm`: the two questions are presented as the same C
string. -/
theorem dotted_label_answered :
    (∃ r, (udpRecvProc dnsQueryProc noQuery ⟨dottedQuery, true⟩).2 = some r) ∧
      Asks dottedQuery [[114, 117, 110, 46, 115, 116, 109]] ∧
      Asks plainQuery [[114, 117, 110], [115, 116, 109]] ∧
      cString (udpRecvProc dnsQueryProc noQuery ⟨dottedQuery, true⟩).1.name =
        cString (udpRecvProc dnsQueryProc noQuery ⟨plainQuery, true⟩).1.name ∧
      ¬ ∀ ls, Asks dottedQuery ls → ls = [[114, 117, 110], [115, 116, 109]] ∨
        ls = [[119, 119, 119], [114, 117, 110], [115, 116, 109]] := by
  have hdotted : Asks dottedQuery [[114, 117, 110, 46, 115, 116, 109]] :=
    ⟨by decide, by decide, by decide, by decide⟩
  refine ⟨Option.isSome_iff_exists.mp (by decide +kernel), hdotted, ?_, by decide +kernel, ?_⟩
  · exact ⟨by decide, by decide, by decide, by decide⟩
  · intro hall
    exact absurd (hall _ hdotted) (by decide)

end Stm32Ecm.Dns
