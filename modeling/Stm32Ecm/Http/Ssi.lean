import Mathlib.Algebra.Group.Nat.Defs
import Stm32Ecm.Http.Cgi

/-!
The sending of a page by `httpd.c`, with the server-side includes of `main.c`.

* `Tcp`: what `httpd.c` asks of a connection; when `tcp_write` accepts data, and how much can be
  sent, is left open;
* `httpWrite`, `httpSendDataSsi`, `httpSendDataNonssi`, `httpSend`: the functions of `httpd.c`, for
  `LWIP_HTTPD_SSI_INCLUDE_TAG` `0`; `none` if the loop has not ended after `ssiRounds` rounds;
* `HttpState.step`: the callbacks of the connection, between which anything may happen to it.

What `tcp_write` has accepted is kept in `sent`, and the tags found with their inserts in `tags`.
-/

namespace Stm32Ecm.Http

/-- The bytes of a string. -/
def bytes (s : String) : List UInt8 := s.toList.map fun c => UInt8.ofNat c.toNat

/-- `ERR_OK`, `ERR_MEM`, and every other `err_t`. -/
inductive Err where
  | ok
  | mem
  | other
  deriving DecidableEq

/-- `tcp_sndbuf`, `tcp_sndqueuelen`, `tcp_mss` and `tcp_write` on the states of a connection, and
`mtime` and the flags when it is in that state. -/
structure Tcp (σ : Type*) where
  sndbuf : σ → UInt16
  sndqueuelen : σ → UInt16
  mss : σ → UInt16
  write : σ → List UInt8 → Err × σ
  mtime : σ → UInt32
  flags : σ → Flags

/-- `TCP_SND_QUEUELEN`: `TCP_SND_BUF` is two segments. -/
def tcpSndQueuelen : ℕ := 8

/-- `LWIP_HTTPD_MAX_TAG_NAME_LEN`. -/
def maxTagNameLen : ℕ := 8

/-! ### The tags of `main.c` -/

/-- `ssi_tags_table`. -/
def ssiTagsTable : List (List UInt8) :=
  [bytes "systick", bytes "alpha", bytes "bravo", bytes "charlie"]

/-- `snprintf` with `"%u"`. -/
def decimal (n : UInt32) : List UInt8 :=
  (Nat.toDigits 10 n.toNat).map fun c => UInt8.ofNat c.toNat

/-- `'0' + (b & 1)`. -/
def flagDigit (b : Bool) : List UInt8 := [if b then 49 else 48]

/-- `ssi_handler`. -/
def ssiHandler (now : UInt32) (f : Flags) : ℕ → List UInt8
  | 0 => decimal now
  | 1 => flagDigit f.alpha
  | 2 => flagDigit f.bravo
  | _ => flagDigit f.charlie

/-- `get_tag_insert`. -/
def getTagInsert (now : UInt32) (f : Flags) (tagName : List UInt8) : List UInt8 :=
  match ssiTagsTable.idxOf? tagName with
  | some i => ssiHandler now f i
  | none => bytes "<b>***UNKNOWN TAG " ++ tagName ++ bytes "***</b>"

/-! ### The state of a connection -/

/-- `enum tag_check_state`. -/
inductive TagState where
  | none
  | leadin
  | found
  | leadout
  | sending
  deriving DecidableEq

/-- `struct http_ssi_state`; pointers are offsets in the file, and `tag_insert_len` is the length
of `tagInsert`. -/
structure Ssi where
  parsed : ℕ
  tagStarted : ℕ
  tagEnd : ℕ
  parseLeft : ℕ
  tagIndex : ℕ
  tagName : List UInt8
  tagInsert : List UInt8
  tagState : TagState

/-- The state of the pcb, the `struct http_state`, and what the send functions keep in locals. -/
structure Sending (σ : Type*) where
  pcb : σ
  file : ℕ
  left : ℕ
  ssi : Ssi
  len : ℕ
  err : Err
  dataToSend : Bool
  sent : List UInt8
  tags : List (List UInt8 × List UInt8)

section Send

variable {σ : Type*} (tcp : Tcp σ)

/-- The loop of `http_write`: the error, the length and the pcb afterwards. -/
def httpWriteLoop (ptr : List UInt8) : ℕ → σ → ℕ → Err × ℕ × σ
  | 0, w, len => (.mem, len, w)
  | n + 1, w, len =>
      match tcp.write w (ptr.take len) with
      | (.mem, w) =>
          let len :=
            if tcp.sndbuf w = 0 ∨ tcpSndQueuelen ≤ (tcp.sndqueuelen w).toNat then 1 else len / 2
          if 1 < len then httpWriteLoop ptr n w len else (.mem, len, w)
      | (e, w) => (e, len, w)

/-- The length is halved in each round. -/
lemma httpWriteLoop_rounds {ptr : List UInt8} {n m len : ℕ} {w : σ} (hlen : len < 2 ^ (n + 1))
    (hm : n ≤ m) : httpWriteLoop tcp ptr (m + 1) w len = httpWriteLoop tcp ptr (n + 1) w len := by
  induction n generalizing m w len with
  | zero =>
      rw [httpWriteLoop, httpWriteLoop]
      rcases tcp.write w (ptr.take len) with ⟨_ | _ | _, w'⟩
      · rfl
      · have hnot : ¬ 1 < (if tcp.sndbuf w' = 0 ∨
            tcpSndQueuelen ≤ (tcp.sndqueuelen w').toNat then 1 else len / 2) := by
          split_ifs <;> omega
        simp only [if_neg hnot]
      · rfl
  | succ n ih =>
      obtain ⟨m, rfl⟩ : ∃ k, m = k + 1 := ⟨m - 1, by omega⟩
      rw [httpWriteLoop, httpWriteLoop]
      rcases tcp.write w (ptr.take len) with ⟨_ | _ | _, w'⟩
      · rfl
      · have hless : (if tcp.sndbuf w' = 0 ∨
            tcpSndQueuelen ≤ (tcp.sndqueuelen w').toNat then 1 else len / 2) < 2 ^ (n + 1) := by
          rw [Nat.pow_succ] at hlen
          split_ifs
          · exact Nat.one_lt_two_pow (Nat.succ_ne_zero n)
          · omega
        simp only [ih hless (Nat.le_of_succ_le_succ hm)]
      · rfl

/-- 17 rounds are enough for a length of 16 bits. -/
lemma httpWriteLoop_of_le {ptr : List UInt8} {n len : ℕ} {w : σ} (hlen : len < 65536)
    (hn : 17 ≤ n) : httpWriteLoop tcp ptr n w len = httpWriteLoop tcp ptr 17 w len := by
  obtain ⟨m, rfl⟩ : ∃ m, n = m + 1 := ⟨n - 1, by omega⟩
  exact httpWriteLoop_rounds tcp (n := 16) (hlen.trans (by decide)) (by omega)

/-- `http_write`. -/
def httpWrite (w : σ) (ptr : List UInt8) (len : ℕ) : Err × ℕ × σ :=
  if len = 0 then (.ok, 0, w) else httpWriteLoop tcp ptr 17 w len

/-- `http_write`, from the bytes at `ptr`. -/
def Sending.write (s : Sending σ) (ptr : List UInt8) : Sending σ :=
  let r := httpWrite tcp s.pcb ptr s.len
  { s with
    pcb := r.2.2
    len := r.2.1
    err := r.1
    dataToSend := s.dataToSend || r.1 = .ok
    sent := if r.1 = .ok then s.sent ++ ptr.take r.2.1 else s.sent }

/-- `hs->file += len; hs->left -= len`, after a write that was accepted. -/
def Sending.advance (s : Sending σ) : Sending σ :=
  if s.err = .ok then { s with file := s.file + s.len, left := s.left - s.len } else s

/-- How much of what is parsed can be sent. -/
def Sending.limit (s : Sending σ) : ℕ :=
  let len := min (tcp.sndbuf s.pcb).toNat (s.ssi.parsed - s.file)
  if 2 * (tcp.mss s.pcb).toNat < len then 2 * (tcp.mss s.pcb).toNat else len

variable (data : List UInt8)

/-- What is parsed is sent, as far as possible. -/
def Sending.sendParsed (s : Sending σ) : Sending σ :=
  (Sending.write tcp { s with len := s.limit tcp } (data.drop s.file)).advance

/-- What stands before the tag is sent, as far as possible; the tag itself counts as sent when
nothing is left before it.  `len` has 16 bits. -/
def Sending.sendBeforeTag (s : Sending σ) : Sending σ :=
  let before : ℤ := s.ssi.tagStarted - s.file
  let s := { s with len := if before < s.len then (before % 65536).toNat else s.len }
  let s := Sending.write tcp s (data.drop s.file)
  let s :=
    if s.err = .ok ∧ s.ssi.tagStarted ≤ s.file then
      { s with len := (s.len + (s.ssi.tagEnd - s.ssi.tagStarted)) % 65536 }
    else s
  s.advance

/-- The insert is sent, as far as possible; behind it the search goes on. -/
def Sending.sendInsert (s : Sending σ) : Sending σ :=
  if s.ssi.tagIndex < s.ssi.tagInsert.length then
    let s := { s with len := min s.len (s.ssi.tagInsert.length - s.ssi.tagIndex) }
    let s := Sending.write tcp s (s.ssi.tagInsert.drop s.ssi.tagIndex)
    if s.err = .ok then { s with ssi := { s.ssi with tagIndex := s.ssi.tagIndex + s.len } } else s
  else
    { s with ssi := { s.ssi with tagIndex := 0, tagState := .none, parsed := s.ssi.tagEnd } }

end Send

/-! ### The search for tags -/

/-- A blank inside a tag. -/
def isBlank (c : UInt8) : Bool := c = 32 || c = 9 || c = 10 || c = 13

/-- `g_pcTagLeadIn`. -/
def leadIn : List UInt8 := bytes "<!--#"

/-- `g_pcTagLeadOut`. -/
def leadOut : List UInt8 := bytes "-->"

/-- "Move on to the next character in the buffer". -/
def Ssi.next (s : Ssi) : Ssi := { s with parseLeft := s.parseLeft - 1, parsed := s.parsed + 1 }

/-- `TAG_NONE`. -/
def Ssi.onNone (s : Ssi) (c : UInt8) : Ssi :=
  if c = leadIn.getD 0 0 then
    Ssi.next { s with tagState := .leadin, tagIndex := 1, tagStarted := s.parsed }
  else s.next

/-- `TAG_LEADIN`. -/
def Ssi.onLeadin (s : Ssi) (c : UInt8) : Ssi :=
  if s.tagIndex = leadIn.length then { s with tagIndex := 0, tagState := .found }
  else if c = leadIn.getD s.tagIndex 0 then Ssi.next { s with tagIndex := s.tagIndex + 1 }
  else Ssi.next { s with tagState := .none }

/-- `TAG_FOUND`. -/
def Ssi.onFound (s : Ssi) (c : UInt8) : Ssi :=
  if s.tagIndex = 0 ∧ isBlank c then s.next
  else if c = leadOut.getD 0 0 ∨ isBlank c then
    if s.tagIndex = 0 then Ssi.next { s with tagState := .none }
    else
      Ssi.next
        { s with
          tagState := .leadout
          tagName := s.tagName.take s.tagIndex
          tagIndex := if c = leadOut.getD 0 0 then 1 else 0 }
  else if s.tagIndex < maxTagNameLen then
    Ssi.next { s with tagName := s.tagName.take s.tagIndex ++ [c], tagIndex := s.tagIndex + 1 }
  else Ssi.next { s with tagState := .none }

/-- `TAG_LEADOUT`, up to the end of the lead-out. -/
def Ssi.onLeadout (s : Ssi) (c : UInt8) : Ssi :=
  if s.tagIndex = 0 ∧ isBlank c then s.next
  else if c = leadOut.getD s.tagIndex 0 then
    if s.tagIndex = leadOut.length - 1 then s.next
    else Ssi.next { s with tagIndex := s.tagIndex + 1 }
  else Ssi.next { s with tagState := .none }

/-- The lead-out is complete with this character. -/
def Ssi.complete (s : Ssi) (c : UInt8) : Bool :=
  s.tagState = .leadout && s.tagIndex = leadOut.length - 1 && c = leadOut.getD s.tagIndex 0

section Loop

variable {σ : Type*} (tcp : Tcp σ) (data : List UInt8)

/-- The tag is complete: its insert is asked for, and what stands before it is sent.  The name is
compared up to its first zero byte. -/
def Sending.tagFound (s : Sending σ) : Sending σ :=
  let name := s.ssi.tagName.takeWhile (· ≠ 0)
  let insert := getTagInsert (tcp.mtime s.pcb) (tcp.flags s.pcb) name
  let s :=
    { s with
      ssi := { s.ssi with
        tagInsert := insert
        tagIndex := 0
        tagState := .sending
        tagEnd := s.ssi.parsed
        parsed := s.ssi.tagStarted }
      tags := s.tags ++ [(name, insert)] }
  if s.file < s.ssi.tagEnd then Sending.sendBeforeTag tcp data s else s

/-- One round of the loop of `http_send_data_ssi`. -/
def Sending.round (s : Sending σ) : Sending σ :=
  let c := data.getD s.ssi.parsed 0
  match s.ssi.tagState with
  | .none => { s with ssi := s.ssi.onNone c }
  | .leadin => { s with ssi := s.ssi.onLeadin c }
  | .found => { s with ssi := s.ssi.onFound c }
  | .leadout =>
      let t := { s with ssi := s.ssi.onLeadout c }
      if s.ssi.complete c then Sending.tagFound tcp data t else t
  | .sending =>
      if s.file < s.ssi.tagEnd then s.sendBeforeTag tcp data else s.sendInsert tcp

/-- The loop of `http_send_data_ssi`, and whether the function returns inside it. -/
def ssiLoop : ℕ → Sending σ → Option (Sending σ × Bool)
  | 0, _ => none
  | fuel + 1, s =>
      if s.ssi.parseLeft ≠ 0 ∧ s.err = .ok then
        if s.len = 0 then some (s, true) else ssiLoop fuel (s.round tcp data)
      else some (s, false)

/-- The end of `http_send_data_ssi`. -/
def Sending.finish (s : Sending σ) : Sending σ :=
  if s.ssi.tagState ≠ .sending ∧ s.file < s.ssi.parsed then s.sendParsed tcp data else s

/-- Rounds that are enough for the loop: a round reads a byte, or sends some of the page or of an
insert, and no insert has more than 33 bytes. -/
def ssiRounds : ℕ := 41 * (data.length + 1)

/-- `http_send_data_ssi`; the locals of `s` are set here. -/
def httpSendDataSsi (s : Sending σ) : Option (Sending σ) :=
  let s := { s with len := (tcp.sndbuf s.pcb).toNat, err := .ok, dataToSend := false }
  let pending := decide (s.file < s.ssi.parsed)
  let s := if pending then s.sendParsed tcp data else s
  if pending && tcp.sndbuf s.pcb = 0 then some s
  else
    (ssiLoop tcp data (ssiRounds data) s).map fun r =>
      if r.2 then r.1 else r.1.finish tcp data

/-- `http_send_data_nonssi`: the whole of the page is parsed. -/
def httpSendDataNonssi (s : Sending σ) : Sending σ :=
  Sending.sendParsed tcp data
    { s with ssi := { s.ssi with parsed := s.file + s.left }, err := .ok, dataToSend := false }

end Loop

/-! ### The connection -/

/-- How the connection ended: with the end of the file, or after too many retries. -/
inductive Closed where
  | eof
  | retries
  deriving DecidableEq

/-- The pcb and the `struct http_state`, once the file has been opened. -/
structure HttpState (σ : Type*) where
  pcb : σ
  file : ℕ
  left : ℕ
  ssi : Option Ssi
  retries : ℕ
  closed : Option Closed
  sent : List UInt8
  tags : List (List UInt8 × List UInt8)

/-- `HTTPD_MAX_RETRIES`. -/
def httpdMaxRetries : ℕ := 4

/-- The callbacks of the connection, with the pcb as they find it: `http_sent`, to which the end of
`http_recv` is similar, and `http_poll`. -/
inductive Callback (σ : Type*) where
  | sent (w : σ)
  | poll (w : σ)

section Connection

variable {σ : Type*} (tcp : Tcp σ) (data : List UInt8)

/-- A fresh `struct http_ssi_state`: `http_ssi_state_alloc` and `http_init_file`. -/
def Ssi.initial : Ssi where
  parsed := 0
  tagStarted := 0
  tagEnd := 0
  parseLeft := data.length
  tagIndex := 0
  tagName := []
  tagInsert := []
  tagState := .none

/-- `CRLF CRLF`. -/
def crlfCrlf : List UInt8 := [13, 10, 13, 10]

/-- `strnstr`: where the token starts in the bytes, which end with a zero byte. -/
def strnstr (token : List UInt8) : List UInt8 → Option ℕ
  | [] => none
  | c :: l =>
      if c = 0 then none
      else if token.isPrefixOf (c :: l) then some 0
      else (strnstr token l).map (· + 1)

/-- What `http_init_file` skips of a file: for an HTTP/0.9 request the HTTP header, which every
file of `fsdata` includes, if its end is found. -/
def headerSkipped (is09 : Bool) : ℕ :=
  if is09 then
    match strnstr crlfCrlf data with
    | some fileStart => fileStart + 4
    | none => 0
  else 0

/-- `http_init_file`; for a page with tags, `allocated` tells whether there was memory for its
`struct http_ssi_state`, which is set to the start of the file in any case. -/
def httpInitFile (w : σ) (is09 tagCheck allocated : Bool) : HttpState σ where
  pcb := w
  file := headerSkipped data is09
  left := data.length - headerSkipped data is09
  ssi := if tagCheck && allocated then some (Ssi.initial data) else none
  retries := 0
  closed := none
  sent := []
  tags := []

/-- The connection and the page sent over it, with `ssi` for its tags. -/
def HttpState.sending (h : HttpState σ) (ssi : Ssi) : Sending σ :=
  ⟨h.pcb, h.file, h.left, ssi, 0, .ok, false, h.sent, h.tags⟩

/-- The connection after a send function. -/
def HttpState.after (h : HttpState σ) (s : Sending σ) : HttpState σ :=
  { h with pcb := s.pcb, file := s.file, left := s.left, sent := s.sent, tags := s.tags }

/-- The send function for the page. -/
def httpSendData (h : HttpState σ) : Option (HttpState σ) :=
  match h.ssi with
  | some ssi =>
      (httpSendDataSsi tcp data (h.sending ssi)).map fun s =>
        { h.after s with ssi := some s.ssi }
  | none => some (h.after (httpSendDataNonssi tcp data (h.sending (Ssi.initial data))))

/-- The end of the file closes the connection: `http_eof`.  `fs_bytes_left` is `0`, since the file
is in memory as a whole. -/
def HttpState.checkEof (h : HttpState σ) : HttpState σ :=
  if h.left = 0 then { h with closed := some .eof } else h

/-- `http_send`. -/
def httpSend (h : HttpState σ) : Option (HttpState σ) :=
  if h.left = 0 then some h.checkEof else (httpSendData tcp data h).map HttpState.checkEof

/-- A callback; a closed connection has none. -/
def HttpState.step (h : HttpState σ) : Callback σ → Option (HttpState σ)
  | .sent w =>
      if h.closed.isSome then none else httpSend tcp data { h with pcb := w, retries := 0 }
  | .poll w =>
      if h.closed.isSome then none
      else if h.retries + 1 = httpdMaxRetries then
        some { h with pcb := w, retries := h.retries + 1, closed := some .retries }
      else httpSend tcp data { h with pcb := w, retries := h.retries + 1 }

end Connection

end Stm32Ecm.Http
