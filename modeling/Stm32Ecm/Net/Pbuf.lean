import Mathlib.Data.List.FinRange
import Stm32Ecm.Library.RefCount
import Stm32Ecm.Library.Run

/-!
The ownership of the pool pbufs: `usb_ecm_recv_callback` and `service_traffic` of `main.c`, the
two `udp_recv_proc` of `dhserver.c` and `dnserver.c`, and between them lwIP.

Only who refers to which buffer is kept, not what the buffers hold.  `PBUF_POOL_BUFSIZE` is the
size of a frame, so that a frame and a reply are one pbuf each; a datagram that lwIP has put
together from fragments is a chain.  What lwIP does inside `ethernet_input` is taken from its
contract: the reference of the caller is freed, given to one of the two `udp_recv_proc`, or
kept (`Disposition`).

* `pbufAlloc` and `pbufFree`: the counters, 16 bits wide, and the free list;
* `Pbufs`: the mailbox, where `service_traffic` stands, and what lwIP retains.  Every call of
  `pbuf_free` the firmware makes is logged (`FreeCall`);
* `step`: interrupts, the statements of `service_traffic` and of `udp_recv_proc`, and lwIP
  letting go of what it retains;
* `Sound`: every reference is accounted for, and every logged call was legitimate.

`service_traffic` frees the frame that `ethernet_input` has already consumed.  The references
stay accounted for exactly as long as that statement is not reached (`released_once_iff`).  If
lwIP retains no frame, the counter wraps and nothing else happens (`wrap_masks`).
-/

namespace Stm32Ecm.Net

open Transition
open scoped List

/-! ### The pbuf module of lwIP -/

/-- `PBUF_POOL_SIZE`, as the project file `stm32ecm2.hzp` sets it. -/
abbrev pbufPoolSize : ℕ := 2

/-- A buffer of the pool. -/
abbrev Pbuf : Type := Fin pbufPoolSize

/-- The `ref` fields of the buffers, and `memp_tab[MEMP_PBUF_POOL]`. -/
structure PbufPool where
  ref : Pbuf → UInt16
  free : List Pbuf

/-- `memp_init`: the list is built by pushing the buffers in the order of their addresses. -/
def PbufPool.initial : PbufPool where
  ref := fun _ => 0
  free := (List.finRange pbufPoolSize).reverse

/-- `pbuf_alloc` for a length that fits one buffer. -/
def pbufAlloc (m : PbufPool) : Option (Pbuf × PbufPool) :=
  match m.free with
  | [] => none
  | p :: free => some (p, { ref := Function.update m.ref p 1, free := free })

/-- `pbuf_free` on the chain of the given pbufs.  `LWIP_PLATFORM_ASSERT` gets the text of the
assertion, which is not `NULL`, so that a counter of `0` is decremented like any other. -/
def pbufFree : List Pbuf → PbufPool → PbufPool
  | [], m => m
  | p :: q, m =>
      let ref := m.ref p - 1
      if ref = 0 then pbufFree q { ref := Function.update m.ref p ref, free := p :: m.free }
      else { m with ref := Function.update m.ref p ref }

/-! ### The firmware -/

/-- The functions of the firmware that call `pbuf_free`. -/
inductive Caller where
  | serviceTraffic
  | dhcpRecvProc
  | dnsRecvProc
  deriving DecidableEq, Repr

/-- A call of `pbuf_free`: its argument, the counter it finds there, and how many references to
the buffer the firmware and lwIP hold. -/
structure FreeCall where
  caller : Caller
  p : Pbuf
  count : UInt16
  firmware : ℕ
  lwip : ℕ
  deriving DecidableEq, Repr

/-- Neither a counter of `0` nor a buffer to which only lwIP refers. -/
def FreeCall.Legit (c : FreeCall) : Prop := c.count ≠ 0 ∧ ¬ (c.firmware = 0 ∧ c.lwip ≠ 0)

instance (c : FreeCall) : Decidable c.Legit := inferInstanceAs (Decidable (_ ∧ _))

/-- The two servers on top of UDP. -/
inductive Server where
  | dhcp
  | dns
  deriving DecidableEq, Repr

/-- The `udp_recv_proc` of a server. -/
def Server.recvProc : Server → Caller
  | .dhcp => .dhcpRecvProc
  | .dns => .dnsRecvProc

/-- Where the main loop stands in `service_traffic`, with the frame it has taken. -/
inductive ServicePc where
  | idle
  /-- `ethernet_input(frame)` is next. -/
  | taken (frame : Pbuf)
  /-- In the `udp_recv_proc` of the server, with `p` and the rest of its chain. -/
  | recvProc (frame : Pbuf) (server : Server) (p : Pbuf) (next : List Pbuf)
  /-- The reply `pp` is allocated; `udp_sendto` and `pbuf_free(pp)` are next. -/
  | replying (frame : Pbuf) (server : Server) (p : Pbuf) (next : List Pbuf) (pp : Pbuf)
  /-- `pbuf_free(p)` at the end of `udp_recv_proc` is next. -/
  | leaving (frame : Pbuf) (server : Server) (p : Pbuf) (next : List Pbuf)
  /-- `ethernet_input` has returned, `pbuf_free(frame)` is next. -/
  | returned (frame : Pbuf)
  deriving DecidableEq, Repr

/-- The references the functions of the main loop have to give back.  Once `ethernet_input` has
returned, `frame` is no reference any more. -/
def ServicePc.owned : ServicePc → List Pbuf
  | .idle | .returned _ => []
  | .taken frame => [frame]
  | .recvProc _ _ p next | .leaving _ _ p next => p :: next
  | .replying _ _ p next pp => pp :: p :: next

/-- The pool, `received_frame`, the main loop, the references lwIP retains, and the calls of
`pbuf_free` made by the firmware so far. -/
structure Pbufs where
  pool : PbufPool
  receivedFrame : Option Pbuf
  service : ServicePc
  retained : List Pbuf
  calls : List FreeCall

/-- The state at reset. -/
def Pbufs.initial : Pbufs where
  pool := PbufPool.initial
  receivedFrame := none
  service := .idle
  retained := []
  calls := []

/-- The references the firmware owns. -/
def Pbufs.owned (s : Pbufs) : List Pbuf := s.service.owned ++ s.receivedFrame.toList

/-- All references. -/
def Pbufs.refs (s : Pbufs) : List Pbuf :=
  s.service.owned ++ (s.receivedFrame.toList ++ s.retained)

/-- The firmware calls `pbuf_free(p)`, with `next` behind `p`, and goes on at `pc`. -/
def Pbufs.callFree (s : Pbufs) (caller : Caller) (p : Pbuf) (next : List Pbuf)
    (pc : ServicePc) : Pbufs :=
  { s with
    pool := pbufFree (p :: next) s.pool
    service := pc
    calls := s.calls ++
      [{ caller := caller, p := p, count := s.pool.ref p,
         firmware := s.owned.count p, lwip := s.retained.count p }] }

/-- `usb_ecm_recv_callback`, as far as it handles pbufs. -/
def usbEcmRecvCallback (s : Pbufs) : Pbufs :=
  if s.receivedFrame.isSome then s
  else
    match pbufAlloc s.pool with
    | none => s
    | some (p, pool) => { s with pool := pool, receivedFrame := some p }

/-- What lwIP does with the frame it is given. -/
inductive Disposition where
  /-- It frees the frame. -/
  | free
  /-- It keeps the reference. -/
  | retain
  /-- It calls the `udp_recv_proc` of the server with the chain `p`, `next` of the frame and of
  fragments that it has retained; `rest` is what it goes on retaining. -/
  | deliver (server : Server) (p : Pbuf) (next rest : List Pbuf)
  deriving DecidableEq, Repr

/-- `ethernet_input`, up to its return or to the call of a `udp_recv_proc`. -/
def ethernetInput (frame : Pbuf) (s : Pbufs) : Disposition → Option Pbufs
  | .free => some { s with pool := pbufFree [frame] s.pool, service := .returned frame }
  | .retain => some { s with retained := frame :: s.retained, service := .returned frame }
  | .deliver server p next rest =>
      if frame ∈ p :: next ∧ (p :: next ++ rest).Perm (frame :: s.retained) then
        some { s with retained := rest, service := .recvProc frame server p next }
      else none

/-- The part of `udp_recv_proc` before the calls of `pbuf_free`.  `answers` says whether the
datagram gets as far as `pbuf_alloc`; the `break` and `goto error` exits do not. -/
def recvProc (frame : Pbuf) (server : Server) (p : Pbuf) (next : List Pbuf) (answers : Bool)
    (s : Pbufs) : Pbufs :=
  if answers then
    match pbufAlloc s.pool with
    | none => { s with service := .leaving frame server p next }
    | some (pp, pool) =>
        { s with pool := pool, service := .replying frame server p next pp }
  else { s with service := .leaving frame server p next }

/-- The interrupts, the statements of the main loop, and lwIP on its own. -/
inductive PbufEvent where
  /-- The USB interrupt calls `usb_ecm_recv_callback`. -/
  | recvCallback
  /-- `service_traffic` empties the mailbox. -/
  | takeFrame
  /-- `ethernet_input(frame)`. -/
  | ethernetInput (d : Disposition)
  /-- `udp_recv_proc` looks at the datagram. -/
  | recvProc (answers : Bool)
  /-- `udp_sendto(pp)` and `pbuf_free(pp)`. -/
  | freeReply
  /-- `pbuf_free(p)`, and `ethernet_input` returns. -/
  | freeDatagram
  /-- `pbuf_free(frame)` in `service_traffic`, and the rest of it. -/
  | freeFrame
  /-- lwIP lets go of a buffer it retains. -/
  | release (p : Pbuf)
  deriving DecidableEq, Repr

/-- One step, `none` when the event is not possible. -/
def step (s : Pbufs) : PbufEvent → Option Pbufs
  | .recvCallback => some (usbEcmRecvCallback s)
  | .takeFrame =>
      match s.service, s.receivedFrame with
      | .idle, none => some s
      | .idle, some frame => some { s with receivedFrame := none, service := .taken frame }
      | _, _ => none
  | .ethernetInput d =>
      match s.service with
      | .taken frame => ethernetInput frame s d
      | _ => none
  | .recvProc answers =>
      match s.service with
      | .recvProc frame server p next => some (recvProc frame server p next answers s)
      | _ => none
  | .freeReply =>
      match s.service with
      | .replying frame server p next pp =>
          some (s.callFree server.recvProc pp [] (.leaving frame server p next))
      | _ => none
  | .freeDatagram =>
      match s.service with
      | .leaving frame server p next =>
          some (s.callFree server.recvProc p next (.returned frame))
      | _ => none
  | .freeFrame =>
      match s.service with
      | .returned frame => some (s.callFree .serviceTraffic frame [] .idle)
      | _ => none
  | .release p =>
      if p ∈ s.retained then
        some { s with pool := pbufFree [p] s.pool, retained := s.retained.erase p }
      else none

/-! ### The account of the pool -/

/-- Every buffer is free or referenced, once, and the referenced ones have the counter `1`. -/
def PbufPool.Accounts (m : PbufPool) (refs : List Pbuf) : Prop :=
  RefCount.Accounts (List.finRange pbufPoolSize) (fun p => (m.ref p).toNat) m.free refs

/-- The free buffers have the counter `0`. -/
def PbufPool.Idle (m : PbufPool) : Prop := RefCount.Idle (fun p => (m.ref p).toNat) m.free

section Pool

variable {m m' : PbufPool} {p : Pbuf} {chain refs : List Pbuf}

lemma toNat_update (ref : Pbuf → UInt16) (p : Pbuf) (n : UInt16) :
    (fun q => (Function.update ref p n q).toNat) =
      Function.update (fun q => (ref q).toNat) p n.toNat :=
  funext fun q => Function.apply_update (fun _ => UInt16.toNat) ref p n q

/-- `pbuf_free` on a single pbuf decrements its counter, whatever that is. -/
lemma pbufFree_singleton_ref (p : Pbuf) (m : PbufPool) :
    (pbufFree [p] m).ref = Function.update m.ref p (m.ref p - 1) := by
  simp only [pbufFree]
  split_ifs <;> rfl

/-- **`pbuf_alloc`** hands out a free buffer. -/
lemma PbufPool.Accounts.alloc (h : m.Accounts refs) (ha : pbufAlloc m = some (p, m')) :
    m'.Accounts (p :: refs) ∧ (m.Idle → m'.Idle) := by
  obtain ⟨ref, free⟩ := m
  cases free with
  | nil => cases ha
  | cons q free =>
      simp only [pbufAlloc, Option.some.injEq, Prod.mk.injEq] at ha
      obtain ⟨rfl, rfl⟩ := ha
      have hq : q ∉ free := by
        have hnodup := h.perm.nodup_iff.mpr (List.nodup_finRange _)
        exact (List.nodup_cons.mp (List.nodup_append.mp hnodup).1).1
      refine ⟨?_, fun hidle => ?_⟩
      · rw [PbufPool.Accounts, toNat_update]
        exact RefCount.Accounts.acquire (List.nodup_finRange _) h
      · rw [PbufPool.Idle, toNat_update]
        exact RefCount.Idle.acquire hidle hq

/-- **`pbuf_free`** on a chain of accounted references takes all of it back. -/
lemma PbufPool.Accounts.free (h : m.Accounts (chain ++ refs)) :
    (pbufFree chain m).Accounts refs ∧ (m.Idle → (pbufFree chain m).Idle) ∧
      (∀ q ∉ chain, (pbufFree chain m).ref q = m.ref q) ∧
      ∀ q ∈ chain, (pbufFree chain m).ref q = 0 := by
  induction chain generalizing m with
  | nil => exact ⟨h, id, fun _ _ => rfl, fun q hq => absurd hq List.not_mem_nil⟩
  | cons p chain ih =>
      have hone : m.ref p = 1 := UInt16.toNat_inj.mp (h.count p (by simp))
      have hrel : PbufPool.Accounts { ref := Function.update m.ref p 0, free := p :: m.free }
          (chain ++ refs) := by
        rw [PbufPool.Accounts, toNat_update]
        exact RefCount.Accounts.release (List.nodup_finRange _) h
      have hfree : pbufFree (p :: chain) m =
          pbufFree chain { ref := Function.update m.ref p 0, free := p :: m.free } := by
        simp [pbufFree, hone]
      obtain ⟨hacc, hidle, hout, hin⟩ := ih hrel
      rw [hfree]
      refine ⟨hacc, fun hm => hidle ?_, fun q hq => ?_, fun q hq => ?_⟩
      · rw [PbufPool.Idle, toNat_update]
        exact RefCount.Idle.release hm
      · have hne : q ≠ p := fun heq => hq (by simp [heq])
        exact (hout q fun hmem => hq (by simp [hmem])).trans (Function.update_of_ne hne _ _)
      · by_cases hmem : q ∈ chain
        · exact hin q hmem
        · obtain rfl : q = p := (List.mem_cons.mp hq).resolve_right hmem
          exact (hout q hmem).trans (Function.update_self ..)

end Pool

/-! ### What a step can do -/

/-- The steps that are possible in `s`. -/
inductive Move (s : Pbufs) : PbufEvent → Pbufs → Prop where
  /-- The mailbox is occupied, or the pool is empty. -/
  | drop : Move s .recvCallback s
  | receive (p : Pbuf) (pool : PbufPool) (hmail : s.receivedFrame = none)
      (halloc : pbufAlloc s.pool = some (p, pool)) :
      Move s .recvCallback { s with pool := pool, receivedFrame := some p }
  /-- No packet was received. -/
  | pass : Move s .takeFrame s
  | take (frame : Pbuf) (hpc : s.service = .idle) (hmail : s.receivedFrame = some frame) :
      Move s .takeFrame { s with receivedFrame := none, service := .taken frame }
  | free (frame : Pbuf) (hpc : s.service = .taken frame) :
      Move s (.ethernetInput .free)
        { s with pool := pbufFree [frame] s.pool, service := .returned frame }
  | retain (frame : Pbuf) (hpc : s.service = .taken frame) :
      Move s (.ethernetInput .retain)
        { s with retained := frame :: s.retained, service := .returned frame }
  | deliver (frame : Pbuf) (server : Server) (p : Pbuf) (next rest : List Pbuf)
      (hpc : s.service = .taken frame) (hframe : frame ∈ p :: next)
      (hperm : (p :: next ++ rest).Perm (frame :: s.retained)) :
      Move s (.ethernetInput (.deliver server p next rest))
        { s with retained := rest, service := .recvProc frame server p next }
  /-- There is no reply, or no buffer for it. -/
  | decline (frame : Pbuf) (server : Server) (p : Pbuf) (next : List Pbuf) (answers : Bool)
      (hpc : s.service = .recvProc frame server p next) :
      Move s (.recvProc answers) { s with service := .leaving frame server p next }
  | answer (frame : Pbuf) (server : Server) (p : Pbuf) (next : List Pbuf) (pp : Pbuf)
      (pool : PbufPool) (hpc : s.service = .recvProc frame server p next)
      (halloc : pbufAlloc s.pool = some (pp, pool)) :
      Move s (.recvProc true)
        { s with pool := pool, service := .replying frame server p next pp }
  | freeReply (frame : Pbuf) (server : Server) (p : Pbuf) (next : List Pbuf) (pp : Pbuf)
      (hpc : s.service = .replying frame server p next pp) :
      Move s .freeReply (s.callFree server.recvProc pp [] (.leaving frame server p next))
  | freeDatagram (frame : Pbuf) (server : Server) (p : Pbuf) (next : List Pbuf)
      (hpc : s.service = .leaving frame server p next) :
      Move s .freeDatagram (s.callFree server.recvProc p next (.returned frame))
  | freeFrame (frame : Pbuf) (hpc : s.service = .returned frame) :
      Move s .freeFrame (s.callFree .serviceTraffic frame [] .idle)
  | release (p : Pbuf) (hp : p ∈ s.retained) :
      Move s (.release p)
        { s with pool := pbufFree [p] s.pool, retained := s.retained.erase p }

/-- **Inversion** of a step. -/
lemma move_of_step {s t : Pbufs} {e : PbufEvent} (h : step s e = some t) : Move s e t := by
  cases e with
  | recvCallback =>
      simp only [step, usbEcmRecvCallback, Option.some.injEq] at h
      split_ifs at h with hmail
      · exact h ▸ .drop
      · cases halloc : pbufAlloc s.pool with
        | none =>
            rw [halloc] at h
            exact h ▸ .drop
        | some r =>
            rw [halloc] at h
            exact h ▸ .receive r.1 r.2 (by simpa using hmail) halloc
  | takeFrame =>
      simp only [step] at h
      split at h
      · exact Option.some.inj h ▸ .pass
      · exact Option.some.inj h ▸ .take _ ‹_› ‹_›
      · cases h
  | ethernetInput d =>
      simp only [step] at h
      split at h
      · cases d with
        | free => exact Option.some.inj h ▸ .free _ ‹_›
        | retain => exact Option.some.inj h ▸ .retain _ ‹_›
        | deliver server p next rest =>
            simp only [ethernetInput] at h
            split_ifs at h with hguard
            exact Option.some.inj h ▸ .deliver _ server p next rest ‹_› hguard.1 hguard.2
      · cases h
  | recvProc answers =>
      simp only [step] at h
      split at h
      · have ht := (Option.some.inj h).symm
        subst ht
        cases answers with
        | false => exact .decline _ _ _ _ false ‹_›
        | true =>
            simp only [recvProc, if_true]
            cases halloc : pbufAlloc s.pool with
            | none => exact .decline _ _ _ _ true ‹_›
            | some r => exact .answer _ _ _ _ r.1 r.2 ‹_› halloc
      · cases h
  | freeReply =>
      simp only [step] at h
      split at h
      · exact Option.some.inj h ▸ .freeReply _ _ _ _ _ ‹_›
      · cases h
  | freeDatagram =>
      simp only [step] at h
      split at h
      · exact Option.some.inj h ▸ .freeDatagram _ _ _ _ ‹_›
      · cases h
  | freeFrame =>
      simp only [step] at h
      split at h
      · exact Option.some.inj h ▸ .freeFrame _ ‹_›
      · cases h
  | release p =>
      simp only [step] at h
      split_ifs at h with hp
      exact Option.some.inj h ▸ .release p hp

/-! ### What a step does to the account -/

section Steps

variable {s t : Pbufs} {e : PbufEvent}

/-- The calls of the two `udp_recv_proc` are on references they own. -/
lemma accounts_callFree {caller : Caller} {p : Pbuf} {next : List Pbuf} {pc : ServicePc}
    (h : s.pool.Accounts s.refs) (howned : s.service.owned = p :: next ++ pc.owned) :
    (s.callFree caller p next pc).pool.Accounts (s.callFree caller p next pc).refs ∧
      (s.pool.Idle → (s.callFree caller p next pc).pool.Idle) ∧
      ∀ c ∈ (s.callFree caller p next pc).calls, c ∈ s.calls ∨ c.Legit := by
  have hchain : s.pool.Accounts (p :: next ++
      (pc.owned ++ (s.receivedFrame.toList ++ s.retained))) := by
    rw [Pbufs.refs, howned, List.append_assoc] at h
    exact h
  obtain ⟨hacc, hidle, -, -⟩ := hchain.free
  refine ⟨hacc, hidle, fun c hc => ?_⟩
  rcases List.mem_append.mp hc with hc | hc
  · exact Or.inl hc
  · obtain rfl := List.mem_singleton.mp hc
    have hcount : s.pool.ref p = 1 := UInt16.toNat_inj.mp (hchain.count p (by simp))
    have hmem : p ∈ s.owned := by
      rw [Pbufs.owned, howned]
      simp
    refine Or.inr ⟨?_, fun hnone => ?_⟩
    · show s.pool.ref p ≠ 0
      rw [hcount]
      decide
    · exact List.count_eq_zero.mp hnone.1 hmem

/-- **Every statement but the last `pbuf_free`** of `service_traffic` keeps the account, and its
own call of `pbuf_free`, if it makes one, is legitimate. -/
lemma Move.accounts (hmove : Move s e t) (hne : e ≠ .freeFrame) (h : s.pool.Accounts s.refs) :
    t.pool.Accounts t.refs ∧ (s.pool.Idle → t.pool.Idle) ∧
      ∀ c ∈ t.calls, c ∈ s.calls ∨ c.Legit := by
  cases hmove with
  | drop | pass => exact ⟨h, id, fun c => Or.inl⟩
  | receive p pool hmail halloc =>
      obtain ⟨hacc, hidle⟩ := h.alloc halloc
      refine ⟨hacc.of_perm ?_, hidle, fun c => Or.inl⟩
      rw [Pbufs.refs, hmail]
      exact List.perm_middle.symm
  | take frame hpc hmail =>
      rw [Pbufs.refs, hpc, hmail] at h
      exact ⟨h, id, fun c => Or.inl⟩
  | free frame hpc =>
      rw [Pbufs.refs, hpc] at h
      obtain ⟨hacc, hidle, -, -⟩ := h.free
      exact ⟨hacc, hidle, fun c => Or.inl⟩
  | retain frame hpc =>
      rw [Pbufs.refs, hpc] at h
      refine ⟨h.of_perm ?_, id, fun c => Or.inl⟩
      show frame :: (s.receivedFrame.toList ++ s.retained) ~
        s.receivedFrame.toList ++ frame :: s.retained
      exact List.perm_middle.symm
  | deliver frame server p next rest hpc hframe hperm =>
      rw [Pbufs.refs, hpc] at h
      refine ⟨h.of_perm ?_, id, fun c => Or.inl⟩
      calc frame :: (s.receivedFrame.toList ++ s.retained)
          _ ~ s.receivedFrame.toList ++ (frame :: s.retained) := List.perm_middle.symm
          _ ~ s.receivedFrame.toList ++ (p :: next ++ rest) := hperm.symm.append_left _
          _ ~ p :: next ++ (s.receivedFrame.toList ++ rest) := List.perm_append_comm_assoc ..
  | decline frame server p next answers hpc =>
      rw [Pbufs.refs, hpc] at h
      exact ⟨h, id, fun c => Or.inl⟩
  | answer frame server p next pp pool hpc halloc =>
      rw [Pbufs.refs, hpc] at h
      obtain ⟨hacc, hidle⟩ := h.alloc halloc
      exact ⟨hacc, hidle, fun c => Or.inl⟩
  | freeReply frame server p next pp hpc => exact accounts_callFree h (by rw [hpc]; rfl)
  | freeDatagram frame server p next hpc =>
      refine accounts_callFree h ?_
      rw [hpc]
      exact (List.append_nil _).symm
  | freeFrame => exact absurd rfl hne
  | release p hp =>
      have hperm : s.refs.Perm ([p] ++ (s.service.owned ++
          (s.receivedFrame.toList ++ s.retained.erase p))) := by
        calc s.refs
            _ ~ s.service.owned ++ (s.receivedFrame.toList ++ p :: s.retained.erase p) :=
              ((List.perm_cons_erase hp).append_left _).append_left _
            _ ~ s.service.owned ++ (p :: (s.receivedFrame.toList ++ s.retained.erase p)) :=
              List.perm_middle.append_left _
            _ ~ p :: (s.service.owned ++ (s.receivedFrame.toList ++ s.retained.erase p)) :=
              List.perm_middle
      obtain ⟨hacc, hidle, -, -⟩ := PbufPool.Accounts.free (h.of_perm hperm)
      exact ⟨hacc, hidle, fun c => Or.inl⟩

end Steps

/-! ### Exactly when every reference is released once -/

/-- **The ownership is sound**: no call of `pbuf_free` was on a counter of `0` or on a buffer to
which only lwIP refers, every counter is the number of the references left, and every buffer of
the pool is free or referenced, once. -/
structure Sound (s : Pbufs) : Prop where
  legit : ∀ c ∈ s.calls, c.Legit
  counts : ∀ p, (s.pool.ref p).toNat = s.refs.count p
  pool : (s.pool.free ++ s.refs).Perm (List.finRange pbufPoolSize)

section Sound

variable {s t : Pbufs} {e : PbufEvent}

lemma Sound.accounts (h : Sound s) : s.pool.Accounts s.refs := by
  refine ⟨fun p hp => ?_, h.pool⟩
  have hnodup := h.pool.nodup_iff.mpr (List.nodup_finRange _)
  exact (h.counts p).trans (List.count_eq_one_of_mem (List.nodup_append.mp hnodup).2.1 hp)

lemma sound_iff :
    Sound s ↔ (∀ c ∈ s.calls, c.Legit) ∧ s.pool.Accounts s.refs ∧ s.pool.Idle := by
  have hcounts : s.pool.Accounts s.refs →
      ((∀ p, (s.pool.ref p).toNat = s.refs.count p) ↔ s.pool.Idle) := fun hacc =>
    RefCount.Accounts.counts_iff (List.nodup_finRange _) hacc List.mem_finRange
  constructor
  · exact fun h => ⟨h.legit, h.accounts, (hcounts h.accounts).mp h.counts⟩
  · exact fun ⟨hlegit, hacc, hidle⟩ => ⟨hlegit, (hcounts hacc).mpr hidle, hacc.perm⟩

/-- `pbuf_free` always changes the counter of its argument. -/
lemma pbufFree_ref_ne (p : Pbuf) (m : PbufPool) : (pbufFree [p] m).ref p ≠ m.ref p := by
  rw [pbufFree_singleton_ref, Function.update_self]
  grind

/-- The last `pbuf_free` of `service_traffic` gives back no reference. -/
lemma refs_freeFrame {frame : Pbuf} (hpc : s.service = .returned frame) :
    (s.callFree .serviceTraffic frame [] .idle).refs = s.refs := by
  rw [Pbufs.refs, Pbufs.refs, hpc]
  rfl

lemma not_sound_freeFrame {frame : Pbuf} (hpc : s.service = .returned frame) (h : Sound s) :
    ¬ Sound (s.callFree .serviceTraffic frame [] .idle) := by
  intro h'
  have hcount := h'.counts frame
  rw [refs_freeFrame hpc, ← h.counts frame] at hcount
  exact pbufFree_ref_ne frame s.pool (UInt16.toNat_inj.mp hcount)

lemma sound_step (h : Sound s) (hstep : step s e = some t) : Sound t ↔ ¬ e = .freeFrame := by
  constructor
  · rintro ht rfl
    cases move_of_step hstep with
    | freeFrame frame hpc => exact not_sound_freeFrame hpc h ht
  · intro hne
    obtain ⟨hlegit, hacc, hidle⟩ := sound_iff.mp h
    obtain ⟨hacc', hidle', hcalls⟩ := (move_of_step hstep).accounts hne hacc
    exact sound_iff.mpr ⟨fun c hc => (hcalls c hc).elim (hlegit c) id, hacc', hidle' hidle⟩

lemma sound_initial : Sound Pbufs.initial :=
  ⟨fun c hc => absurd hc List.not_mem_nil, fun _ => rfl, by decide⟩

end Sound

/-- **Every reference is released exactly once** in the runs, from reset or from any sound state,
in which `service_traffic` does not get to its `pbuf_free`, and in no other run. -/
theorem released_once_iff (s : Pbufs) (hs : Sound s) (es : List PbufEvent) :
    Sound Pbufs.initial ∧
      ((∀ t, Visits step s es t → Sound t) ↔
        ∀ t e, Takes step s es t e → e ≠ .freeFrame) := by
  refine ⟨sound_initial, ?_⟩
  refine visits_iff_takes (I := fun _ => True) (P := fun _ => True) ?_ (fun _ _ => trivial)
    trivial hs
  exact fun s e t _ _ h hstep => ⟨trivial, sound_step h hstep⟩

/-- lwIP retains a frame and passes the next one to the DHCP server, which finds no buffer for its
reply. -/
def exhausted : Pbufs where
  pool := { ref := fun _ => 1, free := [] }
  receivedFrame := none
  service := .recvProc ⟨1, by decide⟩ .dhcp ⟨1, by decide⟩ []
  retained := [⟨0, by decide⟩]
  calls := []

/-- The server frees the datagram all the same, and all is accounted for. -/
theorem released_once_iff_exhausted :
    Sound exhausted ∧
      ∀ t, Visits step exhausted [.recvProc true, .freeDatagram] t → Sound t := by
  have hsound : Sound exhausted :=
    ⟨fun c hc => absurd hc List.not_mem_nil, by decide, by decide⟩
  refine ⟨hsound, (released_once_iff exhausted hsound _).2.mpr ?_⟩
  rintro t e htakes rfl
  exact absurd htakes.mem (by decide)

/-- One frame is enough.  If lwIP has freed it, `service_traffic` frees a pbuf with the counter
`0`; if lwIP has kept it, `service_traffic` frees the reference of lwIP, and the buffer is in the
pool while lwIP still uses it. -/
theorem frame_freed_twice :
    (∃ t,
      run step .initial [.recvCallback, .takeFrame, .ethernetInput .free, .freeFrame] = some t ∧
      t.calls = [⟨.serviceTraffic, 1, 0, 0, 0⟩] ∧ t.pool.ref 1 = 65535 ∧ ¬ Sound t) ∧
    ∃ t,
      run step .initial [.recvCallback, .takeFrame, .ethernetInput .retain, .freeFrame] = some t ∧
      t.calls = [⟨.serviceTraffic, 1, 1, 0, 1⟩] ∧ 1 ∈ t.pool.free ∧ 1 ∈ t.retained ∧
      ¬ Sound t := by
  refine ⟨⟨_, rfl, by decide, by decide, fun h => ?_⟩,
    ⟨_, rfl, by decide, by decide, by decide, fun h => ?_⟩⟩
  · exact absurd (h.legit ⟨.serviceTraffic, 1, 0, 0, 0⟩ (by decide)) (by decide)
  · exact absurd (h.legit ⟨.serviceTraffic, 1, 1, 0, 1⟩ (by decide)) (by decide)

/-! ### When the wrap of the counter masks the mistake -/

/-- The steps after which the superfluous `pbuf_free` does harm: lwIP keeps the frame, or an
interrupt allocates a buffer between the return of `ethernet_input` and `pbuf_free`. -/
def Disturbs (s : Pbufs) (e : PbufEvent) : Prop :=
  e = .ethernetInput .retain ∨ (e = .recvCallback ∧ ∃ frame, s.service = .returned frame)

/-- What is known of the frame `service_traffic` has taken: it is in the chain that the
`udp_recv_proc` will free, and after the return of `ethernet_input` its counter is `0`. -/
def ServicePc.Consumes (m : PbufPool) : ServicePc → Prop
  | .idle | .taken _ => True
  | .recvProc frame _ p next | .leaving frame _ p next | .replying frame _ p next _ =>
      frame ∈ p :: next
  | .returned frame => m.ref frame = 0

/-- The pool is in order but for the counters of free buffers. -/
structure Masked (s : Pbufs) : Prop where
  accounts : s.pool.Accounts s.refs
  consumes : s.service.Consumes s.pool
  calls : ∀ c ∈ s.calls, c.Legit ∨ (c.caller = .serviceTraffic ∧ c.count = 0)

section Masked

variable {s t : Pbufs} {e : PbufEvent}

/-- Before the return of `ethernet_input` the pool does not matter. -/
lemma ServicePc.Consumes.of_pool {pc : ServicePc} {m m' : PbufPool} (h : pc.Consumes m)
    (hpc : ∀ frame, pc ≠ .returned frame) : pc.Consumes m' := by
  cases pc with
  | returned frame => exact absurd rfl (hpc frame)
  | _ => exact h

/-- The frame is consumed when `ethernet_input` returns, and stays so until `pbuf_free`. -/
lemma Move.consumes (hmove : Move s e t) (hquiet : ¬ Disturbs s e)
    (hacc : s.pool.Accounts s.refs) (h : s.service.Consumes s.pool) :
    t.service.Consumes t.pool := by
  cases hmove with
  | drop | pass => exact h
  | receive p pool hmail halloc =>
      exact h.of_pool fun frame hpc => hquiet (Or.inr ⟨rfl, frame, hpc⟩)
  | take frame hpc hmail => trivial
  | free frame hpc =>
      rw [Pbufs.refs, hpc] at hacc
      exact hacc.free.2.2.2 frame (List.mem_singleton_self frame)
  | retain frame hpc => exact absurd (Or.inl rfl) hquiet
  | deliver frame server p next rest hpc hframe hperm => exact hframe
  | decline frame server p next answers hpc =>
      rw [hpc] at h
      exact h
  | answer frame server p next pp pool hpc halloc =>
      rw [hpc] at h
      exact h
  | freeReply frame server p next pp hpc =>
      rw [hpc] at h
      exact h
  | freeDatagram frame server p next hpc =>
      rw [Pbufs.refs, hpc] at hacc
      rw [hpc] at h
      exact hacc.free.2.2.2 frame h
  | freeFrame frame hpc => trivial
  | release p hp =>
      by_cases hret : ∃ frame, s.service = .returned frame
      · obtain ⟨frame, hpc⟩ := hret
        rw [hpc] at h
        have hzero : s.pool.ref frame = 0 := h
        -- lwIP lets go of a buffer with the counter `1`, which the frame is not
        have hone : (s.pool.ref p).toNat = 1 := hacc.count p (by simp [Pbufs.refs, hp])
        have hne : frame ≠ p := by
          rintro rfl
          rw [hzero] at hone
          cases hone
        show ServicePc.Consumes (pbufFree [p] s.pool) s.service
        rw [hpc, ServicePc.Consumes, pbufFree_singleton_ref, Function.update_of_ne hne, hzero]
      · exact h.of_pool fun frame hpc => hret ⟨frame, hpc⟩

/-- The superfluous `pbuf_free` finds the counter `0` and wraps it. -/
lemma Masked.freeFrame {frame : Pbuf} (hpc : s.service = .returned frame) (h : Masked s) :
    Masked (s.callFree .serviceTraffic frame [] .idle) := by
  have hzero : s.pool.ref frame = 0 := by
    have hcons := h.consumes
    rw [hpc] at hcons
    exact hcons
  have hfree : (pbufFree [frame] s.pool).free = s.pool.free := by
    simp only [pbufFree, hzero]
    rw [if_neg (by decide)]
  refine ⟨⟨fun p hp => ?_, ?_⟩, trivial, fun c hc => ?_⟩
  · rw [refs_freeFrame hpc] at hp
    have hone : (s.pool.ref p).toNat = 1 := h.accounts.count p hp
    have hne : p ≠ frame := by
      rintro rfl
      rw [hzero] at hone
      cases hone
    show ((pbufFree [frame] s.pool).ref p).toNat = 1
    rw [pbufFree_singleton_ref, Function.update_of_ne hne, hone]
  · show ((pbufFree [frame] s.pool).free ++ _).Perm _
    rw [refs_freeFrame hpc, hfree]
    exact h.accounts.perm
  · rcases List.mem_append.mp hc with hc | hc
    · exact h.calls c hc
    · obtain rfl := List.mem_singleton.mp hc
      exact Or.inr ⟨rfl, hzero⟩

lemma Masked.step (h : Masked s) (hquiet : ¬ Disturbs s e) (hstep : step s e = some t) :
    Masked t := by
  have hmove := move_of_step hstep
  by_cases hne : e = .freeFrame
  · subst hne
    cases hmove with
    | freeFrame frame hpc => exact h.freeFrame hpc
  · obtain ⟨hacc, -, hcalls⟩ := hmove.accounts hne h.accounts
    exact ⟨hacc, hmove.consumes hquiet h.accounts h.consumes,
      fun c hc => (hcalls c hc).elim (h.calls c) Or.inl⟩

end Masked

/-- **The wrap masks the mistake**: in a run in which lwIP keeps no frame, and no frame arrives
between the return of `ethernet_input` and `pbuf_free`, both `udp_recv_proc` release what they
own exactly once, no buffer is lost, and the calls of `service_traffic` hit the counter `0`. -/
theorem wrap_masks {es : List PbufEvent} {t : Pbufs}
    (hquiet : ∀ s e, Takes step .initial es s e → ¬ Disturbs s e)
    (hrun : run step .initial es = some t) : Masked t := by
  refine run_invariant_of_takes (fun s e t h hne hstep => h.step hne hstep) hquiet ?_ hrun
  exact ⟨sound_initial.accounts, trivial, fun c hc => absurd hc List.not_mem_nil⟩

end Stm32Ecm.Net
