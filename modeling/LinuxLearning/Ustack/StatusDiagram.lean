/-
  LinuxLearning.Ustack.StatusDiagram

  The status of a control block: every way a step can change it, and the
  statuses a block can be in at all.
-/

import LinuxLearning.Ustack.Buffers
import LinuxLearning.Ustack.TcpOutput

namespace LinuxLearning.Ustack

open Lib

/-- The status of the block at `a`, if it is linked. -/
def State.statusOf (s : State) (a : Addr) : Option NgTcpStatus :=
  (s.tcb a).map NgTcpStream.status

/-- The segment in `m` is found to be for the block at `a`. -/
def State.Receives (s : State) (m : Mbuf) (a : Addr) : Prop := ∃ t, s.Finds m a t

/-- The descriptor names the control block at `a`. -/
def State.Names (s : State) (fd : Int) (a : Addr) : Prop :=
  ∃ t, getHostinfoFromfd s fd = some (.stream a t)

/-- How the step on `e` in state `s` may change the status of the block at
    `a`; `none` is a block that is not linked. -/
inductive StatusEdge (s : State) (e : Event) (a : Addr) :
    Option NgTcpStatus → Option NgTcpStatus → Prop where
  | same (st : Option NgTcpStatus) : StatusEdge s e a st st
  /-- `nsocket`. -/
  | socket {env : Env} :
      e = .nsocket env SOCK_STREAM → StatusEdge s e a none (some .closed)
  | bind {fd : Int} {ip : BitVec 32} {port : BitVec 16} {st : NgTcpStatus} :
      e = .nbind fd ip port → s.Names fd a → StatusEdge s e a (some st) (some .closed)
  | listen {fd : Int} {st : NgTcpStatus} :
      e = .nlisten fd → s.Names fd a → StatusEdge s e a (some st) (some .listen)
  /-- A SYN to a listener makes a block, which answers and waits for the
      acknowledgement. -/
  | syn {env : Env} {m : Mbuf} {l : Addr} :
      e = .packet env m → s.Receives m l → s.statusOf l = some .listen →
      m.segment.syn = true → env.malloc .synFragment = true →
      StatusEdge s e a none (some .synRcvd)
  /-- The same, but no SYN-ACK can be allocated: the new block stays in the
      status it was made with. -/
  | synUnanswered {env : Env} {m : Mbuf} {l : Addr} :
      e = .packet env m → s.Receives m l → s.statusOf l = some .listen →
      m.segment.syn = true → env.malloc .synFragment = false →
      StatusEdge s e a none (some .listen)
  | ack {env : Env} {m : Mbuf} :
      e = .packet env m → s.Receives m a → m.segment.ack = true →
      StatusEdge s e a (some .synRcvd) (some .established)
  | fin {env : Env} {m : Mbuf} :
      e = .packet env m → s.Receives m a → m.segment.fin = true →
      StatusEdge s e a (some .established) (some .closeWait)
  /-- `nclose` of anything but a listener. -/
  | close {env : Env} {fd : Int} {st : NgTcpStatus} :
      e = .nclose env fd → s.Names fd a → st ≠ .listen →
      StatusEdge s e a (some st) (some .lastAck)
  /-- `nclose` of a listener unlinks it. -/
  | closeListener {env : Env} {fd : Int} :
      e = .nclose env fd → s.Names fd a → StatusEdge s e a (some .listen) none
  /-- The last acknowledgement: the block is set to CLOSED, unlinked and
      freed. -/
  | lastAck {env : Env} {m : Mbuf} :
      e = .packet env m → s.Receives m a → m.segment.ack = true →
      StatusEdge s e a (some .lastAck) none

theorem statusEdge_of_tcbChange {s : State} {e : Event} {a : Addr} {ops : List StreamOp}
    {before after : Option NgTcpStream} (h : TcbChange s e a ops before after) :
    StatusEdge s e a (before.map NgTcpStream.status) (after.map NgTcpStream.status) := by
  cases h with
  | idle => exact .same _
  | seen => exact .same _
  | opened he => exact .socket he
  | bound he hinfo => exact .bind he ⟨_, hinfo⟩
  | listening he hinfo => exact .listen he ⟨_, hinfo⟩
  | accepted => exact .same _
  | sending he hinfo hput =>
      obtain ⟨r, -, rfl, -⟩ := enqueueSnd_ok hput
      exact .same _
  | reading he hinfo hread =>
      rw [Option.map_some, Option.map_some, (nrecvStream_ok hread).fields]
      exact .same _
  | closing he hinfo hst => exact .close he ⟨_, hinfo⟩ hst
  | closed he hinfo hst =>
      rw [Option.map_some, hst]
      exact .closeListener he ⟨_, hinfo⟩
  | synAcked he hf hst hsyn ha hc hm =>
      exact .syn he ⟨_, hf⟩ (by rw [State.statusOf, hf.tcb_eq, Option.map_some, hst]) hsyn hm
  | synUnanswered he hf hst hsyn ha hc hm =>
      -- the block stays as `ng_tcp_stream_create` made it
      obtain ⟨-, -, hlisten, -⟩ := ngTcpStreamCreate_ok hc
      rw [Option.map_some, hlisten]
      exact .synUnanswered he ⟨_, hf⟩ (by rw [State.statusOf, hf.tcb_eq, Option.map_some, hst])
        hsyn hm
  | handshake he hf hst hack =>
      rw [Option.map_some, hst]
      exact .ack he ⟨_, hf⟩ hack
  | @data env m t t' ops he hf hst hest =>
      have hstatus : t'.status = if m.segment.fin then .closeWait else t.status := by
        rw [(ngTcpHandleEstablished_ok hest).fields]
      rw [Option.map_some, Option.map_some, hstatus, hst]
      split
      · rename_i hfin
        exact .fin he ⟨_, hf⟩ hfin
      · exact .same _
  | destroyed he hf hst hack =>
      rw [Option.map_some, hst]
      exact .lastAck he ⟨_, hf⟩ hack
  | @output env t he =>
      rw [Option.map_some, Option.map_some, (tcpOutStream_cases s.arpt t).fields]
      exact .same _

end LinuxLearning.Ustack
