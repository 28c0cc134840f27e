/-
  LinuxLearning.Ustack.Descriptors

  File descriptors as names of sockets.

  The bitmap comes first: which numbers it has taken, and what
  `get_fd_frombitmap` and `set_fd_frombitmap` do to them.  Then what one step
  does to the sockets that carry a descriptor, and last the map from
  descriptors to their sockets, kept beside a run as ghost state: the
  lookup `get_hostinfo_fromfd` answers by that map as long as no connection
  is closed by `nclose`, which releases the number and leaves it on the
  connection until the peer has answered.
-/

import LinuxLearning.Ustack.UdpSockets
import LinuxLearning.Ustack.TcpOutput

namespace LinuxLearning.Ustack

open Lib

/-! ## The bitmap -/

namespace FdTable

/-- The bit of `n`. -/
def taken (t : FdTable) (n : Nat) : Bool :=
  if h : n < MAX_FD_COUNT then (t (slot n h)).getLsbD (n % 8) else false

theorem mask_eq_twoPow (n : Nat) : mask n = BitVec.twoPow 8 (n % 8) := by
  rw [mask, BitVec.twoPow_eq]

theorem and_mask_eq_zero_iff (x : Byte) (n : Nat) :
    x &&& mask n = 0 ↔ x.getLsbD (n % 8) = false := by
  rw [mask_eq_twoPow, BitVec.and_twoPow]
  cases x.getLsbD (n % 8) with
  | false => simp
  | true =>
      simp only [if_true, Bool.true_eq_false, iff_false]
      intro h
      have hbit := congrArg (·.getLsbD (n % 8)) h
      simp [Nat.mod_lt] at hbit

theorem getLsbD_mask (n i : Nat) : (mask n).getLsbD i = decide (n % 8 = i) := by
  rw [mask_eq_twoPow, BitVec.getLsbD_twoPow]
  simp [Nat.mod_lt]

theorem slot_eq_iff {n m : Nat} (hn : n < MAX_FD_COUNT) (hm : m < MAX_FD_COUNT) :
    slot n hn = slot m hm ∧ n % 8 = m % 8 ↔ n = m := by
  simp only [slot, Fin.mk.injEq]
  omega

/-- Setting a bit sets that bit. -/
theorem taken_set (t : FdTable) {n : Nat} (hn : n < MAX_FD_COUNT) (m : Nat) :
    taken (Function.update t (slot n hn) (t (slot n hn) ||| mask n)) m =
      (t.taken m || decide (m = n)) := by
  unfold taken
  by_cases hm : m < MAX_FD_COUNT
  · rw [dif_pos hm, dif_pos hm]
    by_cases hslot : slot m hm = slot n hn
    · have hmod : decide (n % 8 = m % 8) = decide (m = n) := by
        rw [decide_eq_decide, ← slot_eq_iff hm hn]
        exact ⟨fun h => ⟨hslot, h.symm⟩, fun h => h.2.symm⟩
      rw [hslot, Function.update_self, BitVec.getLsbD_or, getLsbD_mask, hmod]
    · have hne : m ≠ n := fun h => hslot (by subst h; rfl)
      rw [Function.update_of_ne hslot]
      simp [hne]
  · have hne : m ≠ n := fun h => hm (h ▸ hn)
    simp [hm, hne]

/-- Clearing a bit clears that bit. -/
theorem taken_clear (t : FdTable) {n : Nat} (hn : n < MAX_FD_COUNT) (m : Nat) :
    taken (Function.update t (slot n hn) (t (slot n hn) &&& ~~~mask n)) m =
      (t.taken m && !decide (m = n)) := by
  unfold taken
  by_cases hm : m < MAX_FD_COUNT
  · rw [dif_pos hm, dif_pos hm]
    by_cases hslot : slot m hm = slot n hn
    · have hmod : decide (n % 8 = m % 8) = decide (m = n) := by
        rw [decide_eq_decide, ← slot_eq_iff hm hn]
        exact ⟨fun h => ⟨hslot, h.symm⟩, fun h => h.2.symm⟩
      rw [hslot, Function.update_self, BitVec.getLsbD_and, BitVec.getLsbD_not, getLsbD_mask, hmod]
      simp [Nat.mod_lt]
    · have hne : m ≠ n := fun h => hslot (by subst h; rfl)
      rw [Function.update_of_ne hslot]
      simp [hne]
  · simp [hm]

theorem search_cases (t : FdTable) (k fd : Nat) :
    t.search k fd = (t, -1) ∨
    ∃ n : Nat, t.taken n = false ∧ (t.search k fd).2 = n ∧
      ∀ m, (t.search k fd).1.taken m = (t.taken m || decide (m = n)) := by
  induction k generalizing fd with
  | zero => exact .inl rfl
  | succ k ih =>
      simp only [search]
      split
      · rename_i hfd
        split
        · rename_i hfree
          refine .inr ⟨fd, ?_, rfl, taken_set t hfd⟩
          rw [taken, dif_pos hfd]
          exact (and_mask_eq_zero_iff _ _).mp hfree
        · exact ih (fd + 1)
      · exact .inl rfl

end FdTable

/-- `get_fd_frombitmap` finds nothing, or takes a number that was free. -/
theorem getFdFrombitmap_cases (t : FdTable) :
    getFdFrombitmap t = (t, -1) ∨
    ∃ n : Nat, t.taken n = false ∧ (getFdFrombitmap t).2 = n ∧
      ∀ m, (getFdFrombitmap t).1.taken m = (t.taken m || decide (m = n)) :=
  t.search_cases _ _

/-- `set_fd_frombitmap` releases no other number. -/
theorem taken_setFdFrombitmap {t : FdTable} {fd : Int} {n : Nat} (htaken : t.taken n = true)
    (hne : (n : Int) ≠ fd) : (setFdFrombitmap t fd).1.taken n = true := by
  cases fd with
  | negSucc k => exact htaken
  | ofNat k =>
      simp only [setFdFrombitmap]
      split
      · rename_i hk
        have hnk : n ≠ k := fun h => hne (by rw [h]; rfl)
        rw [FdTable.taken_clear t hk, htaken]
        simp [hnk]
      · exact htaken

/-! ## Sockets and the descriptors they carry -/

/-- The descriptor a socket carries, if it is linked; −1 on a connection that
    `naccept` has not returned yet. -/
def State.fdOf (s : State) : Sock → Option Int
  | .udp a => (s.lhost.get? a).map Localhost.fd
  | .tcp a => (s.tcb a).map NgTcpStream.fd

theorem fdOf_of_hostinfo {s : State} {fd : Int} {info : HostInfo}
    (h : getHostinfoFromfd s fd = some info) : s.fdOf info.sock = some fd := by
  unfold getHostinfoFromfd at h
  split at h
  · rename_i a host hfind
    obtain rfl := Option.some.inj h
    have hfd := Table.prop_of_find? hfind
    rw [HostInfo.sock, State.fdOf, Table.get?_of_find? hfind, Option.map_some]
    rw [beq_iff_eq.mp hfd]
  · split at h
    · rename_i a stream hfind
      obtain rfl := Option.some.inj h
      have hfd := Table.prop_of_find? hfind
      rw [HostInfo.sock, State.fdOf, State.tcb, Table.get?_of_find? hfind, Option.map_some]
      rw [beq_iff_eq.mp hfd]
    · cases h

theorem fdOf_of_no_hostinfo {s : State} {fd : Int} (h : getHostinfoFromfd s fd = none)
    (sock : Sock) : s.fdOf sock ≠ some fd := by
  unfold getHostinfoFromfd at h
  split at h
  · cases h
  · rename_i hhost
    split at h
    · cases h
    · rename_i htcb
      intro hfd
      cases sock with
      | udp a =>
          obtain ⟨host, hget, rfl⟩ := Option.map_eq_some_iff.mp hfd
          simpa using Table.find?_eq_none_iff.mp hhost a host hget
      | tcp a =>
          obtain ⟨stream, hget, rfl⟩ := Option.map_eq_some_iff.mp hfd
          simpa using Table.find?_eq_none_iff.mp htcb a stream hget

/-- A call on a descriptor that the lookup does not find answers −1 and
    changes nothing. -/
def Refuses (s : State) (fd : Int) : Prop :=
  (∀ ip port, nbind s fd ip port = (s, .ofRet (-1))) ∧
  (∀ env buf, nsend env s fd buf = .ok (s, .ofRet (-1))) ∧
  (∀ len, nrecv s fd len = .ok (s, .ofRet (-1))) ∧
  ∀ env, nclose env s fd = .ok (s, .ofRet (-1))

theorem refuses_of_no_hostinfo {s : State} {fd : Int} (h : getHostinfoFromfd s fd = none) :
    Refuses s fd := by
  refine ⟨fun ip port => ?_, fun env buf => ?_, fun len => ?_, fun env => ?_⟩
  · simp only [nbind, h]
  · simp only [nsend, h]
  · simp only [nrecv, h]
  · simp only [nclose, h]

/-! ## The owners of descriptors -/

/-- The socket each descriptor was returned for and has not been closed
    since. -/
abbrev Owners := Int → Option Sock

/-- The owners after a step: `nsocket` and `naccept` return a descriptor for a
    socket unless they fail, a successful `nclose` ends it. -/
def Owners.next (owner : Owners) (s : State) (e : Event) (o : Out) : Owners :=
  match e with
  | .nsocket _ type =>
      if o.ret = -1 then owner
      else if type = SOCK_DGRAM then Function.update owner o.ret (some (.udp s.lhost.next))
      else if type = SOCK_STREAM then Function.update owner o.ret (some (.tcp s.tcbSet.next))
      else owner
  | .naccept _ =>
      match o.ops with
      | [(b, .accept fd)] =>
          if fd = -1 then owner else Function.update owner fd (some (.tcp b))
      | _ => owner
  | .nclose _ fd => if o.ret = 0 then Function.update owner fd none else owner
  | _ => owner

/-- The descriptor names what it was returned for: the lookup answers the
    owner, no other socket carries the number, and without an owner the calls
    refuse it. -/
structure Identifies (s : State) (owner : Owners) (fd : Int) : Prop where
  lookup : (getHostinfoFromfd s fd).map HostInfo.sock = owner fd
  unique : ∀ sock, s.fdOf sock = some fd → owner fd = some sock
  refused : owner fd = none → Refuses s fd

/-- The owners are those who carry their descriptors, and their numbers are
    taken. -/
structure Tracks (s : State) (owner : Owners) : Prop where
  carries : ∀ fd, fd ≠ -1 → ∀ sock, owner fd = some sock ↔ s.fdOf sock = some fd
  marker : owner (-1) = none
  taken : ∀ fd sock, owner fd = some sock → ∃ n : Nat, fd = n ∧ s.fdTable.taken n = true

/-- Then every descriptor names its owner, −1 too if no socket carries it. -/
theorem Tracks.identifies_iff {s : State} {owner : Owners} (h : Tracks s owner) (fd : Int) :
    Identifies s owner fd ↔ (fd = -1 → ∀ sock, s.fdOf sock ≠ some (-1)) := by
  constructor
  · rintro hnames rfl sock hfd
    -- −1 has no owner, so no socket may carry it
    cases h.marker.symm.trans (hnames.unique sock hfd)
  · intro hmarker
    have hcarries : ∀ sock, owner fd = some sock ↔ s.fdOf sock = some fd := by
      by_cases hfd : fd = -1
      · intro sock
        subst hfd
        rw [h.marker]
        exact iff_of_false (by simp) (hmarker rfl sock)
      · exact h.carries fd hfd
    refine ⟨?_, fun sock => (hcarries sock).mpr, fun hnone => ?_⟩
    · cases hinfo : getHostinfoFromfd s fd with
      | some info => exact ((hcarries _).mpr (fdOf_of_hostinfo hinfo)).symm
      | none =>
          cases howner : owner fd with
          | none => rfl
          | some sock =>
              exact absurd ((hcarries sock).mp howner) (fdOf_of_no_hostinfo hinfo sock)
    · refine refuses_of_no_hostinfo ?_
      cases hinfo : getHostinfoFromfd s fd with
      | none => rfl
      | some info => cases hnone.symm.trans ((hcarries _).mpr (fdOf_of_hostinfo hinfo))

/-! ## What a step does to descriptors -/

/-- What one step does to the descriptors that sockets carry, to the bitmap,
    and to the owners. -/
inductive FdChange (s s' : State) (owner : Owners) : Owners → Prop where
  /-- Nothing but give the marker −1 to sockets that had none. -/
  | kept :
      (∀ fd, fd ≠ -1 → ∀ sock, s'.fdOf sock = some fd ↔ s.fdOf sock = some fd) →
      (∀ n, s.fdTable.taken n = true → s'.fdTable.taken n = true) →
      FdChange s s' owner owner
  /-- A free number was taken and given to a socket without one. -/
  | opened (n : Nat) (sock : Sock) :
      s.fdTable.taken n = false →
      (∀ m, s'.fdTable.taken m = (s.fdTable.taken m || decide (m = n))) →
      (∀ fd, fd ≠ -1 → s.fdOf sock ≠ some fd) →
      s'.fdOf = Function.update s.fdOf sock (some n) →
      FdChange s s' owner (Function.update owner n (some sock))
  /-- The socket was unlinked. -/
  | closed (fd : Int) (sock : Sock) :
      s.fdOf sock = some fd → s'.fdOf = Function.update s.fdOf sock none →
      (∀ n : Nat, s.fdTable.taken n = true → (n : Int) ≠ fd → s'.fdTable.taken n = true) →
      FdChange s s' owner (Function.update owner fd none)

theorem Tracks.step {s s' : State} {owner owner' : Owners} (h : Tracks s owner)
    (hchange : FdChange s s' owner owner') : Tracks s' owner' := by
  cases hchange with
  | kept hfds hgrow =>
      refine ⟨fun fd hfd sock => (h.carries fd hfd sock).trans (hfds fd hfd sock).symm,
        h.marker, ?_⟩
      intro fd sock howner
      obtain ⟨n, hn, htaken⟩ := h.taken fd sock howner
      exact ⟨n, hn, hgrow n htaken⟩
  | opened n sock hfree hgrow hnew hfds =>
      have hn : (n : Int) ≠ -1 := by omega
      refine ⟨fun fd hfd sock' => ?_, ?_, ?_⟩
      · rw [hfds]
        by_cases hfdn : fd = n
        · subst hfdn
          rw [Function.update_self, Option.some.injEq]
          by_cases hsock : sock' = sock
          · subst hsock
            simp
          · rw [Function.update_of_ne hsock]
            -- nobody else carries a free number
            refine iff_of_false (Ne.symm hsock) fun hcarries => ?_
            obtain ⟨m, hm, htaken⟩ := h.taken n sock' ((h.carries n hfd sock').mpr hcarries)
            rw [← Int.ofNat.inj hm, hfree] at htaken
            cases htaken
        · rw [Function.update_of_ne hfdn]
          by_cases hsock : sock' = sock
          · subst hsock
            rw [Function.update_self, Option.some.injEq, h.carries fd hfd]
            exact iff_of_false (hnew fd hfd) (Ne.symm hfdn)
          · rw [Function.update_of_ne hsock]
            exact h.carries fd hfd sock'
      · rw [Function.update_of_ne (Ne.symm hn), h.marker]
      · intro fd sock' howner
        by_cases hfdn : fd = n
        · exact ⟨n, hfdn, by rw [hgrow]; simp⟩
        · rw [Function.update_of_ne hfdn] at howner
          obtain ⟨m, hm, htaken⟩ := h.taken fd sock' howner
          exact ⟨m, hm, by rw [hgrow, htaken]; rfl⟩
  | closed fd sock hold hfds hgrow =>
      refine ⟨fun fd' hfd' sock' => ?_, ?_, ?_⟩
      · rw [hfds]
        by_cases heq : fd' = fd
        · subst heq
          rw [Function.update_self]
          refine iff_of_false (by simp) fun hcarries => ?_
          by_cases hsock : sock' = sock
          · subst hsock
            simp at hcarries
          · rw [Function.update_of_ne hsock] at hcarries
            have howner := (h.carries fd' hfd' sock).mpr hold
            exact hsock (Option.some.inj
              (((h.carries fd' hfd' sock').mpr hcarries).symm.trans howner))
        · rw [Function.update_of_ne heq]
          by_cases hsock : sock' = sock
          · subst hsock
            rw [Function.update_self, h.carries fd' hfd', hold]
            simp [Ne.symm heq]
          · rw [Function.update_of_ne hsock]
            exact h.carries fd' hfd' sock'
      · by_cases heq : (-1 : Int) = fd
        · rw [heq, Function.update_self]
        · rw [Function.update_of_ne heq, h.marker]
      · intro fd' sock' howner
        have heq : fd' ≠ fd := by
          rintro rfl
          rw [Function.update_self] at howner
          cases howner
        rw [Function.update_of_ne heq] at howner
        obtain ⟨n, rfl, htaken⟩ := h.taken fd' sock' howner
        exact ⟨n, rfl, hgrow n htaken heq⟩

/-! ## The steps that leave descriptors alone -/

section Step
variable {env : Env} {s s' : State} {e : Event} {m : Mbuf} {o : Out} {owner : Owners}

/-- The calls that can give a socket a descriptor or take it away. -/
def Event.isDescriptorCall : Event → Bool
  | .nsocket _ _ | .naccept _ | .nclose _ _ => true
  | .packet _ _ | .udpOut _ | .tcpOut _ | .nbind _ _ _ | .nlisten _ | .nsend _ _ _ | .nrecv _ _
  | .nrecvfrom _ _ _ | .nsendto _ _ _ _ _ => false

/-- The other calls leave the bitmap alone. -/
theorem fdTable_of_step (h : step s e = .ok (s', o)) (he : e.isDescriptorCall = false) :
    s'.fdTable = s.fdTable := by
  cases e with
  | nsocket | naccept | nclose => cases he
  | packet env m =>
      rcases pktProcess_cases h with ⟨-, h⟩ | ⟨-, h⟩ | ⟨-, -, -, rfl⟩
      · rcases udpProcess_cases h with ⟨rfl, -⟩ | ⟨a, host, r, -, -, -, -, -, -, rfl⟩
        · rfl
        · rfl
      · obtain ⟨tcbs, live, rfl, -⟩ := ngTcpProcess_frame h
        rfl
      · split <;> rfl
  | udpOut | tcpOut | nbind | nlisten | nsend | nrecv | nrecvfrom | nsendto =>
      obtain ⟨lhost, tcbs, rfl⟩ := step_of_transfer rfl h
      rfl

theorem udpOutHost_fd (arpt : ArpTable) (host : Localhost) :
    (udpOutHost arpt host).1.fd = host.fd := by
  unfold udpOutHost
  repeat' split
  all_goals rfl

/-- A UDP socket carries the descriptor it carried before. -/
theorem HostChange.fd_eq {a : Addr} {before after : Option Localhost}
    (h : HostChange s e a before after) (he : e.isDescriptorCall = false) :
    after.map Localhost.fd = before.map Localhost.fd := by
  cases h with
  | idle | bound | arrived | sending => rfl
  | opened hev | closed hev =>
      rw [hev] at he
      cases he
  | output => exact congrArg some (udpOutHost_fd ..)
  | reading hev hinfo hrecv => cases hrecv <;> rfl

/-- A control block carries the descriptor it carried before, but for the
    marker −1. -/
theorem TcbChange.fd_iff {a : Addr} {ops : List StreamOp} {before after : Option NgTcpStream}
    (h : TcbChange s e a ops before after) (he : e.isDescriptorCall = false)
    (hlast : before.map NgTcpStream.status ≠ some .lastAck) {fd : Int} (hfd : fd ≠ -1) :
    after.map NgTcpStream.fd = some fd ↔ before.map NgTcpStream.fd = some fd := by
  cases h with
  | idle | seen | bound | listening | handshake => exact Iff.rfl
  | opened hev | accepted hev | closing hev | closed hev =>
      rw [hev] at he
      cases he
  | sending hev hinfo hput =>
      obtain ⟨r, -, rfl, -⟩ := enqueueSnd_ok hput
      exact Iff.rfl
  | reading hev hinfo hread =>
      rw [(nrecvStream_ok hread).fields]
      exact Iff.rfl
  | synAcked hev hf hst hsyn ha hc hm hsnd =>
      obtain ⟨-, hnew, -⟩ := ngTcpStreamCreate_ok hc
      simp [hnew, Ne.symm hfd]
  | synUnanswered hev hf hst hsyn ha hc hm =>
      obtain ⟨-, hnew, -⟩ := ngTcpStreamCreate_ok hc
      simp [hnew, Ne.symm hfd]
  | data hev hf hst hest =>
      rw [(ngTcpHandleEstablished_ok hest).fields]
      exact Iff.rfl
  -- no block is in LAST_ACK
  | destroyed hev hf hst hack => exact absurd (congrArg some hst) hlast
  | @output env t hev =>
      rw [(tcpOutStream_cases s.arpt t).fields]
      exact Iff.rfl

theorem fdChange_of_other (h : step s e = .ok (s', o)) (he : e.isDescriptorCall = false)
    (hlast : ∀ a, (s.tcb a).map NgTcpStream.status ≠ some .lastAck) :
    FdChange s s' owner owner := by
  refine .kept (fun fd hfd sock => ?_) (fun n htaken => by rwa [fdTable_of_step h he])
  cases sock with
  | udp a => rw [State.fdOf, ← State.localhost, (hostChange_of_step h a).fd_eq he]; rfl
  | tcp a => exact (tcbChange_of_step h a).fd_iff he (hlast a) hfd

/-! ## The calls that open and close -/

theorem fdOf_addHost {host : Localhost} (hhosts : s'.lhost = s.lhost.add host)
    (htcbs : s'.tcbSet = s.tcbSet) :
    s'.fdOf = Function.update s.fdOf (.udp s.lhost.next) (some host.fd) := by
  funext sock
  cases sock with
  | udp a =>
      by_cases ha : a = s.lhost.next <;>
        simp [State.fdOf, hhosts, Table.get?_add, ha]
  | tcp a => simp [State.fdOf, State.tcb, htcbs]

theorem fdOf_addTcb {t : NgTcpStream} (hhosts : s'.lhost = s.lhost)
    (htcbs : s'.tcbSet = s.tcbSet.add t) :
    s'.fdOf = Function.update s.fdOf (.tcp s.tcbSet.next) (some t.fd) := by
  funext sock
  cases sock with
  | udp a => simp [State.fdOf, hhosts]
  | tcp a =>
      by_cases ha : a = s.tcbSet.next <;>
        simp [State.fdOf, State.tcb, htcbs, Table.get?_add, ha]

theorem fdOf_removeHost {a : Addr} (hhosts : s'.lhost = s.lhost.remove a)
    (htcbs : s'.tcbSet = s.tcbSet) : s'.fdOf = Function.update s.fdOf (.udp a) none := by
  funext sock
  cases sock with
  | udp b =>
      by_cases hb : b = a <;>
        simp [State.fdOf, hhosts, Table.get?_remove, hb]
  | tcp b => simp [State.fdOf, State.tcb, htcbs]

theorem fdOf_removeTcb {a : Addr} (hhosts : s'.lhost = s.lhost)
    (htcbs : s'.tcbSet = s.tcbSet.remove a) :
    s'.fdOf = Function.update s.fdOf (.tcp a) none := by
  funext sock
  cases sock with
  | udp b => simp [State.fdOf, hhosts]
  | tcp b =>
      by_cases hb : b = a <;>
        simp [State.fdOf, State.tcb, htcbs, Table.get?_remove, hb]

theorem fdOf_setTcb {a : Addr} {t t' : NgTcpStream} (ht : s.tcb a = some t) :
    (s.setTcb a t').fdOf = Function.update s.fdOf (.tcp a) (some t'.fd) := by
  funext sock
  cases sock with
  | udp b => simp [State.fdOf, State.setTcb]
  | tcp b =>
      by_cases hb : b = a
      · subst hb
        simp [State.fdOf, ht]
      · simp [State.fdOf, hb]

/-- A socket without a descriptor gets what `get_fd_frombitmap` found. -/
theorem fdChange_of_getFd {sock : Sock} (hnew : ∀ fd, fd ≠ -1 → s.fdOf sock ≠ some fd)
    (hfds : s'.fdOf = Function.update s.fdOf sock (some (getFdFrombitmap s.fdTable).2))
    (htable : s'.fdTable = (getFdFrombitmap s.fdTable).1) :
    FdChange s s' owner (if (getFdFrombitmap s.fdTable).2 = -1 then owner
      else Function.update owner (getFdFrombitmap s.fdTable).2 (some sock)) := by
  rcases getFdFrombitmap_cases s.fdTable with hfull | ⟨n, hfree, hn, hgrow⟩
  · rw [hfull] at hfds htable ⊢
    rw [if_pos rfl]
    refine .kept (fun fd hfd sock' => ?_) (fun n htaken => by rwa [htable])
    rw [hfds]
    by_cases hsock : sock' = sock
    · subst hsock
      rw [Function.update_self, Option.some.injEq]
      exact iff_of_false (Ne.symm hfd) (hnew fd hfd)
    · rw [Function.update_of_ne hsock]
  · rw [hn] at hfds ⊢
    rw [if_neg (by omega)]
    exact .opened n sock hfree (fun m => by rw [htable, hgrow]) hnew hfds

/-- The bitmap only grows when a number is taken from it. -/
theorem taken_getFd {t : FdTable} {n : Nat} (h : t.taken n = true) :
    (getFdFrombitmap t).1.taken n = true := by
  rcases getFdFrombitmap_cases t with hfull | ⟨k, -, -, hgrow⟩
  · rwa [hfull]
  · rw [hgrow, h]
    rfl

theorem nsocket_fdTable (env : Env) (s : State) (type : Int) :
    (nsocket env s type).1.fdTable = (getFdFrombitmap s.fdTable).1 := by
  simp only [nsocket]
  repeat' split
  all_goals rfl

theorem fdChange_of_nsocket {type : Int} (htype : type = SOCK_DGRAM ∨ type = SOCK_STREAM) :
    FdChange s (nsocket env s type).1 owner
      (owner.next s (.nsocket env type) (nsocket env s type).2) := by
  have htable := nsocket_fdTable env s type
  rcases nsocket_cases env s type with ⟨hhosts, htcbs, -, hret⟩ |
    ⟨rfl, htcbs, hout, snd, rcv, -, -, hhosts⟩ | ⟨rfl, hhosts, hout, snd, rcv, -, -, htcbs⟩
  · simp only [Owners.next, hret htype, if_true]
    refine .kept (fun fd _ sock => ?_) (fun n htaken => by rw [htable]; exact taken_getFd htaken)
    cases sock <;> simp [State.fdOf, State.tcb, hhosts, htcbs]
  · have hfds := fdOf_addHost hhosts htcbs
    have hnew : s.fdOf (.udp s.lhost.next) = none := by simp [State.fdOf]
    rw [hout]
    exact fdChange_of_getFd (fun fd _ => by rw [hnew]; simp) hfds htable
  · have hfds := fdOf_addTcb hhosts htcbs
    have hnew : s.fdOf (.tcp s.tcbSet.next) = none := by simp [State.fdOf, State.tcb]
    rw [hout]
    exact fdChange_of_getFd (fun fd _ => by rw [hnew]; simp) hfds htable

theorem fdChange_of_naccept {fd : Int} (h : naccept s fd = .ok (s', o)) :
    FdChange s s' owner (owner.next s (.naccept fd) o) := by
  have hnothing : FdChange s s owner owner :=
    .kept (fun _ _ _ => Iff.rfl) (fun _ htaken => htaken)
  simp only [naccept] at h
  repeat' split at h
  all_goals simp only [Except.ok.injEq, Prod.mk.injEq, reduceCtorEq] at h
  all_goals obtain ⟨rfl, rfl⟩ := h
  · exact hnothing
  · exact hnothing
  · rename_i b apt hacc
    obtain ⟨hb, -, hmarker⟩ := tcb_of_accept hacc
    have hold : s.fdOf (.tcp b) = some (-1) := by rw [State.fdOf, hb, Option.map_some, hmarker]
    have hnew : ∀ fd, fd ≠ -1 → s.fdOf (.tcp b) ≠ some fd := by
      intro fd hfd
      rw [hold, ne_eq, Option.some.injEq]
      exact Ne.symm hfd
    exact fdChange_of_getFd hnew (fdOf_setTcb hb) rfl

/-- The steps that keep descriptors names: sockets are of one of the two
    kinds, and no `nclose` starts to close a connection. -/
def KeepsNames (s : State) : Event → Prop
  | .nsocket _ type => type = SOCK_DGRAM ∨ type = SOCK_STREAM
  | .nclose env fd =>
      match getHostinfoFromfd s fd with
      | some (.stream _ t) => t.status = .listen ∨ env.malloc .closeFragment = false
      | _ => True
  | _ => True

instance (s : State) : (e : Event) → Decidable (KeepsNames s e)
  | .nsocket _ type => inferInstanceAs (Decidable (type = SOCK_DGRAM ∨ type = SOCK_STREAM))
  | .nclose env fd =>
      match hinfo : getHostinfoFromfd s fd with
      | some (.stream _ t) =>
          decidable_of_iff (t.status = .listen ∨ env.malloc .closeFragment = false)
            (by simp only [KeepsNames, hinfo])
      | some (.localhost _ _) | none => .isTrue (by simp only [KeepsNames, hinfo])
  | .packet _ _ | .udpOut _ | .tcpOut _ | .nbind _ _ _ | .nlisten _ | .naccept _
  | .nsend _ _ _ | .nrecv _ _ | .nrecvfrom _ _ _ | .nsendto _ _ _ _ _ => .isTrue trivial

theorem fdChange_of_nclose {fd : Int} (h : nclose env s fd = .ok (s', o))
    (hkeeps : KeepsNames s (.nclose env fd)) :
    FdChange s s' owner (owner.next s (.nclose env fd) o) := by
  have hnothing : FdChange s s owner owner :=
    .kept (fun _ _ _ => Iff.rfl) (fun _ htaken => htaken)
  simp only [nclose] at h
  split at h
  · obtain ⟨rfl, rfl⟩ := Prod.mk.inj (Except.ok.inj h)
    exact hnothing
  · rename_i a host hinfo
    obtain ⟨rfl, rfl⟩ := Prod.mk.inj (Except.ok.inj h)
    exact .closed fd (.udp a) (fdOf_of_hostinfo hinfo) (fdOf_removeHost rfl rfl)
      fun n htaken hne => taken_setFdFrombitmap htaken hne
  · rename_i a t hinfo
    simp only [KeepsNames, hinfo] at hkeeps
    split at h
    · rename_i hst
      -- a close that would queue a FIN must fail
      have hfail := hkeeps.resolve_left hst
      rw [if_pos hfail] at h
      obtain ⟨rfl, rfl⟩ := Prod.mk.inj (Except.ok.inj h)
      exact hnothing
    -- a listener is unlinked, and its bit stays set
    · obtain ⟨rfl, rfl⟩ := Prod.mk.inj (Except.ok.inj h)
      exact .closed fd (.tcp a) (fdOf_of_hostinfo hinfo) (fdOf_removeTcb rfl rfl)
        fun n htaken _ => htaken

theorem fdChange_of_step (h : step s e = .ok (s', o)) (hkeeps : KeepsNames s e)
    (hlast : ∀ a, (s.tcb a).map NgTcpStream.status ≠ some .lastAck) :
    FdChange s s' owner (owner.next s e o) := by
  cases e with
  | nsocket env type =>
      obtain ⟨rfl, rfl⟩ := Prod.mk.inj (Except.ok.inj h)
      exact fdChange_of_nsocket hkeeps
  | naccept fd => exact fdChange_of_naccept h
  | nclose env fd => exact fdChange_of_nclose h hkeeps
  | packet | udpOut | tcpOut | nbind | nlisten | nsend | nrecv | nrecvfrom | nsendto =>
      exact fdChange_of_other h rfl hlast

/-- No connection gets to LAST_ACK if none is closed. -/
theorem TcbChange.not_lastAck {a : Addr} {ops : List StreamOp}
    {before after : Option NgTcpStream} (h : TcbChange s e a ops before after)
    (hkeeps : KeepsNames s e) (hlast : before.map NgTcpStream.status ≠ some .lastAck) :
    after.map NgTcpStream.status ≠ some .lastAck := by
  cases h with
  | closing he hinfo hst hput hmalloc =>
      subst he
      simp only [KeepsNames, hinfo, hst, hmalloc, false_or, Bool.true_eq_false] at hkeeps
  | idle | seen | accepted => exact hlast
  | opened | bound | listening | closed | synAcked | handshake | destroyed => simp
  | synUnanswered he hf hst hsyn ha hc hm =>
      obtain ⟨-, -, hlisten, -⟩ := ngTcpStreamCreate_ok hc
      simp [hlisten]
  | sending he hinfo hput =>
      obtain ⟨r, -, rfl, -⟩ := enqueueSnd_ok hput
      exact hlast
  | reading he hinfo hread =>
      rw [(nrecvStream_ok hread).fields]
      exact hlast
  | @data env m t t' ops he hf hst hest =>
      rw [(ngTcpHandleEstablished_ok hest).fields, hst]
      cases m.segment.fin <;> simp
  | @output env t he =>
      rw [(tcpOutStream_cases s.arpt t).fields]
      exact hlast

end Step

/-! ## Every run -/

theorem tracks_init (mac : List Byte) : Tracks (State.init mac) fun _ => none where
  carries := fun fd _ sock => by cases sock <;> simp [State.fdOf, State.init, State.tcb]
  marker := rfl
  taken := fun _ _ h => by cases h

/-- In every run that keeps descriptors names, the owners stay what the
    sockets carry. -/
theorem tracks_of_run {mac : List Byte} {hist : History} {p : State × Owners}
    (hrun : Run (Guarded (fun p e => KeepsNames p.1 e) (StepsOf (withGhost step Owners.next)))
      (State.init mac, fun _ => none) hist p) :
    Tracks p.1 p.2 ∧ ∀ a, (p.1.tcb a).map NgTcpStream.status ≠ some .lastAck := by
  induction hrun with
  | start => exact ⟨tracks_init mac, fun a ha => by cases ha⟩
  | @step hist p e o p' _ hR ih =>
      obtain ⟨hkeeps, hstep⟩ := hR
      obtain ⟨hok, hghost⟩ := withGhost_ok.mp hstep
      refine ⟨?_, fun a => (tcbChange_of_step hok a).not_lastAck hkeeps (ih.2 a)⟩
      rw [hghost]
      exact ih.1.step (fdChange_of_step hok hkeeps ih.2)

/-- The owners beside a run. -/
def OwnedBy (s₀ : State) (hist : History) (s : State) (owner : Owners) : Prop :=
  Run (StepsOf (withGhost step Owners.next)) (s₀, fun _ => none) hist (s, owner)

/-- In every run whose sockets are of the two kinds and in which no `nclose`
    starts to close a connection, every descriptor names its owner, and the
    marker −1 names nothing unless some socket carries it. -/
theorem descriptors_identify_sockets {mac : List Byte} {hist : History} {s : State}
    (hrun : GuardedRun KeepsNames (State.init mac) hist s) :
    ∃ owner, OwnedBy (State.init mac) hist s owner ∧
      ∀ fd, Identifies s owner fd ↔ (fd = -1 → ∀ sock, s.fdOf sock ≠ some (-1)) := by
  obtain ⟨owner, hghost⟩ := exists_ghost Owners.next (fun _ => none) hrun
  exact ⟨owner, hghost.of_guarded, (tracks_of_run hghost).1.identifies_iff⟩

/-- The descriptor of an accepted connection names it. -/
theorem descriptors_identify_sockets_accepted : ∃ (hist : History) (s : State) (owner : Owners),
    GuardedRun KeepsNames (State.init []) hist s ∧ OwnedBy (State.init []) hist s owner ∧
    owner 4 = some (.tcp 1) ∧ Identifies s owner 4 := by
  have hrun : guardedRunsTo KeepsNames (State.init []) (openServer ++ connectPeer ++ [.naccept 3])
      (fun _ s => (getHostinfoFromfd s 4).map HostInfo.sock == some (.tcp 1)) = true := by
    decide +kernel
  obtain ⟨hist, s, hrun, hP⟩ := run_of_guardedRunsTo hrun
  rw [beq_iff_eq] at hP
  obtain ⟨owner, howned, hall⟩ := descriptors_identify_sockets hrun
  have hnames := (hall 4).mpr fun h => absurd h (by decide)
  exact ⟨hist, s, owner, hrun, howned, hnames.lookup.symm.trans hP, hnames⟩

/-- A connection that `nclose` has begun to close still carries 4 when
    `nsocket` returns 4 for a new socket. -/
theorem closed_descriptor_reused : ∃ (hist : History) (s : State) (owner : Owners),
    OwnedBy (State.init []) hist s owner ∧ owner 4 = some (.udp 0) ∧
    s.fdOf (.udp 0) = some 4 ∧ s.fdOf (.tcp 1) = some 4 ∧ ¬ Identifies s owner 4 := by
  have hrun : execsTo (withGhost step Owners.next) (State.init [], fun _ => none)
      (openServer ++ connectPeer ++
        [.naccept 3, .nclose .plain 4, .nsocket .plain SOCK_DGRAM])
      (fun _ p => decide (p.2 4 = some (.udp 0) ∧ p.1.fdOf (.udp 0) = some 4 ∧
        p.1.fdOf (.tcp 1) = some 4)) = true := by
    decide +kernel
  obtain ⟨hist, ⟨s, owner⟩, hexec, hP⟩ := exec_of_execsTo hrun
  obtain ⟨howner, hudp, htcp⟩ := of_decide_eq_true hP
  refine ⟨hist, s, owner, run_of_exec hexec, howner, hudp, htcp, fun hnames => ?_⟩
  cases howner.symm.trans (hnames.unique _ htcp)

end LinuxLearning.Ustack
