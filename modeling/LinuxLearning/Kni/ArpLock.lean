/-
  LinuxLearning.Kni.ArpLock

  The spinlock of the ARP table in `kni.c`.  `arp_table_mac_lookup` takes it
  and has two exits, of which only the one for an address without an entry
  gives it back; `ng_arp_entry_insert` and `arp_request_timer` look addresses
  up with it.
-/

import LinuxLearning.Lib.Transition
import LinuxLearning.Ustack.Memory

namespace LinuxLearning.Kni

open Lib Ustack

/-! ## The table -/

/-- `struct arp_entry`; its `status` is never read. -/
structure ArpEntry where
  ip : BitVec 32
  mac : List Byte
deriving DecidableEq, Repr

/-- The table that `arp_table_instance` hands out.  `spinlock` says whether
    the lock is held. -/
structure ArpTable where
  entries : List ArpEntry
  count : Int
  spinlock : Bool
deriving DecidableEq, Repr

/-- How a call can fail to return. -/
inductive Halt where
  /-- `pthread_spin_lock` on a lock that nobody gives back. -/
  | spins
  /-- `rte_exit` -/
  | rteExit
deriving DecidableEq, Repr

/-- What a call does to the table: the table afterwards, whether the lock was
    held at each access to the list, and the result. -/
abbrev LockM (α : Type) := ArpTable → Except Halt (ArpTable × List Bool × α)

namespace LockM

variable {α β : Type}

def pure (x : α) : LockM α := fun t => .ok (t, [], x)

def bind (f : LockM α) (g : α → LockM β) : LockM β := fun t =>
  match f t with
  | .error h => .error h
  | .ok (t, held, x) =>
      match g x t with
      | .error h => .error h
      | .ok (t, held', y) => .ok (t, held ++ held', y)

instance : Monad LockM where
  pure := LockM.pure
  bind := LockM.bind

end LockM

/-- `pthread_spin_lock`, by the one thread there is. -/
def pthreadSpinLock : LockM Unit := fun t =>
  if t.spinlock then .error .spins else .ok ({ t with spinlock := true }, [], ())

/-- `pthread_spin_unlock` -/
def pthreadSpinUnlock : LockM Unit := fun t => .ok ({ t with spinlock := false }, [], ())

/-- A walk over the list. -/
def readEntries : LockM (List ArpEntry) := fun t => .ok (t, [t.spinlock], t.entries)

/-- `LL_ADD(entry, table->entries); table->count++` -/
def linkEntry (entry : ArpEntry) : LockM Unit := fun t =>
  .ok ({ t with entries := entry :: t.entries, count := t.count + 1 }, [t.spinlock], ())

/-- `rte_exit` -/
def rteExit {α : Type} : LockM α := fun _ => .error .rteExit

/-! ## The calls -/

/-- `arp_table_mac_lookup` -/
def arpTableMacLookup (ip : BitVec 32) : LockM (Option (List Byte)) := do
  pthreadSpinLock
  let entries ← readEntries
  match entries.find? (·.ip == ip) with
  -- returns from inside the loop, with the lock
  | some item => return some item.mac
  | none =>
      pthreadSpinUnlock
      return none

/-- `ng_arp_entry_insert`; `alloc` says whether `rte_malloc` succeeds. -/
def ngArpEntryInsert (alloc : Bool) (ip : BitVec 32) (mac : List Byte) : LockM Int := do
  match ← arpTableMacLookup ip with
  | none =>
      if alloc then
        pthreadSpinLock
        linkEntry ⟨ip, mac⟩
        pthreadSpinUnlock
      return 1
  | some _ => return 0

/-- `(gLocalIp & 0x00FFFFFF) | (0xFF000000 & (i << 24))` -/
def dstIp (gLocalIp : BitVec 32) (i : Nat) : BitVec 32 :=
  (gLocalIp &&& 0x00FFFFFF) ||| (0xFF000000 &&& (BitVec.ofNat 32 i <<< 24))

/-- What the timer passes to `ng_send_arp`: the hardware address and the
    address to ask about. -/
abbrev ArpRequest := List Byte × BitVec 32

/-- `gDefaultArpMac` -/
def gDefaultArpMac : List Byte := List.replicate etherAddrLen 0xff

/-- The loop of `arp_request_timer` over the host numbers `is`; `alloc i` says
    whether `ng_send_arp` gets its buffer. -/
def arpRequestLoop (alloc : Nat → Bool) (gLocalIp : BitVec 32) : List Nat → LockM (List ArpRequest)
  | [] => return []
  | i :: is => do
      let mac ← arpTableMacLookup (dstIp gLocalIp i)
      if alloc i then
        let requests ← arpRequestLoop alloc gLocalIp is
        return (mac.getD gDefaultArpMac, dstIp gLocalIp i) :: requests
      else rteExit

/-- `arp_request_timer`, with the requests that it puts on the ring. -/
def arpRequestTimer (alloc : Nat → Bool) (gLocalIp : BitVec 32) : LockM (List ArpRequest) :=
  arpRequestLoop alloc gLocalIp (List.range' 1 253)

/-- A call on the table. -/
inductive Call where
  | lookup (ip : BitVec 32)
  | insert (alloc : Bool) (ip : BitVec 32) (mac : List Byte)
  | timer (alloc : Nat → Bool) (gLocalIp : BitVec 32)

/-- The table after a call, and whether the lock was held at its accesses. -/
def step (t : ArpTable) : Call → Except Halt (ArpTable × List Bool)
  | .lookup ip => (arpTableMacLookup ip t).map fun r => (r.1, r.2.1)
  | .insert alloc ip mac => (ngArpEntryInsert alloc ip mac t).map fun r => (r.1, r.2.1)
  | .timer alloc gLocalIp => (arpRequestTimer alloc gLocalIp t).map fun r => (r.1, r.2.1)

/-! ## Balance -/

/-- The calls leave the lock free one after the other, none of them waits for
    it, and the list is accessed under it. -/
def Balanced : ArpTable → List Call → Prop
  | _, [] => True
  | t, c :: calls =>
      match step t c with
      | .error .spins => False
      -- there are no further calls
      | .error .rteExit => True
      | .ok (t', held) => t'.spinlock = false ∧ held.all id = true ∧ Balanced t' calls

/-- The table has an entry for `ip`. -/
def ArpTable.Has (t : ArpTable) (ip : BitVec 32) : Prop := ∃ e ∈ t.entries, e.ip = ip

/-- The addresses that a call looks up and gets past: the timer up to the
    first one for which there is no buffer. -/
def Call.lookups : Call → List (BitVec 32)
  | .lookup ip => [ip]
  | .insert _ ip _ => [ip]
  | .timer alloc gLocalIp => ((List.range' 1 253).takeWhile alloc).map (dstIp gLocalIp)

/-- Each call looks up only addresses that have no entry by then. -/
def Misses : ArpTable → List Call → Prop
  | _, [] => True
  | t, c :: calls =>
      (∀ ip ∈ c.lookups, ¬ t.Has ip) ∧ ∀ t' held, step t c = .ok (t', held) → Misses t' calls

/-! ## One call -/

section Step

variable {t : ArpTable} {ip : BitVec 32}

namespace LockM

variable {α β : Type} {f : LockM α} {g : α → LockM β}

/-- What follows a call runs on the table that the call leaves. -/
theorem bind_of_ok {t' : ArpTable} {held : List Bool} {x : α} (h : f t = .ok (t', held, x)) :
    (f >>= g) t = (g x t').map fun r => (r.1, held ++ r.2.1, r.2.2) := by
  show LockM.bind f g t = _
  simp only [LockM.bind, h]
  cases g x t' <;> rfl

theorem bind_of_error {h : Halt} (herr : f t = .error h) : (f >>= g) t = .error h := by
  show LockM.bind f g t = _
  simp only [LockM.bind, herr]

@[simp] theorem pure_apply (x : α) (t : ArpTable) : (Pure.pure x : LockM α) t = .ok (t, [], x) :=
  rfl

end LockM

theorem pthreadSpinLock_of_free (hfree : t.spinlock = false) :
    pthreadSpinLock t = .ok ({ t with spinlock := true }, [], ()) := by
  rw [pthreadSpinLock, hfree]
  rfl

/-- A lookup that finds its address keeps the lock. -/
theorem lookup_of_has (hfree : t.spinlock = false) (h : t.Has ip) :
    ∃ mac, arpTableMacLookup ip t = .ok ({ t with spinlock := true }, [true], some mac) := by
  obtain ⟨e, he, hip⟩ := h
  obtain ⟨item, hitem⟩ : ∃ item, t.entries.find? (·.ip == ip) = some item :=
    Option.isSome_iff_exists.mp (List.find?_isSome.mpr ⟨e, he, by simpa using hip⟩)
  refine ⟨item.mac, ?_⟩
  rw [arpTableMacLookup, LockM.bind_of_ok (pthreadSpinLock_of_free hfree), LockM.bind_of_ok rfl]
  simp only [hitem]
  rfl

/-- One that does not gives it back. -/
theorem lookup_of_not_has (hfree : t.spinlock = false) (h : ¬ t.Has ip) :
    arpTableMacLookup ip t = .ok (t, [true], none) := by
  have hnone : t.entries.find? (·.ip == ip) = none := by
    rw [List.find?_eq_none]
    intro e he hip
    exact h ⟨e, he, by simpa using hip⟩
  have hsame : { t with spinlock := false } = t := by rw [← hfree]
  rw [arpTableMacLookup, LockM.bind_of_ok (pthreadSpinLock_of_free hfree), LockM.bind_of_ok rfl]
  simp only [hnone]
  rw [LockM.bind_of_ok rfl, LockM.pure_apply, hsame]
  rfl

/-- None is made while the lock is held. -/
theorem lookup_of_held (hheld : t.spinlock = true) : arpTableMacLookup ip t = .error .spins := by
  refine LockM.bind_of_error ?_
  rw [pthreadSpinLock, if_pos hheld]

/-- The rest of the timer's loop behind a lookup. -/
theorem arpRequestLoop_of_lookup {alloc : Nat → Bool} {gLocalIp : BitVec 32} {i : Nat}
    {is : List Nat} {t' : ArpTable} {held : List Bool} {mac : Option (List Byte)}
    (hlookup : arpTableMacLookup (dstIp gLocalIp i) t = .ok (t', held, mac)) :
    arpRequestLoop alloc gLocalIp (i :: is) t =
      if alloc i then
        (arpRequestLoop alloc gLocalIp is t').map fun r =>
          (r.1, held ++ r.2.1, (mac.getD gDefaultArpMac, dstIp gLocalIp i) :: r.2.2)
      else .error .rteExit := by
  rw [arpRequestLoop, LockM.bind_of_ok hlookup]
  by_cases halloc : alloc i = true
  · rw [if_pos halloc, if_pos halloc]
    cases hrest : arpRequestLoop alloc gLocalIp is t' with
    | error x => rw [LockM.bind_of_error hrest]; rfl
    | ok r => rw [LockM.bind_of_ok hrest]; simp [Except.map]
  · rw [if_neg halloc, if_neg halloc]
    rfl

/-- Where the timer finds no address, it leaves the table as it was. -/
theorem arpRequestLoop_of_misses (alloc : Nat → Bool) (gLocalIp : BitVec 32) {is : List Nat}
    (hfree : t.spinlock = false) (hmiss : ∀ i ∈ is.takeWhile alloc, ¬ t.Has (dstIp gLocalIp i)) :
    arpRequestLoop alloc gLocalIp is t = .error .rteExit ∨
    ∃ held requests, arpRequestLoop alloc gLocalIp is t = .ok (t, held, requests) ∧
      held.all id = true := by
  induction is with
  | nil => exact .inr ⟨[], [], rfl, rfl⟩
  | cons i is ih =>
      by_cases halloc : alloc i = true
      · rw [List.takeWhile_cons_of_pos halloc, List.forall_mem_cons] at hmiss
        rw [arpRequestLoop_of_lookup (lookup_of_not_has hfree hmiss.1), if_pos halloc]
        obtain hexit | ⟨held, requests, hok, hall⟩ := ih hmiss.2
        · exact .inl (by rw [hexit]; rfl)
        · exact .inr ⟨_, _, by rw [hok]; rfl, by simpa using hall⟩
      · -- found or not, the program ends here
        left
        by_cases hhas : t.Has (dstIp gLocalIp i)
        · obtain ⟨mac, hlookup⟩ := lookup_of_has hfree hhas
          rw [arpRequestLoop_of_lookup hlookup, if_neg halloc]
        · rw [arpRequestLoop_of_lookup (lookup_of_not_has hfree hhas), if_neg halloc]

/-- Where it finds one and gets past it, it waits for its own lock, or keeps
    it behind the last address. -/
theorem arpRequestLoop_of_hit (alloc : Nat → Bool) (gLocalIp : BitVec 32) {is : List Nat} {i : Nat}
    (hfree : t.spinlock = false) (hi : i ∈ is.takeWhile alloc) (hhas : t.Has (dstIp gLocalIp i)) :
    arpRequestLoop alloc gLocalIp is t = .error .spins ∨
    ∃ held requests, arpRequestLoop alloc gLocalIp is t =
      .ok ({ t with spinlock := true }, held, requests) := by
  induction is with
  | nil => cases hi
  | cons j is ih =>
      have halloc : alloc j = true := by
        by_contra hno
        rw [List.takeWhile_cons_of_neg hno] at hi
        cases hi
      rw [List.takeWhile_cons_of_pos halloc] at hi
      by_cases hj : t.Has (dstIp gLocalIp j)
      · obtain ⟨mac, hlookup⟩ := lookup_of_has hfree hj
        rw [arpRequestLoop_of_lookup hlookup, if_pos halloc]
        cases is with
        | nil => exact .inr ⟨_, _, rfl⟩
        | cons k is =>
            left
            rw [arpRequestLoop, LockM.bind_of_error (lookup_of_held rfl)]
            rfl
      · have hne : i ≠ j := by
          rintro rfl
          exact hj hhas
        rw [arpRequestLoop_of_lookup (lookup_of_not_has hfree hj), if_pos halloc]
        obtain hspins | ⟨held, requests, hok⟩ := ih ((List.mem_cons.mp hi).resolve_left hne)
        · exact .inl (by rw [hspins]; rfl)
        · exact .inr ⟨_, _, by rw [hok]; rfl⟩

/-- A call that finds none of its addresses gives the lock back and accesses
    the list under it. -/
theorem step_of_misses {c : Call} (hfree : t.spinlock = false)
    (hmiss : ∀ ip ∈ c.lookups, ¬ t.Has ip) :
    step t c = .error .rteExit ∨
    ∃ t' held, step t c = .ok (t', held) ∧ t'.spinlock = false ∧ held.all id = true := by
  cases c with
  | lookup ip =>
      have hlookup := lookup_of_not_has hfree (hmiss ip (List.mem_singleton_self ip))
      exact .inr ⟨t, [true], by rw [step, hlookup]; rfl, hfree, rfl⟩
  | insert alloc ip mac =>
      right
      have hlookup := lookup_of_not_has hfree (hmiss ip (List.mem_singleton_self ip))
      cases alloc with
      | false =>
          refine ⟨t, [true], ?_, hfree, rfl⟩
          rw [step, ngArpEntryInsert, LockM.bind_of_ok hlookup]
          rfl
      | true =>
          refine ⟨⟨⟨ip, mac⟩ :: t.entries, t.count + 1, false⟩, [true, true], ?_, rfl, rfl⟩
          rw [step, ngArpEntryInsert, LockM.bind_of_ok hlookup]
          simp only [if_true]
          rw [LockM.bind_of_ok (pthreadSpinLock_of_free hfree)]
          rfl
  | timer alloc gLocalIp =>
      have hmiss' : ∀ i ∈ (List.range' 1 253).takeWhile alloc, ¬ t.Has (dstIp gLocalIp i) :=
        fun i hi => hmiss _ (List.mem_map_of_mem hi)
      obtain hexit | ⟨held, requests, hok, hall⟩ :=
        arpRequestLoop_of_misses alloc gLocalIp hfree hmiss'
      · exact .inl (by rw [step, arpRequestTimer, hexit]; rfl)
      · exact .inr ⟨t, held, by rw [step, arpRequestTimer, hok]; rfl, hfree, hall⟩

/-- One that finds an address waits for ever or keeps the lock. -/
theorem step_of_hit {c : Call} (hfree : t.spinlock = false) (hip : ip ∈ c.lookups)
    (hhas : t.Has ip) :
    step t c = .error .spins ∨ ∃ t' held, step t c = .ok (t', held) ∧ t'.spinlock = true := by
  cases c with
  | lookup ip' =>
      obtain rfl := List.mem_singleton.mp hip
      obtain ⟨mac, hlookup⟩ := lookup_of_has hfree hhas
      exact .inr ⟨_, _, by rw [step, hlookup]; rfl, rfl⟩
  | insert alloc ip' mac' =>
      obtain rfl := List.mem_singleton.mp hip
      obtain ⟨mac, hlookup⟩ := lookup_of_has hfree hhas
      refine .inr ⟨{ t with spinlock := true }, [true], ?_, rfl⟩
      rw [step, ngArpEntryInsert, LockM.bind_of_ok hlookup]
      rfl
  | timer alloc gLocalIp =>
      obtain ⟨i, hi, rfl⟩ := List.mem_map.mp hip
      obtain hspins | ⟨held, requests, hok⟩ := arpRequestLoop_of_hit alloc gLocalIp hfree hi hhas
      · exact .inl (by rw [step, arpRequestTimer, hspins]; rfl)
      · exact .inr ⟨_, held, by rw [step, arpRequestTimer, hok]; rfl, rfl⟩

end Step

/-! ## Sequences of calls -/

/-- A sequence of calls by one thread leaves the lock as it found it, call for
    call, without waiting for itself, exactly if none of the calls finds an
    address that it looks up. -/
theorem lock_balanced_iff {t : ArpTable} (hfree : t.spinlock = false) (calls : List Call) :
    Balanced t calls ↔ Misses t calls := by
  induction calls generalizing t with
  | nil => exact Iff.rfl
  | cons c calls ih =>
      by_cases hmiss : ∀ ip ∈ c.lookups, ¬ t.Has ip
      · rw [Misses, and_iff_right hmiss]
        obtain hexit | ⟨t', held, hok, hfree', hall⟩ := step_of_misses hfree hmiss
        · simp [Balanced, hexit]
        · simp [Balanced, hok, hfree', hall, ih hfree']
      · refine iff_of_false (fun h => ?_) fun h => hmiss h.1
        obtain ⟨ip, hip⟩ := not_forall.mp hmiss
        obtain ⟨hip, hhas⟩ := Classical.not_imp.mp hip
        obtain hspins | ⟨t', held, hok, hkept⟩ := step_of_hit hfree hip (not_not.mp hhas)
        · simp [Balanced, hspins] at h
        · simp [Balanced, hok, hkept] at h

/-- A table with the one entry 10.0.0.2, its lock free. -/
def oneEntry : ArpTable := ⟨[⟨0x0200000a, [2, 0, 0, 0, 0, 2]⟩], 1, false⟩

/-- 10.0.0.3 is looked up, inserted, and then 10.0.0.4. -/
theorem lock_balanced_iff_new_addresses :
    Balanced oneEntry [.lookup 0x0300000a, .insert true 0x0300000a [], .lookup 0x0400000a] ↔
      Misses oneEntry [.lookup 0x0300000a, .insert true 0x0300000a [], .lookup 0x0400000a] :=
  lock_balanced_iff (t := oneEntry) rfl _

/-- The lookup of 10.0.0.2 keeps the lock, and the next lookup, of whatever
    address, waits for it. -/
theorem found_entry_keeps_lock : oneEntry.spinlock = false ∧
    ¬ Balanced oneEntry [.lookup 0x0200000a] ∧
    ∃ t' held, step oneEntry (.lookup 0x0200000a) = .ok (t', held) ∧ t'.spinlock = true ∧
      ∀ ip, step t' (.lookup ip) = .error .spins := by
  have hlookup : step oneEntry (.lookup 0x0200000a) =
      .ok ({ oneEntry with spinlock := true }, [true]) := rfl
  refine ⟨rfl, ?_, _, _, hlookup, rfl, fun ip => rfl⟩
  intro h
  rw [Balanced, hlookup] at h
  cases h.1

end LinuxLearning.Kni
