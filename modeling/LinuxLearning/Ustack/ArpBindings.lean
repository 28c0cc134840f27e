/-
  LinuxLearning.Ustack.ArpBindings

  The ARP table of `tcp_from_king.c` with its pointers: entries on a linked
  list, and a counter of its own that bounds the walk of
  `ng_get_dst_macaddr`.

  Under insertions alone the table is a map that keeps the first binding of
  every address.  A walk whose bound was read before an insertion misses the
  oldest entries, since new ones are linked in front.
-/

import Mathlib.Data.Finset.Card
import LinuxLearning.Lib.LinkedList
import LinuxLearning.Ustack.OutputOrder

namespace LinuxLearning.Ustack

open Lib

/-! ## The table in memory -/

/-- `arpt` with the entries on the heap.  `next` is the next address that
    `rte_malloc` gives out; `count` is an `int`, which this one equals as long
    as there are fewer than 2^31 entries. -/
structure ArpMemory where
  entry : Addr → ArpEntry
  links : Links Addr
  entries : Option Addr
  count : Nat
  next : Addr

namespace ArpMemory

/-- The loop of `ng_get_dst_macaddr` from `iter` on, for `count` more nodes. -/
def walk (m : ArpMemory) (dip : BitVec 32) : Nat → Option Addr → Option (List Byte)
  | 0, _ => none
  | _ + 1, none => none
  | count + 1, some iter =>
      if dip = (m.entry iter).ip then some (m.entry iter).hwaddr
      else walk m dip count (m.links iter).next

/-- `ng_get_dst_macaddr` -/
def ngGetDstMacaddr (m : ArpMemory) (dip : BitVec 32) : Option (List Byte) :=
  m.walk dip m.count m.entries

/-- `ng_arp_entry_insert` -/
def ngArpEntryInsert (env : Env) (m : ArpMemory) (ip : BitVec 32) (mac : List Byte) :
    ArpMemory × Int :=
  match m.ngGetDstMacaddr ip with
  | some _ => (m, 0)
  | none =>
      if env.malloc .arpEntry then
        let linked := m.links.pushFront m.entries m.next
        ({ entry := Function.update m.entry m.next { ip := ip, hwaddr := mac }
           links := linked.1
           entries := linked.2
           count := m.count + 1
           next := m.next + 1 }, 1)
      else (m, 1)

/-- The table of `arp_table_instance`, which has no entries. -/
def empty (entry : Addr → ArpEntry) (links : Links Addr) (next : Addr) : ArpMemory where
  entry := entry
  links := links
  entries := none
  count := 0
  next := next

/-- A call of `ng_arp_entry_insert`. -/
structure Insert where
  env : Env
  ip : BitVec 32
  mac : List Byte

/-- The allocation of the call succeeds, if it comes to one. -/
def Insert.Allocates (c : Insert) : Prop := c.env.malloc .arpEntry = true

instance (c : Insert) : Decidable c.Allocates := inferInstanceAs (Decidable (_ = _))

/-- The table after a call. -/
def insert (m : ArpMemory) (c : Insert) : ArpMemory := (m.ngArpEntryInsert c.env c.ip c.mac).1

/-- The table after a sequence of calls. -/
def insertAll (m : ArpMemory) (calls : List Insert) : ArpMemory := calls.foldl insert m

/-! ## The list -/

/-- The memory holds the table `t`: `xs` are the nodes of the list, which
    carry its entries. -/
structure Holds (m : ArpMemory) (t : ArpTable) (xs : List Addr) : Prop where
  list : m.links.IsList m.entries xs
  taken : ∀ a ∈ xs, a < m.next
  entries : xs.map m.entry = t.entries
  count : m.count = t.count

variable {m : ArpMemory} {t : ArpTable} {xs : List Addr}

theorem holds_empty (entry : Addr → ArpEntry) (links : Links Addr) (next : Addr) :
    (empty entry links next).Holds .empty [] :=
  ⟨Links.isList_nil _, by simp, rfl, rfl⟩

/-- The walk along the pointers is the walk along the list. -/
theorem walk_eq {dip : BitVec 32} {prev cur : Option Addr} {count : Nat}
    (hchain : m.links.Chain prev cur xs) :
    m.walk dip count cur = ArpTable.walk dip count (xs.map m.entry) := by
  induction xs generalizing prev cur count with
  | nil =>
      obtain rfl : cur = none := hchain
      cases count <;> rfl
  | cons x xs ih =>
      obtain ⟨rfl, -, hrest⟩ := hchain
      cases count with
      | zero => rfl
      | succ count => rw [walk, List.map_cons, ArpTable.walk, ih hrest]

theorem Holds.walk_eq (h : m.Holds t xs) (dip : BitVec 32) (count : Nat) :
    m.walk dip count m.entries = ArpTable.walk dip count t.entries := by
  rw [ArpMemory.walk_eq h.list.chain, h.entries]

theorem Holds.macaddr_eq (h : m.Holds t xs) (dip : BitVec 32) :
    m.ngGetDstMacaddr dip = t.ngGetDstMacaddr dip := by
  rw [ngGetDstMacaddr, h.walk_eq, h.count, ArpTable.ngGetDstMacaddr]

/-- An insertion in memory is an insertion in the table. -/
theorem Holds.insert (h : m.Holds t xs) (c : Insert) :
    ∃ ys, (m.insert c).Holds (t.ngArpEntryInsert c.env c.ip c.mac).1 ys := by
  unfold ArpMemory.insert ngArpEntryInsert ArpTable.ngArpEntryInsert
  rw [h.macaddr_eq]
  cases t.ngGetDstMacaddr c.ip with
  | some mac => exact ⟨xs, h⟩
  | none =>
      by_cases hmalloc : c.env.malloc .arpEntry = true
      · have hfresh : m.next ∉ xs := fun hmem => Nat.lt_irrefl _ (h.taken _ hmem)
        have hfront := h.list.pushFront hfresh
        simp only [hmalloc, if_true]
        refine ⟨m.next :: xs, hfront, ?_, ?_, congrArg (· + 1) h.count⟩
        · rw [List.forall_mem_cons]
          exact ⟨Nat.lt_succ_self _, fun a ha => Nat.lt_succ_of_lt (h.taken a ha)⟩
        · simp only [List.map_cons, Function.update_self, ← h.entries]
          refine congrArg _ (List.map_congr_left fun a ha => ?_)
          rw [Function.update_of_ne (ne_of_mem_of_not_mem ha hfresh)]
      · simp only [hmalloc]
        exact ⟨xs, h⟩

/-- The table `t` after a sequence of calls. -/
def tableAfter (t : ArpTable) (calls : List Insert) : ArpTable :=
  calls.foldl (fun t c => (t.ngArpEntryInsert c.env c.ip c.mac).1) t

theorem Holds.insertAll (h : m.Holds t xs) (calls : List Insert) :
    ∃ ys, (m.insertAll calls).Holds (tableAfter t calls) ys := by
  induction calls generalizing m t xs with
  | nil => exact ⟨xs, h⟩
  | cons c calls ih =>
      obtain ⟨ys, hys⟩ := h.insert c
      exact ih hys

end ArpMemory

/-! ## First bindings -/

namespace ArpTable

open ArpMemory (Insert tableAfter)

/-- The addresses of the entries. -/
def keys (t : ArpTable) : List (BitVec 32) := t.entries.map (·.ip)

/-- The counter counts the entries, and no two are for one address. -/
structure WellFormed (t : ArpTable) : Prop where
  counted : t.Counted
  nodup : t.keys.Nodup

variable {t : ArpTable}

theorem wellFormed_empty : empty.WellFormed := ⟨rfl, List.nodup_nil⟩

theorem knows_iff_mem_keys (hcount : t.Counted) {ip : BitVec 32} : t.Knows ip ↔ ip ∈ t.keys := by
  rw [knows_iff hcount, keys, List.mem_map]

/-- A call links one entry if it allocates for an address without one, and
    else leaves the table alone. -/
theorem tableAfter_cons_cases (t : ArpTable) (c : Insert) (calls : List Insert) :
    (¬ (c.Allocates ∧ ¬ t.Knows c.ip) ∧ tableAfter t (c :: calls) = tableAfter t calls) ∨
    ((c.Allocates ∧ ¬ t.Knows c.ip) ∧ tableAfter t (c :: calls) =
      tableAfter ⟨⟨c.ip, c.mac⟩ :: t.entries, t.count + 1⟩ calls) := by
  unfold Knows ArpMemory.Insert.Allocates
  rw [tableAfter, List.foldl_cons, ← tableAfter, ngArpEntryInsert]
  cases t.ngGetDstMacaddr c.ip with
  | some mac => exact .inl ⟨by simp, rfl⟩
  | none =>
      by_cases hmalloc : c.env.malloc .arpEntry = true
      · exact .inr ⟨⟨hmalloc, by simp⟩, by rw [if_pos hmalloc]⟩
      · exact .inl ⟨fun h => hmalloc h.1, by rw [if_neg hmalloc]⟩

/-- One more entry, for a new address, keeps the table well formed. -/
theorem WellFormed.link (h : t.WellFormed) {ip : BitVec 32} (mac : List Byte)
    (hnew : ¬ t.Knows ip) : WellFormed ⟨⟨ip, mac⟩ :: t.entries, t.count + 1⟩ := by
  refine ⟨congrArg (· + 1) h.counted, List.nodup_cons.mpr ⟨?_, h.nodup⟩⟩
  rwa [knows_iff_mem_keys h.counted] at hnew

/-- The entry that was linked for `ip` is the one for `ip` from then on; other
    addresses keep theirs. -/
theorem macaddr_link (t : ArpTable) {ip : BitVec 32} (mac : List Byte) (hnew : ¬ t.Knows ip)
    (dip : BitVec 32) : ngGetDstMacaddr ⟨⟨ip, mac⟩ :: t.entries, t.count + 1⟩ dip =
      (t.ngGetDstMacaddr dip).or (if ip = dip then some mac else none) := by
  rw [ngGetDstMacaddr, walk]
  by_cases hip : dip = ip
  · have hnone : t.ngGetDstMacaddr dip = none := by
      rw [Knows, ne_eq, Decidable.not_not] at hnew
      rwa [hip]
    simp [hip, hip ▸ hnone]
  · rw [if_neg hip, if_neg (Ne.symm hip), Option.or_none, ngGetDstMacaddr]

/-- The MAC of the first call for `dip` that allocates. -/
def firstMac (dip : BitVec 32) (calls : List Insert) : Option (List Byte) :=
  calls.findSome? fun c => if c.Allocates ∧ c.ip = dip then some c.mac else none

/-- Calls leave a well-formed table with what was bound before, and with the
    first binding of every other address. -/
theorem WellFormed.tableAfter_spec (h : t.WellFormed) (calls : List Insert) :
    (tableAfter t calls).WellFormed ∧ ∀ dip, (tableAfter t calls).ngGetDstMacaddr dip =
      (t.ngGetDstMacaddr dip).or (firstMac dip calls) := by
  induction calls generalizing t with
  | nil => exact ⟨h, fun dip => (Option.or_none ..).symm⟩
  | cons c calls ih =>
      rcases tableAfter_cons_cases t c calls with ⟨hskip, heq⟩ | ⟨⟨halloc, hnew⟩, heq⟩
      · obtain ⟨hwf, hmac⟩ := ih h
        refine ⟨heq ▸ hwf, fun dip => ?_⟩
        rw [heq, hmac, firstMac, firstMac, List.findSome?_cons]
        by_cases hdip : c.Allocates ∧ c.ip = dip
        · -- the call found its address bound
          have hknown : t.Knows dip := by
            by_contra hnew
            exact hskip ⟨hdip.1, hdip.2 ▸ hnew⟩
          obtain ⟨mac, hbound⟩ := Option.ne_none_iff_exists'.mp hknown
          simp [hbound]
        · rw [if_neg hdip]
      · obtain ⟨hwf, hmac⟩ := ih (h.link c.mac hnew)
        refine ⟨heq ▸ hwf, fun dip => ?_⟩
        rw [heq, hmac, macaddr_link t c.mac hnew, Option.or_assoc, firstMac, firstMac,
          List.findSome?_cons]
        simp only [halloc, true_and]
        split <;> simp

end ArpTable

namespace ArpMemory

/-- The ARP table is a map with stable first bindings.  After any sequence of
    insertions the list is well formed, the counter is its length and no two
    entries are for one address; a lookup answers the MAC of the first
    insertion of the address whose allocation succeeded; and no insertion of
    another address, or of one that is bound, changes an answer. -/
theorem arp_bindings_stable (entry : Addr → ArpEntry) (links : Links Addr) (next : Addr)
    (calls : List Insert) :
    (∃ xs, ((empty entry links next).insertAll calls).links.IsList
        ((empty entry links next).insertAll calls).entries xs ∧
      ((empty entry links next).insertAll calls).count = xs.length ∧
      (xs.map fun a => (((empty entry links next).insertAll calls).entry a).ip).Nodup) ∧
    ∀ ip, ((empty entry links next).insertAll calls).ngGetDstMacaddr ip =
        ArpTable.firstMac ip calls ∧
      ∀ c : Insert, c.ip ≠ ip ∨ ArpTable.firstMac ip calls ≠ none →
        (((empty entry links next).insertAll calls).insert c).ngGetDstMacaddr ip =
          ArpTable.firstMac ip calls := by
  obtain ⟨xs, hholds⟩ := (holds_empty entry links next).insertAll calls
  obtain ⟨hwf, hmac⟩ := ArpTable.wellFormed_empty.tableAfter_spec calls
  have hfirst (ip : BitVec 32) : (tableAfter .empty calls).ngGetDstMacaddr ip =
      ArpTable.firstMac ip calls := by
    rw [hmac]
    rfl
  refine ⟨⟨xs, hholds.list, ?_, ?_⟩, fun ip => ⟨?_, fun c hc => ?_⟩⟩
  · rw [hholds.count, hwf.counted, ← hholds.entries, List.length_map]
  · have hnodup := hwf.nodup
    rwa [ArpTable.keys, ← hholds.entries, List.map_map] at hnodup
  · rw [hholds.macaddr_eq, hfirst]
  · obtain ⟨ys, hys⟩ := hholds.insert c
    obtain ⟨-, hnext⟩ := hwf.tableAfter_spec [c]
    have hstep : (tableAfter (tableAfter .empty calls) [c]).ngGetDstMacaddr ip =
        (ArpTable.firstMac ip calls).or (ArpTable.firstMac ip [c]) := by rw [hnext, hfirst]
    rw [hys.macaddr_eq]
    refine hstep.trans ?_
    rcases hc with hne | hbound
    · simp [ArpTable.firstMac, hne]
    · obtain ⟨mac, hmac⟩ := Option.ne_none_iff_exists'.mp hbound
      rw [hmac, Option.some_or]

end ArpMemory

/-! ## A walk behind insertions -/

namespace ArpTable

open ArpMemory (Insert tableAfter)

variable {t : ArpTable}

theorem firstMac_ne_none_iff {dip : BitVec 32} {calls : List Insert} :
    firstMac dip calls ≠ none ↔ ∃ c ∈ calls, c.Allocates ∧ c.ip = dip := by
  rw [Option.ne_none_iff_exists', firstMac]
  constructor
  · rintro ⟨mac, h⟩
    obtain ⟨c, hc, hmac⟩ := List.exists_of_findSome?_eq_some h
    refine ⟨c, hc, ?_⟩
    by_contra hnot
    rw [if_neg hnot] at hmac
    cases hmac
  · rintro ⟨c, hc, hboth⟩
    rw [← Option.isSome_iff_exists, List.findSome?_isSome_iff]
    exact ⟨c, hc, by rw [if_pos hboth]; rfl⟩

/-- Entries are linked in front of those that are there. -/
theorem exists_linked (t : ArpTable) (calls : List Insert) :
    ∃ linked, (tableAfter t calls).entries = linked ++ t.entries := by
  induction calls generalizing t with
  | nil => exact ⟨[], rfl⟩
  | cons c calls ih =>
      rcases tableAfter_cons_cases t c calls with ⟨-, heq⟩ | ⟨-, heq⟩
      · rw [heq]
        exact ih t
      · obtain ⟨linked, hlinked⟩ := ih ⟨⟨c.ip, c.mac⟩ :: t.entries, t.count + 1⟩
        exact ⟨linked ++ [⟨c.ip, c.mac⟩], by rw [heq, hlinked]; simp⟩

/-- The addresses without an entry that calls allocate one for. -/
def newKeys (t : ArpTable) (calls : List Insert) : Finset (BitVec 32) :=
  ((calls.filter fun c => c.Allocates).map (·.ip)).toFinset \ t.keys.toFinset

/-- One entry is linked for each of them. -/
theorem WellFormed.length_linked (h : t.WellFormed) {calls : List Insert} {linked : List ArpEntry}
    (hlinked : (tableAfter t calls).entries = linked ++ t.entries) :
    linked.length = (t.newKeys calls).card := by
  obtain ⟨hwf, hmac⟩ := h.tableAfter_spec calls
  have hnodup := hwf.nodup
  rw [keys, hlinked, List.map_append, List.nodup_append'] at hnodup
  obtain ⟨hfresh, -, hdisjoint⟩ := hnodup
  have hmem (ip : BitVec 32) : ip ∈ linked.map (·.ip) ↔ ip ∈ t.newKeys calls := by
    have hknows : (tableAfter t calls).Knows ip ↔
        t.Knows ip ∨ ∃ c ∈ calls, c.Allocates ∧ c.ip = ip := by
      rw [← firstMac_ne_none_iff, Knows, hmac, Knows]
      cases t.ngGetDstMacaddr ip <;> simp
    rw [knows_iff_mem_keys hwf.counted, knows_iff_mem_keys h.counted, keys, hlinked,
      List.map_append, List.mem_append, ← keys] at hknows
    have hcalls : ip ∈ (calls.filter fun c => c.Allocates).map (·.ip) ↔
        ∃ c ∈ calls, c.Allocates ∧ c.ip = ip := by
      simp [and_assoc]
    rw [newKeys, Finset.mem_sdiff, List.mem_toFinset, List.mem_toFinset, hcalls]
    constructor
    · intro hin
      have hnot : ip ∉ t.keys := hdisjoint hin
      exact ⟨(hknows.mp (.inl hin)).resolve_left hnot, hnot⟩
    · rintro ⟨hcall, hnot⟩
      exact (hknows.mpr (.inr hcall)).resolve_right hnot
  calc linked.length = (linked.map (·.ip)).toFinset.card := by
        rw [List.toFinset_card_of_nodup hfresh, List.length_map]
    _ = (t.newKeys calls).card := by
        congr 1
        ext ip
        rw [List.mem_toFinset, hmem]

/-- The walk reaches an entry if it may pass all nodes in front. -/
theorem walk_append {front : List ArpEntry} {e : ArpEntry} (hfront : ∀ x ∈ front, x.ip ≠ e.ip)
    (count : Nat) (rest : List ArpEntry) :
    walk e.ip count (front ++ e :: rest) =
      if front.length < count then some e.hwaddr else none := by
  induction front generalizing count with
  | nil =>
      cases count with
      | zero => rfl
      | succ count => simp [walk]
  | cons x front ih =>
      rw [List.forall_mem_cons] at hfront
      cases count with
      | zero => rfl
      | succ count =>
          rw [List.cons_append, walk, if_neg hfront.1.symm, ih hfront.2, List.length_cons]
          simp only [Nat.succ_lt_succ_iff]

/-- A walk with the old bound over the new list finds an entry exactly if no
    more entries were linked than there are behind it. -/
theorem WellFormed.walk_tableAfter (h : t.WellFormed) {calls : List Insert}
    {pre post : List ArpEntry} {e : ArpEntry} (hentries : t.entries = pre ++ e :: post) :
    walk e.ip t.count (tableAfter t calls).entries = some e.hwaddr ↔
      (t.newKeys calls).card ≤ post.length := by
  obtain ⟨linked, hlinked⟩ := exists_linked t calls
  have hnodup := (h.tableAfter_spec calls).1.nodup
  have hcount : t.count = pre.length + (post.length + 1) := by
    rw [h.counted, hentries, List.length_append, List.length_cons]
  have hall : (tableAfter t calls).entries = (linked ++ pre) ++ e :: post := by
    rw [hlinked, hentries, List.append_assoc]
  have hfront : ∀ x ∈ linked ++ pre, x.ip ≠ e.ip := by
    rw [keys, hall, List.map_append, List.map_cons] at hnodup
    intro x hx heq
    exact (List.nodup_append'.mp hnodup).2.2 (List.mem_map_of_mem hx) (by simp [heq])
  rw [hall, walk_append hfront, ← h.length_linked hlinked, List.length_append, hcount]
  constructor
  · intro hfound
    by_contra hmore
    rw [if_neg (by omega)] at hfound
    cases hfound
  · intro hle
    rw [if_pos (by omega)]

end ArpTable

namespace ArpMemory

/-- A table that calls of `ng_arp_entry_insert` have made. -/
def Reachable (m : ArpMemory) : Prop :=
  ∃ entry links next calls, m = (empty entry links next).insertAll calls

/-- The second step of `ng_get_dst_macaddr`, on what the table is by then,
    when its first step has read the counter of `m`. -/
def walkLater (m later : ArpMemory) (dip : BitVec 32) : Option (List Byte) :=
  later.walk dip m.count later.entries

/-- The addresses that are not bound in the list `xs` and that calls allocate
    an entry for. -/
def newAddresses (m : ArpMemory) (xs : List Addr) (calls : List Insert) : Finset (BitVec 32) :=
  ((calls.filter fun c => c.Allocates).map (·.ip)).toFinset \
    (xs.map fun a => (m.entry a).ip).toFinset

/-- With insertions between the two steps of a lookup, the walk finds an
    address exactly if no more new addresses come in than there are entries
    behind its own. -/
theorem walk_later_finds_iff {m : ArpMemory} {pre post : List Addr} {a : Addr}
    (hm : m.Reachable) (hlist : m.links.IsList m.entries (pre ++ a :: post))
    (calls : List Insert) :
    m.walkLater (m.insertAll calls) (m.entry a).ip = some (m.entry a).hwaddr ↔
      (m.newAddresses (pre ++ a :: post) calls).card ≤ post.length := by
  obtain ⟨entry, links, next, calls₀, rfl⟩ := hm
  generalize hm : (empty entry links next).insertAll calls₀ = m at *
  obtain ⟨xs, hholds⟩ := (holds_empty entry links next).insertAll calls₀
  obtain ⟨hwf, -⟩ := ArpTable.wellFormed_empty.tableAfter_spec calls₀
  rw [hm] at hholds
  obtain rfl := hholds.list.unique hlist
  obtain ⟨ys, hlater⟩ := hholds.insertAll calls
  have hentries : (tableAfter .empty calls₀).entries =
      pre.map m.entry ++ m.entry a :: post.map m.entry := by
    rw [← hholds.entries, List.map_append, List.map_cons]
  have hkeys : m.newAddresses (pre ++ a :: post) calls =
      (tableAfter .empty calls₀).newKeys calls := by
    rw [newAddresses, ArpTable.newKeys, ArpTable.keys, ← hholds.entries, List.map_map]
    rfl
  have hfound : ArpTable.walk (m.entry a).ip (tableAfter .empty calls₀).count
      (tableAfter (tableAfter .empty calls₀) calls).entries = some (m.entry a).hwaddr ↔
      ((tableAfter .empty calls₀).newKeys calls).card ≤ (post.map m.entry).length :=
    hwf.walk_tableAfter hentries
  rw [List.length_map, ← hkeys] at hfound
  rw [walkLater, hlater.walk_eq, hholds.count]
  exact hfound

/-- A heap with nothing in it. -/
def blank : ArpMemory := empty (fun _ => ⟨0, []⟩) (fun _ => ⟨none, none⟩) 0

/-- The insertion of 10.0.0.`n`, with a MAC of its own. -/
def learn (n : Byte) : Insert := ⟨.plain, n ++ (0x00000a : BitVec 24), [2, 0, 0, 0, 0, n]⟩

theorem isList_learned : (blank.insertAll [learn 2]).links.IsList
    (blank.insertAll [learn 2]).entries ([] ++ 0 :: []) :=
  ⟨by decide, rfl, rfl, rfl⟩

/-- The table with 10.0.0.2, of which 10.0.0.3 is no part yet. -/
theorem walk_later_finds_iff_overtaken :
    ((blank.insertAll [learn 2]).walkLater ((blank.insertAll [learn 2]).insertAll [learn 3])
        ((blank.insertAll [learn 2]).entry 0).ip =
      some ((blank.insertAll [learn 2]).entry 0).hwaddr) ↔
    ((blank.insertAll [learn 2]).newAddresses ([] ++ 0 :: []) [learn 3]).card ≤ 0 :=
  walk_later_finds_iff ⟨_, _, _, [learn 2], rfl⟩ isList_learned [learn 3]

/-- One insertion between the two steps hides the only entry. -/
theorem concurrent_insert_hides : ∃ m : ArpMemory, m.Reachable ∧
    m.ngGetDstMacaddr (learn 2).ip = some (learn 2).mac ∧
    m.walkLater (m.insertAll [learn 3]) (learn 2).ip = none :=
  ⟨blank.insertAll [learn 2], ⟨_, _, _, [learn 2], rfl⟩, by decide, by decide⟩

end ArpMemory

end LinuxLearning.Ustack
