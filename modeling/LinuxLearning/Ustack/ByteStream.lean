/-
  LinuxLearning.Ustack.ByteStream

  `nrecv` as a reader of a byte stream.

  The first part is the reader on the payloads alone, and exactly when it
  delivers them as a stream: a read that takes only part of a fragment
  returns the length of the rest, and puts the rest behind the other
  fragments.  The second part carries this over to the calls.
-/

import LinuxLearning.Ustack.Buffers
import LinuxLearning.Ustack.TcpOutput

namespace LinuxLearning.Ustack

open Lib

/-! ## The reader on payloads -/

/-- What a call wrote into the caller's buffer, and what it returned. -/
abbrev Read := List Byte × Int

/-- `nrecv` with a buffer of `len` bytes, on the payloads of the queue: the
    read and the queue it leaves. -/
def recvChunk (q : List (List Byte)) (len : Nat) : Option (Read × List (List Byte)) :=
  match q with
  | [] => none
  | c :: rest =>
      if len < c.length then some ((c.take len, ↑(c.length - len)), rest ++ [c.drop len])
      else some ((c, c.length), rest)

/-- One call after the other; `none` if one of them finds the queue empty. -/
def recvChunks : List (List Byte) → List Nat → Option (List Read × List (List Byte))
  | q, [] => some ([], q)
  | q, len :: lens =>
      match recvChunk q len with
      | none => none
      | some (r, q) =>
          match recvChunks q lens with
          | none => none
          | some (rs, q) => some (r :: rs, q)

/-- The bytes that a sequence of reads wrote. -/
def written (rs : List Read) : List Byte := (rs.map Prod.fst).flatten

/-- The call with a buffer of `len` bytes returned the number of bytes it
    wrote, at least one and at most what the buffer holds. -/
def Counted (r : Read) (len : Nat) : Prop := r.2 = r.1.length ∧ 1 ≤ r.2 ∧ r.2 ≤ len

/-- The reads of a byte stream: each is counted, and together they wrote a
    prefix of the stream, all of it if nothing is left. -/
structure IsStream (stream : List Byte) (lens : List Nat) (rs : List Read)
    (left : List (List Byte)) : Prop where
  counts : List.Forall₂ Counted rs lens
  order : written rs <+: stream
  all : left = [] → written rs = stream

/-- The lengths of the queue after a call. -/
def shrink : List Nat → Nat → List Nat
  | [], _ => []
  | n :: rest, len => if len < n then rest ++ [n - len] else rest

/-- No call finds the queue empty. -/
def Returns : List Nat → List Nat → Prop
  | _, [] => True
  | ns, len :: lens => ns ≠ [] ∧ Returns (shrink ns len) lens

/-- Every call that takes part of a fragment takes half of it, and it is the
    last call or there is no other fragment. -/
def Fits : List Nat → List Nat → Prop
  | _, [] => True
  | [], _ :: _ => True
  | n :: rest, len :: lens =>
      (len < n → n = 2 * len ∧ (rest = [] ∨ lens = [])) ∧ Fits (shrink (n :: rest) len) lens

theorem map_length_recvChunk {q q' : List (List Byte)} {len : Nat} {r : Read}
    (h : recvChunk q len = some (r, q')) : q'.map List.length = shrink (q.map List.length) len := by
  cases q with
  | nil => cases h
  | cons c rest =>
      simp only [recvChunk] at h
      split at h
      · rename_i hlt
        obtain ⟨-, rfl⟩ := Prod.mk.inj (Option.some.inj h)
        simp [shrink, hlt]
      · rename_i hge
        obtain ⟨-, rfl⟩ := Prod.mk.inj (Option.some.inj h)
        simp [shrink, hge]

/-- If no call finds the queue empty, every call returns. -/
theorem exists_recvChunks {q : List (List Byte)} {lens : List Nat}
    (h : Returns (q.map List.length) lens) : ∃ rs left, recvChunks q lens = some (rs, left) := by
  induction lens generalizing q with
  | nil => exact ⟨[], q, rfl⟩
  | cons len lens ih =>
      obtain ⟨hne, hrest⟩ := h
      cases hr : recvChunk q len with
      | none =>
          cases q with
          | nil => exact absurd rfl hne
          | cons c rest =>
              simp only [recvChunk] at hr
              split at hr <;> cases hr
      | some p =>
          obtain ⟨r, q'⟩ := p
          rw [← map_length_recvChunk hr] at hrest
          obtain ⟨rs, left, hrs⟩ := ih hrest
          exact ⟨r :: rs, left, by simp only [recvChunks, hr, hrs]⟩

theorem recvChunks_cons {q left : List (List Byte)} {len : Nat} {lens : List Nat}
    {rs : List Read} (h : recvChunks q (len :: lens) = some (rs, left)) :
    ∃ r q' rs', recvChunk q len = some (r, q') ∧ recvChunks q' lens = some (rs', left) ∧
      rs = r :: rs' := by
  simp only [recvChunks] at h
  split at h
  · cases h
  · rename_i r q' hr
    split at h
    · cases h
    · rename_i rs' left' hrs
      obtain ⟨rfl, rfl⟩ := Prod.mk.inj (Option.some.inj h)
      exact ⟨r, q', rs', hr, hrs, rfl⟩

/-! ## Reads that fit -/

/-- A call that takes a whole fragment goes on with the rest of the stream. -/
theorem isStream_cons_whole {c : List Byte} {stream : List Byte} {len : Nat} {lens : List Nat}
    {rs : List Read} {left : List (List Byte)} (hpos : 0 < c.length) (hlen : c.length ≤ len) :
    IsStream (c ++ stream) (len :: lens) ((c, c.length) :: rs) left ↔
      IsStream stream lens rs left := by
  have hwritten : written ((c, c.length) :: rs) = c ++ written rs := by simp [written]
  constructor
  · rintro ⟨hcounts, horder, hall⟩
    rw [hwritten] at horder hall
    refine ⟨(List.forall₂_cons.mp hcounts).2, (List.prefix_append_right_inj c).mp horder, ?_⟩
    exact fun hleft => List.append_cancel_left (hall hleft)
  · rintro ⟨hcounts, horder, hall⟩
    refine ⟨.cons ⟨rfl, by simp only; omega, by simp only; omega⟩ hcounts, ?_, ?_⟩
    · rw [hwritten]
      exact (List.prefix_append_right_inj c).mpr horder
    · rw [hwritten]
      exact fun hleft => by rw [hall hleft]

/-- A call that takes half of the only fragment goes on with the other half. -/
theorem isStream_cons_half {c : List Byte} {len : Nat} {lens : List Nat} {rs : List Read}
    {left : List (List Byte)} (hpos : 0 < len) (hlen : c.length = 2 * len) :
    IsStream c (len :: lens) ((c.take len, ↑(c.length - len)) :: rs) left ↔
      IsStream (c.drop len) lens rs left := by
  have htake : (c.take len).length = len := by rw [List.length_take]; omega
  have hret : c.length - len = (c.take len).length := by omega
  have hsplit : c = c.take len ++ c.drop len := (List.take_append_drop len c).symm
  rw [hret]
  conv_lhs => rw [hsplit]
  rw [List.take_left' htake]
  exact isStream_cons_whole (by omega) (by omega)

theorem isStream_of_fits {q left : List (List Byte)} {lens : List Nat} {rs : List Read}
    (hfits : Fits (q.map List.length) lens) (hq : ∀ c ∈ q, 0 < c.length)
    (hlens : ∀ len ∈ lens, 0 < len) (h : recvChunks q lens = some (rs, left)) :
    IsStream q.flatten lens rs left := by
  induction lens generalizing q rs with
  | nil =>
      obtain ⟨rfl, rfl⟩ := Prod.mk.inj (Option.some.inj h)
      refine ⟨.nil, List.nil_prefix, ?_⟩
      rintro rfl
      rfl
  | cons len lens ih =>
      obtain ⟨r, q', rs, hr, hrs, rfl⟩ := recvChunks_cons h
      rw [List.forall_mem_cons] at hlens
      cases q with
      | nil => cases hr
      | cons c rest =>
          rw [List.forall_mem_cons] at hq
          obtain ⟨hpart, hnext⟩ := hfits
          rw [← List.map_cons, ← map_length_recvChunk hr] at hnext
          simp only [recvChunk] at hr
          split at hr
          · rename_i hlt
            obtain ⟨rfl, rfl⟩ := Prod.mk.inj (Option.some.inj hr)
            obtain ⟨htwice, hlast⟩ := hpart hlt
            rcases hlast with hnil | hnil
            · -- no other fragment: the rest is read next
              obtain rfl := List.map_eq_nil_iff.mp hnil
              have hdrop : ∀ d ∈ [c.drop len], 0 < d.length := by
                simp only [List.mem_singleton, forall_eq, List.length_drop]
                omega
              have hstream := ih hnext hdrop hlens.2 hrs
              rw [List.nil_append, List.flatten_singleton] at hstream
              rw [List.flatten_singleton]
              exact (isStream_cons_half hlens.1 htwice).mpr hstream
            · -- no other call
              subst hnil
              obtain ⟨rfl, rfl⟩ := Prod.mk.inj (Option.some.inj hrs)
              refine ⟨.cons ⟨?_, ?_, ?_⟩ .nil, ?_, ?_⟩
              · simp only [List.length_take]
                omega
              · simp only
                omega
              · simp only
                omega
              · simp only [written, List.map_cons, List.map_nil, List.flatten_cons,
                  List.flatten_nil, List.append_nil]
                exact (List.take_prefix len c).trans (List.prefix_append _ _)
              · intro hleft
                simp at hleft
          · rename_i hge
            obtain ⟨rfl, rfl⟩ := Prod.mk.inj (Option.some.inj hr)
            rw [List.flatten_cons]
            exact (isStream_cons_whole hq.1 (Nat.le_of_not_lt hge)).mpr
              (ih hnext hq.2 hlens.2 hrs)

/-! ## Reads that do not fit -/

/-- `chunks` is a queue of the given lengths that the reads do not deliver as a
    stream. -/
def Misread (ns lens : List Nat) (q : List (List Byte)) : Prop :=
  q.map List.length = ns ∧
    ∀ rs left, recvChunks q lens = some (rs, left) → ¬ IsStream q.flatten lens rs left

/-- A part that is not half is counted wrong. -/
theorem misread_count {n len : Nat} {rest lens : List Nat} (hlt : len < n)
    (hn : n ≠ 2 * len) :
    Misread (n :: rest) (len :: lens) (List.replicate n 0 :: rest.map (List.replicate · 0)) := by
  refine ⟨by simp [Function.comp_def], fun rs left h hstream => ?_⟩
  obtain ⟨r, q', rs, hr, -, rfl⟩ := recvChunks_cons h
  simp only [recvChunk, List.length_replicate, hlt, if_true] at hr
  obtain ⟨rfl, -⟩ := Prod.mk.inj (Option.some.inj hr)
  obtain ⟨hcount, -, -⟩ := (List.forall₂_cons.mp hstream.counts).1
  simp only [List.length_take, List.length_replicate] at hcount
  omega

/-- What a call takes from a queue begins as the queue's first fragment. -/
theorem head?_recvChunk {x : Byte} {c : List Byte} {rest q' : List (List Byte)} {len : Nat}
    {r : Read} (hlen : 0 < len) (h : recvChunk ((x :: c) :: rest) len = some (r, q')) :
    ∃ bs, r.1 = x :: bs := by
  simp only [recvChunk] at h
  split at h
  · obtain ⟨rfl, -⟩ := Prod.mk.inj (Option.some.inj h)
    obtain ⟨k, rfl⟩ := Nat.exists_eq_succ_of_ne_zero (Nat.pos_iff_ne_zero.mp hlen)
    exact ⟨c.take k, rfl⟩
  · obtain ⟨rfl, -⟩ := Prod.mk.inj (Option.some.inj h)
    exact ⟨c, rfl⟩

/-- After a part, the next call goes on with another fragment. -/
theorem misread_order {n m len len' : Nat} {rest lens : List Nat} (hlt : len < n) (hm : 0 < m)
    (hlen' : 0 < len') :
    Misread (n :: m :: rest) (len :: len' :: lens)
      (List.replicate n 0 :: List.replicate m 1 :: rest.map (List.replicate · 1)) := by
  refine ⟨by simp [Function.comp_def], fun rs left h hstream => ?_⟩
  obtain ⟨r, q', rs, hr, hrs, rfl⟩ := recvChunks_cons h
  simp only [recvChunk, List.length_replicate, hlt, if_true] at hr
  obtain ⟨rfl, rfl⟩ := Prod.mk.inj (Option.some.inj hr)
  obtain ⟨r', q'', rs, hr', -, rfl⟩ := recvChunks_cons hrs
  obtain ⟨k, rfl⟩ := Nat.exists_eq_succ_of_ne_zero (Nat.pos_iff_ne_zero.mp hm)
  obtain ⟨bs, hbs⟩ := head?_recvChunk hlen' hr'
  -- the byte after the part is a 1 in what was written, a 0 in the stream
  obtain ⟨tail, htail⟩ := hstream.order
  have hbyte := congrArg (·[len]?) htail
  simp only [written, List.map_cons, List.flatten_cons, hbs, List.take_replicate,
    Nat.min_eq_left (Nat.le_of_lt hlt), List.append_assoc] at hbyte
  rw [List.getElem?_append_right (by simp), List.length_replicate, Nat.sub_self,
    List.cons_append, List.getElem?_cons_zero,
    List.getElem?_append_left (by simpa using hlt), List.getElem?_replicate_of_lt hlt] at hbyte
  simp at hbyte

/-- A queue that is misread is misread behind a fragment that is read whole. -/
theorem misread_of_whole {n len : Nat} {ns lens : List Nat} {q : List (List Byte)}
    (hpos : 0 < n) (hlen : n ≤ len) (h : Misread ns lens q) :
    Misread (n :: ns) (len :: lens) (List.replicate n 0 :: q) := by
  obtain ⟨hshape, hbad⟩ := h
  refine ⟨by simp [hshape], fun rs left h hstream => ?_⟩
  obtain ⟨r, q', rs, hr, hrs, rfl⟩ := recvChunks_cons h
  have hnlt : ¬ len < (List.replicate n (0 : Byte)).length := by
    rw [List.length_replicate]
    omega
  simp only [recvChunk, hnlt, if_false] at hr
  obtain ⟨rfl, rfl⟩ := Prod.mk.inj (Option.some.inj hr)
  rw [List.flatten_cons] at hstream
  refine hbad rs left hrs ((isStream_cons_whole ?_ ?_).mp hstream)
  · rwa [List.length_replicate]
  · rwa [List.length_replicate]

/-- A fragment that is misread is misread as the second half of another. -/
theorem misread_of_half {n len : Nat} {lens : List Nat} {d : List Byte} (hpos : 0 < len)
    (hn : n = 2 * len) (hd : d.length = n - len)
    (hbad : ∀ rs left, recvChunks [d] lens = some (rs, left) →
      ¬ IsStream [d].flatten lens rs left) :
    Misread [n] (len :: lens) [List.replicate len 0 ++ d] := by
  have hlength : (List.replicate len 0 ++ d).length = n := by
    rw [List.length_append, List.length_replicate]
    omega
  refine ⟨by rw [List.map_singleton, hlength], fun rs left h hstream => ?_⟩
  obtain ⟨r, q', rs, hr, hrs, rfl⟩ := recvChunks_cons h
  have hlt : len < n := by omega
  simp only [recvChunk, hlength, hlt, if_true] at hr
  obtain ⟨rfl, rfl⟩ := Prod.mk.inj (Option.some.inj hr)
  rw [List.flatten_singleton, ← hlength] at hstream
  have hhalf := (isStream_cons_half hpos (by omega)).mp hstream
  rw [List.drop_left' List.length_replicate] at hhalf hrs
  rw [List.nil_append] at hrs
  exact hbad rs left hrs (by rwa [List.flatten_singleton])

/-- Reads that do not fit misread some queue of the lengths. -/
theorem exists_misread {ns lens : List Nat} (hns : ∀ n ∈ ns, 0 < n)
    (hlens : ∀ len ∈ lens, 0 < len) (hreturns : Returns ns lens) (hfits : ¬ Fits ns lens) :
    ∃ q, Misread ns lens q := by
  induction lens generalizing ns with
  | nil => exact absurd trivial hfits
  | cons len lens ih =>
      rw [List.forall_mem_cons] at hlens
      cases ns with
      | nil => exact absurd rfl hreturns.1
      | cons n rest =>
          rw [List.forall_mem_cons] at hns
          have hnext := hreturns.2
          simp only [Fits, shrink] at hfits hnext
          -- the first call takes a part of the oldest fragment, or all of it
          by_cases hlt : len < n
          · simp only [hlt, if_true, true_imp_iff] at hfits hnext
            by_cases hn : n = 2 * len
            · cases rest with
              -- alone on the ring, half of it: what is put back is again alone
              | nil =>
                  have hrest : ¬ Fits ([] ++ [n - len]) lens := fun h => hfits ⟨⟨hn, .inl rfl⟩, h⟩
                  obtain ⟨q, hshape, hbad⟩ := ih (by simp; omega) hlens.2 hnext hrest
                  obtain ⟨d, rfl, hd⟩ := List.map_eq_singleton_iff.mp hshape
                  exact ⟨_, misread_of_half hlens.1 hn hd hbad⟩
              | cons m rest =>
                  cases lens with
                  | nil => exact absurd ⟨⟨hn, .inr rfl⟩, trivial⟩ hfits
                  | cons len' lens =>
                      rw [List.forall_mem_cons] at hns hlens
                      exact ⟨_, misread_order hlt hns.2.1 hlens.2.1⟩
            -- not half: the returned count is not that of the bytes given
            · exact ⟨_, misread_count hlt hn⟩
          · simp only [hlt, if_false, false_imp_iff, true_and] at hfits hnext
            obtain ⟨q, hshape, hbad⟩ := ih hns.2 hlens.2 hnext hfits
            exact ⟨_, misread_of_whole hns.1 (Nat.le_of_not_lt hlt) ⟨hshape, hbad⟩⟩

/-- The reads of every queue of the lengths are those of a stream exactly if
    they fit. -/
theorem fits_iff {ns lens : List Nat} (hns : ∀ n ∈ ns, 0 < n) (hlens : ∀ len ∈ lens, 0 < len)
    (hreturns : Returns ns lens) :
    (∀ q rs left, q.map List.length = ns → recvChunks q lens = some (rs, left) →
      IsStream q.flatten lens rs left) ↔ Fits ns lens := by
  constructor
  · intro hall
    by_contra hfits
    obtain ⟨q, hshape, hbad⟩ := exists_misread hns hlens hreturns hfits
    rw [← hshape] at hreturns
    obtain ⟨rs, left, hrs⟩ := exists_recvChunks hreturns
    exact hbad rs left hrs (hall q rs left hshape hrs)
  · rintro hfits q rs left rfl hrs
    refine isStream_of_fits hfits (fun c hc => ?_) hlens hrs
    exact hns _ (List.mem_map_of_mem hc)

/-! ## `nrecv` as the reader -/

/-- The fragment has bytes, and its data holds all of them. -/
def NgTcpFragment.Filled (f : NgTcpFragment) : Prop :=
  0 < f.length ∧ ∃ data, f.data = some data ∧ f.length ≤ data.length

theorem NgTcpFragment.Filled.length_payload {f : NgTcpFragment} (h : f.Filled) :
    f.payload.length = f.length := by
  obtain ⟨-, data, hdata, hlen⟩ := h
  rw [NgTcpFragment.payload, hdata, Option.getD_some, List.length_take, Nat.min_eq_left hlen]

/-- The rest of a fragment is filled, and holds the bytes not read. -/
theorem filled_shift {f : NgTcpFragment} {data : List Byte} {len : Nat}
    (hdata : f.data = some data) (hlen : f.length ≤ data.length) (hlt : len < f.length) :
    (f.shift data len).Filled ∧ (f.shift data len).payload = f.payload.drop len := by
  have hmoved : ((data.drop len).take (f.length - len)).length = f.length - len := by
    rw [List.length_take, List.length_drop]
    omega
  refine ⟨⟨Nat.sub_pos_of_lt hlt, _, rfl, ?_⟩, ?_⟩
  · rw [List.length_append, hmoved]
    exact Nat.le_add_right ..
  · simp only [NgTcpFragment.payload, NgTcpFragment.shift, Option.getD_some, hdata]
    rw [List.take_left' hmoved, List.drop_take]

/-- On a queue of filled fragments `nrecv` reads what `recvChunk` reads, and
    leaves filled fragments. -/
theorem nrecvStream_recvChunk {t : NgTcpStream} {len : Nat} {r : Read} {q : List (List Byte)}
    (hfilled : ∀ f ∈ t.rcvItems, f.Filled)
    (h : recvChunk (t.rcvItems.map NgTcpFragment.payload) len = some (r, q)) :
    ∃ t' ops, nrecvStream t len = .ok (t', ops, r) ∧ t'.fd = t.fd ∧
      t'.rcvItems.map NgTcpFragment.payload = q ∧ ∀ f ∈ t'.rcvItems, f.Filled := by
  unfold NgTcpStream.rcvItems at h hfilled
  cases hring : t.rcvbuf with
  | none =>
      rw [hring] at h
      cases h
  | some ring =>
      rw [hring, ringItems_some] at h hfilled
      cases hpop : ring.mcDequeue with
      | none =>
          rw [RteRing.mcDequeue_eq_none_iff.mp hpop] at h
          cases h
      | some n =>
          obtain ⟨f, ring'⟩ := n
          obtain ⟨hitems, hroom⟩ := RteRing.mcDequeue_eq_some hpop
          rw [hitems, List.forall_mem_cons] at hfilled
          have hlength := hfilled.1.length_payload
          obtain ⟨⟨hpos, data, hdata, hlen⟩, hrest⟩ := hfilled
          have hpayload : f.payload = data.take f.length := by
            rw [NgTcpFragment.payload, hdata, Option.getD_some]
          rw [hitems, List.map_cons, recvChunk, hlength] at h
          unfold nrecvStream
          simp only [hring, hpop]
          -- a part is read and the rest put back, or the fragment is read whole
          by_cases hlt : len < f.length
          · rw [if_pos hlt] at h ⊢
            obtain ⟨rfl, rfl⟩ := Prod.mk.inj (Option.some.inj h)
            obtain ⟨hfilled', hshift⟩ := filled_shift hdata hlen hlt
            have hput := (RteRing.mpEnqueue_of_hasRoom (x := f.shift data len) hroom).1
            refine ⟨{ t with rcvbuf := some (ring'.mpEnqueue (f.shift data len)).1 },
              [.rcvGet f, .rcvRequeue (f.shift data len) (ring'.mpEnqueue (f.shift data len)).2],
              ?_, rfl, ?_, ?_⟩
            · simp only [hdata, hpayload, List.take_take, Nat.min_eq_left (Nat.le_of_lt hlt)]
              rfl
            · rw [NgTcpStream.rcvItems, ringItems_some, hput]
              simp [hshift]
            · intro g hg
              rw [NgTcpStream.rcvItems, ringItems_some, hput, List.mem_append,
                List.mem_singleton] at hg
              rcases hg with hg | rfl
              · exact hrest g hg
              · exact hfilled'
          · rw [if_neg hlt] at h ⊢
            obtain ⟨rfl, rfl⟩ := Prod.mk.inj (Option.some.inj h)
            rw [if_neg (Nat.pos_iff_ne_zero.mp hpos)]
            refine ⟨{ t with rcvbuf := some ring' }, [.rcvGet f], ?_, rfl, rfl, hrest⟩
            simp only [hdata, hpayload]

/-- Writing the block a descriptor names, without changing its descriptor. -/
theorem getHostinfoFromfd_setTcb {s : State} {fd : Int} {a : Addr} {t t' : NgTcpStream}
    (h : getHostinfoFromfd s fd = some (.stream a t)) (hfd : t'.fd = t.fd) :
    getHostinfoFromfd (s.setTcb a t') fd = some (.stream a t') := by
  have ht := tcb_of_hostinfo h
  unfold getHostinfoFromfd at h ⊢
  simp only [State.setTcb]
  cases hhost : s.lhost.find? (fun host => fd == host.fd) with
  | some n => simp [hhost] at h
  | none =>
      have hfind : (s.tcbSet.modify a fun _ => t').find? (fun stream => fd == stream.fd) =
          (s.tcbSet.find? fun stream => fd == stream.fd).map fun n =>
            (n.1, if n.1 = a then t' else n.2) := by
        refine Table.find?_modify fun u hu => ?_
        obtain rfl := Option.some.inj (hu.symm.trans ht.1)
        rw [hfd]
      cases htcb : s.tcbSet.find? (fun stream => fd == stream.fd) with
      | none => simp [hhost, htcb] at h
      | some n =>
          obtain ⟨b, u⟩ := n
          obtain ⟨rfl, rfl⟩ : b = a ∧ u = t := by simpa [hhost, htcb] using h
          simp [hfind, htcb]

/-- What the calls of a history wrote and returned. -/
def readsOf (hist : History) : List Read := hist.map fun en => (en.2.buf, en.2.ret)

/-- The payloads queued for a descriptor. -/
def queued (s : State) (fd : Int) : List (List Byte) :=
  match getHostinfoFromfd s fd with
  | some (.stream _ t) => t.rcvItems.map NgTcpFragment.payload
  | _ => []

theorem queued_eq {s : State} {fd : Int} {a : Addr} {t : NgTcpStream}
    (h : getHostinfoFromfd s fd = some (.stream a t)) :
    queued s fd = t.rcvItems.map NgTcpFragment.payload := by
  rw [queued, h]

/-- The calls `nrecv` with these buffers read what `recvChunks` reads. -/
theorem exec_nrecv {s : State} {fd : Int} {a : Addr} {t : NgTcpStream} {lens : List Nat}
    {rs : List Read} {left : List (List Byte)}
    (hinfo : getHostinfoFromfd s fd = some (.stream a t))
    (hfilled : ∀ f ∈ t.rcvItems, f.Filled) (h : recvChunks (queued s fd) lens = some (rs, left)) :
    ∃ hist s', exec step s (lens.map (.nrecv fd)) = .ok (hist, s') ∧ readsOf hist = rs ∧
      queued s' fd = left := by
  induction lens generalizing s t rs with
  | nil =>
      obtain ⟨rfl, rfl⟩ := Prod.mk.inj (Option.some.inj h)
      exact ⟨[], s, rfl, rfl, rfl⟩
  | cons len lens ih =>
      obtain ⟨r, q, rs, hr, hrs, rfl⟩ := recvChunks_cons h
      rw [queued_eq hinfo] at hr
      obtain ⟨t', ops, hread, hfd, rfl, hfilled'⟩ := nrecvStream_recvChunk hfilled hr
      have hinfo' := getHostinfoFromfd_setTcb hinfo hfd
      rw [← queued_eq hinfo'] at hrs
      obtain ⟨hist, s', hexec, rfl, hleft⟩ := ih hinfo' hfilled' hrs
      have hstep : step s (.nrecv fd len) = .ok (s.setTcb a t',
          { Out.ofRet r.2 with buf := r.1, ops := ops.map (a, ·) }) := by
        simp only [step, nrecv, hinfo, hread]
      refine ⟨(.nrecv fd len, { Out.ofRet r.2 with buf := r.1, ops := ops.map (a, ·) }) :: hist,
        s', ?_, rfl, hleft⟩
      simp only [List.map_cons, exec, hstep, hexec]

/-- The calls `nrecv` with buffers of these lengths return, and read the
    payloads queued for the descriptor as a stream. -/
def ReadsStream (s : State) (fd : Int) (lens : List Nat) : Prop :=
  ∃ hist s', exec step s (lens.map (.nrecv fd)) = .ok (hist, s') ∧
    IsStream (queued s fd).flatten lens (readsOf hist) (queued s' fd)

/-! ## Fragments on `rcvbuf` are filled -/

/-- The fragments of positive length on a block's `rcvbuf` are filled. -/
def RcvFilled (cell : Option NgTcpStream) : Prop :=
  ∀ f ∈ cellRcv cell, 0 < f.length → f.Filled

theorem filled_of_recvFragment {env : Env} {b : SegBranch} {tcphdr : Ptr} {len : Int}
    {f : NgTcpFragment} (h : recvFragment env b tcphdr len = some f) (hpos : 0 < f.length) :
    f.Filled := by
  simp only [recvFragment] at h
  split at h
  · split at h
    · split at h
      · obtain rfl := Option.some.inj h
        exact ⟨hpos, _, rfl, by simp⟩
      · cases h
    · obtain rfl := Option.some.inj h
      cases hpos
  · cases h

theorem EstablishedStep.rcvFilled {env : Env} {m : Mbuf} {t t' : NgTcpStream}
    {ops : List StreamOp} (h : EstablishedStep env m t ops t') (hinv : RcvFilled (some t)) :
    RcvFilled (some t') := by
  obtain ⟨finPut, hfinPut, hputs, hitems⟩ := h.puts
  intro f hf hpos
  rw [cellRcv_some, hitems, hputs, List.mem_append, List.mem_append] at hf
  rcases hf with hold | hpsh | hfin
  · exact hinv f hold hpos
  · split at hpsh
    · exact filled_of_recvFragment (eq_some_of_mem_putItems hpsh) hpos
    · cases hpsh
  · rw [(hfinPut f hfin).2] at hpos
    cases hpos

theorem ReadCases.rcvFilled {t t' : NgTcpStream} {len : Nat} {ops : List StreamOp}
    {buf : List Byte} {ret : Int} (h : ReadCases t len t' ops buf ret)
    (hinv : RcvFilled (some t)) : RcvFilled (some t') := by
  intro g hg hpos
  cases h with
  | @whole r r' f hr hitems _ _ =>
      refine hinv g ?_ hpos
      rw [cellRcv_some, NgTcpStream.rcvItems, hr, ringItems_some, hitems]
      exact List.mem_cons_of_mem _ hg
  | @part r r' r'' f data hr hitems hlt hdata hput =>
      have hold : ∀ x ∈ f :: r'.items, 0 < x.length → x.Filled := by
        intro x hx
        refine hinv x ?_
        rwa [cellRcv_some, NgTcpStream.rcvItems, hr, ringItems_some, hitems]
      rw [List.forall_mem_cons] at hold
      rw [cellRcv_some, NgTcpStream.rcvItems, ringItems_some, hput, List.mem_append,
        List.mem_singleton] at hg
      rcases hg with hg | rfl
      · exact hold.2 g hg hpos
      · obtain ⟨-, data', hdata', hlen⟩ := hold.1 (Nat.zero_lt_of_lt hlt)
        obtain rfl := Option.some.inj (hdata.symm.trans hdata')
        exact (filled_shift hdata hlen hlt).1

theorem TcbChange.rcvFilled {s : State} {e : Event} {a : Addr} {ops : List StreamOp}
    {before after : Option NgTcpStream} (h : TcbChange s e a ops before after)
    (hinv : RcvFilled before) : RcvFilled after := by
  cases h with
  | idle | seen | bound | listening | accepted | handshake => exact hinv
  | closed | destroyed => exact List.forall_mem_nil _
  | opened he ha hsnd hrcv =>
      intro f hf
      rw [cellRcv_some, NgTcpStream.rcvItems, ringItems_some, hrcv] at hf
      cases hf
  | sending he hinfo hput =>
      obtain ⟨r, -, rfl, -⟩ := enqueueSnd_ok hput
      exact hinv
  | closing he hinfo hst hput =>
      obtain ⟨r, -, rfl, -⟩ := enqueueSnd_ok hput
      exact hinv
  | reading he hinfo hread => exact (nrecvStream_ok hread).rcvFilled hinv
  | synAcked he hf hst hsyn ha hc hm hsnd =>
      obtain ⟨-, -, -, -, hrcv⟩ := ngTcpStreamCreate_ok hc
      intro f hf
      rw [cellRcv_some] at hf
      cases hrcv ▸ hf
  | synUnanswered he hf hst hsyn ha hc hm =>
      obtain ⟨-, -, -, -, hrcv⟩ := ngTcpStreamCreate_ok hc
      intro f hf
      rw [cellRcv_some, hrcv] at hf
      cases hf
  | data he hf hst hest => exact (ngTcpHandleEstablished_ok hest).rcvFilled hinv
  | @output env t he =>
      rw [(tcpOutStream_cases s.arpt t).fields]
      exact hinv

/-- In every run the fragments of positive length that wait for `nrecv` are
    filled. -/
theorem filled_of_run {mac : List Byte} {hist : History} {s : State}
    (hrun : SystemRun (State.init mac) hist s) {a : Addr} {t : NgTcpStream}
    (ht : s.tcb a = some t) : ∀ f ∈ t.rcvItems, 0 < f.length → f.Filled := by
  have hinit : ∀ a, RcvFilled ((State.init mac).tcb a) := fun _ => List.forall_mem_nil _
  have hstep : ∀ s e a (past ops : List StreamOp) before after, RcvFilled before →
      TcbChange s e a ops before after → RcvFilled after := fun _ _ _ _ _ _ _ hinv hchange =>
    hchange.rcvFilled hinv
  have hinv : RcvFilled (s.tcb a) := systemRun_tcb_invariant hinit hstep hrun a
  rw [ht] at hinv
  exact hinv

/-! ## Every queue can be on a ring -/

/-- The fragment `ng_tcp_enqueue_recvbuffer` stores for a payload. -/
def fragmentOf (c : List Byte) : NgTcpFragment :=
  { NgTcpFragment.zero with data := some (c ++ [0]), length := c.length }

theorem payload_fragmentOf (c : List Byte) : (fragmentOf c).payload = c := by
  simp [NgTcpFragment.payload, fragmentOf]

theorem filled_fragmentOf {c : List Byte} (h : 0 < c.length) : (fragmentOf c).Filled :=
  ⟨h, _, rfl, by simp [fragmentOf]⟩

/-- A connection with the payloads `q` on its `rcvbuf`. -/
def queuedStream (fd : Int) (q : List (List Byte)) (h : q.length ≤ RING_SIZE - 1) :
    NgTcpStream where
  fd := fd
  dip := 0
  localmac := []
  dport := 0
  sport := 0
  sip := 0
  sndNxt := 0
  rcvNxt := 0
  status := .established
  sndbuf := none
  rcvbuf := some
    { name := []
      queue :=
        { capacity := RING_SIZE - 1, items := q.map fragmentOf
          fits := by rwa [List.length_map] } }

/-- The stack with this connection only. -/
def queuedState (fd : Int) (q : List (List Byte)) (h : q.length ≤ RING_SIZE - 1) : State :=
  { State.init [] with tcbSet := Table.empty.add (queuedStream fd q h) }

theorem getHostinfoFromfd_queuedState {fd : Int} {q : List (List Byte)}
    (h : q.length ≤ RING_SIZE - 1) : getHostinfoFromfd (queuedState fd q h) fd =
      some (.stream 0 (queuedStream fd q h)) := by
  simp [getHostinfoFromfd, queuedState, State.init, Table.find?, Table.add, Table.empty,
    queuedStream]

theorem rcvItems_queuedStream {fd : Int} {q : List (List Byte)} (h : q.length ≤ RING_SIZE - 1) :
    (queuedStream fd q h).rcvItems = q.map fragmentOf := rfl

/-! ## When `nrecv` reads a stream -/

/-- On the reads of a queue, as a stream or not, the calls and the reader
    agree. -/
theorem readsStream_iff {s : State} {fd : Int} {a : Addr} {t : NgTcpStream} {lens : List Nat}
    {rs : List Read} {left : List (List Byte)}
    (hinfo : getHostinfoFromfd s fd = some (.stream a t))
    (hfilled : ∀ f ∈ t.rcvItems, f.Filled) (h : recvChunks (queued s fd) lens = some (rs, left)) :
    ReadsStream s fd lens ↔ IsStream (queued s fd).flatten lens rs left := by
  obtain ⟨hist, s', hexec, rfl, rfl⟩ := exec_nrecv hinfo hfilled h
  constructor
  · rintro ⟨hist', s'', hexec', hstream⟩
    obtain ⟨rfl, rfl⟩ := Prod.mk.inj (Except.ok.inj (hexec.symm.trans hexec'))
    exact hstream
  · exact fun hstream => ⟨hist, s', hexec, hstream⟩

/-- For all positive lengths of the fragments on a `rcvbuf` and of the
    caller's buffers, such that no call waits: the calls read every queue of
    such fragments as a byte stream exactly if each takes a whole fragment,
    or half of one with no other fragment queued or no other call made. -/
theorem nrecv_reads_stream_iff {fd : Int} {ns lens : List Nat} (hns : ∀ n ∈ ns, 0 < n)
    (hlens : ∀ len ∈ lens, 0 < len) (hring : ns.length < RING_SIZE)
    (hreturns : Returns ns lens) :
    (∀ s a t, getHostinfoFromfd s fd = some (.stream a t) →
      t.rcvItems.map NgTcpFragment.length = ns → (∀ f ∈ t.rcvItems, f.Filled) →
      ReadsStream s fd lens) ↔ Fits ns lens := by
  rw [← fits_iff hns hlens hreturns]
  constructor
  · rintro hall q rs left rfl hrs
    rw [List.length_map] at hring
    have hq : q.length ≤ RING_SIZE - 1 := Nat.le_sub_one_of_lt hring
    have hinfo : getHostinfoFromfd (queuedState fd q hq) fd = _ := getHostinfoFromfd_queuedState hq
    have hfilled : ∀ f ∈ (queuedStream fd q hq).rcvItems, f.Filled := by
      rw [rcvItems_queuedStream, List.forall_mem_map]
      exact fun c hc => filled_fragmentOf (hns _ (List.mem_map_of_mem hc))
    have hqueued : queued (queuedState fd q hq) fd = q := by
      rw [queued_eq hinfo, rcvItems_queuedStream, List.map_map]
      exact (List.map_congr_left fun c _ => payload_fragmentOf c).trans (List.map_id' q)
    have hreads := hall _ _ _ hinfo (by rw [rcvItems_queuedStream, List.map_map]; rfl) hfilled
    rw [← hqueued] at hrs ⊢
    exact (readsStream_iff hinfo hfilled hrs).mp hreads
  · rintro hall s a t hinfo rfl hfilled
    have hshape : (queued s fd).map List.length = t.rcvItems.map NgTcpFragment.length := by
      rw [queued_eq hinfo, List.map_map]
      exact List.map_congr_left fun f hf => (hfilled f hf).length_payload
    rw [← hshape] at hreturns
    obtain ⟨rs, left, hrs⟩ := exists_recvChunks hreturns
    exact (readsStream_iff hinfo hfilled hrs).mpr (hall _ rs left hshape hrs)

/-- A fragment of four bytes is read half by half. -/
theorem nrecv_reads_stream_iff_half :
    ReadsStream (queuedState 4 [[1, 2, 3, 4]] (by decide)) 4 [2, 2] := by
  have hreturns : Returns [4] [2, 2] := ⟨by decide, by decide, trivial⟩
  have hfits : Fits [4] [2, 2] :=
    ⟨fun _ => ⟨rfl, .inl rfl⟩, fun h => absurd h (Nat.lt_irrefl 2), trivial⟩
  exact (nrecv_reads_stream_iff (by decide) (by decide) (by decide) hreturns).mpr hfits _ _ _
    (getHostinfoFromfd_queuedState _) rfl
    (List.forall_mem_singleton.mpr (filled_fragmentOf (by decide)))

/-- The peer sends three bytes and one, and the connection is accepted. -/
def sendFourBytes : List Event :=
  [.packet .plain (peerSegment (RTE_TCP_PSH_FLAG ||| RTE_TCP_ACK_FLAG) 501 1001 [1, 2, 3]),
   .packet .plain (peerSegment (RTE_TCP_PSH_FLAG ||| RTE_TCP_ACK_FLAG) 504 1001 [4]),
   .naccept 3]

/-- Two calls with a buffer of two bytes: the first writes two bytes and
    returns 1, the second writes the fourth byte before the third. -/
theorem nrecv_returns_rest : ∃ (hist : History) (s : State) (reads : History) (s' : State),
    SystemRun (State.init []) hist s ∧ queued s 4 = [[1, 2, 3], [4]] ∧
    exec step s [.nrecv 4 2, .nrecv 4 2] = .ok (reads, s') ∧
    readsOf reads = [([1, 2], 1), ([4], 1)] ∧ ¬ ReadsStream s 4 [2, 2] := by
  have hrun : runsTo (State.init []) (openServer ++ connectPeer ++ sendFourBytes) (fun _ s =>
      queued s 4 == [[1, 2, 3], [4]] && execsTo step s [.nrecv 4 2, .nrecv 4 2] (fun reads _ =>
        readsOf reads == [([1, 2], 1), ([4], 1)])) = true := by
    decide +kernel
  obtain ⟨hist, s, hrun, hP⟩ := run_of_runsTo hrun
  rw [Bool.and_eq_true, beq_iff_eq] at hP
  obtain ⟨reads, s', hexec, hreads⟩ := exec_of_execsTo hP.2
  rw [beq_iff_eq] at hreads
  refine ⟨hist, s, reads, s', hrun, hP.1, hexec, hreads, ?_⟩
  rintro ⟨reads', s'', hexec', hstream⟩
  obtain ⟨rfl, rfl⟩ := Prod.mk.inj (Except.ok.inj (hexec.symm.trans hexec'))
  rw [hreads] at hstream
  have hcount := (List.forall₂_cons.mp hstream.counts).1.1
  exact absurd hcount (by decide)

end LinuxLearning.Ustack
