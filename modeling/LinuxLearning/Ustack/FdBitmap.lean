/-
  LinuxLearning.Ustack.FdBitmap

  The descriptor bitmap as a set of numbers.

  `get_fd_frombitmap` and `set_fd_frombitmap` are given here once more with
  every access to `fd_table` checked, so that an index outside the table
  would show.  They simulate a set: one bit of one byte for each number, the
  least free number from 3 on for a request.  Only the first 128 bytes of the
  table are ever used.
-/

import Mathlib.Data.Set.Insert
import Mathlib.Order.Bounds.Defs
import LinuxLearning.Ustack.Descriptors

namespace LinuxLearning.Ustack

open Lib

/-! ## Checked accesses -/

namespace FdTable

/-- A load of `fd_table[i]`. -/
def load (t : FdTable) (i : Nat) : Except Halt Byte :=
  if h : i < MAX_FD_COUNT then .ok (t ⟨i, h⟩) else .error .segv

/-- A store to `fd_table[i]`. -/
def store (t : FdTable) (i : Nat) (b : Byte) : Except Halt FdTable :=
  if h : i < MAX_FD_COUNT then .ok (Function.update t ⟨i, h⟩ b) else .error .segv

/-- The loop of `get_fd_frombitmap`, from `fd` on. -/
def searchChecked (t : FdTable) (fd : Nat) : Except Halt (FdTable × Int) :=
  if fd < MAX_FD_COUNT then do
    let b ← t.load (fd / 8)
    if b &&& mask fd = 0 then
      -- `|=` reads the byte again
      let b ← t.load (fd / 8)
      let t ← t.store (fd / 8) (b ||| mask fd)
      return (t, fd)
    else searchChecked t (fd + 1)
  else return (t, -1)
termination_by MAX_FD_COUNT - fd

end FdTable

/-- The calls, `set_fd_frombitmap` with a number that is not negative. -/
inductive FdCall where
  | get
  | set (fd : Nat)

/-- One call: the table behind it and what the call returns. -/
def fdCall (t : FdTable) : FdCall → Except Halt (FdTable × Int)
  | .get => t.searchChecked DEFAULT_FD_NUM
  | .set fd =>
      if fd ≥ MAX_FD_COUNT then return (t, -1)
      else do
        let b ← t.load (fd / 8)
        let t ← t.store (fd / 8) (b &&& ~~~FdTable.mask fd)
        return (t, 0)

/-! ## The set -/

/-- What the calls do to the set of the numbers that are given out. -/
inductive FdSpec : StepRel (Set Nat) FdCall Int
  /-- The least number that is free is given out. -/
  | taken {given : Set Nat} {n : Nat}
      (h : IsLeast {m | DEFAULT_FD_NUM ≤ m ∧ m < MAX_FD_COUNT ∧ m ∉ given} n) :
      FdSpec given .get n (insert n given)
  | full {given : Set Nat} (h : ∀ m, DEFAULT_FD_NUM ≤ m → m < MAX_FD_COUNT → m ∈ given) :
      FdSpec given .get (-1) given
  | released {given : Set Nat} {fd : Nat} (h : fd < MAX_FD_COUNT) :
      FdSpec given (.set fd) 0 (given \ {fd})
  | refused {given : Set Nat} {fd : Nat} (h : MAX_FD_COUNT ≤ fd) :
      FdSpec given (.set fd) (-1) given

/-- Bit `fd % 8` of `fd_table[fd / 8]` is set just if `fd` is given out. -/
def FdTable.Represents (t : FdTable) (given : Set Nat) : Prop :=
  ∀ fd, ∀ h : fd / 8 < MAX_FD_COUNT, (t ⟨fd / 8, h⟩).getLsbD (fd % 8) = true ↔ fd ∈ given

variable {t : FdTable} {given : Set Nat}

/-! ## The accesses -/

namespace FdTable

/-- The byte of a number that is not too big is one of the table's. -/
theorem load_slot (t : FdTable) {fd : Nat} (hfd : fd < MAX_FD_COUNT) :
    t.load (fd / 8) = .ok (t (slot fd hfd)) :=
  dif_pos (Nat.lt_of_le_of_lt (Nat.div_le_self ..) hfd)

theorem store_slot (t : FdTable) {fd : Nat} (hfd : fd < MAX_FD_COUNT) (b : Byte) :
    t.store (fd / 8) b = .ok (Function.update t (slot fd hfd) b) :=
  dif_pos (Nat.lt_of_le_of_lt (Nat.div_le_self ..) hfd)

/-- The loop makes no invalid access and does the search. -/
theorem searchChecked_eq (t : FdTable) {k fd : Nat} (hk : fd + k = MAX_FD_COUNT) :
    t.searchChecked fd = .ok (t.search k fd) := by
  induction k generalizing fd with
  | zero =>
      rw [searchChecked, if_neg (by omega)]
      rfl
  | succ k ih =>
      have hfd : fd < MAX_FD_COUNT := by omega
      rw [searchChecked, if_pos hfd, t.load_slot hfd, search, dif_pos hfd]
      by_cases hfree : t (slot fd hfd) &&& mask fd = 0
      · rw [if_pos hfree]
        simp only [bind, Except.bind, if_pos hfree, t.store_slot hfd]
        rfl
      · rw [if_neg hfree, ← ih (by omega)]
        simp only [bind, Except.bind, if_neg hfree]

end FdTable

theorem fdCall_get (t : FdTable) : fdCall t .get = .ok (getFdFrombitmap t) :=
  t.searchChecked_eq rfl

theorem setFdFrombitmap_natCast (t : FdTable) (fd : Nat) :
    setFdFrombitmap t fd =
      if h : fd < MAX_FD_COUNT then
        (Function.update t (FdTable.slot fd h) (t (FdTable.slot fd h) &&& ~~~FdTable.mask fd), 0)
      else (t, -1) := rfl

theorem fdCall_set (t : FdTable) (fd : Nat) : fdCall t (.set fd) = .ok (setFdFrombitmap t fd) := by
  rw [setFdFrombitmap_natCast, fdCall]
  by_cases hfd : fd < MAX_FD_COUNT
  · rw [if_neg (Nat.not_le.mpr hfd), dif_pos hfd, t.load_slot hfd]
    simp only [bind, Except.bind, t.store_slot hfd]
    rfl
  · rw [if_pos (Nat.not_lt.mp hfd), dif_neg hfd]
    rfl

/-! ## One call -/

namespace FdTable

/-- Where the bits of `given` are set, the search finds the least number that
    is not in it. -/
theorem Represents.search {k fd : Nat} (hrep : t.Represents given) (hk : fd + k = MAX_FD_COUNT) :
    (t.search k fd = (t, -1) ∧ ∀ m, fd ≤ m → m < MAX_FD_COUNT → m ∈ given) ∨
      ∃ (n : Nat) (hn : n < MAX_FD_COUNT),
        IsLeast {m | fd ≤ m ∧ m < MAX_FD_COUNT ∧ m ∉ given} n ∧
          t.search k fd =
            (Function.update t (slot n hn) (t (slot n hn) ||| mask n), (n : Int)) := by
  induction k generalizing fd with
  | zero => exact .inl ⟨rfl, fun m hm hmax => absurd hmax (by omega)⟩
  | succ k ih =>
      have hfd : fd < MAX_FD_COUNT := by omega
      have hbit : t (slot fd hfd) &&& mask fd = 0 ↔ fd ∉ given := by
        rw [and_mask_eq_zero_iff, ← Bool.not_eq_true]
        exact not_congr (hrep fd _)
      rw [FdTable.search, dif_pos hfd]
      by_cases hfree : fd ∈ given
      · -- taken: what comes next is all there is
        rw [if_neg (not_congr hbit |>.mpr (not_not.mpr hfree))]
        have hle : ∀ m, fd ≤ m → m ∉ given → fd + 1 ≤ m := fun m hm hout =>
          Nat.lt_of_le_of_ne hm fun heq => hout (heq ▸ hfree)
        rcases @ih (fd + 1) (by omega) with ⟨heq, hfull⟩ | ⟨n, hn, ⟨⟨hle', hrest⟩, hleast⟩, heq⟩
        · refine .inl ⟨heq, fun m hm hmax => ?_⟩
          by_contra hout
          exact hout (hfull m (hle m hm hout) hmax)
        · exact .inr ⟨n, hn, ⟨⟨by omega, hrest⟩, fun m hm =>
            hleast ⟨hle m hm.1 hm.2.2, hm.2⟩⟩, heq⟩
      · -- free: the search ends with it
        rw [if_pos (hbit.mpr hfree)]
        exact .inr ⟨fd, hfd, ⟨⟨Nat.le_refl fd, hfd, hfree⟩, fun m hm => hm.1⟩, rfl⟩

/-- A store to the byte of `n` settles the eight numbers that share it. -/
theorem Represents.update {n : Nat} {b : Byte} {given' : Set Nat} (hrep : t.Represents given)
    (hn : n < MAX_FD_COUNT) (hself : ∀ m, m / 8 = n / 8 → (b.getLsbD (m % 8) = true ↔ m ∈ given'))
    (hother : ∀ m, m / 8 ≠ n / 8 → (m ∈ given' ↔ m ∈ given)) :
    Represents (Function.update t (slot n hn) b) given' := by
  intro m hm
  by_cases hslot : m / 8 = n / 8
  · have heq : (⟨m / 8, hm⟩ : Fin MAX_FD_COUNT) = slot n hn := Fin.ext hslot
    rw [heq, Function.update_self]
    exact hself m hslot
  · have hne : (⟨m / 8, hm⟩ : Fin MAX_FD_COUNT) ≠ slot n hn := fun heq =>
      hslot (congrArg Fin.val heq)
    rw [Function.update_of_ne hne, hother m hslot]
    exact hrep m hm

/-- The bit of `m`, which shares its byte with `n`. -/
theorem Represents.bit {n m : Nat} (hrep : t.Represents given) (hn : n < MAX_FD_COUNT)
    (hslot : m / 8 = n / 8) : (t (slot n hn)).getLsbD (m % 8) = true ↔ m ∈ given := by
  have heq : slot n hn = ⟨m / 8, hslot ▸ (slot n hn).isLt⟩ := Fin.ext hslot.symm
  rw [heq]
  exact hrep m _

/-- A bit is set: no other bit of the byte and no other byte changes. -/
theorem Represents.set {n : Nat} (hrep : t.Represents given) (hn : n < MAX_FD_COUNT) :
    Represents (Function.update t (slot n hn) (t (slot n hn) ||| mask n)) (insert n given) := by
  refine hrep.update hn (fun m hslot => ?_) fun m hslot => ?_
  · have hbit : n % 8 = m % 8 ↔ m = n := by omega
    -- of the eight numbers of this byte, the mask has the bit of `n`
    rw [BitVec.getLsbD_or, Bool.or_eq_true, hrep.bit hn hslot, getLsbD_mask, decide_eq_true_eq,
      hbit, Set.mem_insert_iff, or_comm]
  · have hne : m ≠ n := fun heq => hslot (congrArg (· / 8) heq)
    simp [hne]

/-- A bit is cleared. -/
theorem Represents.clear {n : Nat} (hrep : t.Represents given) (hn : n < MAX_FD_COUNT) :
    Represents (Function.update t (slot n hn) (t (slot n hn) &&& ~~~mask n)) (given \ {n}) := by
  refine hrep.update hn (fun m hslot => ?_) fun m hslot => ?_
  · have hbit : n % 8 = m % 8 ↔ m = n := by omega
    have hlt : m % 8 < 8 := Nat.mod_lt m (by decide)
    rw [BitVec.getLsbD_and, Bool.and_eq_true, hrep.bit hn hslot, BitVec.getLsbD_not, getLsbD_mask,
      decide_eq_true hlt, Bool.true_and, Bool.not_eq_true', decide_eq_false_iff_not, hbit,
      Set.mem_sdiff, Set.mem_singleton_iff]
  · have hne : m ≠ n := fun heq => hslot (congrArg (· / 8) heq)
    simp [hne]

/-- The table of all zeros represents the empty set. -/
theorem represents_zero : Represents (fun _ => 0) ∅ := fun fd _ => by
  rw [BitVec.ofNat_eq_ofNat, BitVec.getLsbD_zero, Set.mem_empty_iff_false]
  exact iff_of_false Bool.false_ne_true id

end FdTable

/-- Every call is served as the set says, and makes no invalid access. -/
theorem FdTable.Represents.step (hrep : t.Represents given) (c : FdCall) :
    ∃ t' ret given', fdCall t c = .ok (t', ret) ∧ FdSpec given c ret given' ∧
      t'.Represents given' := by
  cases c with
  | get =>
      rw [fdCall_get]
      rcases hrep.search (show DEFAULT_FD_NUM + (MAX_FD_COUNT - DEFAULT_FD_NUM) = _ from rfl) with
        ⟨heq, hfull⟩ | ⟨n, hn, hleast, heq⟩
      · exact ⟨t, -1, given, congrArg _ heq, .full hfull, hrep⟩
      · exact ⟨_, n, insert n given, congrArg _ heq, .taken hleast, hrep.set hn⟩
  | set fd =>
      rw [fdCall_set, setFdFrombitmap_natCast]
      by_cases hfd : fd < MAX_FD_COUNT
      · rw [dif_pos hfd]
        exact ⟨_, 0, given \ {fd}, rfl, .released hfd, hrep.clear hfd⟩
      · rw [dif_neg hfd]
        exact ⟨t, -1, given, rfl, .refused (Nat.not_lt.mp hfd), hrep⟩

/-! ## All calls -/

/-- For every sequence of calls from the zeroed table on: no access leaves the
    table, the calls do to a set what the set's rules say, the bits are the
    members of that set, and the next call is served by the rules again. -/
theorem fd_bitmap_refines_set (calls : List FdCall) :
    ∃ hist t given, exec fdCall (fun _ => 0) calls = .ok (hist, t) ∧ Run FdSpec ∅ hist given ∧
      t.Represents given ∧ ∀ c, ∃ t' ret given', fdCall t c = .ok (t', ret) ∧
        FdSpec given c ret given' ∧ t'.Represents given' := by
  obtain ⟨hist, t, given, hexec, hrun, hrep⟩ :=
    @exec_simulates FdTable FdCall Int Halt (Set Nat) fdCall FdSpec FdTable.Represents
      (fun _ => 0) ∅ (fun _ _ c hrep => hrep.step c) FdTable.represents_zero calls
  exact ⟨hist, t, given, hexec, hrun, hrep, hrep.step⟩

end LinuxLearning.Ustack
