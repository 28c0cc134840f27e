/-
  LinuxLearning.Lib.CString

  NUL-terminated strings at the start of byte arrays, arrays that are
  overwritten from the front, and text files read one line at a time into an
  array of fixed size.
-/

import Mathlib.Data.List.Infix
import Mathlib.Data.List.Basic
import Mathlib.Data.List.TakeWhile
import Mathlib.Tactic.Common

namespace LinuxLearning.Lib

/-! ## Strings -/

/-- The bytes begin with the string `str` and the NUL that ends it. -/
def IsCString (bytes str : List UInt8) : Prop := 0 ∉ str ∧ str ++ [0] <+: bytes

/-- The string at the start of an array, if a NUL ends it inside the array. -/
def cstring? (bytes : List UInt8) : Option (List UInt8) :=
  if 0 ∈ bytes then some (bytes.takeWhile (· ≠ 0)) else none

/-- `strlen`, for an array that holds a NUL. -/
def strlen (bytes : List UInt8) : Nat := (bytes.takeWhile (· ≠ 0)).length

/-- Bytes other than NUL are passed over up to the first NUL. -/
theorem takeWhile_append_nul {str : List UInt8} (hstr : 0 ∉ str) (rest : List UInt8) :
    (str ++ 0 :: rest).takeWhile (· ≠ 0) = str := by
  rw [List.takeWhile_append_of_pos (fun b hb => by
    simpa using fun h : b = 0 => hstr (h ▸ hb))]
  simp

theorem strlen_append {str : List UInt8} (hstr : 0 ∉ str) (rest : List UInt8) :
    strlen (str ++ 0 :: rest) = str.length := by
  rw [strlen, takeWhile_append_nul hstr]

theorem IsCString.cstring?_eq {bytes str : List UInt8} (h : IsCString bytes str) :
    cstring? bytes = some str := by
  obtain ⟨hstr, rest, rfl⟩ := h
  rw [List.append_assoc, List.singleton_append, cstring?, takeWhile_append_nul hstr]
  simp

/-- A prefix of the array without a NUL is a prefix of the string. -/
theorem IsCString.extends {bytes str pre : List UInt8} (h : IsCString bytes str)
    (hpre : pre <+: bytes) (hnul : 0 ∉ pre) : pre <+: str := by
  obtain ⟨-, hbytes⟩ := h
  rcases List.prefix_or_prefix_of_prefix hpre hbytes with hle | hle
  · rcases List.prefix_concat_iff.mp hle with heq | hstr
    · exact absurd (heq ▸ List.mem_append_right _ (List.mem_singleton_self 0)) hnul
    · exact hstr
  · exact absurd (hle.subset (List.mem_append_right _ (List.mem_singleton_self 0))) hnul

theorem isCString_cons_iff {b c : UInt8} {bytes str : List UInt8} (hc : c ≠ 0) :
    IsCString (b :: bytes) (c :: str) ↔ b = c ∧ IsCString bytes str := by
  rw [IsCString, IsCString, List.cons_append, List.cons_prefix_cons, List.mem_cons, not_or]
  constructor
  · rintro ⟨⟨-, hstr⟩, rfl, hbytes⟩
    exact ⟨rfl, hstr, hbytes⟩
  · rintro ⟨rfl, hstr, hbytes⟩
    exact ⟨⟨Ne.symm hc, hstr⟩, rfl, hbytes⟩

/-- Does `strcmp` find the strings in two arrays equal?  `none` where it reads
    past the end of one. -/
def strcmpEq? : List UInt8 → List UInt8 → Option Bool
  | x :: xs, y :: ys => if x ≠ y then some false else if x = 0 then some true else strcmpEq? xs ys
  | _, _ => none

/-- Compared with a string that ends inside the other array, `strcmp` stays
    inside both. -/
theorem strcmpEq?_of_isCString {xs ys str : List UInt8} (hys : IsCString ys str)
    (hlen : str.length < xs.length) :
    ∃ r, strcmpEq? xs ys = some r ∧ (r = true ↔ IsCString xs str) := by
  induction str generalizing xs ys with
  | nil =>
      obtain ⟨-, rest, rfl⟩ := hys
      obtain ⟨x, xs, rfl⟩ := List.exists_cons_of_length_pos hlen
      by_cases hx : x = 0
      · subst hx
        exact ⟨true, rfl, by simp [IsCString]⟩
      · exact ⟨false, by simp [strcmpEq?, hx], by simp [IsCString, Ne.symm hx]⟩
  | cons c str ih =>
      obtain ⟨hnul, rest, rfl⟩ := hys
      obtain ⟨hc, hstr⟩ := not_or.mp (List.mem_cons.not.mp hnul)
      obtain ⟨x, xs, rfl⟩ := List.exists_cons_of_length_pos (Nat.zero_lt_of_lt hlen)
      by_cases hx : x = c
      · subst hx
        obtain ⟨r, hr, hiff⟩ := @ih xs (str ++ [0] ++ rest) ⟨hstr, List.prefix_append ..⟩
          (Nat.lt_of_succ_lt_succ hlen)
        refine ⟨r, ?_, by rw [hiff, isCString_cons_iff (Ne.symm hc)]; simp⟩
        simpa [strcmpEq?, Ne.symm hc] using hr
      · refine ⟨false, by simp [strcmpEq?, hx], ?_⟩
        rw [isCString_cons_iff (Ne.symm hc)]
        simp [hx]

/-! ## Concatenation -/

/-- What a string function sees of an array: the bytes in front of the first
    NUL. -/
def untilNul (bytes : List UInt8) : List UInt8 := bytes.takeWhile (· ≠ 0)

@[simp] theorem untilNul_nil : untilNul [] = [] := rfl

@[simp] theorem untilNul_nul_cons (rest : List UInt8) : untilNul (0 :: rest) = [] := by
  simp [untilNul]

@[simp] theorem untilNul_cons_of_ne {b : UInt8} (hb : b ≠ 0) (rest : List UInt8) :
    untilNul (b :: rest) = b :: untilNul rest := by
  simp [untilNul, hb]

theorem nul_notMem_untilNul (bytes : List UInt8) : 0 ∉ untilNul bytes := by
  intro hmem
  simpa using List.mem_takeWhile_imp hmem

theorem length_untilNul_le (bytes : List UInt8) : (untilNul bytes).length ≤ bytes.length :=
  (List.takeWhile_prefix _).length_le

theorem IsCString.untilNul_eq {bytes str : List UInt8} (h : IsCString bytes str) :
    untilNul bytes = str := by
  obtain ⟨hstr, rest, rfl⟩ := h
  rw [List.append_assoc, List.singleton_append]
  exact takeWhile_append_nul hstr rest

theorem IsCString.nul_mem {bytes str : List UInt8} (h : IsCString bytes str) : 0 ∈ bytes :=
  h.2.subset (List.mem_append_right _ (List.mem_singleton_self 0))

theorem untilNul_append_nul (bytes rest : List UInt8) :
    untilNul (bytes ++ 0 :: rest) = untilNul bytes := by
  induction bytes with
  | nil => simp
  | cons b bytes ih => by_cases hb : b = 0 <;> simp [hb, ih]

/-- An array with a NUL is its string, the NUL and a rest. -/
theorem exists_untilNul_append {bytes : List UInt8} (h : 0 ∈ bytes) :
    ∃ rest, bytes = untilNul bytes ++ 0 :: rest := by
  induction bytes with
  | nil => cases h
  | cons b bytes ih =>
      by_cases hb : b = 0
      · subst hb
        exact ⟨bytes, by simp⟩
      · obtain ⟨rest, hrest⟩ := ih ((List.mem_cons.mp h).resolve_left (Ne.symm hb))
        refine ⟨rest, ?_⟩
        rw [untilNul_cons_of_ne hb, List.cons_append, ← hrest]

/-- A string in the first `n` bytes. -/
theorem isCString_take_iff {bytes str : List UInt8} {n : Nat} :
    IsCString (bytes.take n) str ↔ IsCString bytes str ∧ str.length < n := by
  rw [IsCString, IsCString, List.prefix_take_iff, List.length_append, List.length_singleton,
    and_assoc, Nat.succ_le_iff]

/-- A string stored without a NUL over an older one, in an array that is zero
    behind the older one: it ends where it should if it is not the shorter
    one, and has room. -/
theorem isCString_over_iff {str old : List UInt8} {m : Nat} (hstr : 0 ∉ str) (hold : 0 ∉ old) :
    IsCString (str ++ (old ++ List.replicate m 0).drop str.length) str ↔
      old.length ≤ str.length ∧ str.length < old.length + m := by
  have hnext : str ++ [0] <+: str ++ (old ++ List.replicate m 0).drop str.length ↔
      (old ++ List.replicate m 0)[str.length]? = some 0 := by
    rw [List.prefix_append_right_inj, ← List.head?_drop]
    cases (old ++ List.replicate m 0).drop str.length with
    | nil => simp
    | cons b rest => simp [List.cons_prefix_cons, eq_comm]
  rw [IsCString, and_iff_right hstr, hnext]
  by_cases hlt : str.length < old.length
  · rw [List.getElem?_append_left hlt, List.getElem?_eq_getElem hlt]
    refine iff_of_false (fun h => ?_) fun h => by omega
    exact hold (Option.some.inj h ▸ List.getElem_mem hlt)
  · rw [List.getElem?_append_right (by omega), List.getElem?_replicate]
    split
    · exact iff_of_true rfl (by omega)
    · exact iff_of_false (by simp) (by omega)

/-- `strncat(dst, src, n)`: what the array `dst` holds afterwards.  `none`
    where there is no string in it, or no room for the bytes and the NUL. -/
def strncat? (dst src : List UInt8) (n : Nat) : Option (List UInt8) :=
  if 0 ∈ dst then
    let str := untilNul dst ++ untilNul (src.take n) ++ [0]
    if str.length ≤ dst.length then some (str ++ dst.drop str.length) else none
  else none

/-- Where there is room, the string grows by what is seen of the first `n`
    bytes. -/
theorem strncat?_of_isCString {dst str src : List UInt8} {n : Nat} (h : IsCString dst str)
    (hroom : str.length + (untilNul (src.take n)).length < dst.length) :
    ∃ dst', strncat? dst src n = some dst' ∧
      IsCString dst' (str ++ untilNul (src.take n)) := by
  have hlen : (str ++ untilNul (src.take n) ++ [0]).length ≤ dst.length := by
    simp only [List.length_append, List.length_singleton]
    omega
  refine ⟨str ++ untilNul (src.take n) ++ [0] ++
    dst.drop (str ++ untilNul (src.take n) ++ [0]).length, ?_, ?_, List.prefix_append ..⟩
  · simp only [strncat?, if_pos h.nul_mem, h.untilNul_eq, if_pos hlen]
  · rw [List.mem_append, not_or]
    exact ⟨h.1, nul_notMem_untilNul _⟩

/-- `realloc(block, size)`; the bytes that are new are `fresh`. -/
def realloc (block : List UInt8) (size : Nat) (fresh : Nat → UInt8) : List UInt8 :=
  (List.range size).map fun i => block[i]?.getD (fresh i)

@[simp] theorem length_realloc (block : List UInt8) (size : Nat) (fresh : Nat → UInt8) :
    (realloc block size fresh).length = size := by
  simp [realloc]

/-- What fits is kept. -/
theorem prefix_realloc {pre block : List UInt8} {size : Nat} (fresh : Nat → UInt8)
    (h : pre <+: block) (hsize : pre.length ≤ size) : pre <+: realloc block size fresh := by
  obtain ⟨rest, rfl⟩ := h
  rw [List.prefix_iff_eq_take]
  apply List.ext_getElem
  · simp [hsize]
  · intro i hi _
    simp [realloc, List.getElem?_append_left hi, List.getElem?_eq_getElem hi]

theorem IsCString.realloc {block str : List UInt8} {size : Nat} (fresh : Nat → UInt8)
    (h : IsCString block str) (hsize : str.length < size) :
    IsCString (realloc block size fresh) str :=
  ⟨h.1, prefix_realloc fresh h.2 (by simpa using Nat.succ_le_of_lt hsize)⟩

/-! ## Overwriting an array from the front -/

/-- The array with `bytes` stored from its first element on. -/
def overwrite {n : Nat} (v : Vector UInt8 n) (bytes : List UInt8) : Vector UInt8 n :=
  Vector.ofFn fun i => bytes[i.val]?.getD v[i]

/-- What does not reach the end of the array leaves its rest alone. -/
theorem toList_overwrite {n : Nat} (v : Vector UInt8 n) {bytes : List UInt8}
    (h : bytes.length ≤ n) :
    (overwrite v bytes).toList = bytes ++ v.toList.drop bytes.length := by
  apply List.ext_getElem
  · simp; omega
  · intro i h₁ h₂
    simp only [overwrite, Vector.toList_ofFn, List.getElem_ofFn]
    by_cases hi : i < bytes.length
    · simp [hi]
    · simp only [List.getElem?_eq_none (not_lt.mp hi), Option.getD_none,
        List.getElem_append_right (not_lt.mp hi), List.getElem_drop]
      simp only [Fin.getElem_fin, Vector.getElem_toList]
      congr 1
      omega

/-! ## Lines of a text file -/

/-- The line feed. -/
def newline : UInt8 := 10

/-- Read on from `file` with `cur` read so far: a line ends behind a line
    feed, at `max` bytes, or with the file. -/
def linesFrom (max : Nat) (cur : List UInt8) : List UInt8 → List (List UInt8)
  | [] => if cur = [] then [] else [cur]
  | b :: rest =>
      if b = newline ∨ (cur ++ [b]).length = max then (cur ++ [b]) :: linesFrom max [] rest
      else linesFrom max (cur ++ [b]) rest

/-- What the successive calls of `fgets(buffer, size, fp)` store in front of
    the NUL, until it returns `NULL`. -/
def fgetsLines (size : Nat) (file : List UInt8) : List (List UInt8) :=
  linesFrom (size - 1) [] file

theorem length_of_mem_linesFrom {max : Nat} {line file : List UInt8} :
    ∀ {cur : List UInt8}, cur.length < max → line ∈ linesFrom max cur file → line.length ≤ max := by
  induction file with
  | nil =>
      intro cur hcur hmem
      rw [linesFrom] at hmem
      split at hmem
      · cases hmem
      · rw [List.mem_singleton] at hmem
        exact hmem ▸ hcur.le
  | cons b file ih =>
      intro cur hcur hmem
      have hlen : (cur ++ [b]).length = cur.length + 1 := by simp
      rw [linesFrom] at hmem
      split at hmem
      · rcases List.mem_cons.mp hmem with rfl | hmem
        · omega
        · have hnil : ([] : List UInt8).length < max := Nat.zero_lt_of_lt hcur
          exact ih hnil hmem
      · rename_i hon
        obtain ⟨-, hne⟩ := not_or.mp hon
        exact ih (by omega) hmem

/-- `fgets` stores a line and a NUL. -/
theorem length_of_mem_fgetsLines {size : Nat} {line file : List UInt8} (hsize : 1 < size)
    (hline : line ∈ fgetsLines size file) : line.length < size := by
  have hnil : ([] : List UInt8).length < size - 1 := Nat.sub_pos_of_lt hsize
  have hle := length_of_mem_linesFrom hnil hline
  omega

/-- A whole line that fits is read at once. -/
theorem linesFrom_line {max : Nat} {line : List UInt8} (rest : List UInt8)
    (hline : newline ∉ line) :
    ∀ {cur : List UInt8}, (cur ++ line).length < max →
      linesFrom max cur (line ++ newline :: rest) =
        (cur ++ line ++ [newline]) :: linesFrom max [] rest := by
  induction line with
  | nil =>
      intro cur _
      simp [linesFrom]
  | cons b line ih =>
      intro cur hroom
      obtain ⟨hb, hrest⟩ := not_or.mp (List.mem_cons.not.mp hline)
      have hlen : (cur ++ [b]).length ≠ max := by
        simp only [List.length_append, List.length_cons, List.length_nil] at hroom ⊢
        omega
      rw [List.cons_append, linesFrom, if_neg (not_or.mpr ⟨Ne.symm hb, hlen⟩),
        ih hrest (by simpa using hroom)]
      simp

/-- A file of lines that fit is read line by line. -/
theorem fgetsLines_flatMap {size : Nat} {lines : List (List UInt8)}
    (hlines : ∀ l ∈ lines, newline ∉ l ∧ l.length + 1 < size) :
    fgetsLines size (lines.flatMap (· ++ [newline])) = lines.map (· ++ [newline]) := by
  induction lines with
  | nil => rfl
  | cons line lines ih =>
      rw [List.forall_mem_cons] at hlines
      obtain ⟨⟨hnl, hroom⟩, hrest⟩ := hlines
      rw [List.flatMap_cons, List.append_assoc, List.singleton_append, fgetsLines,
        linesFrom_line _ hnl (by simp only [List.nil_append]; omega), List.map_cons]
      exact congrArg _ (ih hrest)

end LinuxLearning.Lib
