/-
  LinuxLearning.WordCount.Count

  `count_txt` of `count.c`: the number of words in a file, found by an
  automaton that reads it byte by byte.

  What `fgetc` returns is put into a `char` before it is compared with `EOF`.
  The byte 255 becomes -1 there, as the end of the file does, so counting
  ends at the first such byte.  It counts all words just if that byte goes on
  with a word and no other word comes behind it.
-/

import Mathlib.Data.List.TakeWhile
import LinuxLearning.Lib.Runs

namespace LinuxLearning.WordCount

open Lib

abbrev Byte := BitVec 8

/-! ## The code -/

/-- A character constant. -/
def ch (c : Char) : Byte := BitVec.ofNat 8 c.toNat

/-- `judge_word`; it asks for `-` twice. -/
def judgeWord (c : Byte) : Int :=
  if c = ch ' ' ∨ c = ch '\n' ∨ c = ch '\t' ∨ c = ch '+' ∨ c = ch '-' ∨ c = ch '*' ∨ c = ch '/' ∨
      c = ch '=' ∨ c = ch ';' ∨ c = ch ',' ∨ c = ch '(' ∨ c = ch ')' ∨ c = ch '{' ∨ c = ch '}' ∨
      c = ch '-' then 0
  else 1

/-- The two values of `state`. -/
inductive WordState where
  | out
  | inWord
deriving DecidableEq

def EOF : Int := -1
def INT_MAX : Int := 2147483647

/-- `fgetc`: the next byte as an `unsigned char`, or `EOF`. -/
def fgetc : List Byte → Int × List Byte
  | [] => (EOF, [])
  | b :: rest => (b.toNat, rest)

/-- The assignment of an `int` to a `char`, which has a sign. -/
def toChar (i : Int) : Byte := BitVec.ofInt 8 i

theorem toChar_toNat (b : Byte) : toChar b.toNat = b := by
  rw [toChar, BitVec.ofInt_natCast, BitVec.ofNat_toNat, BitVec.setWidth_eq]

theorem toInt_eq_eof_iff (b : Byte) : b.toInt = EOF ↔ b = 255 :=
  ⟨fun h => BitVec.toInt_inj.mp h, fun h => h ▸ rfl⟩

/-- Another turn of the loop has one byte less to read. -/
theorem fgetc_lt {stream : List Byte} (h : (toChar (fgetc stream).1).toInt ≠ EOF) :
    (fgetc stream).2.length < stream.length := by
  cases stream with
  | nil => exact absurd rfl h
  | cons b rest => exact Nat.lt_succ_self _

/-- The loop of `count_txt`; `none` where `word++` overflows. -/
def countLoop (stream : List Byte) (state : WordState) (word : Int) : Option Int :=
  let c := toChar (fgetc stream).1
  if h : c.toInt ≠ EOF then
    -- at the end of the file `c` is `EOF`, so a byte was read
    have := fgetc_lt h
    if judgeWord c = 0 then countLoop (fgetc stream).2 .out word
    else if state = .out then
      if word = INT_MAX then none else countLoop (fgetc stream).2 .inWord (word + 1)
    else countLoop (fgetc stream).2 state word
  else some word
termination_by stream.length

/-- `count_txt(file)`, given what `fopen` finds. -/
def countTxt (file : Option (List Byte)) : Option Int :=
  match file with
  | none => some (-1)
  | some content => countLoop content .out 0

/-! ## The loop -/

/-- The bytes that words are made of. -/
def isWord (b : Byte) : Bool := judgeWord b = 1

theorem judgeWord_eq_zero_iff (b : Byte) : judgeWord b = 0 ↔ isWord b = false := by
  unfold isWord judgeWord
  split <;> simp

theorem countLoop_nil (state : WordState) (word : Int) : countLoop [] state word = some word := by
  rw [countLoop, dif_neg (by decide)]

/-- The byte 255 passes for the end of the file. -/
theorem countLoop_eof (rest : List Byte) (state : WordState) (word : Int) :
    countLoop (255 :: rest) state word = some word := by
  have hends : ¬ (toChar (fgetc (255 :: rest)).1).toInt ≠ EOF := not_not.mpr rfl
  rw [countLoop, dif_neg hends]

theorem countLoop_cons {b : Byte} (hb : b ≠ 255) (rest : List Byte) (state : WordState)
    (word : Int) :
    countLoop (b :: rest) state word =
      if isWord b = false then countLoop rest .out word
      else if state = .out then
        if word = INT_MAX then none else countLoop rest .inWord (word + 1)
      else countLoop rest state word := by
  have hchar : toChar (fgetc (b :: rest)).1 = b := toChar_toNat b
  have hgoes : (toChar (fgetc (b :: rest)).1).toInt ≠ EOF := by
    rw [hchar]
    exact (toInt_eq_eof_iff b).not.mpr hb
  rw [countLoop, dif_pos hgoes, hchar]
  simp only [judgeWord_eq_zero_iff, fgetc]

/-- Whether the byte before belongs to a word. -/
def WordState.inRun : WordState → Bool
  | .out => false
  | .inWord => true

/-- What is read: the bytes up to the first 255. -/
def readPart (content : List Byte) : List Byte := content.takeWhile (· ≠ 255)

/-- The words that begin in the part that is read are counted, as far as
    `word` can count. -/
theorem countLoop_eq (stream : List Byte) (state : WordState) {word : Int}
    (hword : word ≤ INT_MAX) :
    countLoop stream state word =
      if word + runStarts isWord state.inRun (readPart stream) ≤ INT_MAX then
        some (word + runStarts isWord state.inRun (readPart stream))
      else none := by
  induction stream generalizing state word with
  | nil =>
      rw [countLoop_nil, readPart, List.takeWhile_nil, runStarts, Int.natCast_zero, Int.add_zero,
        if_pos hword]
  | cons b rest ih =>
      by_cases hb : b = 255
      · subst hb
        have hread : readPart (255 :: rest) = [] := rfl
        rw [countLoop_eof, hread, runStarts, Int.natCast_zero, Int.add_zero, if_pos hword]
      · have hread : readPart (b :: rest) = b :: readPart rest := by
          rw [readPart, List.takeWhile_cons_of_pos (by simpa using hb)]
          rfl
        rw [countLoop_cons hb, hread, runStarts]
        cases hw : isWord b with
        | false =>
            -- a word may end here, which is not counted
            rw [if_pos rfl, ih .out hword, Bool.false_and, if_neg Bool.false_ne_true, Nat.zero_add]
            rfl
        | true =>
            cases state with
            | inWord =>
                -- the word goes on
                have hstep : ((if (true && !WordState.inWord.inRun) then 1 else 0) +
                    runStarts isWord true (readPart rest) : Nat) =
                      runStarts isWord WordState.inWord.inRun (readPart rest) := Nat.zero_add _
                rw [if_neg (by decide), if_neg (by decide), hstep, ih .inWord hword]
            | out =>
                -- a word begins, and `word` goes up by one
                have hstep : ((if (true && !WordState.out.inRun) then 1 else 0) +
                    runStarts isWord true (readPart rest) : Nat) =
                      1 + runStarts isWord WordState.inWord.inRun (readPart rest) := rfl
                rw [if_neg (by decide), if_pos rfl, hstep]
                by_cases hmax : word = INT_MAX
                · rw [if_pos hmax, if_neg (by push_cast; omega)]
                · rw [if_neg hmax, ih .inWord (by omega)]
                  push_cast
                  rw [Int.add_assoc]

/-! ## The words of a file -/

/-- The words of a file: its maximal runs of bytes that `judge_word` answers 1
    for, none of them empty. -/
def wordsOf (content : List Byte) : List (List Byte) := runs isWord content

/-- Up to the first byte 255, the file is counted right as far as an `int` can
    hold the number. -/
theorem countTxt_eq (content : List Byte) :
    countTxt (some content) =
      if ((wordsOf (readPart content)).length : Int) ≤ INT_MAX then
        some ((wordsOf (readPart content)).length : Int)
      else none := by
  have hloop := countLoop_eq content .out (show (0 : Int) ≤ INT_MAX by decide)
  rw [Int.zero_add] at hloop
  rw [wordsOf, length_runs]
  exact hloop

/-- When all words are counted: a first byte 255 goes on with a word, and
    behind it no byte of a word follows one that is none; and an `int` can
    hold the number of the words. -/
structure AllCounted (content : List Byte) : Prop where
  readsOn : ∀ pre rest, content = pre ++ 255 :: rest → 255 ∉ pre →
    (∃ b, pre.getLast? = some b ∧ judgeWord b = 1) ∧
      (255 :: rest).IsChain fun a b => judgeWord a = 0 → judgeWord b = 0
  fits : ((wordsOf content).length : Int) ≤ INT_MAX

theorem readPart_of_notMem {content : List Byte} (h : 255 ∉ content) :
    readPart content = content :=
  List.takeWhile_eq_self_iff.mpr fun b hb => by
    simpa using ne_of_mem_of_not_mem hb h

theorem readPart_append {pre : List Byte} (h : 255 ∉ pre) (rest : List Byte) :
    readPart (pre ++ 255 :: rest) = pre := by
  rw [readPart, List.takeWhile_append_of_pos fun b hb => by
    simpa using ne_of_mem_of_not_mem hb h]
  simp

/-- Behind a first byte 255 there is nothing to count just if it goes on with
    a word and no other word comes. -/
theorem length_wordsOf_append_iff (pre rest : List Byte) :
    (wordsOf (pre ++ 255 :: rest)).length = (wordsOf pre).length ↔
      (∃ b, pre.getLast? = some b ∧ judgeWord b = 1) ∧
        (255 :: rest).IsChain fun a b => judgeWord a = 0 → judgeWord b = 0 := by
  have hchain := runStarts_eq_zero_iff isWord 255 rest
  simp only [← judgeWord_eq_zero_iff] at hchain
  have hlast : inRunBehind isWord false pre = true ↔
      ∃ b, pre.getLast? = some b ∧ judgeWord b = 1 := by
    unfold inRunBehind
    cases pre.getLast? with
    | none => simp
    | some b => simp [isWord]
  have heof : isWord 255 = true := rfl
  -- what begins behind `pre` is 255 itself, where no word comes up to it, and what the rest adds
  rw [wordsOf, wordsOf, length_runs, length_runs, runStarts_append, Nat.add_eq_left, runStarts,
    Nat.add_eq_zero_iff, hchain, ← hlast, heof]
  cases inRunBehind isWord false pre <;> simp

/-- The count is right just if no word begins where nothing is read, and it
    fits. -/
theorem countTxt_eq_iff (content : List Byte) :
    countTxt (some content) = some ((wordsOf content).length : Int) ↔
      (wordsOf content).length = (wordsOf (readPart content)).length ∧
        ((wordsOf content).length : Int) ≤ INT_MAX := by
  rw [countTxt_eq]
  split
  · rename_i hfits
    rw [Option.some.injEq, Int.natCast_inj]
    exact ⟨fun heq => ⟨heq.symm, heq ▸ hfits⟩, fun h => h.1.symm⟩
  · rename_i hover
    exact iff_of_false (by simp) fun h => hover (h.1 ▸ h.2)

theorem length_wordsOf_eq_iff (content : List Byte) :
    (wordsOf content).length = (wordsOf (readPart content)).length ↔
      ∀ pre rest, content = pre ++ 255 :: rest → 255 ∉ pre →
        (∃ b, pre.getLast? = some b ∧ judgeWord b = 1) ∧
          (255 :: rest).IsChain fun a b => judgeWord a = 0 → judgeWord b = 0 := by
  constructor
  · rintro hlen pre rest rfl hpre
    rw [readPart_append hpre] at hlen
    exact (length_wordsOf_append_iff pre rest).mp hlen
  · intro h
    by_cases hmem : (255 : Byte) ∈ content
    · obtain ⟨pre, rest, rfl, hpre⟩ := List.eq_append_cons_of_mem hmem
      rw [readPart_append hpre]
      exact (length_wordsOf_append_iff pre rest).mpr (h pre rest rfl hpre)
    · rw [readPart_of_notMem hmem]

/-- The words of a file are counted just if no byte 255 ends the count too
    early and there are not too many of them. -/
theorem count_txt_iff (content : List Byte) :
    countTxt (some content) = some ((wordsOf content).length : Int) ↔ AllCounted content := by
  rw [countTxt_eq_iff, length_wordsOf_eq_iff]
  exact ⟨fun h => ⟨h.1, h.2⟩, fun h => ⟨h.readsOn, h.fits⟩⟩

/-- Of the words `a`, `ÿ` and `b` of a Latin-1 text the first one is
    counted. -/
theorem count_txt_stops_early :
    countTxt (some [97, 32, 255, 32, 98]) = some 1 ∧
      (wordsOf [97, 32, 255, 32, 98]).length = 3 ∧
      ¬ ∀ content, countTxt (some content) = some ((wordsOf content).length : Int) := by
  have hone : countTxt (some [97, 32, 255, 32, 98]) = some 1 := by
    rw [countTxt_eq]
    decide
  have hthree : (wordsOf [97, 32, 255, 32, 98]).length = 3 := by decide
  refine ⟨hone, hthree, fun h => ?_⟩
  have heq := hone.symm.trans (h [97, 32, 255, 32, 98])
  rw [hthree] at heq
  cases heq

end LinuxLearning.WordCount
