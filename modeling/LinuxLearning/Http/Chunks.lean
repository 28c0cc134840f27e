/-
  LinuxLearning.Http.Chunks

  What the HTTP client makes of a response, against the ways in which it can
  arrive.  Of each chunk the client keeps the bytes in front of the first NUL;
  the block always has room for them.
-/

import LinuxLearning.Http.Client

namespace LinuxLearning.Http

open Lib

variable {stream pre post : List UInt8} {b : UInt8}

/-! ## One turn -/

theorem sizeOfInt_natCast {n : Nat} (h : n ≤ bufferSize) : sizeOfInt n = n := by
  have hlt : n < 2 ^ 64 := Nat.lt_of_le_of_lt h (by decide)
  rw [sizeOfInt, BitVec.ofInt_natCast, BitVec.toNat_ofNat, Nat.mod_eq_of_lt hlt]

theorem take_buffer (bytes : List UInt8) : (buffer bytes).take bytes.length = bytes :=
  List.take_left' rfl

/-- A turn keeps what it has, and adds what it sees of the chunk. -/
theorem accumulate?_of_isCString {res str : List UInt8} (chunk : Chunk) (fresh : Nat → UInt8)
    (h : IsCString res str) :
    ∃ res', accumulate? res chunk.bytes.length chunk.bytes fresh = some res' ∧
      IsCString res' (str ++ untilNul chunk.bytes) := by
  have hlen : strlen res = str.length := congrArg List.length h.untilNul_eq
  have hsize : (strlen res + (chunk.bytes.length : Int) + 1).toNat =
      str.length + chunk.bytes.length + 1 := by
    rw [hlen]
    omega
  have hseen : (buffer chunk.bytes).take (sizeOfInt chunk.bytes.length) = chunk.bytes := by
    rw [sizeOfInt_natCast chunk.fits, take_buffer]
  have hkept : IsCString (realloc res (str.length + chunk.bytes.length + 1) fresh) str :=
    h.realloc fresh (by omega)
  have hroom : str.length +
      (untilNul ((buffer chunk.bytes).take (sizeOfInt chunk.bytes.length))).length <
        (realloc res (str.length + chunk.bytes.length + 1) fresh).length := by
    have hle := length_untilNul_le chunk.bytes
    rw [hseen, length_realloc]
    omega
  -- what is behind a NUL in the chunk is not seen
  obtain ⟨res', hcat, hres'⟩ := strncat?_of_isCString hkept hroom
  rw [hseen] at hres'
  exact ⟨res', by rw [accumulate?, if_pos h.nul_mem, hsize, hcat], hres'⟩

/-! ## A response -/

/-- A way in which a stream arrives: its chunks, with what `realloc` adds for
    each. -/
structure Arrival (stream : List UInt8) where
  pieces : List (Chunk × (Nat → UInt8))
  joined : (pieces.flatMap fun p => p.1.bytes) = stream

namespace Arrival

/-- The chunks, and then the peer closes. -/
def turns (a : Arrival stream) : List Turn :=
  a.pieces.map (fun p => .received p.1 p.2) ++ [.closed]

def outcome (a : Arrival stream) : Outcome := httpSendRequest a.turns

/-- What the client keeps. -/
def kept (a : Arrival stream) : List UInt8 := a.pieces.flatMap fun p => untilNul p.1.bytes

end Arrival

/-- The loop, from a string that was accumulated before. -/
theorem receiveLoop_pieces {res str : List UInt8} (pieces : List (Chunk × (Nat → UInt8)))
    (h : IsCString res str) :
    ∃ res', receiveLoop res (pieces.map (fun p => .received p.1 p.2) ++ [.closed]) =
      .returned res' ∧ IsCString res' (str ++ pieces.flatMap fun p => untilNul p.1.bytes) := by
  -- each chunk is added to the string that the others left
  induction pieces generalizing res str with
  | nil => exact ⟨res, rfl, by simpa using h⟩
  | cons p pieces ih =>
      obtain ⟨res₁, hstep, hres₁⟩ := accumulate?_of_isCString p.1 p.2 h
      obtain ⟨res₂, hloop, hres₂⟩ := ih hres₁
      refine ⟨res₂, ?_, ?_⟩
      · rw [List.map_cons, List.cons_append, receiveLoop, hstep]
        exact hloop
      · rw [List.flatMap_cons, ← List.append_assoc]
        exact hres₂

/-- The client returns, and its string is what it kept. -/
theorem Arrival.outcome_eq (a : Arrival stream) :
    ∃ res, a.outcome = .returned res ∧ IsCString res a.kept :=
  receiveLoop_pieces a.pieces (⟨List.not_mem_nil, by decide⟩ : IsCString _ [])

theorem Arrival.string?_eq (a : Arrival stream) : a.outcome.string? = some a.kept := by
  obtain ⟨res, houtcome, hres⟩ := a.outcome_eq
  rw [houtcome]
  exact hres.cstring?_eq

/-! ## NULs in the response -/

/-- No NUL is directly followed by another byte. -/
def NulsLast (stream : List UInt8) : Prop := ∀ pre b post, stream = pre ++ 0 :: b :: post → b = 0

theorem NulsLast.of_append (h : NulsLast (pre ++ post)) : NulsLast pre ∧ NulsLast post := by
  refine ⟨fun x b y hxy => h x b (y ++ post) ?_, fun x b y hxy => h (pre ++ x) b y ?_⟩
  · rw [hxy]
    simp
  · rw [hxy, List.append_assoc]

/-- Behind a NUL there are only NULs. -/
theorem NulsLast.filter_eq_nil (h : NulsLast (0 :: post)) : post.filter (· ≠ 0) = [] := by
  induction post with
  | nil => rfl
  | cons b post ih =>
      obtain rfl : b = 0 := h [] b post rfl
      have hpost : NulsLast (0 :: post) := (@NulsLast.of_append [0] (0 :: post) h).2
      simpa using ih hpost

/-- So a chunk loses its NULs and nothing else. -/
theorem NulsLast.untilNul_eq (h : NulsLast stream) : untilNul stream = stream.filter (· ≠ 0) := by
  induction stream with
  | nil => rfl
  | cons b stream ih =>
      by_cases hb : b = 0
      · subst hb
        have hrest := h.filter_eq_nil
        rw [untilNul_nul_cons, List.filter_cons_of_neg (by simp), hrest]
      · have hrest : NulsLast stream := (@NulsLast.of_append [b] stream h).2
        rw [untilNul_cons_of_ne hb, ih hrest, List.filter_cons_of_pos (by simpa using hb)]

theorem kept_of_nulsLast (h : NulsLast stream) (a : Arrival stream) :
    a.kept = stream.filter (· ≠ 0) := by
  obtain ⟨pieces, rfl⟩ := a
  unfold Arrival.kept
  induction pieces with
  | nil => rfl
  | cons p pieces ih =>
      rw [List.flatMap_cons] at h
      obtain ⟨hchunk, hrest⟩ := h.of_append
      have hkept := ih hrest
      simp only [List.flatMap_cons, List.filter_append] at hkept ⊢
      rw [hkept, hchunk.untilNul_eq]

/-! ## Byte by byte -/

def Chunk.single (b : UInt8) : Chunk := ⟨[b], by simp, by simp [bufferSize]⟩

def Chunk.pair (b c : UInt8) : Chunk := ⟨[b, c], by simp, by simp [bufferSize]⟩

/-- The bytes one at a time. -/
def singles (bytes : List UInt8) : List (Chunk × (Nat → UInt8)) :=
  bytes.map fun b => (.single b, fun _ => 0)

theorem flatMap_singles (bytes : List UInt8) :
    ((singles bytes).flatMap fun p => p.1.bytes) = bytes := by
  induction bytes with
  | nil => rfl
  | cons b bytes ih => simpa [singles, Chunk.single] using ih

theorem kept_singles (bytes : List UInt8) :
    ((singles bytes).flatMap fun p => untilNul p.1.bytes) = bytes.filter (· ≠ 0) := by
  induction bytes with
  | nil => rfl
  | cons b bytes ih =>
      have hcons : singles (b :: bytes) = (.single b, fun _ => 0) :: singles bytes := rfl
      rw [hcons, List.flatMap_cons, ih]
      by_cases hb : b = 0 <;> simp [Chunk.single, hb]

def Arrival.bytewise (stream : List UInt8) : Arrival stream := ⟨singles stream, flatMap_singles _⟩

/-- Byte by byte, but for two bytes that arrive together. -/
def Arrival.joining (pre : List UInt8) (b c : UInt8) (post : List UInt8) :
    Arrival (pre ++ b :: c :: post) where
  pieces := singles pre ++ (.pair b c, fun _ => 0) :: singles post
  joined := by
    rw [List.flatMap_append, List.flatMap_cons, flatMap_singles, flatMap_singles]
    rfl

theorem kept_joining_nul : (Arrival.joining pre 0 b post).kept =
    pre.filter (· ≠ 0) ++ post.filter (· ≠ 0) := by
  simp only [Arrival.kept, Arrival.joining, List.flatMap_append, List.flatMap_cons, kept_singles]
  simp [Chunk.pair]

/-! ## Any way of arrival -/

/-- However the stream arrives, the client returns the same string, within
    the blocks; without a NUL in the stream, that is the stream. -/
structure ReceivesAlike (stream : List UInt8) : Prop where
  same : ∀ a a' : Arrival stream, a.outcome.string? = a'.outcome.string?
  whole : 0 ∉ stream → ∀ a : Arrival stream, a.outcome.string? = some stream
  inBounds : ∀ a : Arrival stream, a.outcome ≠ .overrun

/-- This is so if and only if no NUL is directly followed by another byte. -/
theorem receivesAlike_iff : ReceivesAlike stream ↔ NulsLast stream := by
  constructor
  · -- with the NUL in a chunk of its own `b` is kept, together they are not
    rintro hsame pre b post rfl
    have hkept : (Arrival.bytewise (pre ++ 0 :: b :: post)).kept =
        (Arrival.joining pre 0 b post).kept := by
      have hstring := hsame.same (Arrival.bytewise _) (Arrival.joining pre 0 b post)
      rw [Arrival.string?_eq, Arrival.string?_eq] at hstring
      exact Option.some.inj hstring
    rw [kept_joining_nul] at hkept
    have hbytes : (Arrival.bytewise (pre ++ 0 :: b :: post)).kept =
        (pre ++ 0 :: b :: post).filter (· ≠ 0) := kept_singles _
    by_contra hb
    rw [hbytes] at hkept
    simp [hb] at hkept
  · intro hlast
    refine ⟨fun a a' => ?_, fun hnul a => ?_, fun a => ?_⟩
    · rw [a.string?_eq, a'.string?_eq, kept_of_nulsLast hlast a, kept_of_nulsLast hlast a']
    · have hall : stream.filter (· ≠ 0) = stream :=
        List.filter_eq_self.mpr fun b hb => by simpa using fun h : b = 0 => hnul (h ▸ hb)
      rw [a.string?_eq, kept_of_nulsLast hlast a, hall]
    · obtain ⟨res, houtcome, -⟩ := a.outcome_eq
      simp [houtcome]

/-- A response `a`, NUL, `b`: in one chunk, and in two. -/
theorem not_receivesAlike : ¬ ReceivesAlike [97, 0, 98] := by
  intro h
  have hone := h.same (Arrival.bytewise _) (Arrival.joining [97] 0 98 [])
  rw [Arrival.string?_eq, Arrival.string?_eq] at hone
  exact absurd hone (by decide)

end LinuxLearning.Http
