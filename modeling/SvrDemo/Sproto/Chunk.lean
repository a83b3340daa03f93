import SvrDemo.Sproto.Pack

/-!
# Packed streams

A packed stream is a list of chunks: a header with the bytes that are not zero, or a run of segments. `sproto_unpack`
gives the data of the chunks (`unpack_encode`). What it takes for a packed stream is one, or lacks the last byte of one
(`unpack_accepts`): it reads this byte behind the end of its input.
-/

set_option autoImplicit false
set_option relaxedAutoImplicit false

namespace SvrDemo.Sproto

open Base Protocol

/-- The bytes of a header that are not zero, for some bits. -/
def needed (header : UInt8) (bits : List ℕ) : ℕ := bits.countP fun i ↦ header.toNat.testBit i

/-- The bytes that a header stands for, for some bits. -/
def expand (header : UInt8) : List ℕ → Bytes → Bytes
  | [], _ => []
  | i :: bits, bytes =>
    if header.toNat.testBit i then bytes.headD 0 :: expand header bits bytes.tail else 0 :: expand header bits bytes

/-- A header with its bytes, or a run. -/
inductive Chunk
  | sparse (header : UInt8) (bytes : Bytes)
  | full (data : Bytes)

namespace Chunk

def Valid : Chunk → Prop
  | sparse header bytes => header ≠ 0xff ∧ bytes.length = needed header (List.range 8)
  | full data => ∃ n, n < 256 ∧ data.length = (n + 1) * 8

def encode : Chunk → Bytes
  | sparse header bytes => header :: bytes
  | full data => 0xff :: UInt8.ofNat (data.length / 8 - 1) :: data

def data : Chunk → Bytes
  | sparse header bytes => expand header (List.range 8) bytes
  | full data => data

end Chunk

/-- The stream of some chunks. -/
def encode (chunks : List Chunk) : Bytes := (chunks.map Chunk.encode).flatten

/-- The data of some chunks. -/
def content (chunks : List Chunk) : Bytes := (chunks.map Chunk.data).flatten

theorem encode_cons (chunk : Chunk) (chunks : List Chunk) : encode (chunk :: chunks) = chunk.encode ++ encode chunks :=
  rfl

theorem encode_append (chunks others : List Chunk) : encode (chunks ++ others) = encode chunks ++ encode others := by
  rw [encode, List.map_append, List.flatten_append]
  rfl

theorem content_append (chunks others : List Chunk) :
    content (chunks ++ others) = content chunks ++ content others := by
  rw [content, List.map_append, List.flatten_append]
  rfl

theorem needed_cons (header : UInt8) (i : ℕ) (bits : List ℕ) :
    needed header (i :: bits) = needed header bits + if header.toNat.testBit i then 1 else 0 :=
  List.countP_cons

/-- The test of `sproto_unpack` for a bit of the header. -/
theorem shiftRight_and_one_ne_zero (header : UInt8) (i : ℕ) :
    header.toNat >>> i &&& 1 ≠ 0 ↔ header.toNat.testBit i = true := by
  rw [Nat.testBit, Nat.and_comm, bne_iff_ne]

/-! ### What is written -/

namespace Unpacking

variable {s : Unpacking} {src base : Memory} {cap : ℕ} {data : Bytes}

/-- Some data has been unpacked to a buffer of some capacity, as far as there is room for it, and the memory behind the
buffer is as it was. -/
structure Wrote (s : Unpacking) (cap : ℕ) (base : Memory) (data : Bytes) : Prop where
  size : s.size = data.length
  bufsz : s.bufsz = cap - s.pos
  room : s.size ≤ cap → s.pos = s.size ∧ Holds s.buffer 0 data
  beyond : ∀ p, cap ≤ p → s.buffer p = base p

/-- Data that is written behind what there is. -/
theorem holds_write {buffer buffer' : Memory} {place : ℕ} {more : Bytes} (h : Holds buffer 0 data)
    (hlength : data.length = place) (hmore : Holds buffer' place more)
    (hsame : ∀ p, p < place → buffer' p = buffer p) : Holds buffer' 0 (data ++ more) := by
  subst hlength
  refine holds_append.mpr ⟨h.congr fun p _ hp ↦ hsame p ?_, ?_⟩
  · rwa [Nat.zero_add] at hp
  · rwa [Nat.zero_add]

theorem Wrote.put (h : s.Wrote cap base data) (byte : UInt8) :
    Wrote { s.put byte with size := s.size + 1 } cap base (data ++ [byte]) := by
  unfold Unpacking.put
  have hbufsz := h.bufsz
  by_cases hroom : 0 < s.bufsz
  · rw [if_pos hroom]
    refine ⟨?_, ?_, fun hsize ↦ ?_, fun p hp ↦ ?_⟩
    · change s.size + 1 = _
      rw [h.size, List.length_append]
      rfl
    · change s.bufsz - 1 = cap - ((s.pos + 1 : ℕ) : ℤ)
      push_cast
      omega
    · change s.size + 1 ≤ cap at hsize
      obtain ⟨hpos, hholds⟩ := h.room (by omega)
      refine ⟨congrArg (· + 1) hpos, holds_write hholds (h.size.symm.trans hpos.symm) ?_ fun p hp ↦ ?_⟩
      · exact holds_singleton.mpr (Function.update_self ..)
      · exact Function.update_of_ne (Nat.ne_of_lt hp) _ _
    · change Function.update s.buffer s.pos byte p = _
      rw [Function.update_of_ne (by omega)]
      exact h.beyond p hp
  · rw [if_neg hroom]
    refine ⟨?_, hbufsz, fun hsize ↦ ?_, h.beyond⟩
    · change s.size + 1 = _
      rw [h.size, List.length_append]
      rfl
    · change s.size + 1 ≤ cap at hsize
      have hpos := (h.room (by omega)).1
      omega

theorem put_size (s : Unpacking) (byte : UInt8) : (s.put byte).size = s.size := by
  unfold Unpacking.put
  split <;> rfl

theorem put_srcPos (s : Unpacking) (byte : UInt8) : (s.put byte).srcPos = s.srcPos := by
  unfold Unpacking.put
  split <;> rfl

theorem put_srcsz (s : Unpacking) (byte : UInt8) : (s.put byte).srcsz = s.srcsz := by
  unfold Unpacking.put
  split <;> rfl

/-! ### A header -/

/-- The bytes of a header are read as long as at most the last of them is behind the end of the input. -/
theorem Wrote.bits (h : s.Wrote cap base data) (src : Memory) (header : UInt8) (bits : List ℕ)
    (hsrcsz : needed header bits ≠ 0 → (needed header bits : ℤ) ≤ s.srcsz + 1) :
    ∃ s', bits.foldlM (bit src header) s = some s' ∧ s'.srcPos = s.srcPos + needed header bits ∧
      s'.srcsz = s.srcsz - needed header bits ∧
        s'.Wrote cap base (data ++ expand header bits (region src s.srcPos (needed header bits))) := by
  induction bits generalizing s data with
  | nil => exact ⟨s, rfl, rfl, (Int.sub_zero _).symm, (List.append_nil data).symm ▸ h⟩
  | cons i bits ih =>
    rw [needed_cons] at hsrcsz ⊢
    by_cases hbit : header.toNat.testBit i = true
    · rw [if_pos hbit] at hsrcsz ⊢
      have hsz : ¬s.srcsz < 0 := by omega
      have hstep : bit src header s i = some { s.put (src s.srcPos) with
          srcPos := s.srcPos + 1, srcsz := s.srcsz - 1, size := s.size + 1 } := by
        unfold bit
        rw [if_pos ((shiftRight_and_one_ne_zero header i).mpr hbit), if_neg hsz]
        simp only [put_srcPos, put_srcsz, put_size]
      have hput := h.put (src s.srcPos)
      obtain ⟨s', hs', hpos, hsrcsz', hwrote⟩ := ih (s := { s.put (src s.srcPos) with
        srcPos := s.srcPos + 1, srcsz := s.srcsz - 1, size := s.size + 1 })
        ⟨hput.size, hput.bufsz, hput.room, hput.beyond⟩ fun hneeded ↦ by
          have := hsrcsz (Nat.succ_ne_zero _)
          push_cast at this
          change (needed header bits : ℤ) ≤ s.srcsz - 1 + 1
          omega
      refine ⟨s', ?_, ?_, ?_, ?_⟩
      · rw [List.foldlM_cons, hstep]
        exact hs'
      · change _ = s.srcPos + 1 + _ at hpos
        omega
      · change _ = s.srcsz - 1 - _ at hsrcsz'
        push_cast
        omega
      · rw [expand, if_pos hbit, Nat.add_comm _ 1, region_add]
        rw [List.append_assoc] at hwrote
        exact hwrote
    · rw [if_neg hbit] at hsrcsz ⊢
      have hstep : bit src header s i = some { s.put 0 with size := s.size + 1 } := by
        unfold bit
        rw [if_neg ((shiftRight_and_one_ne_zero header i).not.mpr hbit)]
        simp only [put_size]
      obtain ⟨s', hs', hpos, hsrcsz', hwrote⟩ := ih (h.put 0) (by
        change _ → (needed header bits : ℤ) ≤ (s.put 0).srcsz + 1
        rw [put_srcsz]
        exact hsrcsz)
      change _ = (s.put 0).srcPos + _ at hpos
      change _ = (s.put 0).srcsz - _ at hsrcsz'
      change Wrote _ _ _ (_ ++ expand header bits (region src (s.put 0).srcPos _)) at hwrote
      rw [put_srcPos] at hpos hwrote
      rw [put_srcsz] at hsrcsz'
      refine ⟨s', ?_, hpos, hsrcsz', ?_⟩
      · rw [List.foldlM_cons, hstep]
        exact hs'
      · rw [expand, if_neg hbit]
        rw [List.append_assoc] at hwrote
        exact hwrote

theorem Wrote.header (h : s.Wrote cap base data) (srcPos : ℕ) (srcsz : ℤ) :
    Wrote { s with srcPos := srcPos, srcsz := srcsz } cap base data := ⟨h.size, h.bufsz, h.room, h.beyond⟩

/-- A run that is copied. -/
theorem Wrote.run (h : s.Wrote cap base data) (src : Memory) (srcPos : ℕ) (srcsz : ℤ) (start n : ℕ) :
    Wrote { s with
      srcPos := srcPos
      srcsz := srcsz
      buffer :=
        if (n : ℤ) ≤ s.bufsz then fun p ↦ if s.pos ≤ p ∧ p < s.pos + n then src (start + (p - s.pos)) else s.buffer p
        else s.buffer
      bufsz := s.bufsz - n
      pos := s.pos + n
      size := s.size + n } cap base (data ++ region src start n) := by
  have hbufsz := h.bufsz
  refine ⟨?_, ?_, fun hsize ↦ ?_, fun p hp ↦ ?_⟩
  · change s.size + n = _
    rw [h.size, List.length_append, length_region]
  · change s.bufsz - n = cap - ((s.pos + n : ℕ) : ℤ)
    push_cast
    omega
  · change s.size + n ≤ cap at hsize
    obtain ⟨hpos, hholds⟩ := h.room (by omega)
    refine ⟨congrArg (· + n) hpos, ?_⟩
    simp only
    rw [if_pos (by omega)]
    refine holds_write hholds (h.size.symm.trans hpos.symm) (holds_region.mpr fun i hi ↦ ?_) fun p hp ↦ ?_
    · rw [if_pos ⟨Nat.le_add_right _ _, Nat.add_lt_add_left hi _⟩, Nat.add_sub_cancel_left]
    · exact if_neg fun h ↦ Nat.not_le_of_lt hp h.1
  · simp only
    split
    · next hroom =>
      exact (if_neg fun hp' ↦ by omega).trans (h.beyond p hp)
    · exact h.beyond p hp

/-- A chunk is unpacked. The last byte of a header may be behind the end of the input. -/
theorem Wrote.chunk (h : s.Wrote cap base data) {chunk : Chunk} (hvalid : chunk.Valid)
    (hholds : Holds src s.srcPos chunk.encode) (hpos : 0 < s.srcsz)
    (hsrcsz : (chunk.encode.length : ℤ) ≤ s.srcsz ∨
      ∃ header bytes, chunk = .sparse header bytes ∧ (chunk.encode.length : ℤ) ≤ s.srcsz + 1) :
    ∃ s', s.step src = some s' ∧ s'.srcPos = s.srcPos + chunk.encode.length ∧
      s'.srcsz = s.srcsz - chunk.encode.length ∧ s'.Wrote cap base (data ++ chunk.data) := by
  cases chunk with
  | sparse header bytes =>
    obtain ⟨hheader, hlength⟩ := hvalid
    obtain ⟨hsrc, hbytes⟩ := holds_cons.mp hholds
    have hle : ((bytes.length + 1 : ℕ) : ℤ) ≤ s.srcsz + 1 := by
      rcases hsrcsz with h | ⟨_, _, _, h⟩ <;> change ((bytes.length + 1 : ℕ) : ℤ) ≤ _ at h <;> omega
    obtain ⟨s', hs', hpos', hsrcsz', hwrote⟩ := (h.header (s.srcPos + 1) (s.srcsz - 1)).bits src header
      (List.range 8) fun _ ↦ by
        change (needed header (List.range 8) : ℤ) ≤ s.srcsz - 1 + 1
        omega
    have hregion : region src (s.srcPos + 1) (needed header (List.range 8)) = bytes :=
      hlength ▸ region_eq_of_holds hbytes
    refine ⟨s', ?_, ?_, ?_, ?_⟩
    · unfold Unpacking.step
      rw [hsrc]
      exact (if_neg hheader).trans hs'
    · rw [hpos', ← hlength]
      exact Nat.add_right_comm _ _ _
    · rw [hsrcsz', ← hlength]
      change s.srcsz - 1 - _ = s.srcsz - ((bytes.length + 1 : ℕ) : ℤ)
      push_cast
      omega
    · change Wrote _ _ _ (data ++ expand header (List.range 8) (region src (s.srcPos + 1) _)) at hwrote
      rwa [hregion] at hwrote
  | full run =>
    obtain ⟨n, hn, hlength⟩ := hvalid
    obtain ⟨hsrc, hrest⟩ := holds_cons.mp hholds
    obtain ⟨hcount, hrun⟩ := holds_cons.mp hrest
    have hle : ((run.length + 2 : ℕ) : ℤ) ≤ s.srcsz := by
      rcases hsrcsz with h | ⟨_, _, h, _⟩
      · exact h
      · exact Chunk.noConfusion h
    have hn' : ((src (s.srcPos + 1)).toNat + 1) * 8 = run.length := by
      rw [hcount, hlength, Nat.mul_div_cancel _ (by decide), Nat.add_sub_cancel, UInt8.toNat_ofNat_of_lt' hn]
    have hstep := h.run src (s.srcPos + 1 + 1 + run.length) (s.srcsz - 1 - (run.length + 1)) (s.srcPos + 1 + 1)
      run.length
    rw [region_eq_of_holds hrun] at hstep
    refine ⟨_, ?_, ?_, ?_, hstep⟩
    · unfold Unpacking.step
      simp only [hsrc, hn']
      rw [if_pos trivial, if_neg (by omega), if_neg (by omega)]
    · change s.srcPos + 1 + 1 + run.length = s.srcPos + (run.length + 2)
      omega
    · change s.srcsz - 1 - ((run.length : ℤ) + 1) = s.srcsz - ((run.length + 2 : ℕ) : ℤ)
      push_cast
      omega

end Unpacking

/-! ### A stream -/

/-- The chunks end with the input, or the last byte of a header is missing. -/
def Fits (chunks : List Chunk) (srcsz : ℤ) : Prop :=
  ((encode chunks).length : ℤ) = srcsz ∨ ∃ done header bytes,
    chunks = done ++ [Chunk.sparse header bytes] ∧ bytes ≠ [] ∧ ((encode chunks).length : ℤ) = srcsz + 1

theorem length_encode_cons (chunk : Chunk) (chunks : List Chunk) :
    (encode (chunk :: chunks)).length = chunk.encode.length + (encode chunks).length := by
  rw [encode_cons, List.length_append]

theorem Chunk.length_encode_pos (chunk : Chunk) : 0 < chunk.encode.length := by
  cases chunk <;> exact Nat.succ_pos _

/-- The first chunk is in the input, or it is the last one as well. -/
theorem Fits.cons {chunk : Chunk} {chunks : List Chunk} {srcsz : ℤ} (h : Fits (chunk :: chunks) srcsz) :
    ((chunk.encode.length : ℤ) ≤ srcsz ∧ Fits chunks (srcsz - chunk.encode.length)) ∨
      chunks = [] ∧ (∃ header bytes, chunk = .sparse header bytes ∧ bytes ≠ []) ∧
        (chunk.encode.length : ℤ) = srcsz + 1 := by
  rcases h with h | ⟨done, header, bytes, hchunks, hbytes, h⟩
  · rw [length_encode_cons] at h
    push_cast at h
    exact .inl ⟨by omega, .inl (by omega)⟩
  · rw [length_encode_cons] at h
    push_cast at h
    cases done with
    | nil =>
      obtain ⟨rfl, rfl⟩ := List.cons.inj hchunks
      change _ + (0 : ℤ) = _ at h
      exact .inr ⟨rfl, ⟨header, bytes, rfl, hbytes⟩, (Int.add_zero _).symm.trans h⟩
    | cons first done =>
      obtain ⟨rfl, rfl : chunks = done ++ [Chunk.sparse header bytes]⟩ := List.cons.inj hchunks
      have hlength : 0 < (encode (done ++ [Chunk.sparse header bytes])).length := by
        rw [encode_append, List.length_append]
        exact Nat.add_pos_right _ (Nat.succ_pos _)
      exact .inl ⟨by omega, .inr ⟨done, header, bytes, rfl, hbytes, by omega⟩⟩

theorem Fits.of_cons {chunk : Chunk} {chunks : List Chunk} {srcsz : ℤ}
    (h : Fits chunks (srcsz - chunk.encode.length)) : Fits (chunk :: chunks) srcsz := by
  rcases h with h | ⟨done, header, bytes, rfl, hbytes, h⟩
  · left
    rw [length_encode_cons]
    push_cast
    omega
  · refine .inr ⟨chunk :: done, header, bytes, rfl, hbytes, ?_⟩
    rw [length_encode_cons]
    push_cast
    omega

namespace Unpacking

variable {s : Unpacking} {src base : Memory} {cap : ℕ} {data : Bytes}

theorem loop_of_nonpos (h : ¬0 < s.srcsz) (turns : ℕ) : loop src turns s = some s := by
  cases turns with
  | zero => rfl
  | succ turns => exact if_neg h

theorem loop_of_pos (h : 0 < s.srcsz) (turns : ℕ) : loop src (turns + 1) s = (s.step src).bind (loop src turns) :=
  if_pos h

/-- A stream is unpacked to its data. -/
theorem Wrote.loop (h : s.Wrote cap base data) {chunks : List Chunk} (hvalid : ∀ chunk ∈ chunks, chunk.Valid)
    (hholds : Holds src s.srcPos (encode chunks)) (hfits : Fits chunks s.srcsz) {turns : ℕ} (hturns : s.srcsz ≤ turns) :
    ∃ s', loop src turns s = some s' ∧ s'.Wrote cap base (data ++ content chunks) := by
  induction chunks generalizing s data turns with
  | nil =>
    refine ⟨s, loop_of_nonpos ?_ turns, (List.append_nil data).symm ▸ h⟩
    rcases hfits with h | ⟨done, header, bytes, hnil, _⟩
    · exact not_lt_of_ge (le_of_eq h.symm)
    · exact absurd hnil.symm (List.append_ne_nil_of_right_ne_nil _ (List.cons_ne_nil _ _))
  | cons chunk chunks ih =>
    have hlength := chunk.length_encode_pos
    obtain ⟨hchunk, hchunks⟩ := List.forall_mem_cons.mp hvalid
    rw [encode_cons, holds_append] at hholds
    have hcases := hfits.cons
    have hpos : 0 < s.srcsz := by
      rcases hcases with ⟨hle, _⟩ | ⟨_, ⟨header, bytes, rfl, hbytes⟩, hle⟩
      · omega
      · have := List.length_pos_of_ne_nil hbytes
        change ((bytes.length + 1 : ℕ) : ℤ) = _ at hle
        omega
    obtain ⟨s₁, hstep, hplace, hsrcsz, hwrote⟩ := h.chunk hchunk hholds.1 hpos (by
      rcases hcases with ⟨hle, _⟩ | ⟨_, ⟨header, bytes, hsparse, _⟩, hle⟩
      · exact .inl hle
      · exact .inr ⟨header, bytes, hsparse, le_of_eq hle⟩)
    cases turns with
    | zero => omega
    | succ turns =>
      rw [loop_of_pos hpos, hstep, content, List.map_cons, List.flatten_cons, ← List.append_assoc]
      rcases hcases with ⟨hle, hrest⟩ | ⟨rfl, _, hle⟩
      · exact ih hwrote hchunks (hplace ▸ hholds.2) (hsrcsz ▸ hrest) (by push_cast at hturns; omega)
      · refine ⟨s₁, loop_of_nonpos (by omega) turns, ?_⟩
        rw [List.map_nil, List.flatten_nil, List.append_nil]
        exact hwrote

end Unpacking

/-- The input begins with a stream, of which at most the last byte of a header is behind the end of the input. -/
structure Stream (src : Memory) (srcsz : ℕ) (chunks : List Chunk) : Prop where
  valid : ∀ chunk ∈ chunks, chunk.Valid
  holds : Holds src 0 (encode chunks)
  fits : Fits chunks srcsz

theorem Unpacking.wrote_init (srcsz : ℤ) (buffer : Memory) (bufsz : ℕ) :
    Wrote ⟨0, srcsz, buffer, 0, bufsz, 0⟩ bufsz buffer [] where
  size := rfl
  bufsz := by simp
  room _ := ⟨rfl, holds_nil _ _⟩
  beyond _ _ := rfl

/-- `sproto_unpack` gives the data of a stream. -/
theorem unpack_stream {src : Memory} {srcsz : ℕ} {chunks : List Chunk} (h : Stream src srcsz chunks) (buffer : Memory)
    (bufsz : ℕ) : ∃ buffer', sprotoUnpack src srcsz buffer bufsz = some ((content chunks).length, buffer') ∧
      ((content chunks).length ≤ bufsz → Holds buffer' 0 (content chunks)) ∧
        ∀ p, bufsz ≤ p → buffer' p = buffer p := by
  obtain ⟨s, hs, hwrote⟩ := (Unpacking.wrote_init srcsz buffer bufsz).loop h.valid h.holds h.fits (le_refl _)
  rw [List.nil_append] at hwrote
  refine ⟨s.buffer, ?_, fun hle ↦ (hwrote.room (hwrote.size ▸ hle)).2, hwrote.beyond⟩
  rw [sprotoUnpack, hs, ← hwrote.size]
  rfl

end SvrDemo.Sproto
