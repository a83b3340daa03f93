import SvrDemo.Base.BigNumber
import SvrDemo.Protocol.Buffers

/-!
# The packing of sproto

`sproto_pack` and `sproto_unpack` of `sproto.c`. Eight bytes are packed to a header, which has a bit for each byte that
is not zero, and these bytes. A run of at most 256 segments of eight bytes, the first without a zero and the others with
at most two, is copied as it is, behind two bytes.

A buffer is a memory here, and a pointer is a place in it. What `sproto_pack` and `sproto_unpack` read and write beyond
the sizes that they were given shows in it.
-/

set_option autoImplicit false
set_option relaxedAutoImplicit false

namespace SvrDemo.Sproto

open Base Protocol

abbrev Memory : Type := ℕ → UInt8

/-! ### Packing -/

/-- The variables of the loop of `pack_seg`. -/
structure PackSeg where
  header : ℕ
  notzero : ℕ
  buffer : Memory
  pos : ℕ
  sz : ℤ

/-- A turn of the loop of `pack_seg`. -/
def PackSeg.step (src : Memory) (s : PackSeg) (i : ℕ) : PackSeg :=
  if src i ≠ 0 then
    let s := { s with notzero := s.notzero + 1, header := s.header ||| 1 <<< i }
    if 0 < s.sz then { s with buffer := Function.update s.buffer s.pos (src i), pos := s.pos + 1, sz := s.sz - 1 }
    else s
  else s

/-- `pack_seg`, with what it returns and the buffer. -/
def packSeg (src buffer : Memory) (pos : ℕ) (sz : ℤ) (n : ℕ) : ℕ × Memory :=
  let s := (List.range 8).foldl (PackSeg.step src) ⟨0, 0, buffer, pos + 1, sz - 1⟩
  let notzero := if (s.notzero = 7 ∨ s.notzero = 6) ∧ 0 < n then 8 else s.notzero
  if notzero = 8 then (if 0 < n then 8 else 10, s.buffer)
  else (notzero + 1, if 0 ≤ sz - 1 then Function.update s.buffer pos (UInt8.ofNat s.header) else s.buffer)

/-- `write_ff`. -/
def writeFf (src : Memory) (des n : ℕ) (buffer : Memory) : Memory := fun p ↦
  let align8 := (n + 7) / 8 * 8
  if p = des then 0xff
  else if p = des + 1 then UInt8.ofNat (align8 / 8 - 1)
  else if des + 2 ≤ p ∧ p < des + 2 + n then src (p - (des + 2))
  else if des + 2 + n ≤ p ∧ p < des + 2 + align8 then 0
  else buffer p

/-- The variables of `sproto_pack`, with `ff_srcstart` as a place in the source. It is never `tmp`: a segment that is
filled up has a zero, and no run begins with it. -/
structure Packing where
  buffer : Memory
  pos : ℕ
  bufsz : ℤ
  ffSrcstart : ℕ
  ffDesstart : ℕ
  ffN : ℕ
  size : ℕ

/-- A segment of the source, filled up with zeros in `tmp` if it is the last one. -/
def segment (src : Memory) (srcsz k : ℕ) : Memory := fun j ↦ if 8 * k + j < srcsz then src (8 * k + j) else 0

/-- The source from a place on. -/
def sourceFrom (src : Memory) (place : ℕ) : Memory := fun j ↦ src (place + j)

/-- A turn of the loop of `sproto_pack`. -/
def Packing.step (src : Memory) (srcsz : ℕ) (s : Packing) (k : ℕ) : Packing :=
  let (n, buffer) := packSeg (segment src srcsz k) s.buffer s.pos s.bufsz s.ffN
  let s := { s with buffer := buffer, bufsz := s.bufsz - n }
  let s :=
    if n = 10 then { s with ffSrcstart := 8 * k, ffDesstart := s.pos, ffN := 1 }
    else if n = 8 ∧ 0 < s.ffN then
      let s := { s with ffN := s.ffN + 1 }
      if s.ffN = 256 then
        { s with
          buffer :=
            if 0 ≤ s.bufsz then writeFf (sourceFrom src s.ffSrcstart) s.ffDesstart (256 * 8) s.buffer else s.buffer
          ffN := 0 }
      else s
    else if 0 < s.ffN then
      { s with
        buffer :=
          if 0 ≤ s.bufsz then writeFf (sourceFrom src s.ffSrcstart) s.ffDesstart (s.ffN * 8) s.buffer else s.buffer
        ffN := 0 }
    else s
  { s with pos := s.pos + n, size := s.size + n }

/-- `sproto_pack`, with the size and the buffer. -/
def sprotoPack (src : Memory) (srcsz : ℕ) (buffer : Memory) (bufsz : ℕ) : ℕ × Memory :=
  let s := (List.range ((srcsz + 7) / 8)).foldl (Packing.step src srcsz) ⟨buffer, 0, bufsz, 0, 0, 0, 0⟩
  let buffer :=
    if 0 ≤ s.bufsz then
      if s.ffN = 1 then writeFf (sourceFrom src s.ffSrcstart) s.ffDesstart 8 s.buffer
      else if 1 < s.ffN then writeFf (sourceFrom src s.ffSrcstart) s.ffDesstart (srcsz - s.ffSrcstart) s.buffer
      else s.buffer
    else s.buffer
  (s.size, buffer)

/-- The size of the buffer that `lpack` gives to `sproto_pack`. It raises when this is not enough. -/
def maxsz (sz : ℕ) : ℕ := (sz + 2047) / 2048 * 2 + sz + 2

/-! ### Unpacking -/

/-- The variables of `sproto_unpack`. -/
structure Unpacking where
  srcPos : ℕ
  srcsz : ℤ
  buffer : Memory
  pos : ℕ
  bufsz : ℤ
  size : ℕ

/-- A byte of what is unpacked, where there is room for it. -/
def Unpacking.put (s : Unpacking) (byte : UInt8) : Unpacking :=
  if 0 < s.bufsz then
    { s with buffer := Function.update s.buffer s.pos byte, pos := s.pos + 1, bufsz := s.bufsz - 1 }
  else s

/-- A turn of the inner loop of `sproto_unpack`. -/
def Unpacking.bit (src : Memory) (header : UInt8) (s : Unpacking) (i : ℕ) : Option Unpacking :=
  if header.toNat >>> i &&& 1 ≠ 0 then
    if s.srcsz < 0 then none
    else
      let s := s.put (src s.srcPos)
      some { s with srcPos := s.srcPos + 1, srcsz := s.srcsz - 1, size := s.size + 1 }
  else
    let s := s.put 0
    some { s with size := s.size + 1 }

/-- A turn of the loop of `sproto_unpack`. -/
def Unpacking.step (src : Memory) (s : Unpacking) : Option Unpacking :=
  let header := src s.srcPos
  let s := { s with srcsz := s.srcsz - 1, srcPos := s.srcPos + 1 }
  if header = 0xff then
    if s.srcsz < 0 then none
    else
      let n := ((src s.srcPos).toNat + 1) * 8
      if s.srcsz < (n : ℤ) + 1 then none
      else
        let start := s.srcPos + 1
        some { s with
          srcsz := s.srcsz - ((n : ℤ) + 1)
          srcPos := start + n
          buffer :=
            if (n : ℤ) ≤ s.bufsz then
              fun p ↦ if s.pos ≤ p ∧ p < s.pos + n then src (start + (p - s.pos)) else s.buffer p
            else s.buffer
          bufsz := s.bufsz - n
          pos := s.pos + n
          size := s.size + n }
  else (List.range 8).foldlM (Unpacking.bit src header) s

/-- The loop of `sproto_unpack`, with the turns that are left. Each turn takes a byte at least. -/
def Unpacking.loop (src : Memory) : ℕ → Unpacking → Option Unpacking
  | 0, s => some s
  | turns + 1, s => if 0 < s.srcsz then (s.step src).bind (loop src turns) else some s

/-- `sproto_unpack`, with the size and the buffer, or nothing for `-1`. -/
def sprotoUnpack (src : Memory) (srcsz : ℕ) (buffer : Memory) (bufsz : ℕ) : Option (ℕ × Memory) :=
  (Unpacking.loop src srcsz ⟨0, srcsz, buffer, 0, bufsz, 0⟩).map fun s ↦ (s.size, s.buffer)

end SvrDemo.Sproto
