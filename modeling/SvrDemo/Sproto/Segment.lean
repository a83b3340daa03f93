import SvrDemo.Sproto.Chunk

/-!
# Packing a segment

`pack_seg` writes a segment as a header with its bytes (`packSeg_sparse`), or writes nothing that is kept and says that
the segment belongs to a run (`packSeg_full`). `write_ff` writes a run (`holds_writeFf`).
-/

set_option autoImplicit false
set_option relaxedAutoImplicit false

namespace SvrDemo.Sproto

open Base Protocol

variable {source buffer : Memory} {pos : ℕ} {cap : ℕ}

/-- The bytes that are not zero, at some places. -/
def nonzeros (source : Memory) (places : List ℕ) : Bytes := (places.map source).filter (· ≠ 0)

theorem nonzeros_cons {i : ℕ} (h : source i ≠ 0) (places : List ℕ) :
    nonzeros source (i :: places) = source i :: nonzeros source places :=
  List.filter_cons_of_pos (decide_eq_true h)

theorem nonzeros_cons_zero {i : ℕ} (h : source i = 0) (places : List ℕ) :
    nonzeros source (i :: places) = nonzeros source places :=
  List.filter_cons_of_neg fun hbyte ↦ of_decide_eq_true hbyte h

theorem nonzeros_append (source : Memory) (places others : List ℕ) :
    nonzeros source (places ++ others) = nonzeros source places ++ nonzeros source others := by
  rw [nonzeros, List.map_append, List.filter_append]
  rfl

theorem length_nonzeros_le (source : Memory) (places : List ℕ) : (nonzeros source places).length ≤ places.length :=
  (List.length_filter_le _ _).trans (le_of_eq (List.length_map _))

theorem length_nonzeros {places : List ℕ} :
    (nonzeros source places).length = places.length ↔ ∀ i ∈ places, source i ≠ 0 := by
  rw [nonzeros, ← List.length_map source, List.length_filter_eq_length_iff, List.forall_mem_map]
  simp only [decide_eq_true_eq]

/-! ### The loop of `pack_seg` -/

/-- What the loop of `pack_seg` has found and written after some turns. -/
structure PackSeg.Scanned (source buffer : Memory) (pos cap : ℕ) (s : PackSeg) (count : ℕ) : Prop where
  header : ∀ i, s.header.testBit i = decide (i < count ∧ source i ≠ 0)
  notzero : s.notzero = (nonzeros source (List.range count)).length
  sz : s.sz = cap - s.pos
  place : pos < s.pos
  bytes : pos + 1 + s.notzero ≤ cap →
    s.pos = pos + 1 + s.notzero ∧ Holds s.buffer (pos + 1) (nonzeros source (List.range count))
  frame : ∀ p, p ≤ pos ∨ cap ≤ p → s.buffer p = buffer p

namespace PackSeg

theorem scanned_init (source buffer : Memory) (pos cap : ℕ) :
    Scanned source buffer pos cap ⟨0, 0, buffer, pos + 1, (cap : ℤ) - pos - 1⟩ 0 where
  header i := by
    rw [Nat.zero_testBit]
    exact (decide_eq_false fun h ↦ Nat.not_lt_zero i h.1).symm
  notzero := rfl
  sz := by push_cast; omega
  place := Nat.lt_succ_self pos
  bytes _ := ⟨rfl, holds_nil _ _⟩
  frame _ _ := rfl

theorem testBit_or_bit (header count i : ℕ) :
    (header ||| 1 <<< count).testBit i = (header.testBit i || decide (count = i)) := by
  rw [Nat.testBit_or, Nat.one_shiftLeft, Nat.testBit_two_pow]

theorem scanned_step {s : PackSeg} {count : ℕ} (h : s.Scanned source buffer pos cap count) :
    (s.step source count).Scanned source buffer pos cap (count + 1) := by
  have hplace := h.place
  have hsz := h.sz
  by_cases hbyte : source count ≠ 0
  · have hnonzeros :
        nonzeros source (List.range (count + 1)) = nonzeros source (List.range count) ++ [source count] := by
      rw [List.range_succ, nonzeros_append, nonzeros_cons hbyte]
      rfl
    have hheader : ∀ i, (s.header ||| 1 <<< count).testBit i = decide (i < count + 1 ∧ source i ≠ 0) := by
      intro i
      rw [testBit_or_bit, h.header, ← Bool.decide_or, decide_eq_decide]
      constructor
      · rintro (⟨hlt, hi⟩ | rfl)
        · exact ⟨Nat.lt_succ_of_lt hlt, hi⟩
        · exact ⟨Nat.lt_succ_self _, hbyte⟩
      · rintro ⟨hlt, hi⟩
        exact (Nat.lt_succ_iff_lt_or_eq.mp hlt).imp (fun hlt ↦ ⟨hlt, hi⟩) Eq.symm
    have hnotzero : s.notzero + 1 = (nonzeros source (List.range (count + 1))).length := by
      rw [hnonzeros, h.notzero, List.length_append]
      rfl
    unfold step
    rw [if_pos hbyte]
    by_cases hroom : 0 < s.sz
    · simp only [if_pos hroom]
      refine ⟨hheader, hnotzero, ?_, Nat.lt_succ_of_lt hplace, fun hle ↦ ?_, fun p hp ↦ ?_⟩
      · push_cast
        omega
      · change pos + 1 + (s.notzero + 1) ≤ cap at hle
        obtain ⟨hpos, hholds⟩ := h.bytes (by omega)
        refine ⟨congrArg (· + 1) hpos, ?_⟩
        rw [hnonzeros, holds_append, ← h.notzero, ← hpos, holds_singleton]
        refine ⟨hholds.congr fun p _ hp ↦ Function.update_of_ne ?_ _ _, Function.update_self ..⟩
        rw [← h.notzero, ← hpos] at hp
        exact Nat.ne_of_lt hp
      · exact (Function.update_of_ne (by omega) _ _).trans (h.frame p hp)
    · simp only [if_neg hroom]
      refine ⟨hheader, hnotzero, hsz, hplace, fun hle ↦ ?_, h.frame⟩
      change pos + 1 + (s.notzero + 1) ≤ cap at hle
      have hpos := (h.bytes (by omega)).1
      omega
  · have hnonzeros : nonzeros source (List.range (count + 1)) = nonzeros source (List.range count) := by
      rw [List.range_succ, nonzeros_append, nonzeros_cons_zero (not_not.mp hbyte)]
      exact List.append_nil _
    unfold step
    rw [if_neg hbyte]
    refine ⟨fun i ↦ ?_, hnonzeros ▸ h.notzero, hsz, hplace, hnonzeros ▸ h.bytes, h.frame⟩
    rw [h.header, decide_eq_decide]
    refine ⟨fun hi ↦ ⟨Nat.lt_succ_of_lt hi.1, hi.2⟩, fun hi ↦ ⟨Nat.lt_of_le_of_ne (Nat.le_of_lt_succ hi.1) ?_, hi.2⟩⟩
    rintro rfl
    exact hbyte hi.2

theorem scanned (source buffer : Memory) (pos cap count : ℕ) :
    ((List.range count).foldl (step source) ⟨0, 0, buffer, pos + 1, (cap : ℤ) - pos - 1⟩).Scanned
      source buffer pos cap count := by
  induction count with
  | zero => exact scanned_init source buffer pos cap
  | succ count ih =>
    rw [List.range_succ, List.foldl_append]
    exact scanned_step ih

end PackSeg

/-! ### The two results of `pack_seg` -/

/-- Whether `pack_seg` takes a segment to a run, which begins with it or has some segments already. -/
def Full (source : Memory) (n : ℕ) : Prop :=
  (nonzeros source (List.range 8)).length = 8 ∨ 0 < n ∧ 6 ≤ (nonzeros source (List.range 8)).length

instance (source : Memory) (n : ℕ) : Decidable (Full source n) := by
  unfold Full
  infer_instance

theorem packSeg_full {n : ℕ} (h : Full source n) (buffer : Memory) (pos cap : ℕ) :
    (packSeg source buffer pos ((cap : ℤ) - pos) n).1 = (if 0 < n then 8 else 10) ∧
      ∀ p, p < pos ∨ cap ≤ p → (packSeg source buffer pos ((cap : ℤ) - pos) n).2 p = buffer p := by
  have hscanned := PackSeg.scanned source buffer pos cap 8
  have hle : (nonzeros source (List.range 8)).length ≤ 8 := length_nonzeros_le source (List.range 8)
  rw [← hscanned.notzero] at hle
  unfold Full at h
  rw [← hscanned.notzero] at h
  unfold packSeg
  simp only
  have hnotzero : ∀ count : ℕ, count ≤ 8 → (count = 8 ∨ 0 < n ∧ 6 ≤ count) →
      (if (count = 7 ∨ count = 6) ∧ 0 < n then 8 else count) = 8 := by
    intro count hle hcount
    split <;> omega
  rw [if_pos (hnotzero _ hle h)]
  exact ⟨rfl, fun p hp ↦ hscanned.frame p (hp.imp_left Nat.le_of_lt)⟩

/-- What a header stands for if its bits say which bytes are not zero. -/
theorem expand_nonzeros {header : UInt8} {bits : List ℕ}
    (h : ∀ i ∈ bits, header.toNat.testBit i = decide (source i ≠ 0)) :
    expand header bits (nonzeros source bits) = bits.map source ∧
      (nonzeros source bits).length = needed header bits := by
  induction bits with
  | nil => exact ⟨rfl, rfl⟩
  | cons i bits ih =>
    obtain ⟨hi, hbits⟩ := List.forall_mem_cons.mp h
    obtain ⟨hexpand, hneeded⟩ := ih hbits
    rw [expand, needed_cons, List.map_cons, hi]
    by_cases hbyte : source i ≠ 0
    · rw [nonzeros_cons hbyte, if_pos (decide_eq_true hbyte), if_pos (decide_eq_true hbyte), List.headD_cons,
        List.tail_cons, hexpand, List.length_cons, hneeded]
      exact ⟨rfl, rfl⟩
    · rw [nonzeros_cons_zero (not_not.mp hbyte), if_neg (fun h ↦ hbyte (of_decide_eq_true h)),
        if_neg (fun h ↦ hbyte (of_decide_eq_true h)), hexpand, hneeded, not_not.mp hbyte]
      exact ⟨rfl, rfl⟩

/-- A header of eight bits is a chunk with the bytes that are not zero, if there is a zero. -/
theorem sparse_nonzeros {header : ℕ} (hheader : ∀ i, header.testBit i = decide (i < 8 ∧ source i ≠ 0))
    (hzero : (nonzeros source (List.range 8)).length ≠ 8) :
    (Chunk.sparse (UInt8.ofNat header) (nonzeros source (List.range 8))).Valid ∧
      (Chunk.sparse (UInt8.ofNat header) (nonzeros source (List.range 8))).data = region source 0 8 := by
  have hlt : header < 2 ^ 8 := Nat.lt_pow_two_of_testBit _ fun i hi ↦
    (hheader i).trans (decide_eq_false fun h ↦ Nat.not_le_of_lt h.1 hi)
  have hto : (UInt8.ofNat header).toNat = header := UInt8.toNat_ofNat_of_lt' hlt
  have hbits : ∀ i ∈ List.range 8, (UInt8.ofNat header).toNat.testBit i = decide (source i ≠ 0) := by
    intro i hi
    rw [hto, hheader, decide_eq_decide]
    exact and_iff_right (List.mem_range.mp hi)
  obtain ⟨hexpand, hneeded⟩ := expand_nonzeros hbits
  refine ⟨⟨fun h ↦ ?_, hneeded⟩, hexpand.trans (region_zero source 8).symm⟩
  obtain ⟨i, hi, hbyte⟩ : ∃ i ∈ List.range 8, source i = 0 := by
    by_contra hnone
    exact hzero (length_nonzeros.mpr fun i hi hbyte ↦ hnone ⟨i, hi, hbyte⟩)
  have hbit := hheader i
  rw [← hto, h, decide_eq_false fun h ↦ h.2 hbyte] at hbit
  have hones : ∀ i < 8, (0xff : UInt8).toNat.testBit i = true := by decide
  exact Bool.noConfusion ((hones i (List.mem_range.mp hi)).symm.trans hbit)

theorem packSeg_sparse {n : ℕ} (h : ¬Full source n) (buffer : Memory) (pos cap : ℕ) :
    (packSeg source buffer pos ((cap : ℤ) - pos) n).1 = (nonzeros source (List.range 8)).length + 1 ∧
      (∀ p, p < pos ∨ cap ≤ p → (packSeg source buffer pos ((cap : ℤ) - pos) n).2 p = buffer p) ∧
        ∃ chunk : Chunk, chunk.Valid ∧ chunk.data = region source 0 8 ∧
          chunk.encode.length = (nonzeros source (List.range 8)).length + 1 ∧
            (pos + chunk.encode.length ≤ cap →
              Holds (packSeg source buffer pos ((cap : ℤ) - pos) n).2 pos chunk.encode) := by
  have hscanned := PackSeg.scanned source buffer pos cap 8
  have hle : (nonzeros source (List.range 8)).length ≤ 8 := length_nonzeros_le source (List.range 8)
  have hnotzero : ∀ count : ℕ, count ≤ 8 → ¬(count = 8 ∨ 0 < n ∧ 6 ≤ count) →
      (if (count = 7 ∨ count = 6) ∧ 0 < n then 8 else count) = count ∧ count ≠ 8 := by
    intro count hle hcount
    split <;> omega
  obtain ⟨hcount, hne⟩ := hnotzero _ hle h
  obtain ⟨hvalid, hdata⟩ := sparse_nonzeros hscanned.header hne
  have hresult : packSeg source buffer pos ((cap : ℤ) - pos) n = ((nonzeros source (List.range 8)).length + 1,
      let s := (List.range 8).foldl (PackSeg.step source) ⟨0, 0, buffer, pos + 1, (cap : ℤ) - pos - 1⟩
      if 0 ≤ (cap : ℤ) - pos - 1 then Function.update s.buffer pos (UInt8.ofNat s.header) else s.buffer) := by
    unfold packSeg
    simp only
    rw [hscanned.notzero, hcount, if_neg hne]
  rw [hresult]
  refine ⟨rfl, fun p hp ↦ ?_, _, hvalid, hdata, rfl, fun hroom ↦ ?_⟩
  · have hframe := hscanned.frame p (hp.imp_left Nat.le_of_lt)
    simp only
    split
    · exact (Function.update_of_ne (by omega) _ _).trans hframe
    · exact hframe
  · change pos + ((nonzeros source (List.range 8)).length + 1) ≤ cap at hroom
    simp only
    rw [if_pos (by omega)]
    refine holds_cons.mpr ⟨Function.update_self .., ?_⟩
    have hbytes := (hscanned.bytes (by rw [hscanned.notzero]; omega)).2
    exact hbytes.congr fun p hp _ ↦ Function.update_of_ne (by omega) _ _

/-! ### A run -/

/-- `write_ff` writes a run, filled up with zeros to whole segments. -/
theorem holds_writeFf (source buffer : Memory) (des : ℕ) {n segments : ℕ} (hsegments : (n + 7) / 8 = segments + 1) :
    Holds (writeFf source des n buffer) des
        (Chunk.full (region (fun i ↦ if i < n then source i else 0) 0 ((segments + 1) * 8))).encode ∧
      ∀ p, p < des ∨ des + 2 + (segments + 1) * 8 ≤ p → writeFf source des n buffer p = buffer p := by
  have hle : n ≤ (segments + 1) * 8 := by omega
  unfold writeFf
  simp only [hsegments]
  refine ⟨holds_cons.mpr ⟨if_pos rfl, holds_cons.mpr ⟨?_, holds_region.mpr fun i hi ↦ ?_⟩⟩, fun p hp ↦ ?_⟩
  · rw [if_neg (Nat.succ_ne_self des), if_pos rfl, length_region, Nat.mul_div_cancel _ (by decide)]
  · rw [if_neg (by omega), if_neg (by omega), Nat.zero_add]
    by_cases hlt : i < n
    · rw [if_pos (by omega), if_pos hlt]
      exact congrArg source (by omega)
    · rw [if_neg (by omega), if_pos (by omega), if_neg hlt]
  · rw [if_neg (by omega), if_neg (by omega), if_neg (by omega), if_neg (by omega)]

theorem region_valid (memory : Memory) (place : ℕ) {n : ℕ} (hpos : 0 < n) (hlt : n ≤ 256) :
    (Chunk.full (region memory place (8 * n))).Valid :=
  ⟨n - 1, by omega, by rw [length_region]; omega⟩

/-- A run is written behind some chunks. What it takes from the source, and fills up with zeros, may be given by
another memory. -/
theorem holds_run {src view : Memory} {done : List Chunk} {start n segments : ℕ}
    (hholds : Holds buffer 0 (encode done)) (hpos : 0 < segments) (hsegments : (n + 7) / 8 = segments)
    (hview : ∀ i, i < 8 * segments → (if i < n then src (start + i) else 0) = view (start + i)) :
    Holds (writeFf (sourceFrom src start) (encode done).length n buffer) 0
        (encode (done ++ [.full (region view start (8 * segments))])) ∧
      ∀ p, p < (encode done).length ∨ (encode done).length + 2 + 8 * segments ≤ p →
        writeFf (sourceFrom src start) (encode done).length n buffer p = buffer p := by
  obtain ⟨segments, rfl⟩ := Nat.exists_eq_add_one_of_ne_zero (Nat.pos_iff_ne_zero.mp hpos)
  obtain ⟨hrun, hframe⟩ := holds_writeFf (sourceFrom src start) buffer (encode done).length hsegments
  rw [Nat.mul_comm (segments + 1) 8] at hrun hframe
  refine ⟨?_, hframe⟩
  have hregion : region (fun i ↦ if i < n then sourceFrom src start i else 0) 0 (8 * (segments + 1)) =
      region view start (8 * (segments + 1)) := by
    refine List.map_congr_left fun i hi ↦ ?_
    rw [Nat.zero_add]
    exact hview i (List.mem_range.mp hi)
  rw [hregion] at hrun
  rw [encode_append, holds_append, Nat.zero_add]
  refine ⟨hholds.congr fun p _ hp ↦ hframe p (.inl ?_), ?_⟩
  · rwa [Nat.zero_add] at hp
  · rw [encode_cons, holds_append]
    exact ⟨hrun, holds_nil _ _⟩

/-- A segment that is filled up has no more bytes than there are. -/
theorem length_nonzeros_segment (src : Memory) (srcsz k : ℕ) :
    (nonzeros (segment src srcsz k) (List.range 8)).length ≤ srcsz - 8 * k := by
  by_cases hle : 8 ≤ srcsz - 8 * k
  · exact (length_nonzeros_le _ _).trans hle
  · have hsplit : List.range 8 =
        List.range (srcsz - 8 * k) ++ (List.range (8 - (srcsz - 8 * k))).map (srcsz - 8 * k + ·) := by
      rw [← List.range_add]
      exact congrArg List.range (by omega)
    have hzeros : nonzeros (segment src srcsz k) ((List.range (8 - (srcsz - 8 * k))).map (srcsz - 8 * k + ·)) = [] := by
      refine List.filter_eq_nil_iff.mpr fun byte hbyte h ↦ of_decide_eq_true h ?_
      obtain ⟨i, hi, rfl⟩ := List.mem_map.mp hbyte
      obtain ⟨j, _, rfl⟩ := List.mem_map.mp hi
      exact if_neg (by omega)
    rw [hsplit, nonzeros_append, hzeros, List.append_nil]
    exact (length_nonzeros_le _ _).trans (le_of_eq List.length_range)

end SvrDemo.Sproto
