import SvrDemo.Sproto.Segment

/-!
# What is packed is unpacked

`sproto_pack` has packed some segments of the source to a stream, and has some more in a run that is not written yet
(`Packed`). This is kept by a segment (`Packed.step`) up to the last one: where this is filled up and the 256th of its
run, `write_ff` copies what lies behind the source in place of the zeros.
-/

set_option autoImplicit false
set_option relaxedAutoImplicit false

namespace SvrDemo.Sproto

open Base Protocol

/-! ### The turns of `sproto_pack` -/

namespace Packing

variable {s : Packing} {src buffer : Memory} {srcsz k n : ℕ}

/-- A run begins. -/
theorem step_first (hseg : packSeg (segment src srcsz k) s.buffer s.pos s.bufsz s.ffN = (10, buffer)) :
    s.step src srcsz k = ⟨buffer, s.pos + 10, s.bufsz - 10, 8 * k, s.pos, 1, s.size + 10⟩ := by
  unfold step
  rw [hseg]
  rfl

/-- A run goes on. -/
theorem step_next (hseg : packSeg (segment src srcsz k) s.buffer s.pos s.bufsz s.ffN = (8, buffer))
    (hrun : 0 < s.ffN) (hne : s.ffN + 1 ≠ 256) :
    s.step src srcsz k = ⟨buffer, s.pos + 8, s.bufsz - 8, s.ffSrcstart, s.ffDesstart, s.ffN + 1, s.size + 8⟩ := by
  unfold step
  rw [hseg]
  simp only [if_neg (show ¬8 = 10 by decide), if_pos (And.intro trivial hrun), if_neg hne]
  rfl

/-- A run ends with its 256th segment. -/
theorem step_last (hseg : packSeg (segment src srcsz k) s.buffer s.pos s.bufsz s.ffN = (8, buffer))
    (hrun : s.ffN + 1 = 256) :
    s.step src srcsz k =
      ⟨if 0 ≤ s.bufsz - 8 then writeFf (sourceFrom src s.ffSrcstart) s.ffDesstart (256 * 8) buffer else buffer,
        s.pos + 8, s.bufsz - 8, s.ffSrcstart, s.ffDesstart, 0, s.size + 8⟩ := by
  have hpos : 0 < s.ffN := by omega
  unfold step
  rw [hseg]
  simp only [if_neg (show ¬8 = 10 by decide), if_pos (And.intro trivial hpos), if_pos hrun]
  rfl

/-- A segment that is written with a header, behind the run if there is one. -/
theorem step_header (hseg : packSeg (segment src srcsz k) s.buffer s.pos s.bufsz s.ffN = (n, buffer)) (hn : n < 9)
    (hrun : 0 < s.ffN → n < 8) :
    s.step src srcsz k =
      ⟨if 0 < s.ffN ∧ 0 ≤ s.bufsz - n then writeFf (sourceFrom src s.ffSrcstart) s.ffDesstart (s.ffN * 8) buffer
        else buffer,
        s.pos + n, s.bufsz - n, s.ffSrcstart, s.ffDesstart, 0, s.size + n⟩ := by
  unfold step
  rw [hseg]
  by_cases hpos : 0 < s.ffN
  · have hlt := hrun hpos
    simp only [if_neg (show ¬n = 10 by omega), Nat.ne_of_lt hlt, hpos, false_and, true_and, if_false, if_true]
  · have hzero : s.ffN = 0 := Nat.eq_zero_of_not_pos hpos
    simp only [if_neg (show ¬n = 10 by omega), hzero, Nat.lt_irrefl, and_false, false_and, if_false]

end Packing

/-! ### What is packed -/

/-- Some segments have been packed: the finished chunks have the data of all but those in the run, as far as there is
room for them, and the memory behind the buffer is as it was. -/
structure Packed (view : Memory) (cap : ℕ) (base : Memory) (s : Packing) (k : ℕ) (done : List Chunk) : Prop where
  valid : ∀ chunk ∈ done, chunk.Valid
  bufsz : s.bufsz = cap - s.pos
  size : s.size = s.pos
  run : s.ffN < 256
  place : s.ffN ≤ k
  pos : s.pos = (encode done).length + if 0 < s.ffN then 2 + 8 * s.ffN else 0
  start : 0 < s.ffN → s.ffDesstart = (encode done).length ∧ s.ffSrcstart = 8 * (k - s.ffN)
  whole : 0 < s.ffN → ∀ j, j < 8 → view (s.ffSrcstart + j) ≠ 0
  content : content done = region view 0 (8 * (k - s.ffN))
  holds : s.pos ≤ cap → Holds s.buffer 0 (encode done)
  beyond : ∀ p, cap ≤ p → s.buffer p = base p
  bound : ∃ runs, 256 * runs + s.ffN ≤ k ∧ (encode done).length ≤ 8 * (k - s.ffN) + 2 * runs

/-- The source, filled up with zeros. -/
def filled (src : Memory) (srcsz : ℕ) : Memory := fun i ↦ if i < srcsz then src i else 0

theorem filled_of_lt (src : Memory) {srcsz i : ℕ} (h : i < srcsz) : filled src srcsz i = src i := if_pos h

/-- The chunks with the run as one of them. -/
def closed (view : Memory) (s : Packing) (done : List Chunk) : List Chunk :=
  if 0 < s.ffN then done ++ [.full (region view s.ffSrcstart (8 * s.ffN))] else done

theorem packed_init (view : Memory) (cap : ℕ) (base : Memory) :
    Packed view cap base ⟨base, 0, cap, 0, 0, 0, 0⟩ 0 [] where
  valid _ h := absurd h List.not_mem_nil
  bufsz := (Int.sub_zero _).symm
  size := rfl
  run := Nat.zero_lt_succ 255
  place := le_refl 0
  pos := rfl
  start h := absurd h (Nat.lt_irrefl 0)
  whole h := absurd h (Nat.lt_irrefl 0)
  content := rfl
  holds _ := holds_nil _ _
  beyond _ _ := rfl
  bound := ⟨0, le_refl 0, le_refl 0⟩

namespace Packed

variable {view view' base src : Memory} {cap k srcsz : ℕ} {s : Packing} {done : List Chunk}

/-! ### The run -/

/-- A run that is finished has the data of its segments. -/
theorem content_run (h : Packed view cap base s k done) (hrun : 0 < s.ffN)
    (hview : ∀ i, i < 8 * (k - s.ffN) → view' i = view i) (segments : ℕ) :
    Sproto.content (done ++ [.full (region view' s.ffSrcstart (8 * segments))]) =
      region view' 0 (8 * (k - s.ffN + segments)) := by
  have hregion : region view 0 (8 * (k - s.ffN)) = region view' 0 (8 * (k - s.ffN)) := by
    rw [region_zero, region_zero]
    exact List.map_congr_left fun i hi ↦ (hview i (List.mem_range.mp hi)).symm
  rw [content_append, h.content, hregion, (h.start hrun).2, Nat.mul_add, region_add, Nat.zero_add]
  exact congrArg _ (List.append_nil _)

theorem valid_append {last : Chunk} (h : ∀ chunk ∈ done, chunk.Valid) (hlast : last.Valid) :
    ∀ chunk ∈ done ++ [last], chunk.Valid :=
  List.forall_mem_append.mpr ⟨h, List.forall_mem_singleton.mpr hlast⟩

theorem length_encode_run (done : List Chunk) (view : Memory) (start segments : ℕ) :
    (encode (done ++ [.full (region view start (8 * segments))])).length =
      (encode done).length + (2 + 8 * segments) := by
  rw [encode_append, List.length_append]
  change _ + ((region view start (8 * segments)) ++ []).length.succ.succ = _
  rw [List.append_nil, length_region]
  omega

/-- A run is written behind the finished chunks. -/
theorem holds_run (h : Packed view cap base s k done) (src view' : Memory) (hrun : 0 < s.ffN) (hroom : s.pos ≤ cap)
    {buffer : Memory} (hsame : ∀ p, p < s.pos → buffer p = s.buffer p) {n segments : ℕ} (hpos : 0 < segments)
    (hsegments : (n + 7) / 8 = segments)
    (hsrc : ∀ i, i < 8 * segments → (if i < n then src (s.ffSrcstart + i) else 0) = view' (s.ffSrcstart + i)) :
    Holds (writeFf (sourceFrom src s.ffSrcstart) s.ffDesstart n buffer) 0
        (encode (done ++ [.full (region view' s.ffSrcstart (8 * segments))])) ∧
      ∀ p, s.ffDesstart + 2 + 8 * segments ≤ p →
        writeFf (sourceFrom src s.ffSrcstart) s.ffDesstart n buffer p = buffer p := by
  have hplace := h.pos
  have hholds : Holds buffer 0 (encode done) :=
    (h.holds hroom).congr fun p _ hp ↦ hsame p (by omega)
  rw [(h.start hrun).1]
  obtain ⟨hwritten, hframe⟩ := Sproto.holds_run hholds hpos hsegments hsrc
  exact ⟨hwritten, fun p hp ↦ hframe p (.inr hp)⟩

theorem valid_closed (h : Packed view cap base s k done) : ∀ chunk ∈ closed view s done, chunk.Valid := by
  unfold closed
  split
  · next hrun => exact valid_append h.valid (region_valid _ _ hrun (Nat.le_of_lt h.run))
  · exact h.valid

theorem content_closed (h : Packed view cap base s k done) :
    Sproto.content (closed view s done) = region view 0 (8 * k) := by
  unfold closed
  by_cases hrun : 0 < s.ffN
  · rw [if_pos hrun, h.content_run hrun (fun _ _ ↦ rfl), Nat.sub_add_cancel h.place]
  · rw [if_neg hrun, h.content, Nat.eq_zero_of_not_pos hrun, Nat.sub_zero]

theorem length_encode_closed (h : Packed view cap base s k done) : (encode (closed view s done)).length = s.pos := by
  have hpos := h.pos
  unfold closed
  by_cases hrun : 0 < s.ffN
  · rw [if_pos hrun, length_encode_run]
    rw [if_pos hrun] at hpos
    exact hpos.symm
  · rw [if_neg hrun] at hpos ⊢
    exact hpos.symm

theorem bound_pos (h : Packed view cap base s k done) :
    ∃ runs, 256 * runs + s.ffN ≤ k ∧ s.pos ≤ 8 * k + 2 * runs + if 0 < s.ffN then 2 else 0 := by
  obtain ⟨runs, hruns, hlength⟩ := h.bound
  have hpos := h.pos
  have hplace := h.place
  refine ⟨runs, hruns, ?_⟩
  by_cases hrun : 0 < s.ffN
  · rw [if_pos hrun] at hpos ⊢
    omega
  · rw [if_neg hrun] at hpos ⊢
    omega

/-- What `write_ff` makes of the run, if there is one. -/
theorem holds_closed (h : Packed view cap base s k done) (src : Memory) (hroom : s.pos ≤ cap) {buffer : Memory}
    (hsame : ∀ p, p < s.pos → buffer p = s.buffer p) {n : ℕ} (hsegments : 0 < s.ffN → (n + 7) / 8 = s.ffN)
    (hsrc : ∀ i, i < 8 * s.ffN → (if i < n then src (s.ffSrcstart + i) else 0) = view (s.ffSrcstart + i)) :
    Holds (if 0 < s.ffN then writeFf (sourceFrom src s.ffSrcstart) s.ffDesstart n buffer else buffer) 0
        (encode (closed view s done)) ∧
      ∀ p, s.pos ≤ p →
        (if 0 < s.ffN then writeFf (sourceFrom src s.ffSrcstart) s.ffDesstart n buffer else buffer) p = buffer p := by
  have hpos := h.pos
  unfold closed
  by_cases hrun : 0 < s.ffN
  · simp only [if_pos hrun] at hpos ⊢
    obtain ⟨hwritten, hframe⟩ := h.holds_run src view hrun hroom hsame hrun (hsegments hrun) hsrc
    have hstart := (h.start hrun).1
    exact ⟨hwritten, fun p hp ↦ hframe p (by omega)⟩
  · simp only [if_neg hrun] at hpos ⊢
    exact ⟨(h.holds hroom).congr fun p _ hp ↦ hsame p (by omega), fun _ _ ↦ trivial⟩

/-! ### The cases of a turn -/

/-- The result of `pack_seg` for a segment of a run. -/
theorem exists_full (h : Packed view cap base s k done) (hfull : Full (segment src srcsz k) s.ffN) :
    ∃ buffer, packSeg (segment src srcsz k) s.buffer s.pos s.bufsz s.ffN = (if 0 < s.ffN then 8 else 10, buffer) ∧
      ∀ p, p < s.pos ∨ cap ≤ p → buffer p = s.buffer p := by
  obtain ⟨hn, hframe⟩ := packSeg_full hfull s.buffer s.pos cap
  rw [h.bufsz]
  exact ⟨_, Prod.ext hn rfl, hframe⟩

theorem first (h : Packed (filled src srcsz) cap base s k done) (hfull : Full (segment src srcsz k) s.ffN)
    (hrun : s.ffN = 0) :
    Packed (filled src srcsz) cap base (s.step src srcsz k) (k + 1) done ∧ (s.step src srcsz k).pos = s.pos + 10 := by
  have hwhole : (nonzeros (segment src srcsz k) (List.range 8)).length = 8 :=
    hfull.resolve_right fun h ↦ Nat.ne_of_gt h.1 hrun
  obtain ⟨buffer, hseg, hframe⟩ := h.exists_full hfull
  rw [if_neg (by omega)] at hseg
  have hpos := h.pos
  rw [if_neg (by omega), Nat.add_zero] at hpos
  have hbufsz := h.bufsz
  have hcontent := h.content
  rw [hrun] at hcontent
  rw [Packing.step_first hseg]
  refine ⟨⟨h.valid, ?_, ?_, Nat.succ_lt_succ (Nat.zero_lt_succ 254), Nat.succ_le_succ (Nat.zero_le k), ?_,
    fun _ ↦ ⟨hpos, rfl⟩, fun _ j hj ↦ length_nonzeros.mp hwhole j (List.mem_range.mpr hj), hcontent, fun hroom ↦ ?_,
    fun p hp ↦ (hframe p (.inr hp)).trans (h.beyond p hp), ?_⟩, rfl⟩
  · push_cast
    omega
  · exact congrArg (· + 10) h.size
  · exact congrArg (· + 10) hpos
  · change s.pos + 10 ≤ cap at hroom
    exact (h.holds (by omega)).congr fun p _ hp ↦ hframe p (.inl (by omega))
  · obtain ⟨runs, hruns, hlength⟩ := h.bound
    rw [hrun] at hruns hlength
    exact ⟨runs, Nat.succ_le_succ hruns, hlength⟩

theorem next (h : Packed view cap base s k done) (hfull : Full (segment src srcsz k) s.ffN) (hrun : 0 < s.ffN)
    (hne : s.ffN + 1 ≠ 256) :
    Packed view cap base (s.step src srcsz k) (k + 1) done ∧ (s.step src srcsz k).pos = s.pos + 8 := by
  obtain ⟨buffer, hseg, hframe⟩ := h.exists_full hfull
  rw [if_pos hrun] at hseg
  have hpos := h.pos
  rw [if_pos hrun] at hpos
  have hbufsz := h.bufsz
  have hlt := h.run
  have hplace := h.place
  have hsub : k + 1 - (s.ffN + 1) = k - s.ffN := Nat.add_sub_add_right k 1 s.ffN
  rw [Packing.step_next hseg hrun hne]
  refine ⟨⟨h.valid, ?_, congrArg (· + 8) h.size, ?_, Nat.succ_le_succ hplace, ?_, fun _ ↦ ?_, fun _ ↦ h.whole hrun,
    ?_, fun hroom ↦ ?_, fun p hp ↦ (hframe p (.inr hp)).trans (h.beyond p hp), ?_⟩, rfl⟩
  · push_cast
    omega
  · change s.ffN + 1 < 256
    omega
  · change s.pos + 8 = _ + if 0 < s.ffN + 1 then 2 + 8 * (s.ffN + 1) else 0
    rw [if_pos (Nat.succ_pos _)]
    omega
  · change s.ffDesstart = _ ∧ s.ffSrcstart = 8 * (k + 1 - (s.ffN + 1))
    rw [hsub]
    exact h.start hrun
  · change _ = region view 0 (8 * (k + 1 - (s.ffN + 1)))
    rw [hsub]
    exact h.content
  · change s.pos + 8 ≤ cap at hroom
    exact (h.holds (by omega)).congr fun p _ hp ↦ hframe p (.inl (by omega))
  · obtain ⟨runs, hruns, hlength⟩ := h.bound
    refine ⟨runs, ?_, ?_⟩
    · change 256 * runs + (s.ffN + 1) ≤ k + 1
      omega
    · change _ ≤ 8 * (k + 1 - (s.ffN + 1)) + 2 * runs
      rw [hsub]
      exact hlength

/-- The 256th segment of a run. Its run is copied from the source. -/
theorem last (h : Packed view cap base s k done) (view' : Memory) (hfull : Full (segment src srcsz k) s.ffN)
    (hrun : s.ffN + 1 = 256) (hview : ∀ i, i < 8 * (k - s.ffN) → view' i = view i)
    (hsrc : ∀ i, i < 8 * (s.ffN + 1) → src (s.ffSrcstart + i) = view' (s.ffSrcstart + i)) :
    Packed view' cap base (s.step src srcsz k) (k + 1)
        (done ++ [.full (region view' s.ffSrcstart (8 * (s.ffN + 1)))]) ∧
      (s.step src srcsz k).pos = s.pos + 8 ∧ (s.step src srcsz k).ffN = 0 := by
  have hpos : 0 < s.ffN := by omega
  obtain ⟨buffer, hseg, hframe⟩ := h.exists_full hfull
  rw [if_pos hpos] at hseg
  have hplace := h.pos
  rw [if_pos hpos] at hplace
  have hbufsz := h.bufsz
  have hle := h.place
  have hcontent := h.content_run hpos hview (s.ffN + 1)
  have hwrite (hroom : s.pos ≤ cap) := h.holds_run src view' (n := 256 * 8) hpos hroom (fun p hp ↦ hframe p (.inl hp))
    (Nat.succ_pos s.ffN) (by omega) fun i hi ↦ (if_pos (by omega)).trans (hsrc i hi)
  rw [Packing.step_last hseg hrun]
  refine ⟨⟨valid_append h.valid (region_valid _ _ (Nat.succ_pos _) (by omega)), ?_, congrArg (· + 8) h.size,
    Nat.zero_lt_succ 255, Nat.zero_le _, ?_, fun h ↦ absurd h (Nat.lt_irrefl 0),
    fun h ↦ absurd h (Nat.lt_irrefl 0), ?_, fun hroom ↦ ?_, fun p hp ↦ ?_, ?_⟩, rfl, rfl⟩
  · push_cast
    omega
  · rw [length_encode_run]
    change s.pos + 8 = _
    rw [if_neg (Nat.lt_irrefl 0)]
    omega
  · rw [hcontent]
    change _ = region view' 0 (8 * (k + 1 - 0))
    exact congrArg (region view' 0) (by omega)
  · change s.pos + 8 ≤ cap at hroom
    simp only
    rw [if_pos (by omega)]
    exact (hwrite (by omega)).1
  · have hbeyond := (hframe p (.inr hp)).trans (h.beyond p hp)
    have hstart := (h.start hpos).1
    simp only
    by_cases hroom : 0 ≤ s.bufsz - 8
    · rw [if_pos hroom]
      exact ((hwrite (by omega)).2 p (by omega)).trans hbeyond
    · rw [if_neg hroom]
      exact hbeyond
  · obtain ⟨runs, hruns, hlength⟩ := h.bound
    refine ⟨runs + 1, ?_, ?_⟩
    · change 256 * (runs + 1) + 0 ≤ k + 1
      omega
    · rw [length_encode_run]
      change _ ≤ 8 * (k + 1 - 0) + 2 * (runs + 1)
      omega

/-- The result of `pack_seg` for a segment that is written with a header. -/
theorem exists_header (h : Packed view cap base s k done) (hfull : ¬Full (segment src srcsz k) s.ffN) :
    ∃ n buffer, packSeg (segment src srcsz k) s.buffer s.pos s.bufsz s.ffN = (n, buffer) ∧
      n = (nonzeros (segment src srcsz k) (List.range 8)).length + 1 ∧
        (∀ p, p < s.pos ∨ cap ≤ p → buffer p = s.buffer p) ∧
          ∃ chunk : Chunk, chunk.Valid ∧ chunk.data = region (segment src srcsz k) 0 8 ∧ chunk.encode.length = n ∧
            (s.pos + n ≤ cap → Holds buffer s.pos chunk.encode) := by
  obtain ⟨hn, hframe, chunk, hvalid, hdata, hencode, hholds⟩ :=
    packSeg_sparse hfull s.buffer s.pos cap
  rw [h.bufsz]
  exact ⟨_, _, Prod.ext hn rfl, rfl, hframe, chunk, hvalid, hdata, hencode, hencode ▸ hholds⟩

theorem header (h : Packed (filled src srcsz) cap base s k done) (hfull : ¬Full (segment src srcsz k) s.ffN)
    (hk : 8 * k < srcsz) :
    ∃ done', Packed (filled src srcsz) cap base (s.step src srcsz k) (k + 1) done' ∧
      (s.step src srcsz k).pos ≤ s.pos + (srcsz - 8 * k) + 1 := by
  obtain ⟨n, buffer, hseg, hn, hframe, chunk, hvalid, hdata, hencode, hchunk⟩ := h.exists_header hfull
  have hle := length_nonzeros_segment src srcsz k
  have h8 : (nonzeros (segment src srcsz k) (List.range 8)).length ≤ 8 := length_nonzeros_le _ _
  rw [Full, not_or] at hfull
  rw [Packing.step_header hseg (by omega) fun hrun ↦ by omega]
  have hbufsz := h.bufsz
  have hlength : (encode (closed (filled src srcsz) s done ++ [chunk])).length = s.pos + n := by
    rw [encode_append, List.length_append, h.length_encode_closed, ← hencode]
    exact congrArg (s.pos + ·) (congrArg List.length (List.append_nil _))
  have hwrite (hroom : s.pos ≤ cap) := h.holds_closed src hroom (fun p hp ↦ hframe p (.inl hp)) (n := s.ffN * 8)
    (fun _ ↦ by omega) fun i hi ↦ by
      rw [if_pos (by omega), filled_of_lt]
      have := h.place
      have := (h.start (by omega)).2
      omega
  refine ⟨closed (filled src srcsz) s done ++ [chunk], ⟨valid_append h.valid_closed hvalid, ?_, congrArg (· + n) h.size,
    Nat.zero_lt_succ 255, Nat.zero_le _, hlength.symm, fun h ↦ absurd h (Nat.lt_irrefl 0),
    fun h ↦ absurd h (Nat.lt_irrefl 0), ?_, fun hroom ↦ ?_, fun p hp ↦ ?_, ?_⟩, ?_⟩
  · push_cast
    omega
  · change _ = region (filled src srcsz) 0 (8 * k + 8)
    rw [content_append, h.content_closed, region_add, Nat.zero_add]
    refine congrArg _ ((List.append_nil _).trans (hdata.trans ?_))
    exact List.map_congr_left fun i _ ↦ by rw [Nat.zero_add]; rfl
  · change s.pos + n ≤ cap at hroom
    obtain ⟨hholds, hsame⟩ := hwrite (by omega)
    have hbuffer : (if 0 < s.ffN ∧ 0 ≤ s.bufsz - n then
        writeFf (sourceFrom src s.ffSrcstart) s.ffDesstart (s.ffN * 8) buffer else buffer) =
          if 0 < s.ffN then writeFf (sourceFrom src s.ffSrcstart) s.ffDesstart (s.ffN * 8) buffer else buffer :=
      if_congr (and_iff_left (by omega)) rfl rfl
    simp only [hbuffer]
    rw [encode_append, holds_append, h.length_encode_closed, Nat.zero_add, encode_cons, holds_append]
    exact ⟨hholds, (hchunk hroom).congr fun p hp _ ↦ hsame p hp, holds_nil _ _⟩
  · have hbeyond := (hframe p (.inr hp)).trans (h.beyond p hp)
    simp only
    by_cases hrun : 0 < s.ffN ∧ 0 ≤ s.bufsz - n
    · have hsame := (hwrite (by omega)).2 p (by omega)
      rw [if_pos hrun.1] at hsame
      rw [if_pos hrun]
      exact hsame.trans hbeyond
    · rw [if_neg hrun]
      exact hbeyond
  · obtain ⟨runs, hruns, hpos⟩ := h.bound_pos
    refine ⟨runs, ?_, ?_⟩
    · change 256 * runs + 0 ≤ k + 1
      omega
    · rw [hlength]
      change s.pos + n ≤ 8 * (k + 1 - 0) + 2 * runs
      split at hpos <;> omega
  · change s.pos + n ≤ _
    omega

/-! ### A turn and a run -/

/-- A turn of `sproto_pack`. After the last segment the run may have what lies behind the source. -/
theorem step (h : Packed (filled src srcsz) cap base s k done) (hk : 8 * k < srcsz) :
    (s.step src srcsz k).pos ≤ srcsz + 2 * ((k + 256) / 256) + 2 ∧ ∃ done',
      Packed (filled src srcsz) cap base (s.step src srcsz k) (k + 1) done' ∨
        Packed src cap base (s.step src srcsz k) (k + 1) done' ∧ (s.step src srcsz k).ffN = 0 ∧ 256 ≤ k + 1 ∧
          srcsz < 8 * (k + 1) ∧ 8 * (k + 1) ≤ srcsz + 2 := by
  obtain ⟨runs, hruns, hpos⟩ := h.bound_pos
  have hle := length_nonzeros_segment src srcsz k
  by_cases hfull : Full (segment src srcsz k) s.ffN
  · by_cases hrun : 0 < s.ffN
    · rw [if_pos hrun] at hpos
      have h6 : 6 ≤ (nonzeros (segment src srcsz k) (List.range 8)).length := by
        rcases hfull with h8 | ⟨_, h6⟩ <;> omega
      by_cases hne : s.ffN + 1 = 256
      · have hplace := h.place
        have hstart := (h.start hrun).2
        by_cases hwhole : 8 * (k + 1) ≤ srcsz
        · obtain ⟨hpacked, hstep, _⟩ := h.last (filled src srcsz) hfull hne (fun _ _ ↦ rfl) fun i hi ↦
            (filled_of_lt src (by omega)).symm
          exact ⟨by omega, _, .inl hpacked⟩
        · obtain ⟨hpacked, hstep, hrun'⟩ := h.last src hfull hne
            (fun i hi ↦ (filled_of_lt src (by omega)).symm) fun _ _ ↦ rfl
          exact ⟨by omega, _, .inr ⟨hpacked, hrun', by omega, by omega, by omega⟩⟩
      · obtain ⟨hpacked, hstep⟩ := h.next hfull hrun hne
        exact ⟨by omega, _, .inl hpacked⟩
    · rw [if_neg hrun] at hpos
      obtain ⟨hpacked, hstep⟩ := h.first hfull (Nat.eq_zero_of_not_pos hrun)
      have h8 := hfull.resolve_right fun h ↦ hrun h.1
      exact ⟨by omega, _, .inl hpacked⟩
  · obtain ⟨done', hpacked, hstep⟩ := h.header hfull hk
    refine ⟨?_, done', .inl hpacked⟩
    split at hpos <;> omega

end Packed

/-- `sproto_pack` before it writes the last run. -/
def packing (src : Memory) (srcsz : ℕ) (base : Memory) (cap k : ℕ) : Packing :=
  (List.range k).foldl (Packing.step src srcsz) ⟨base, 0, cap, 0, 0, 0, 0⟩

/-- The buffer with the last run. -/
def finish (src : Memory) (srcsz : ℕ) (s : Packing) : Memory :=
  if 0 ≤ s.bufsz then
    if s.ffN = 1 then writeFf (sourceFrom src s.ffSrcstart) s.ffDesstart 8 s.buffer
    else if 1 < s.ffN then writeFf (sourceFrom src s.ffSrcstart) s.ffDesstart (srcsz - s.ffSrcstart) s.buffer
    else s.buffer
  else s.buffer

theorem sprotoPack_eq (src : Memory) (srcsz : ℕ) (base : Memory) (cap : ℕ) :
    sprotoPack src srcsz base cap = ((packing src srcsz base cap ((srcsz + 7) / 8)).size,
      finish src srcsz (packing src srcsz base cap ((srcsz + 7) / 8))) := rfl

theorem packing_succ (src : Memory) (srcsz : ℕ) (base : Memory) (cap k : ℕ) :
    packing src srcsz base cap (k + 1) = (packing src srcsz base cap k).step src srcsz k := by
  rw [packing, List.range_succ, List.foldl_append]
  rfl

theorem packed_packing (src : Memory) {srcsz : ℕ} (base : Memory) (cap : ℕ) {k : ℕ} (h : 8 * k ≤ srcsz) :
    ∃ done, Packed (filled src srcsz) cap base (packing src srcsz base cap k) k done := by
  induction k with
  | zero => exact ⟨[], packed_init _ _ _⟩
  | succ k ih =>
    obtain ⟨done, hdone⟩ := ih (by omega)
    rw [packing_succ]
    obtain ⟨_, done', hdone' | ⟨_, _, _, hlt, _⟩⟩ := hdone.step (by omega)
    · exact ⟨done', hdone'⟩
    · exact absurd h (Nat.not_le_of_lt hlt)

/-- What the round trip gives back: the source, filled up with zeros. After a run of 256 segments it may be what lies
behind the source instead of at most two zeros. -/
def Recovers (src : Memory) (srcsz : ℕ) (view : Memory) : Prop :=
  view = filled src srcsz ∨
    view = src ∧ 2048 ≤ 8 * ((srcsz + 7) / 8) ∧ srcsz < 8 * ((srcsz + 7) / 8) ∧ 8 * ((srcsz + 7) / 8) ≤ srcsz + 2

theorem packed_all (src : Memory) (srcsz : ℕ) (base : Memory) (cap : ℕ) :
    (packing src srcsz base cap ((srcsz + 7) / 8)).pos ≤ maxsz srcsz ∧ ∃ view done,
      Packed view cap base (packing src srcsz base cap ((srcsz + 7) / 8)) ((srcsz + 7) / 8) done ∧
        (view = filled src srcsz ∨
          (packing src srcsz base cap ((srcsz + 7) / 8)).ffN = 0 ∧ Recovers src srcsz view) := by
  by_cases hzero : srcsz = 0
  · subst hzero
    exact ⟨Nat.zero_le _, _, [], packed_init _ cap base, .inl rfl⟩
  · obtain ⟨k, hk⟩ : ∃ k, (srcsz + 7) / 8 = k + 1 := ⟨(srcsz + 7) / 8 - 1, by omega⟩
    obtain ⟨done, hdone⟩ := packed_packing src base cap (k := k) (show 8 * k ≤ srcsz by omega)
    obtain ⟨hpos, done', hdone'⟩ := hdone.step (by omega)
    unfold Recovers
    rw [hk, packing_succ]
    refine ⟨hpos.trans ?_, ?_⟩
    · unfold maxsz
      omega
    · rcases hdone' with hdone' | ⟨hdone', hrun, h256, hlt, hle⟩
      · exact ⟨_, done', hdone', .inl rfl⟩
      · exact ⟨src, done', hdone', .inr ⟨hrun, .inr ⟨rfl, by omega, hlt, hle⟩⟩⟩

/-- The last run is written as the other ones are, filled up with zeros. -/
theorem Packed.finish {view base src : Memory} {srcsz cap : ℕ} {s : Packing} {done : List Chunk}
    (h : Packed view cap base s ((srcsz + 7) / 8) done) (hview : 0 < s.ffN → view = filled src srcsz) :
    (∀ p, cap ≤ p → Sproto.finish src srcsz s p = base p) ∧
      (s.pos ≤ cap → Holds (Sproto.finish src srcsz s) 0 (encode (closed view s done))) := by
  have hbufsz := h.bufsz
  by_cases hroom : s.pos ≤ cap
  · have hfinish : Sproto.finish src srcsz s = if 0 < s.ffN then
        writeFf (sourceFrom src s.ffSrcstart) s.ffDesstart (if s.ffN = 1 then 8 else srcsz - s.ffSrcstart) s.buffer
        else s.buffer := by
      unfold Sproto.finish
      rw [if_pos (by omega)]
      by_cases hone : s.ffN = 1
      · rw [if_pos hone, if_pos (by omega), if_pos hone]
      · rw [if_neg hone, if_neg hone]
        exact if_congr (by omega) rfl rfl
    have hsegments (hrun : 0 < s.ffN) : ((if s.ffN = 1 then 8 else srcsz - s.ffSrcstart) + 7) / 8 = s.ffN := by
      have hstart := (h.start hrun).2
      have hplace := h.place
      split <;> omega
    obtain ⟨hholds, hsame⟩ := h.holds_closed src hroom (fun _ _ ↦ rfl) hsegments fun i hi ↦ by
      have hrun : 0 < s.ffN := by omega
      have hstart := (h.start hrun).2
      have hplace := h.place
      have hwhole := h.whole hrun i
      rw [hview hrun] at hwhole ⊢
      unfold filled at hwhole ⊢
      by_cases hone : s.ffN = 1
      · have hlt : s.ffSrcstart + i < srcsz := by
          by_contra hge
          exact hwhole (by omega) (if_neg hge)
        rw [if_pos hone, if_pos (by omega), if_pos hlt]
      · rw [if_neg hone]
        exact if_congr (by omega) rfl rfl
    rw [hfinish]
    exact ⟨fun p hp ↦ (hsame p (by omega)).trans (h.beyond p hp), fun _ ↦ hholds⟩
  · have hfinish : Sproto.finish src srcsz s = s.buffer := if_neg (by omega)
    rw [hfinish]
    exact ⟨h.beyond, fun h ↦ absurd h hroom⟩

theorem Packed.stream {view base src : Memory} (srcsz : ℕ) {cap : ℕ} {s : Packing} {done : List Chunk}
    (h : Packed view cap base s ((srcsz + 7) / 8) done) (hview : 0 < s.ffN → view = filled src srcsz)
    (hroom : s.size ≤ cap) : Stream (Sproto.finish src srcsz s) s.size (closed view s done) where
  valid := h.valid_closed
  holds := (h.finish hview).2 (h.size ▸ hroom)
  fits := .inl (congrArg Nat.cast (h.length_encode_closed.trans h.size.symm))

/-- `sproto_pack` makes a stream of the source. -/
theorem pack_stream (src : Memory) (srcsz : ℕ) (base : Memory) (cap : ℕ) :
    (sprotoPack src srcsz base cap).1 ≤ maxsz srcsz ∧ (∀ p, cap ≤ p → (sprotoPack src srcsz base cap).2 p = base p) ∧
      ∃ view chunks, Recovers src srcsz view ∧ content chunks = region view 0 (8 * ((srcsz + 7) / 8)) ∧
        ((sprotoPack src srcsz base cap).1 ≤ cap →
          Stream (sprotoPack src srcsz base cap).2 (sprotoPack src srcsz base cap).1 chunks) := by
  obtain ⟨hmaxsz, view, done, h, hview⟩ := packed_all src srcsz base cap
  rw [sprotoPack_eq]
  have hrun (hrun : 0 < (packing src srcsz base cap ((srcsz + 7) / 8)).ffN) : view = filled src srcsz :=
    hview.resolve_right fun hzero ↦ Nat.ne_of_gt hrun hzero.1
  exact ⟨h.size ▸ hmaxsz, (h.finish hrun).1, view, closed view _ done, hview.elim .inl And.right, h.content_closed,
    h.stream srcsz hrun⟩

/-- What is packed is unpacked: `sproto_pack` needs at most `maxsz` bytes, so that `lpack` never raises, and writes
nothing behind its buffer. From what it writes where the buffer is large enough, `sproto_unpack` gives the source,
filled up to whole segments, and writes nothing behind its buffer either. What it is filled up with is zero, but for two
bytes at most that `sproto_pack` reads behind the source. -/
theorem unpack_pack (src : Memory) (srcsz : ℕ) (buffer : Memory) (bufsz : ℕ) :
    (sprotoPack src srcsz buffer bufsz).1 ≤ maxsz srcsz ∧
      (∀ p, bufsz ≤ p → (sprotoPack src srcsz buffer bufsz).2 p = buffer p) ∧
        ((sprotoPack src srcsz buffer bufsz).1 ≤ bufsz → ∀ buffer' osz, ∃ out,
          sprotoUnpack (sprotoPack src srcsz buffer bufsz).2 (sprotoPack src srcsz buffer bufsz).1 buffer' osz =
              some (8 * ((srcsz + 7) / 8), out) ∧
            (8 * ((srcsz + 7) / 8) ≤ osz → (∀ i, i < srcsz → out i = src i) ∧
              ∀ i, srcsz ≤ i → i < 8 * ((srcsz + 7) / 8) →
                out i = 0 ∨ 2048 ≤ 8 * ((srcsz + 7) / 8) ∧ 8 * ((srcsz + 7) / 8) ≤ srcsz + 2 ∧ out i = src i) ∧
              ∀ p, osz ≤ p → out p = buffer' p) := by
  obtain ⟨hmaxsz, hbeyond, view, chunks, hview, hcontent, hstream⟩ := pack_stream src srcsz buffer bufsz
  refine ⟨hmaxsz, hbeyond, fun hle buffer' osz ↦ ?_⟩
  obtain ⟨out, hunpack, hholds, hout⟩ := unpack_stream (hstream hle) buffer' osz
  rw [hcontent, length_region] at hunpack hholds
  refine ⟨out, hunpack, fun hroom ↦ ?_, hout⟩
  have hsame : ∀ i, i < 8 * ((srcsz + 7) / 8) → out i = view i := by
    intro i hi
    have := holds_region.mp (hholds hroom) i hi
    rwa [Nat.zero_add] at this
  rcases hview with rfl | ⟨rfl, h2048, _, hpadding⟩
  · exact ⟨fun i hi ↦ (hsame i (by omega)).trans (filled_of_lt src hi), fun i hi hlt ↦
      .inl ((hsame i hlt).trans (if_neg (Nat.not_lt_of_le hi)))⟩
  · exact ⟨fun i hi ↦ hsame i (by omega), fun i _ hlt ↦ .inr ⟨h2048, hpadding, hsame i hlt⟩⟩

theorem full_of_nonzero {src : Memory} {srcsz k : ℕ} (hsrc : ∀ i, i < srcsz → src i ≠ 0) (hlt : 8 * (k + 1) ≤ srcsz)
    (n : ℕ) : Full (segment src srcsz k) n := by
  refine .inl (length_nonzeros.mpr fun i hi ↦ ?_)
  have := List.mem_range.mp hi
  rw [segment, if_pos (by omega)]
  exact hsrc _ (by omega)

/-- A run of a source without zeros. -/
theorem packed_nonzero {src : Memory} {srcsz : ℕ} (hsrc : ∀ i, i < srcsz → src i ≠ 0) (base : Memory) (cap : ℕ) {k : ℕ}
    (hk : k < 255) (hlt : 8 * (k + 1) ≤ srcsz) :
    Packed (filled src srcsz) cap base (packing src srcsz base cap (k + 1)) (k + 1) [] ∧
      (packing src srcsz base cap (k + 1)).ffN = k + 1 := by
  induction k with
  | zero =>
    have hfirst := (packed_init (filled src srcsz) cap base).first (full_of_nonzero hsrc hlt 0) rfl
    have hstep := Packing.step_first ((packed_init (filled src srcsz) cap base).exists_full
      (full_of_nonzero hsrc hlt 0)).choose_spec.1
    rw [packing_succ]
    exact ⟨hfirst.1, congrArg Packing.ffN hstep⟩
  | succ k ih =>
    obtain ⟨h, hrun⟩ := ih (by omega) (by omega)
    obtain ⟨hnext, hpos⟩ := h.next (full_of_nonzero hsrc hlt _) (by omega) (by omega)
    rw [packing_succ]
    refine ⟨hnext, ?_⟩
    have hplace := hnext.pos
    rw [hpos, h.pos, if_pos (by omega), hrun] at hplace
    split at hplace <;> omega

/-- A source of 2047 bytes without a zero is one run, and the byte behind it is packed with it. -/
theorem padding_leaks {src : Memory} (hsrc : ∀ i, i < 2047 → src i ≠ 0) (buffer : Memory) {bufsz : ℕ}
    (hbufsz : maxsz 2047 ≤ bufsz) (buffer' : Memory) : ∃ out,
      sprotoUnpack (sprotoPack src 2047 buffer bufsz).2 (sprotoPack src 2047 buffer bufsz).1 buffer' 2048 =
          some (2048, out) ∧ out 2047 = src 2047 := by
  obtain ⟨h, hrun⟩ := packed_nonzero hsrc buffer bufsz (k := 254) (by decide) (by decide)
  have hrun : (packing src 2047 buffer bufsz 255).ffN = 255 := hrun
  have hseven : (nonzeros (segment src 2047 255) (List.range 7)).length = 7 := by
    refine length_nonzeros.mpr fun i hi ↦ ?_
    have := List.mem_range.mp hi
    rw [segment, if_pos (by omega)]
    exact hsrc _ (by omega)
  have hfull : Full (segment src 2047 255) (packing src 2047 buffer bufsz 255).ffN := by
    refine .inr ⟨by omega, ?_⟩
    rw [List.range_succ, nonzeros_append, List.length_append, hseven]
    exact Nat.le_add_right_of_le (by decide)
  obtain ⟨hlast, _, hzero⟩ := h.last src hfull (by omega)
    (fun i hi ↦ (filled_of_lt src (by omega)).symm) fun _ _ ↦ rfl
  rw [← packing_succ] at hlast hzero
  have hsize := (pack_stream src 2047 buffer bufsz).1.trans hbufsz
  rw [sprotoPack_eq] at hsize ⊢
  obtain ⟨out, hunpack, hholds, _⟩ := unpack_stream
    (hlast.stream 2047 (fun hrun ↦ absurd hzero (Nat.ne_of_gt hrun)) hsize) buffer' 2048
  rw [hlast.content_closed, length_region] at hunpack hholds
  refine ⟨out, hunpack, ?_⟩
  have hbyte := holds_region.mp (hholds (le_refl _)) 2047 (by decide)
  rwa [Nat.zero_add] at hbyte

end SvrDemo.Sproto
