import SvrDemo.Skynet.Netpack
import SvrDemo.Protocol.RingBuffer

/-!
# Packages in order

A gate calls `dispatch_msg` with the packages of a connection in their order, each once, however their bytes were cut
and however the sockets were interleaved. That takes more than `lua-netpack.c`: a single package does not wait behind
those in the queue. It has no need to, because `dispatch_queue` has forked itself before it calls a handler that may
yield or raise, and no message comes before the coroutines of `fork_queue` have run. So the queue is empty when a
message comes (`Gate.Follows.ready`).
-/

set_option autoImplicit false
set_option relaxedAutoImplicit false

namespace SvrDemo.Skynet

open Base Protocol Netpack Client

/-! ### Sizes -/

namespace Netpack

theorem readSize_eq (high low : UInt8) : readSize high low = high.toNat * 256 + low.toNat := by
  rw [readSize, ← Nat.shiftLeft_add_eq_or_of_lt low.toNat_lt, Nat.shiftLeft_eq]

theorem unpack_single (header : UInt8) : s2.unpack [header] = none := rfl

theorem unpack_cons_cons (high low : UInt8) (buffer : Bytes) : s2.unpack (high :: low :: buffer) =
    if buffer.length < readSize high low then none
    else some (buffer.take (readSize high low), buffer.drop (readSize high low)) := by
  have hlength : (high :: low :: buffer).length = buffer.length + 2 := rfl
  by_cases hshort : buffer.length < readSize high low
  · have hfound : unpackPackage (high :: low :: buffer) = (none, high :: low :: buffer) := by
      rw [unpackPackage, ← readSize_eq, hlength, if_pos (by omega)]
    rw [if_pos hshort]
    simp only [s2, hfound]
  · have hfound : unpackPackage (high :: low :: buffer) =
        (some (buffer.take (readSize high low)), buffer.drop (readSize high low)) := by
      rw [unpackPackage, ← readSize_eq, hlength, if_neg (by omega), Nat.add_comm 2]
      rfl
    rw [if_neg hshort]
    simp only [s2, hfound]

/-! ### Chains -/

namespace Queue

variable {q : Queue} {fd : ℕ} {uc : Uncomplete}

/-- The first `uncomplete` of an fd in its chain. -/
def lookup (q : Queue) (fd : ℕ) : Option Uncomplete := (q.hash (hashFd fd)).find? fun uc ↦ uc.id = fd

/-- The queue without that. -/
def remove (q : Queue) (fd : ℕ) : Queue :=
  { q with hash := Function.update q.hash (hashFd fd) ((q.hash (hashFd fd)).eraseP fun uc ↦ uc.id = fd) }

/-- An fd has one `uncomplete` at most. -/
def Distinct (q : Queue) : Prop := ∀ h, (q.hash h).Pairwise fun uc other ↦ uc.id ≠ other.id

theorem findUncomplete_eq (q : Queue) (fd : ℕ) :
    q.findUncomplete fd = (q.lookup fd).map fun uc ↦ (uc, q.remove fd) := rfl

theorem id_of_lookup (hlookup : q.lookup fd = some uc) : uc.id = fd := by
  have hid := List.find?_some hlookup
  exact of_decide_eq_true hid

theorem lookup_saveUncomplete (q : Queue) (uc : Uncomplete) (fd : ℕ) :
    (q.saveUncomplete uc).lookup fd = if uc.id = fd then some uc else q.lookup fd := by
  change (Function.update q.hash (hashFd uc.id) _ (hashFd fd)).find? _ = _
  by_cases hid : uc.id = fd
  · rw [if_pos hid, hid, Function.update_self, List.find?_cons_of_pos (by simpa using hid)]
  · rw [if_neg hid]
    by_cases hhash : hashFd fd = hashFd uc.id
    · rw [hhash, Function.update_self, List.find?_cons_of_neg (by simpa using hid), ← hhash]
      rfl
    · rw [Function.update_of_ne hhash]
      rfl

theorem distinct_saveUncomplete (h : q.Distinct) (hnone : q.lookup uc.id = none) : (q.saveUncomplete uc).Distinct := by
  intro hash
  change (Function.update q.hash (hashFd uc.id) _ hash).Pairwise _
  by_cases hhash : hash = hashFd uc.id
  · rw [hhash, Function.update_self]
    refine List.Pairwise.cons (fun other hmem heq ↦ ?_) (h _)
    exact List.find?_eq_none.mp hnone other hmem (decide_eq_true heq.symm)
  · rw [Function.update_of_ne hhash]
    exact h hash

theorem find?_eraseP_self {chain : List Uncomplete} (h : chain.Pairwise fun uc other ↦ uc.id ≠ other.id) (fd : ℕ) :
    ((chain.eraseP fun uc ↦ uc.id = fd).find? fun uc ↦ uc.id = fd) = none := by
  induction chain with
  | nil => rfl
  | cons uc chain ih =>
    obtain ⟨hother, hrest⟩ := List.pairwise_cons.mp h
    by_cases hid : uc.id = fd
    · rw [List.eraseP_cons_of_pos (by simpa using hid)]
      exact List.find?_eq_none.mpr fun other hmem heq ↦ hother other hmem (hid.trans (of_decide_eq_true heq).symm)
    · rw [List.eraseP_cons_of_neg (by simpa using hid), List.find?_cons_of_neg (by simpa using hid)]
      exact ih hrest

theorem find?_eraseP_of_ne (chain : List Uncomplete) {fd other : ℕ} (hne : other ≠ fd) :
    ((chain.eraseP fun uc ↦ uc.id = fd).find? fun uc ↦ uc.id = other) = chain.find? fun uc ↦ uc.id = other := by
  induction chain with
  | nil => rfl
  | cons uc chain ih =>
    by_cases hid : uc.id = fd
    · rw [List.eraseP_cons_of_pos (by simpa using hid),
        List.find?_cons_of_neg (by simpa using fun heq ↦ hne (heq.symm.trans hid))]
    · rw [List.eraseP_cons_of_neg (by simpa using hid), List.find?_cons, List.find?_cons, ih]

theorem lookup_remove (h : q.Distinct) (fd other : ℕ) :
    (q.remove fd).lookup other = if other = fd then none else q.lookup other := by
  change (Function.update q.hash (hashFd fd) _ (hashFd other)).find? _ = _
  by_cases hother : other = fd
  · rw [if_pos hother, hother, Function.update_self, find?_eraseP_self (h _)]
  · rw [if_neg hother]
    by_cases hhash : hashFd other = hashFd fd
    · rw [hhash, Function.update_self, find?_eraseP_of_ne _ hother, ← hhash]
      rfl
    · rw [Function.update_of_ne hhash]
      rfl

theorem distinct_remove (h : q.Distinct) (fd : ℕ) : (q.remove fd).Distinct := by
  intro hash
  change (Function.update q.hash (hashFd fd) _ hash).Pairwise _
  by_cases hhash : hash = hashFd fd
  · rw [hhash, Function.update_self]
    exact (h _).sublist List.eraseP_sublist
  · rw [Function.update_of_ne hhash]
    exact h hash

/-! ### Queues -/

/-- The ring buffer of a queue. -/
def ring (q : Queue) : RingBuffer Pack := ⟨q.cap, q.head, q.tail, q.queue⟩

end Queue

/-- An `uncomplete` has a text without a package. -/
def Uncomplete.Holds (uc : Uncomplete) (text : Bytes) : Prop :=
  uc.read = -1 ∧ text = [uc.header] ∨
    ∃ high low, uc.size = readSize high low ∧ uc.read = uc.buffer.length ∧ uc.buffer.length < uc.size ∧
      text = high :: low :: uc.buffer

theorem Uncomplete.Holds.ne_nil {uc : Uncomplete} {text : Bytes} (h : uc.Holds text) : text ≠ [] := by
  rcases h with ⟨-, rfl⟩ | ⟨high, low, -, -, -, rfl⟩
  · exact List.cons_ne_nil _ _
  · exact List.cons_ne_nil _ _

/-- A queue has some packages in their order, and for every fd a text without a package. -/
structure Queue.Keeps (q : Queue) (items : List Pack) (texts : ℕ → Bytes) : Prop where
  ring : q.ring.Holds items
  distinct : q.Distinct
  some : ∀ fd uc, q.lookup fd = some uc → uc.Holds (texts fd)
  none : ∀ fd, q.lookup fd = none → texts fd = []

namespace Queue

variable {q : Queue} {items : List Pack} {texts : ℕ → Bytes} {fd : ℕ} {uc : Uncomplete} {text buffer : Bytes}

theorem keeps_new : new.Keeps [] fun _ ↦ [] where
  ring := RingBuffer.holds_empty (show 0 < queueSize by decide)
  distinct _ := List.Pairwise.nil
  some _ _ hsome := absurd hsome.symm (Option.some_ne_none _)
  none _ _ := rfl

theorem Keeps.lookup_eq_none (h : q.Keeps items texts) (hnil : texts fd = []) : q.lookup fd = Option.none := by
  rw [← Option.not_isSome_iff_eq_none, Option.isSome_iff_exists]
  rintro ⟨uc, huc⟩
  exact (h.some fd uc huc).ne_nil hnil

theorem Keeps.saveUncomplete (h : q.Keeps items texts) (hnil : texts uc.id = []) (hholds : uc.Holds text) :
    (q.saveUncomplete uc).Keeps items (Function.update texts uc.id text) where
  ring := h.ring
  distinct := distinct_saveUncomplete h.distinct (h.lookup_eq_none hnil)
  some fd other hsome := by
    rw [lookup_saveUncomplete] at hsome
    by_cases hid : uc.id = fd
    · rw [if_pos hid] at hsome
      obtain rfl := Option.some.inj hsome
      rwa [← hid, Function.update_self]
    · rw [if_neg hid] at hsome
      rw [Function.update_of_ne (Ne.symm hid)]
      exact h.some fd other hsome
  none fd hnone := by
    rw [lookup_saveUncomplete] at hnone
    by_cases hid : uc.id = fd
    · rw [if_pos hid] at hnone
      exact absurd hnone (Option.some_ne_none _)
    · rw [if_neg hid] at hnone
      rw [Function.update_of_ne (Ne.symm hid)]
      exact h.none fd hnone

theorem Keeps.remove (h : q.Keeps items texts) (fd : ℕ) : (q.remove fd).Keeps items (Function.update texts fd []) where
  ring := h.ring
  distinct := distinct_remove h.distinct fd
  some other uc hsome := by
    rw [lookup_remove h.distinct] at hsome
    obtain ⟨hne, hsome⟩ := Option.ite_none_left_eq_some.mp hsome
    rw [Function.update_of_ne hne]
    exact h.some other uc hsome
  none other hnone := by
    rw [lookup_remove h.distinct] at hnone
    by_cases hid : other = fd
    · rw [hid, Function.update_self]
    · rw [if_neg hid] at hnone
      rw [Function.update_of_ne hid]
      exact h.none other hnone

theorem ring_pushData (htail : q.tail < q.cap) (fd : ℕ) (buffer : Bytes) (size : ℕ) :
    (q.pushData fd buffer size).ring = q.ring.push (q.cap + queueSize) ⟨fd, size, buffer⟩ := by
  have hnext : (if q.cap ≤ q.tail + 1 then q.tail + 1 - q.cap else q.tail + 1) = RingBuffer.next q.cap q.tail := by
    unfold RingBuffer.next
    split
    · omega
    · rfl
  unfold pushData RingBuffer.push
  rw [hnext]
  change ring (if q.head = RingBuffer.next q.cap q.tail then _ else _) =
    if q.head = RingBuffer.next q.cap q.tail then _ else _
  split <;> rfl

theorem Keeps.pushData (h : q.Keeps items texts) (fd : ℕ) (buffer : Bytes) (size : ℕ) :
    (q.pushData fd buffer size).Keeps (items ++ [⟨fd, size, buffer⟩]) texts := by
  have hhash : (q.pushData fd buffer size).hash = q.hash := by
    unfold Queue.pushData
    exact (apply_ite hash _ _ _).trans (ite_self _)
  refine ⟨?_, fun hash ↦ hhash ▸ h.distinct hash, fun other uc hsome ↦ h.some other uc ?_,
    fun other hnone ↦ h.none other ?_⟩
  · rw [ring_pushData h.ring.tail_lt]
    exact h.ring.push (show q.cap < q.cap + 1024 by omega)
  · rwa [lookup, hhash] at hsome
  · rwa [lookup, hhash] at hnone

theorem ring_pop (q : Queue) : q.pop.1 = q.ring.pop.1 ∧ q.pop.2.ring = q.ring.pop.2 := by
  by_cases heq : q.head = q.tail
  · rw [pop, RingBuffer.pop, if_pos heq, if_pos (show q.ring.head = q.ring.tail from heq)]
    exact ⟨rfl, rfl⟩
  · rw [pop, RingBuffer.pop, if_neg heq, if_neg (show ¬ q.ring.head = q.ring.tail from heq)]
    exact ⟨rfl, rfl⟩

theorem hash_pop (q : Queue) : q.pop.2.hash = q.hash := by
  unfold pop
  split <;> rfl

theorem Keeps.pop_nil (h : q.Keeps [] texts) : q.pop = (Option.none, q) := if_pos (h.ring.head_eq_tail_iff.mpr rfl)

theorem Keeps.pop {pack : Pack} (h : q.Keeps (pack :: items) texts) :
    q.pop.1 = Option.some pack ∧ q.pop.2.Keeps items texts := by
  obtain ⟨hfirst, hrest⟩ := h.ring.pop
  refine ⟨(ring_pop q).1.trans hfirst, (ring_pop q).2.symm ▸ hrest, fun hash ↦ ?_, fun other uc hsome ↦ ?_,
    fun other hnone ↦ ?_⟩
  · rw [hash_pop]
    exact h.distinct hash
  · rw [lookup, hash_pop] at hsome
    exact h.some other uc hsome
  · rw [lookup, hash_pop] at hnone
    exact h.none other hnone

/-! ### Data -/

theorem holds_of_short {high low : UInt8} (hshort : buffer.length < readSize high low) (fd : ℕ) :
    (⟨fd, readSize high low, buffer, buffer.length, 0⟩ : Uncomplete).Holds (high :: low :: buffer) :=
  .inr ⟨high, low, rfl, rfl, hshort, rfl⟩

/-- `push_more` puts the packages of its bytes in the queue and keeps the rest. -/
theorem Keeps.pushMore {calls : ℕ} (h : q.Keeps items texts) (hnil : texts fd = []) (hbuffer : buffer ≠ [])
    (hcalls : buffer.length ≤ calls) : ∃ packs : List Pack, packs.map Pack.text = (s2.split buffer).1 ∧
      (∀ pack ∈ packs, pack.id = fd) ∧
        (pushMore fd calls q buffer).Keeps (items ++ packs) (Function.update texts fd (s2.split buffer).2) := by
  induction calls generalizing q items buffer with
  | zero => exact absurd (List.eq_nil_of_length_eq_zero (Nat.le_zero.mp hcalls)) hbuffer
  | succ calls ih =>
    rcases buffer with _ | ⟨high, _ | ⟨low, buffer⟩⟩
    · exact absurd rfl hbuffer
    · refine ⟨[], ?_, List.forall_mem_nil _, ?_⟩
      · rw [Framing.split_of_unpack_none (unpack_single high)]
        rfl
      · rw [Framing.split_of_unpack_none (unpack_single high), List.append_nil]
        exact h.saveUncomplete hnil (.inl ⟨rfl, rfl⟩)
    · rw [Queue.pushMore]
      by_cases hshort : buffer.length < readSize high low
      · have hnone := (unpack_cons_cons high low buffer).trans (if_pos hshort)
        rw [if_pos hshort, Framing.split_of_unpack_none hnone]
        refine ⟨[], rfl, List.forall_mem_nil _, ?_⟩
        rw [List.append_nil]
        exact h.saveUncomplete hnil (holds_of_short hshort fd)
      · have hsome := (unpack_cons_cons high low buffer).trans (if_neg hshort)
        have hpush := h.pushData fd (buffer.take (readSize high low)) (readSize high low)
        have htext : (⟨fd, readSize high low, buffer.take (readSize high low)⟩ : Pack).text =
            buffer.take (readSize high low) := List.take_of_length_le (List.length_take_le _ _)
        rw [if_neg hshort, Framing.split_of_unpack_some hsome]
        dsimp only
        by_cases hmore : 0 < (buffer.drop (readSize high low)).length
        · rw [if_pos hmore]
          have hlength : (buffer.drop (readSize high low)).length ≤ calls := by
            simp only [List.length_cons, List.length_drop] at hcalls ⊢
            omega
          obtain ⟨packs, hpacks, hids, hkeeps⟩ := ih hpush (List.length_pos_iff.mp hmore) hlength
          refine ⟨⟨fd, readSize high low, buffer.take (readSize high low)⟩ :: packs, ?_, ?_, ?_⟩
          · rw [List.map_cons, htext, hpacks]
          · exact List.forall_mem_cons.mpr ⟨rfl, hids⟩
          · rwa [List.append_cons]
        · have hrest := List.eq_nil_of_length_eq_zero (Nat.eq_zero_of_not_pos hmore)
          rw [if_neg hmore, hrest, Framing.split_of_unpack_none s2.unpack_nil]
          refine ⟨[⟨fd, readSize high low, buffer.take (readSize high low)⟩], ?_, ?_, ?_⟩
          · rw [List.map_singleton, htext]
          · exact List.forall_mem_singleton.mpr rfl
          · rwa [Function.update_eq_self_iff.mpr hnil.symm]

/-- The package that `filter_data_` returns. -/
def Filtered.direct : Filtered → List Pack
  | .none => []
  | .data pack => [pack]
  | .more => []

/-- What some data did, with the text that had come before: all packages that are complete now are returned or in the
queue, but in the queue only if `more` was returned, and the rest is kept. -/
def Reads (items : List Pack) (texts : ℕ → Bytes) (fd : ℕ) (text : Bytes) (result : Filtered × Queue) : Prop :=
  ∃ packs : List Pack, (result.1.direct ++ packs).map Pack.text = (s2.split text).1 ∧
    (∀ pack ∈ result.1.direct ++ packs, pack.id = fd) ∧ (result.1 ≠ .more → packs = []) ∧
      result.2.Keeps (items ++ packs) (Function.update texts fd (s2.split text).2)

theorem Keeps.reads_none (hnone : s2.unpack text = Option.none)
    (h : q.Keeps items (Function.update texts fd text)) : Reads items texts fd text (.none, q) := by
  refine ⟨[], ?_, List.forall_mem_nil _, fun _ ↦ rfl, ?_⟩
  · rw [Framing.split_of_unpack_none hnone]
    rfl
  · rwa [Framing.split_of_unpack_none hnone, List.append_nil]

theorem Keeps.reads_data {pack : Pack} (hsome : s2.unpack text = Option.some (pack.text, [])) (hid : pack.id = fd)
    (h : q.Keeps items (Function.update texts fd [])) : Reads items texts fd text (.data pack, q) := by
  have hsplit : s2.split text = ([pack.text], []) := by
    rw [Framing.split_of_unpack_some hsome, Framing.split_of_unpack_none s2.unpack_nil]
  refine ⟨[], ?_, List.forall_mem_singleton.mpr hid, fun _ ↦ rfl, ?_⟩
  · rw [hsplit]
    rfl
  · rwa [hsplit, List.append_nil]

theorem Keeps.reads_more {size : ℕ} {rest : Bytes} (hsome : s2.unpack text = Option.some (buffer, rest))
    (hsize : buffer.length = size) (hrest : rest ≠ []) (h : q.Keeps items (Function.update texts fd [])) :
    Reads items texts fd text (.more, Queue.pushMore fd rest.length (q.pushData fd buffer size) rest) := by
  obtain ⟨packs, hpacks, hids, hkeeps⟩ := (h.pushData fd buffer size).pushMore (Function.update_self ..) hrest
    (Nat.le_refl _)
  rw [Function.update_idem, List.append_assoc] at hkeeps
  refine ⟨⟨fd, size, buffer⟩ :: packs, ?_, List.forall_mem_cons.mpr ⟨rfl, hids⟩, fun hne ↦ absurd rfl hne, ?_⟩
  · rw [Framing.split_of_unpack_some hsome, ← hpacks]
    change List.take size buffer :: _ = _
    rw [List.take_of_length_le (Nat.le_of_eq hsize)]
  · rwa [Framing.split_of_unpack_some hsome]

/-- More data for a package whose size is known. -/
theorem Keeps.fillUncomplete {high low : UInt8} (h : q.Keeps items (Function.update texts fd [])) (hid : uc.id = fd)
    (hsize : uc.size = readSize high low) (hread : uc.read = uc.buffer.length) (hle : uc.buffer.length ≤ uc.size) :
    Reads items texts fd (high :: low :: (uc.buffer ++ buffer)) (q.fillUncomplete uc buffer) := by
  subst hid
  have hunpack := unpack_cons_cons high low (uc.buffer ++ buffer)
  rw [← hsize, List.length_append] at hunpack
  unfold Queue.fillUncomplete
  rw [hread, Int.toNat_natCast]
  dsimp only
  by_cases hneed : buffer.length < uc.size - uc.buffer.length
  · rw [if_pos hneed]
    refine Keeps.reads_none (hunpack.trans (if_pos (by omega))) ?_
    have hlength : (uc.buffer ++ buffer).length < uc.size := by
      rw [List.length_append]
      omega
    generalize hmore : ({ uc with
      buffer := uc.buffer ++ buffer
      read := uc.buffer.length + buffer.length } : Uncomplete) = more
    have hid : uc.id = more.id := by rw [← hmore]
    have hholds : more.Holds (high :: low :: (uc.buffer ++ buffer)) := by
      subst hmore
      exact .inr ⟨high, low, hsize, by rw [List.length_append, Int.natCast_add], hlength, rfl⟩
    rw [hid] at h ⊢
    have hkeeps := h.saveUncomplete (Function.update_self ..) hholds
    rwa [Function.update_idem] at hkeeps
  · rw [if_neg hneed]
    have htake : (uc.buffer ++ buffer).take uc.size = uc.buffer ++ buffer.take (uc.size - uc.buffer.length) := by
      rw [List.take_append, List.take_of_length_le hle]
    have hdrop : (uc.buffer ++ buffer).drop uc.size = buffer.drop (uc.size - uc.buffer.length) := by
      rw [List.drop_append, List.drop_eq_nil_of_le hle, List.nil_append]
    have hlength : (uc.buffer ++ buffer.take (uc.size - uc.buffer.length)).length = uc.size := by
      rw [List.length_append, List.length_take]
      omega
    rw [if_neg (by omega), htake, hdrop] at hunpack
    by_cases hrest : (buffer.drop (uc.size - uc.buffer.length)).length = 0
    · rw [if_pos hrest]
      refine Keeps.reads_data (hunpack.trans ?_) rfl h
      rw [List.eq_nil_of_length_eq_zero hrest]
      exact congrArg (fun text ↦ Option.some (text, [])) (List.take_of_length_le (Nat.le_of_eq hlength)).symm
    · rw [if_neg hrest]
      exact h.reads_more hunpack hlength (List.length_pos_iff.mp (Nat.pos_of_ne_zero hrest))

/-- The whole of `filter_data_`. -/
theorem Keeps.filterData (h : q.Keeps items texts) (fd : ℕ) (hbuffer : buffer ≠ []) :
    Reads items texts fd (texts fd ++ buffer) (q.filterData fd buffer) := by
  unfold Queue.filterData
  rw [findUncomplete_eq]
  cases hlookup : q.lookup fd with
  | none =>
    have hnil := h.none fd hlookup
    have hself : q.Keeps items (Function.update texts fd []) := by rwa [Function.update_eq_self_iff.mpr hnil.symm]
    rw [hnil, List.nil_append, Option.map_none]
    rcases buffer with _ | ⟨high, _ | ⟨low, buffer⟩⟩
    · exact absurd rfl hbuffer
    · exact Keeps.reads_none (unpack_single high) (h.saveUncomplete hnil (.inl ⟨rfl, rfl⟩))
    · have hunpack := unpack_cons_cons high low buffer
      dsimp only
      by_cases hshort : buffer.length < readSize high low
      · rw [if_pos hshort]
        exact Keeps.reads_none (hunpack.trans (if_pos hshort)) (h.saveUncomplete hnil (holds_of_short hshort fd))
      rw [if_neg hshort] at hunpack ⊢
      by_cases hsize : buffer.length = readSize high low
      · rw [if_pos hsize]
        refine Keeps.reads_data (hunpack.trans ?_) rfl hself
        rw [List.drop_eq_nil_of_le (Nat.le_of_eq hsize), ← hsize]
        rfl
      · rw [if_neg hsize]
        have hlength : (buffer.take (readSize high low)).length = readSize high low := by
          rw [List.length_take]
          omega
        refine hself.reads_more hunpack hlength (List.length_pos_iff.mp ?_)
        rw [List.length_drop]
        omega
  | some uc =>
    have hremove := h.remove fd
    have hid := id_of_lookup hlookup
    rw [Option.map_some]
    rcases h.some fd uc hlookup with ⟨hread, htext⟩ | ⟨high, low, hsize, hread, hlt, htext⟩
    · rcases buffer with _ | ⟨low, buffer⟩
      · exact absurd rfl hbuffer
      · dsimp only
        rw [htext, if_pos (by rw [hread]; decide)]
        exact hremove.fillUncomplete hid (Nat.or_comm _ _) rfl (Nat.zero_le _)
    · dsimp only
      rw [htext, if_neg (by rw [hread]; omega)]
      exact hremove.fillUncomplete hid hsize hread (Nat.le_of_lt hlt)

theorem Keeps.closeUncomplete (h : q.Keeps items texts) (fd : ℕ) :
    (q.closeUncomplete fd).Keeps items (Function.update texts fd []) := by
  unfold Queue.closeUncomplete
  rw [findUncomplete_eq]
  cases hlookup : q.lookup fd with
  | none =>
    rw [Function.update_eq_self_iff.mpr (h.none fd hlookup).symm]
    exact h
  | some uc => exact h.remove fd

end Queue

end Netpack

/-! ### What was sent -/

/-- What is behind the packages of the present connection of an fd. -/
def unfinished (heard : List SocketMessage) (fd : ℕ) : Bytes := (s2.split (streams heard fd).2).2

theorem streams_data (heard : List SocketMessage) (fd id : ℕ) (buffer : Bytes) :
    streams (heard ++ [.data id buffer]) fd =
      if id = fd then ((streams heard fd).1, (streams heard fd).2 ++ buffer) else streams heard fd :=
  List.foldl_append

theorem packages_data (heard : List SocketMessage) (fd id : ℕ) (buffer : Bytes) :
    packages (heard ++ [.data id buffer]) fd =
      packages heard fd ++ if id = fd then (s2.split (unfinished heard fd ++ buffer)).1 else [] := by
  rw [packages, streams_data]
  by_cases hid : id = fd
  · rw [if_pos hid, if_pos hid, packages, Framing.split_append, List.append_assoc]
    rfl
  · rw [if_neg hid, if_neg hid, List.append_nil]
    rfl

theorem unfinished_data (heard : List SocketMessage) (id : ℕ) (buffer : Bytes) :
    unfinished (heard ++ [.data id buffer]) =
      Function.update (unfinished heard) id (s2.split (unfinished heard id ++ buffer)).2 := by
  funext fd
  rw [unfinished, streams_data]
  by_cases hid : id = fd
  · rw [if_pos hid, hid, Function.update_self, Framing.split_append]
    rfl
  · rw [if_neg hid, Function.update_of_ne (Ne.symm hid)]
    rfl

/-- A message with which a connection ends. -/
def SocketMessage.Ends (message : SocketMessage) (fd : ℕ) : Prop := message = .close fd ∨ message = .error fd

variable {message : SocketMessage} {id : ℕ}

theorem streams_of_ends (hends : message.Ends id) (heard : List SocketMessage) (fd : ℕ) :
    streams (heard ++ [message]) fd =
      if id = fd then ((streams heard fd).1 ++ [(streams heard fd).2], []) else streams heard fd := by
  rcases hends with rfl | rfl
  · exact List.foldl_append
  · exact List.foldl_append

theorem packages_of_ends (hends : message.Ends id) (heard : List SocketMessage) (fd : ℕ) :
    packages (heard ++ [message]) fd = packages heard fd := by
  rw [packages, streams_of_ends hends]
  by_cases hid : id = fd
  · rw [if_pos hid, List.flatMap_append, List.flatMap_singleton, Framing.split_of_unpack_none s2.unpack_nil,
      List.append_nil]
    rfl
  · rw [if_neg hid]
    rfl

theorem unfinished_of_ends (hends : message.Ends id) (heard : List SocketMessage) :
    unfinished (heard ++ [message]) = Function.update (unfinished heard) id [] := by
  funext fd
  rw [unfinished, streams_of_ends hends]
  by_cases hid : id = fd
  · rw [if_pos hid, hid, Function.update_self, Framing.split_of_unpack_none s2.unpack_nil]
  · rw [if_neg hid, Function.update_of_ne (Ne.symm hid)]
    rfl

/-! ### The gate -/

namespace Gate

variable {state next : Gate} {items : List Pack}

/-- The packages that were dispatched and those in the queue are the packages that were sent. The queue keeps the
unfinished ones, and somebody will look at it as long as it has a package. -/
structure Follows (state : Gate) (items : List Pack) : Prop where
  keeps : state.queue.Keeps items (unfinished state.heard)
  sent : ∀ fd, ((state.dispatched ++ items).filter fun pack ↦ pack.id = fd).map Pack.text = packages state.heard fd
  ready : items ≠ [] → 0 < state.forks ∨ state.running = .first

theorem follows_initial : initial.Follows [] where
  keeps := Queue.keeps_new
  sent _ := rfl
  ready hne := absurd rfl hne

theorem Follows.nil_of_atRest (h : state.Follows items) (hrest : state.AtRest) : items = [] := by
  by_contra hne
  rcases h.ready hne with hforks | hfirst
  · exact absurd hrest.2 (Nat.ne_of_gt hforks)
  · exact Dispatching.noConfusion (hrest.1.symm.trans hfirst)

/-- The packages of an fd among those that the data of one fd has completed. -/
theorem filter_of_ids {packs : List Pack} (hids : ∀ pack ∈ packs, pack.id = id) (fd : ℕ) :
    (packs.filter fun pack ↦ pack.id = fd) = if id = fd then packs else [] := by
  split
  · next heq => exact List.filter_eq_self.mpr fun pack hmem ↦ decide_eq_true ((hids pack hmem).trans heq)
  · next hne =>
    refine List.filter_eq_nil_iff.mpr fun pack hmem heq ↦ hne ?_
    exact (hids pack hmem).symm.trans (of_decide_eq_true heq)

theorem Follows.sent_data (h : state.Follows []) {buffer : Bytes} {packs : List Pack}
    (hpacks : packs.map Pack.text = (s2.split (unfinished state.heard id ++ buffer)).1)
    (hids : ∀ pack ∈ packs, pack.id = id) (fd : ℕ) :
    ((state.dispatched ++ packs).filter fun pack ↦ pack.id = fd).map Pack.text =
      packages (state.heard ++ [.data id buffer]) fd := by
  have hsent := h.sent fd
  rw [List.append_nil] at hsent
  rw [packages_data, List.filter_append, List.map_append, hsent, filter_of_ids hids]
  congr 1
  split
  · next heq => rw [hpacks, heq]
  · rfl

theorem Follows.hear (h : state.Follows items) (hrest : state.AtRest) {message : SocketMessage}
    (hmessage : ∀ fd, message ≠ .data fd []) (handling : Handling) :
    ∃ items, (state.hear message handling).Follows items := by
  obtain rfl := h.nil_of_atRest hrest
  cases message with
  | data fd buffer =>
    have hbuffer : buffer ≠ [] := fun hnil ↦ hmessage fd (congrArg _ hnil)
    have hreads := h.keeps.filterData fd hbuffer
    rw [Gate.hear]
    cases hfilter : state.queue.filterData fd buffer with
    | mk filtered q =>
      rw [hfilter] at hreads
      obtain ⟨packs, hpacks, hids, hqueued, hkeeps⟩ := hreads
      rw [← unfinished_data, List.nil_append] at hkeeps
      dsimp only
      have hsent := h.sent_data hpacks hids
      cases filtered with
      | none =>
        obtain rfl := hqueued Queue.Filtered.noConfusion
        exact ⟨[], hkeeps, hsent, fun hne ↦ absurd rfl hne⟩
      | data pack =>
        obtain rfl := hqueued Queue.Filtered.noConfusion
        refine ⟨[], hkeeps, fun fd ↦ ?_, fun hne ↦ absurd rfl hne⟩
        rw [List.append_nil]
        exact hsent fd
      | more => exact ⟨packs, hkeeps, hsent, fun _ ↦ .inr rfl⟩
  | close fd =>
    refine ⟨[], ?_, fun other ↦ (h.sent other).trans (packages_of_ends (.inl rfl) _ _).symm, fun hne ↦ absurd rfl hne⟩
    exact unfinished_of_ends (.inl rfl) state.heard ▸ h.keeps.closeUncomplete fd
  | error fd =>
    refine ⟨[], ?_, fun other ↦ (h.sent other).trans (packages_of_ends (.inr rfl) _ _).symm, fun hne ↦ absurd rfl hne⟩
    exact unfinished_of_ends (.inr rfl) state.heard ▸ h.keeps.closeUncomplete fd

/-- A bound of the turns until the next message may come. -/
def bound (state : Gate) (items : List Pack) : ℕ :=
  4 * items.length + 2 * state.forks + if state.running = .no then 0 else 1

theorem atRest_of_bound (hzero : state.bound items = 0) : state.AtRest := by
  unfold bound at hzero
  refine ⟨?_, by omega⟩
  by_contra hrunning
  rw [if_neg hrunning] at hzero
  omega

/-- A package leaves the queue for `dispatch_msg`, when the queue will be looked at again if it has more. -/
theorem Follows.dispatchMsg {pack : Pack} {q : Queue} (h : state.Follows (pack :: items))
    (hkeeps : q.Keeps items (unfinished state.heard)) (hforks : items ≠ [] → 0 < state.forks) (handling : Handling) :
    ({ state with queue := q }.dispatchMsg pack .loop handling).Follows items where
  keeps := hkeeps
  sent fd := (List.append_cons state.dispatched pack items) ▸ h.sent fd
  ready hne := .inl (hforks hne)

theorem bound_dispatchMsg {pack : Pack} (handling : Handling) :
    (state.dispatchMsg pack .loop handling).bound items ≤ 4 * items.length + 2 * state.forks + 1 := by
  unfold bound
  change 4 * items.length + 2 * state.forks + _ ≤ _
  split <;> omega

/-- A turn goes on with the work. -/
theorem Follows.turn (h : state.Follows items) (hbusy : ¬ state.AtRest) (handling : Handling) :
    ∃ items', (state.turn handling).Follows items' ∧ (state.turn handling).bound items' < state.bound items := by
  unfold Gate.turn
  cases hrunning : state.running with
  | no =>
    have hforks : state.forks ≠ 0 := fun hforks ↦ hbusy ⟨hrunning, hforks⟩
    dsimp only
    rw [if_neg hforks]
    refine ⟨items, ⟨h.keeps, h.sent, fun _ ↦ .inr rfl⟩, ?_⟩
    change 4 * items.length + 2 * (state.forks - 1) + 1 < 4 * items.length + 2 * state.forks + _
    omega
  | first =>
    cases items with
    | nil =>
      rw [h.keeps.pop_nil]
      refine ⟨[], ⟨h.keeps, h.sent, fun hne ↦ absurd rfl hne⟩, ?_⟩
      unfold bound
      rw [if_pos rfl, hrunning]
      exact Nat.lt_succ_self _
    | cons pack items =>
      obtain ⟨hpack, hkeeps⟩ := h.keeps.pop
      cases hpop : state.queue.pop with
      | mk found q =>
        rw [hpop] at hpack hkeeps
        obtain rfl : found = some pack := hpack
        have hforked : ({ state with forks := state.forks + 1 } : Gate).Follows (pack :: items) :=
          ⟨h.keeps, h.sent, fun _ ↦ .inl (Nat.succ_pos _)⟩
        refine ⟨items, hforked.dispatchMsg hkeeps (fun _ ↦ Nat.succ_pos _) handling, ?_⟩
        refine Nat.lt_of_le_of_lt (bound_dispatchMsg handling) ?_
        change 4 * items.length + 2 * (state.forks + 1) + 1 < 4 * (items.length + 1) + 2 * state.forks + _
        rw [hrunning, if_neg Dispatching.noConfusion]
        omega
  | loop =>
    cases items with
    | nil =>
      rw [h.keeps.pop_nil]
      refine ⟨[], ⟨h.keeps, h.sent, fun hne ↦ absurd rfl hne⟩, ?_⟩
      unfold bound
      rw [if_pos rfl, hrunning]
      exact Nat.lt_succ_self _
    | cons pack items =>
      obtain ⟨hpack, hkeeps⟩ := h.keeps.pop
      cases hpop : state.queue.pop with
      | mk found q =>
        rw [hpop] at hpack hkeeps
        obtain rfl : found = some pack := hpack
        refine ⟨items, h.dispatchMsg hkeeps (fun _ ↦ ?_) handling, ?_⟩
        · rcases h.ready (List.cons_ne_nil _ _) with hforks | hfirst
          · exact hforks
          · exact Dispatching.noConfusion (hrunning.symm.trans hfirst)
        · refine Nat.lt_of_le_of_lt (bound_dispatchMsg handling) ?_
          change 4 * items.length + 2 * state.forks + 1 < 4 * (items.length + 1) + 2 * state.forks + _
          omega

theorem Follows.step (h : state.Follows items) {event : GateEvent} (hstep : gate.step state event = some next) :
    ∃ items, next.Follows items := by
  cases event with
  | hear message handling =>
    have hmessage : ∀ fd, message ≠ .data fd [] := by
      rintro fd rfl
      exact absurd hstep.symm (Option.some_ne_none _)
    have hhear : (if state.AtRest then some (state.hear message handling) else none) = some next := by
      rcases message with ⟨fd, _ | ⟨byte, buffer⟩⟩ | fd | fd
      · exact absurd rfl (hmessage fd)
      all_goals exact hstep
    obtain ⟨hrest, hnext⟩ := Option.ite_none_right_eq_some.mp hhear
    exact Option.some.inj hnext ▸ h.hear hrest hmessage handling
  | turn handling =>
    obtain ⟨hbusy, hnext⟩ := Option.ite_none_left_eq_some.mp hstep
    obtain ⟨items, hitems, _⟩ := h.turn hbusy handling
    exact ⟨items, Option.some.inj hnext ▸ hitems⟩
  | resume handling =>
    obtain ⟨⟨hrunning, _⟩, hnext⟩ := Option.ite_none_right_eq_some.mp hstep
    obtain rfl := Option.some.inj hnext
    -- no coroutine runs, so one that is forked will look at the queue
    refine ⟨items, h.keeps, h.sent, fun hne ↦ .inl ((h.ready hne).resolve_right fun hfirst ↦ ?_)⟩
    exact Dispatching.noConfusion (hrunning.symm.trans hfirst)

theorem turn_of_atRest (hrest : state.AtRest) (handling : Handling) : state.turn handling = state := by
  unfold Gate.turn
  rw [hrest.1]
  dsimp only
  rw [if_pos hrest.2]

theorem atRest_foldl_turn (h : state.Follows items) {handlings : List Handling}
    (hbound : state.bound items ≤ handlings.length) : (handlings.foldl Gate.turn state).AtRest := by
  induction handlings generalizing state items with
  | nil => exact atRest_of_bound (Nat.le_zero.mp hbound)
  | cons handling handlings ih =>
    rw [List.foldl_cons]
    by_cases hrest : state.AtRest
    · rw [turn_of_atRest hrest]
      have hnil := h.nil_of_atRest hrest
      have hzero : state.bound items = 0 := by
        rw [bound, hnil, hrest.2, if_pos hrest.1]
        rfl
      exact ih h (hzero ▸ Nat.zero_le _)
    · obtain ⟨items', hitems, hlt⟩ := h.turn hrest handling
      rw [List.length_cons] at hbound
      exact ih hitems (by omega)

end Gate

/-- Whenever the next message may come, `dispatch_msg` has been called with exactly the packages of every connection,
in their order, and before that with the first of them. Whatever the handlers do, that time comes after a number of
turns. -/
theorem packages_dispatched {state : Gate} (hrun : gate.Run (fun _ _ ↦ True) .initial state) :
    (∀ fd, ((state.dispatched.filter fun pack ↦ pack.id = fd).map Pack.text) <+: packages state.heard fd) ∧
    (state.AtRest → ∀ fd, (state.dispatched.filter fun pack ↦ pack.id = fd).map Pack.text = packages state.heard fd) ∧
    ∃ turns, ∀ handlings : List Handling, turns ≤ handlings.length → (handlings.foldl Gate.turn state).AtRest := by
  have hfollows : ∃ items, state.Follows items := by
    refine hrun.invariant (I := fun state ↦ ∃ items, state.Follows items) (fun _ _ _ _ hbefore hstep ↦ ?_)
      ⟨[], Gate.follows_initial⟩
    obtain ⟨items, h⟩ := hbefore
    exact h.step hstep
  obtain ⟨items, h⟩ := hfollows
  refine ⟨fun fd ↦ ?_, fun hrest fd ↦ ?_, state.bound items, fun handlings hbound ↦ Gate.atRest_foldl_turn h hbound⟩
  · rw [← h.sent fd, List.filter_append, List.map_append]
    exact List.prefix_append _ _
  · rw [← h.sent fd, h.nil_of_atRest hrest, List.append_nil]

/-- Two connections whose data is interleaved. The first handler of the packages in the queue yields, the second one
raises, and the first one comes back before the coroutines of `fork_queue` run. -/
theorem packages_dispatched_two : ∃ state, gate.Run (fun _ _ ↦ True) .initial state ∧ state.AtRest ∧
    ((state.dispatched.filter fun pack ↦ pack.id = 5).map Pack.text) = packages state.heard 5 ∧
      state.heard.length = 3 := by
  obtain ⟨state, hrun, hvalue⟩ := gate.exists_run_of_playMeeting (fun _ _ ↦ True) .initial
    [.hear (.data 5 [0]) .returns, .hear (.data 7 [0, 1, 65, 0]) .returns, .turn .yields, .turn .returns,
      .turn .returns, .hear (.data 5 [1, 66, 0, 1, 67, 0, 3, 68]) .returns, .turn .yields, .turn .returns,
      .turn .raises, .resume .returns, .turn .returns, .turn .returns, .turn .returns]
    (fun state ↦ (decide state.AtRest, state.heard.length)) (show _ = some (true, 3) by decide +kernel)
  obtain ⟨hrest, hlength⟩ := Prod.mk.inj hvalue
  have hrest := of_decide_eq_true hrest
  exact ⟨state, hrun, hrest, (packages_dispatched hrun).2.1 hrest 5, hlength⟩

end SvrDemo.Skynet
