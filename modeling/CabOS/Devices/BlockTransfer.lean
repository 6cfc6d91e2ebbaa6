import CabOS.Devices.Block

/-!
# Transfers on a faithful block device

A block device is faithful to a byte array when its required methods read and write whole blocks of
it.  This file shows that the provided methods `BlockDevice.read` and `BlockDevice.write` then read
and write arbitrary byte ranges of that array, each byte exactly once, and that a sequence of calls
behaves as on a flat byte array.
-/

namespace CabOS

open List Nat Option CabOS.Span

namespace BlockDevice

variable {σ : Type}

/-- The bytes of block `i`. -/
def blockBytes (bs : ℕ) (c : ℕ → UInt8) (i : ℕ) : List UInt8 := flatRead c (i * bs) bs

/-- The array after writing one buffer to each of the blocks `idxs`, in order. -/
def writeAll (bs : ℕ) : List ℕ → List (List UInt8) → (ℕ → UInt8) → ℕ → UInt8
  | i :: idxs, b :: bufs, c => writeAll bs idxs bufs (flatWrite c (i * bs) b)
  | _, _, c => c

/-- The required methods transfer whole blocks of the byte array `contents s`: for existing blocks
and buffers of the block size they succeed, a read returns the bytes of the blocks and leaves the
array as it is, and a write changes the array to hold the buffers. -/
structure Faithful (dev : BlockDevice σ) (contents : σ → ℕ → UInt8) : Prop where
  readBlocks_ok : ∀ (idxs : List ℕ) (bufs : List (List UInt8)) (s : σ),
    idxs.length = bufs.length → (∀ i ∈ idxs, i < dev.blockCount) →
    (∀ b ∈ bufs, b.length = dev.blockSize) →
    ∃ s', dev.readBlocks idxs (s, bufs) =
        .ok () (s', idxs.map (blockBytes dev.blockSize (contents s))) ∧
      contents s' = contents s
  writeBlocks_ok : ∀ (idxs : List ℕ) (bufs : List (List UInt8)) (s : σ),
    idxs.length = bufs.length → (∀ i ∈ idxs, i < dev.blockCount) →
    (∀ b ∈ bufs, b.length = dev.blockSize) →
    ∃ s', dev.writeBlocks idxs bufs s = .ok () s' ∧
    contents s' = writeAll dev.blockSize idxs bufs (contents s)

/-! ## Consecutive blocks -/

/-- The bytes of consecutive blocks, glued together, are one read. -/
lemma flatten_blockBytes (bs : ℕ) (c : ℕ → UInt8) (first k : ℕ) :
    ((range' first k).map (blockBytes bs c)).flatten = flatRead c (first * bs) (k * bs) := by
  rcases Nat.eq_zero_or_pos bs with rfl | hbs
  · have hz : ∀ l : List ℕ, (l.map (blockBytes 0 c)).flatten = [] := by
      intro l
      simp [blockBytes, flatRead]
    rw [hz]
    simp [flatRead]
  · have hall : ∀ b ∈ (range' first k).map (blockBytes bs c), b.length = bs := by
      intro b hb
      obtain ⟨i, -, rfl⟩ := List.mem_map.mp hb
      exact length_flatRead _ _ _
    rw [eq_flatRead_iff (by rw [length_flatten_of_length hall]; simp)]
    intro i hi
    have hq : i / bs < k := (Nat.div_lt_iff_lt_mul hbs).mpr hi
    have hdm : i / bs * bs + i % bs = i := by
      rw [mul_comm]
      exact div_add_mod i bs
    rw [getElem?_flatten_of_length hbs hall, getElem?_map, getElem?_range' hq]
    simp only [map_some, bind_some, blockBytes, one_mul]
    rw [getElem?_flatRead c (mod_lt _ hbs)]
    congr 2
    rw [add_mul]
    omega

/-- Writing the chunks of a buffer to consecutive blocks is one write of the buffer. -/
lemma writeAll_chunksOf (bs first k : ℕ) (c : ℕ → UInt8) {buf : List UInt8}
    (hbuf : buf.length = k * bs) :
    writeAll bs (range' first k) (chunksOf bs k buf) c = flatWrite c (first * bs) buf := by
  induction k generalizing first c buf with
  | zero =>
    have hnil : buf = [] := length_eq_zero_iff.mp (by omega)
    simp [hnil, writeAll, chunksOf]
  | succ k ih =>
    have hk : (k + 1) * bs = k * bs + bs := by ring
    have htake : (buf.take bs).length = bs := by
      rw [length_take]
      omega
    have hnext : (first + 1) * bs = first * bs + (buf.take bs).length := by
      rw [htake]
      ring
    rw [range'_succ, chunksOf, writeAll, ih _ _ (by rw [length_drop]; omega), hnext,
      flatWrite_flatWrite_append, take_append_drop]

end BlockDevice

variable {g : Span} {bs off len : ℕ} {buffer : List UInt8}

section

variable (h : g.firstFullIdx < g.lastFullIdx)
include h

/-- The full blocks start at the first full block. -/
lemma Span.midStart_eq (bs : ℕ) : g.midStart bs = g.firstFullIdx * bs := by
  obtain ⟨k, hk⟩ : ∃ k, g.lastFullIdx - g.firstFullIdx = k + 1 :=
    ⟨g.lastFullIdx - g.firstFullIdx - 1, by omega⟩
  simp [midStart, midIdxs, hk, range'_succ]

/-- The full blocks end at the last full block. -/
lemma Span.midEnd_eq (bs : ℕ) : g.midEnd bs = g.lastFullIdx * bs := by
  obtain ⟨k, hk⟩ : ∃ k, g.lastFullIdx - g.firstFullIdx = k + 1 :=
    ⟨g.lastFullIdx - g.firstFullIdx - 1, by omega⟩
  have hlast : g.midIdxs.getLastD 0 + 1 = g.lastFullIdx := by
    rw [midIdxs, hk, range'_1_concat, getLastD_concat]
    omega
  rw [midEnd, hlast]

lemma Span.mid_length (bs : ℕ) :
    g.midEnd bs - g.midStart bs = (g.lastFullIdx - g.firstFullIdx) * bs := by
  rw [midStart_eq h, midEnd_eq h, Nat.sub_mul]

lemma Span.mid_eq : slice buffer (g.midStart bs - off) (g.midEnd bs - g.midStart bs) =
    slice buffer (g.firstFullIdx * bs - off) ((g.lastFullIdx - g.firstFullIdx) * bs) := by
  rw [mid_length h, midStart_eq h]

end

section

variable (h : g.Covers bs off len)
include h

/-- The full blocks lie inside the byte range. -/
lemma Span.Covers.mid_range (hbs : 0 < bs) (hfull : g.firstFullIdx < g.lastFullIdx) :
    off ≤ g.firstFullIdx * bs ∧ g.firstFullIdx * bs + bs ≤ g.lastFullIdx * bs ∧
    g.lastFullIdx * bs ≤ off + len := by
  have hle : g.firstFullIdx * bs + bs ≤ g.lastFullIdx * bs := by
    rw [← succ_mul]
    exact Nat.mul_le_mul_right _ hfull
  have hlo := ((h.mem_iff (g.firstFullIdx * bs)).mpr (Or.inl ⟨hfull, by omega, by omega⟩)).1
  have hhi := ((h.mem_iff (g.lastFullIdx * bs - 1)).mpr (Or.inl ⟨hfull, by omega, by omega⟩)).2
  exact ⟨hlo, hle, by omega⟩

/-- A partial last block that is not the first one: the range ends inside it and starts before
it. -/
lemma Span.Covers.last_range (hlast : g.lastFullIdx < g.endIdx ∧ g.startIdx ≠ g.endIdx - 1) :
    (g.endIdx - 1) * bs + g.endOffset = off + len ∧ g.endOffset ≤ len := by
  have hend : (g.endIdx - 1) * bs + g.endOffset = off + len := by
    rcases h.end_eq with ⟨h0, -⟩ | ⟨-, h⟩
    · have := h.lastFull_eq
      rw [if_pos h0] at this
      omega
    · exact h
  refine ⟨hend, ?_⟩
  obtain ⟨p, hp, -, hcases⟩ := h.cases
  have hstart := h.start_eq
  have hso := h.startOffset_lt
  simp only [hp, Nat.add_sub_cancel] at hlast hend
  rcases hcases with hsame | ⟨-, hnext⟩ | ⟨-, -, hlater⟩
  · exact absurd hsame hlast.2
  · omega
  · omega

lemma Span.Covers.lastFullIdx_le : g.lastFullIdx ≤ g.endIdx := by
  rw [h.lastFull_eq]
  split_ifs <;> omega

end

/-- The part of the caller's buffer with the full blocks, cut into blocks. -/
lemma Span.Covers.mid_chunks {mid : List UInt8} (hg : g.Covers bs off buffer.length) (hbs : 0 < bs)
    (hfull : g.firstFullIdx < g.lastFullIdx)
    (hmid : mid = slice buffer (g.firstFullIdx * bs - off)
      ((g.lastFullIdx - g.firstFullIdx) * bs)) :
    mid.length = (g.lastFullIdx - g.firstFullIdx) * bs ∧
    mid.length / bs = g.lastFullIdx - g.firstFullIdx ∧
      g.midIdxs.length = (chunksExact bs mid).length ∧ ∀ b ∈ chunksExact bs mid, b.length = bs := by
  obtain ⟨hlo, hle, hhi⟩ := hg.mid_range hbs hfull
  have hmul : (g.lastFullIdx - g.firstFullIdx) * bs = g.lastFullIdx * bs - g.firstFullIdx * bs :=
    Nat.sub_mul _ _ _
  have hmidlen : mid.length = (g.lastFullIdx - g.firstFullIdx) * bs := by
    rw [hmid]
    exact length_slice (by omega)
  have hcount : mid.length / bs = g.lastFullIdx - g.firstFullIdx := by
    rw [hmidlen, Nat.mul_div_cancel _ hbs]
  refine ⟨hmidlen, hcount, ?_, fun b hb => length_of_mem_chunksOf ?_ hb⟩
  · rw [chunksExact, length_chunksOf, hcount]
    simp [midIdxs]
  · rw [hcount, hmidlen]

namespace BlockDevice

variable {σ : Type} {dev : BlockDevice σ} {contents : σ → ℕ → UInt8} {P : ℕ → Prop}
  {part : EStateM BlockDeviceError (σ × List UInt8) ℕ} {s : σ}

/-- The blocks of a range that lies inside `n` blocks are among them. -/
lemma endIdx_le {bs n off len : ℕ} (hbs : 0 < bs) (hg : g.Covers bs off len)
    (hdev : off + len ≤ n * bs) : g.endIdx ≤ n := by
  obtain ⟨p, hp, -, -⟩ := hg.cases
  have hend : p * bs < off + len := by
    rcases hg.end_eq with ⟨-, h⟩ | ⟨hpos, h⟩
    · rw [hp, add_mul] at h
      omega
    · rw [hp, Nat.add_sub_cancel] at h
      omega
  have hlt : p * bs < n * bs := lt_of_lt_of_le hend hdev
  have := lt_of_mul_lt_mul_right hlt (Nat.zero_le _)
  omega

/-! ## The parts of a read -/

/-- On a faithful device `readInto` returns the bytes of the blocks. -/
lemma Faithful.readInto_eq (hd : dev.Faithful contents) (idxs : List ℕ) (bufs : List (List UInt8))
    (hlen : idxs.length = bufs.length) (hidx : ∀ i ∈ idxs, i < dev.blockCount)
    (hbufs : ∀ b ∈ bufs, b.length = dev.blockSize) (s : σ) (buffer : List UInt8) :
    ∃ s', dev.readInto idxs bufs (s, buffer) =
        .ok (idxs.map (blockBytes dev.blockSize (contents s))) (s', buffer) ∧
      contents s' = contents s := by
  obtain ⟨s', hs', hc⟩ := hd.readBlocks_ok idxs bufs s hlen hidx hbufs
  exact ⟨s', by simp [readInto, hs'], hc⟩

/-- A part of a read puts the device's bytes at the positions of the part, leaves the other
positions of the caller's buffer alone, and returns the number of bytes it has read. -/
def ReadsPart (part : EStateM BlockDeviceError (σ × List UInt8) ℕ) (contents : σ → ℕ → UInt8)
    (off : ℕ) (P : ℕ → Prop) [DecidablePred P] (n : ℕ) (s : σ) (buffer : List UInt8) : Prop :=
  ∃ s' buffer', part (s, buffer) = .ok n (s', buffer') ∧ contents s' = contents s ∧
  buffer'.length = buffer.length ∧
    ∀ i < buffer.length, buffer'[i]? =
      if P (off + i) then some (contents s (off + i)) else buffer[i]?

/-- A part without positions may leave out the read. -/
lemma ReadsPart.skip [DecidablePred P] (hpart : part (s, buffer) = .ok 0 (s, buffer))
    (hP : ∀ x, ¬ P x) : ReadsPart part contents off P 0 s buffer := by
  refine ⟨s, buffer, hpart, rfl, rfl, ?_⟩
  intro i _
  rw [if_neg (hP _)]

/-- A part that copies `m` bytes of the device to a place of the buffer. -/
lemma ReadsPart.of_splice [DecidablePred P] {n : ℕ} {s' : σ} (start a m : ℕ)
    (hpart : part (s, buffer) = .ok n (s', splice buffer start (flatRead (contents s) a m)))
    (hc : contents s' = contents s) (ha : a = off + start) (hfit : start + m ≤ buffer.length)
    (hP : ∀ i, P (off + i) ↔ start ≤ i ∧ i < start + m) :
    ReadsPart part contents off P n s buffer := by
  have hlen : (flatRead (contents s) a m).length = m := length_flatRead _ _ _
  refine ⟨s', _, hpart, hc, length_splice (by omega), ?_⟩
  intro i hi
  rw [getElem?_splice (by omega), hlen, if_congr (hP i) rfl rfl]
  split_ifs with hin
  · rw [getElem?_flatRead _ (by omega)]
    congr 2
    omega
  · rfl

section

variable (hd : dev.Faithful contents) (hbs : 0 < dev.blockSize)
  (hg : g.Covers dev.blockSize off buffer.length)
  (hdev : off + buffer.length ≤ dev.blockCount * dev.blockSize)

include hbs hg hdev in
/-- The blocks of the range exist on the device. -/
lemma endIdx_le_blockCount : g.endIdx ≤ dev.blockCount := endIdx_le hbs hg hdev

include hbs hg hdev in
lemma midIdxs_lt_blockCount {i : ℕ} (hi : i ∈ g.midIdxs) : i < dev.blockCount := by
  have hend := endIdx_le_blockCount hbs hg hdev
  have hlast := hg.lastFullIdx_le
  have := mem_range'_1.mp hi
  omega

include hd hbs hg hdev in
/-- The batched middle blocks of a read. -/
lemma readMid_reads (s : σ) : ReadsPart (dev.readMid g off) contents off (g.InMid dev.blockSize)
      (if g.firstFullIdx < g.lastFullIdx then
        g.lastFullIdx * dev.blockSize - g.firstFullIdx * dev.blockSize else 0) s buffer := by
  unfold readMid
  split_ifs with hfull
  · -- the range of the full blocks inside the caller's buffer
    obtain ⟨hlo, hle, hhi⟩ := hg.mid_range hbs hfull
    have hmul : (g.lastFullIdx - g.firstFullIdx) * dev.blockSize =
        g.lastFullIdx * dev.blockSize - g.firstFullIdx * dev.blockSize := Nat.sub_mul _ _ _
    set start := g.firstFullIdx * dev.blockSize - off with hstart
    set mid := slice buffer start ((g.lastFullIdx - g.firstFullIdx) * dev.blockSize) with hmid
    obtain ⟨-, -, hlen, hbufs⟩ := hg.mid_chunks hbs hfull hmid
    obtain ⟨s', hs', hc⟩ :=
      hd.readInto_eq _ _ hlen (fun _ => midIdxs_lt_blockCount hbs hg hdev) hbufs s buffer
    refine ReadsPart.of_splice start (g.firstFullIdx * dev.blockSize)
      ((g.lastFullIdx - g.firstFullIdx) * dev.blockSize) ?_ hc (by omega) (by omega) ?_
    · simp only [exec_bind, exec_get, exec_modify, exec_pure, midStart_eq hfull,
        midEnd_eq hfull, ← hmul, ← hmid, ← hstart, hs']
      rw [midIdxs, flatten_blockBytes]
    · intro i
      unfold Span.InMid
      omega
  · exact ReadsPart.skip (by simp) fun _ hin => hfull hin.1

include hd hbs hg hdev in
/-- The partial first block of a read. -/
lemma readFirst_reads (s : σ) :
    ReadsPart (dev.readFirst g) contents off (g.InFirst dev.blockSize off buffer.length)
      (if g.firstFullIdx > g.startIdx ∨ g.firstFullIdx = g.lastFullIdx then
        min (dev.blockSize - g.startOffset) buffer.length else 0) s buffer := by
  have hend := endIdx_le_blockCount hbs hg hdev
  have hstart := hg.start_eq
  have hlt := hg.startIdx_lt
  unfold readFirst
  split_ifs with hfirst
  · set n := min (dev.blockSize - g.startOffset) buffer.length with hn
    have hso := hg.startOffset_lt
    obtain ⟨s', hs', hc⟩ := hd.readInto_eq [g.startIdx] [replicate dev.blockSize 0]
      rfl (by simp; omega) (by simp) s buffer
    refine ReadsPart.of_splice 0 (g.startIdx * dev.blockSize + g.startOffset) n ?_ hc
      (by omega) (by omega) ?_
    · simp only [exec_bind, exec_get, exec_modify, exec_pure, hs', map_cons, map_nil,
        flatten_cons, flatten_nil, append_nil, ← hn, blockBytes]
      rw [slice_flatRead (by omega)]
    · intro i
      unfold Span.InFirst
      omega
  · exact ReadsPart.skip (by simp) fun _ hin => hfirst hin.1

include hd hbs hg hdev in
/-- The partial last block of a read. -/
lemma readLast_reads (s : σ) : ReadsPart (dev.readLast g) contents off (g.InLast dev.blockSize)
      (if g.lastFullIdx < g.endIdx ∧ g.startIdx ≠ g.endIdx - 1 then g.endOffset else 0)
      s buffer := by
  have hend := endIdx_le_blockCount hbs hg hdev
  have hstart := hg.start_eq
  have hlt := hg.startIdx_lt
  unfold readLast
  split_ifs with hlast
  · have heo := hg.endOffset_lt
    obtain ⟨hend_eq, hle⟩ := hg.last_range hlast
    obtain ⟨s', hs', hc⟩ := hd.readInto_eq [g.endIdx - 1] [replicate dev.blockSize 0]
      rfl (by simp; omega) (by simp) s buffer
    refine ReadsPart.of_splice (buffer.length - g.endOffset) ((g.endIdx - 1) * dev.blockSize + 0)
      g.endOffset ?_ hc (by omega) (by omega) ?_
    · simp only [exec_bind, exec_get, exec_modify, exec_pure, hs', map_cons, map_nil,
        flatten_cons, flatten_nil, append_nil, blockBytes]
      rw [slice_flatRead (by omega)]
    · intro i
      unfold Span.InLast
      omega
  · exact ReadsPart.skip (by simp) fun _ hin => hlast hin.1

section

variable (hd : dev.Faithful contents)
include hd

/-- On a faithful device the provided `read` fills the buffer with the bytes of the range. -/
lemma Faithful.read_eq (hbs : 0 < dev.blockSize) (hoff : off + buffer.length < usizeBound)
    (hdev : off + buffer.length ≤ dev.blockCount * dev.blockSize) (s : σ) :
    ∃ s', dev.read off (s, buffer) =
        .ok buffer.length (s', flatRead (contents s) off buffer.length) ∧
      contents s' = contents s := by
  unfold read
  rw [if_neg hbs.ne']
  rcases buffer.length.eq_zero_or_pos with h0 | hpos
  · have hnil : buffer = [] := length_eq_zero_iff.mp h0
    subst hnil
    exact ⟨s, by simp [flatRead], rfl⟩
  · have hne : ¬ buffer.isEmpty := by
      intro h
      rw [List.isEmpty_iff.mp h] at hpos
      simp at hpos
    have hg := spanOf_covers hbs hpos hoff
    set g := spanOf dev.blockSize off buffer.length with hgdef
    obtain ⟨s₁, b₁, e₁, c₁, l₁, p₁⟩ := readMid_reads hd hbs hg hdev s
    have hg₁ : g.Covers dev.blockSize off b₁.length := l₁ ▸ hg
    obtain ⟨s₂, b₂, e₂, c₂, l₂, p₂⟩ :=
      readFirst_reads hd hbs hg₁ (by rw [l₁]; exact hdev) s₁
    have hg₂ : g.Covers dev.blockSize off b₂.length := l₂ ▸ hg₁
    obtain ⟨s₃, b₃, e₃, c₃, l₃, p₃⟩ :=
      readLast_reads hd hbs hg₂ (by rw [l₂, l₁]; exact hdev) s₂
    refine ⟨s₃, ?_, by rw [c₃, c₂, c₁]⟩
    have hb₃ : b₃ = flatRead (contents s) off buffer.length := by
      rw [eq_flatRead_iff (by rw [l₃, l₂, l₁])]
      intro i hi
      have hcov := (hg.mem_iff (off + i)).mp ⟨by omega, by omega⟩
      rw [p₃ i (by omega), p₂ i (by omega), p₁ i hi, c₂, c₁, l₁]
      rcases hcov with h | h | h
      · simp [h]
      · simp [h]
      · simp [h]
    have htotal := hg.length_eq hpos
    rw [l₁] at e₂
    simp only [exec_bind, exec_get, exec_pure, exec_ite, if_neg hne, ← hgdef, e₁, e₂,
      e₃, hb₃, htotal]

/-! ## The parts of a write -/

/-- On a faithful device `readTemp` returns the bytes of the block. -/
lemma Faithful.readTemp_eq (idx : ℕ) (hidx : idx < dev.blockCount) (s : σ) :
    ∃ s', dev.readTemp idx s = .ok (blockBytes dev.blockSize (contents s) idx) s' ∧
    contents s' = contents s := by
  obtain ⟨s', hs', hc⟩ :=
    hd.readBlocks_ok [idx] [replicate dev.blockSize 0] s rfl (by simpa using hidx) (by simp)
  exact ⟨s', by simp [readTemp, hs'], hc⟩

/-- On a faithful device a read-modify-write of one block changes only the modified bytes. -/
lemma Faithful.rmw_eq (idx start : ℕ) (src : List UInt8)
    (hidx : idx < dev.blockCount) (hsrc : start + src.length ≤ dev.blockSize) (s : σ) :
    ∃ s', dev.writeBlocks [idx] [splice (blockBytes dev.blockSize (contents s) idx) start src] s =
        .ok () s' ∧
      contents s' = flatWrite (contents s) (idx * dev.blockSize + start) src := by
  obtain ⟨s', hs', hc⟩ := hd.writeBlocks_ok [idx]
    [splice (blockBytes dev.blockSize (contents s) idx) start src] s rfl (by simpa using hidx)
    (by
      intro b hb
      rw [mem_singleton.mp hb, length_splice (by rw [blockBytes, length_flatRead]; exact hsrc),
        blockBytes, length_flatRead])
  refine ⟨s', hs', ?_⟩
  rw [hc]
  simp only [writeAll, blockBytes]
  exact flatWrite_splice_flatRead hsrc

end

/-- A part of a write stores the caller's bytes at the positions of the part, leaves all other bytes
of the device alone, and returns the number of bytes it has written. -/
def WritesPart (part : EStateM BlockDeviceError σ ℕ) (contents : σ → ℕ → UInt8) (off : ℕ)
    (buffer : List UInt8) (P : ℕ → Prop) [DecidablePred P] (n : ℕ) (s : σ) : Prop :=
  ∃ s', part s = .ok n s' ∧
  ∀ x, contents s' x = if P x then buffer[x - off]?.getD (contents s x) else contents s x

/-- A part without positions may leave out the write. -/
lemma WritesPart.skip {part : EStateM BlockDeviceError σ ℕ}
    [DecidablePred P] (hpart : part s = .ok 0 s) (hP : ∀ x, ¬ P x) :
    WritesPart part contents off buffer P 0 s :=
  ⟨s, hpart, fun x => by rw [if_neg (hP x)]⟩

/-- A part that stores `m` bytes of the buffer. -/
lemma WritesPart.of_flatWrite {part : EStateM BlockDeviceError σ ℕ}
    [DecidablePred P] {n a m : ℕ} {t : σ} (hpart : part s = .ok n t)
    (hc : contents t = flatWrite (contents s) a (slice buffer (a - off) m)) (ha : off ≤ a)
    (hfit : a + m ≤ off + buffer.length) (hP : ∀ x, P x ↔ a ≤ x ∧ x < a + m) :
    WritesPart part contents off buffer P n s := by
  refine ⟨t, hpart, fun x => ?_⟩
  rw [hc, flatWrite_slice_apply ha hfit, if_congr (hP x) rfl rfl]

include hd hbs hg hdev in
/-- The batched middle blocks of a write. -/
lemma writeMid_writes (s : σ) :
    WritesPart (dev.writeMid g off buffer) contents off buffer (g.InMid dev.blockSize)
      (if g.firstFullIdx < g.lastFullIdx then
        g.lastFullIdx * dev.blockSize - g.firstFullIdx * dev.blockSize else 0) s := by
  unfold writeMid
  split_ifs with hfull
  · obtain ⟨hlo, hle, hhi⟩ := hg.mid_range hbs hfull
    have hmul : (g.lastFullIdx - g.firstFullIdx) * dev.blockSize =
        g.lastFullIdx * dev.blockSize - g.firstFullIdx * dev.blockSize := Nat.sub_mul _ _ _
    set mid := slice buffer (g.firstFullIdx * dev.blockSize - off)
      ((g.lastFullIdx - g.firstFullIdx) * dev.blockSize) with hmid
    obtain ⟨hmidlen, hcount, hlen, hbufs⟩ := hg.mid_chunks hbs hfull hmid
    obtain ⟨s', hs', hc⟩ :=
      hd.writeBlocks_ok _ _ s hlen (fun _ => midIdxs_lt_blockCount hbs hg hdev) hbufs
    refine WritesPart.of_flatWrite (t := s') ?_ ?_ hlo (m :=
      (g.lastFullIdx - g.firstFullIdx) * dev.blockSize) (by omega) ?_
    · simp [midStart_eq hfull, midEnd_eq hfull, ← hmul, ← hmid, hs']
    · rw [hc, chunksExact, hcount, midIdxs, writeAll_chunksOf _ _ _ _ hmidlen]
    · intro x
      unfold Span.InMid
      omega
  · exact WritesPart.skip (by simp) fun _ hin => hfull hin.1

include hd hbs hg hdev in
/-- The partial first block of a write. -/
lemma writeFirst_writes (s : σ) : WritesPart (dev.writeFirst g buffer) contents off buffer
      (g.InFirst dev.blockSize off buffer.length)
      (if g.firstFullIdx > g.startIdx ∨ g.firstFullIdx = g.lastFullIdx then
        min (dev.blockSize - g.startOffset) buffer.length else 0) s := by
  have hend := endIdx_le_blockCount hbs hg hdev
  have hstart := hg.start_eq
  have hlt := hg.startIdx_lt
  have hso := hg.startOffset_lt
  unfold writeFirst
  split_ifs with hfirst
  · set n := min (dev.blockSize - g.startOffset) buffer.length with hn
    have hlen : (slice buffer 0 n).length = n := length_slice (by omega)
    obtain ⟨s₁, hs₁, hc₁⟩ := hd.readTemp_eq g.startIdx (by omega) s
    obtain ⟨s₂, hs₂, hc₂⟩ :=
      hd.rmw_eq g.startIdx g.startOffset (slice buffer 0 n) (by omega) (by omega) s₁
    refine WritesPart.of_flatWrite (t := s₂) (a := off) (m := n) ?_ ?_ le_rfl (by omega) fun x => ?_
    · rw [hc₁] at hs₂
      simp only [exec_bind, exec_pure, hs₁, hs₂]
    · rw [hc₂, hc₁, hstart, Nat.sub_self]
    · unfold Span.InFirst
      omega
  · exact WritesPart.skip (by simp) fun _ hin => hfirst hin.1

include hd hbs hg hdev in
/-- The partial last block of a write. -/
lemma writeLast_writes (s : σ) :
    WritesPart (dev.writeLast g buffer) contents off buffer (g.InLast dev.blockSize)
      (if g.lastFullIdx < g.endIdx ∧ g.startIdx ≠ g.endIdx - 1 then g.endOffset else 0) s := by
  have hend := endIdx_le_blockCount hbs hg hdev
  have hlt := hg.startIdx_lt
  unfold writeLast
  split_ifs with hlast
  · obtain ⟨hend_eq, hle⟩ := hg.last_range hlast
    have heo := hg.endOffset_lt
    set start := buffer.length - g.endOffset with hstart
    have hlen : (slice buffer start g.endOffset).length = g.endOffset := length_slice (by omega)
    obtain ⟨s₁, hs₁, hc₁⟩ := hd.readTemp_eq (g.endIdx - 1) (by omega) s
    obtain ⟨s₂, hs₂, hc₂⟩ :=
      hd.rmw_eq (g.endIdx - 1) 0 (slice buffer start g.endOffset) (by omega) (by omega) s₁
    have hz : start = (g.endIdx - 1) * dev.blockSize - off := by omega
    refine WritesPart.of_flatWrite (t := s₂) (a :=
      (g.endIdx - 1) * dev.blockSize) (m := g.endOffset)
      ?_ ?_ (by omega) (by omega) fun x => ?_
    · rw [hc₁] at hs₂
      simp only [exec_bind, exec_pure, ← hstart, hs₁, hs₂]
    · rw [hc₂, hc₁, Nat.add_zero, hz]
    · unfold Span.InLast
      omega
  · exact WritesPart.skip (by simp) fun _ hin => hlast hin.1

end

/-- On a faithful device the provided `write` stores the buffer in the bytes of the range. -/
lemma Faithful.write_eq (hd : dev.Faithful contents) (hbs : 0 < dev.blockSize)
    (hoff : off + buffer.length < usizeBound)
    (hdev : off + buffer.length ≤ dev.blockCount * dev.blockSize) (s : σ) :
    ∃ s', dev.write off buffer s = .ok buffer.length s' ∧
    contents s' = flatWrite (contents s) off buffer := by
  unfold write
  rw [if_neg hbs.ne']
  rcases buffer.length.eq_zero_or_pos with h0 | hpos
  · have hnil : buffer = [] := length_eq_zero_iff.mp h0
    subst hnil
    exact ⟨s, by simp, by simp⟩
  · have hne : ¬ buffer.isEmpty := by
      intro h
      rw [List.isEmpty_iff.mp h] at hpos
      simp at hpos
    have hg := spanOf_covers hbs hpos hoff
    rw [if_neg hne, if_neg (by omega)]
    set g := spanOf dev.blockSize off buffer.length with hgdef
    obtain ⟨s₁, e₁, p₁⟩ := writeMid_writes hd hbs hg hdev s
    obtain ⟨s₂, e₂, p₂⟩ := writeFirst_writes hd hbs hg hdev s₁
    obtain ⟨s₃, e₃, p₃⟩ := writeLast_writes hd hbs hg hdev s₂
    refine ⟨s₃, ?_, ?_⟩
    · simp only [exec_bind, exec_pure, e₁, e₂, e₃, hg.length_eq hpos]
    · funext x
      have hcov := hg.mem_iff x
      rw [p₃, p₂, p₁, flatWrite_apply]
      by_cases hin : off ≤ x ∧ x < off + buffer.length
      · obtain ⟨b, hb⟩ : ∃ b, buffer[x - off]? = some b :=
          ⟨_, getElem?_eq_getElem (by omega)⟩
        rw [if_pos hin]
        simp only [hb, getD_some]
        rcases hcov.mp hin with h | h | h
        · simp [h]
        · simp [h]
        · simp [h]
      · rw [if_neg hin]
        have hout : ¬ (g.InMid dev.blockSize x ∨ g.InFirst dev.blockSize off buffer.length x ∨
            g.InLast dev.blockSize x) := fun h => hin (hcov.mpr h)
        rw [not_or, not_or] at hout
        rw [if_neg hout.2.2, if_neg hout.2.1, if_neg hout.1]

end BlockDevice

end CabOS
