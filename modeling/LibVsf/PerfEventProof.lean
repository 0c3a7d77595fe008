import LibVsf.PerfEvent

/-!
# `perf_event`: reading the stream

**The invariant** (`Sound`): the tail does not pass the head, the head not what is written, and the
memory keeps what was written from the tail on. The kernel writes to cells that were read, so it
keeps the invariant at any time, also while the program reads.

A read takes the part of the area behind the tail for as long as the area and the page of the
header together. It is the stream exactly as far as that part is not left: `Straight`.

Main result, `reads_stream`: in every run in which no read that succeeds passes the end of the
area, each read gives its piece of the stream from within the area, and the tail stays behind the
head. A read that passes the end does not (`not_reads_stream_wrapped`).
-/

namespace LibVsf

namespace PerfEvent

open RingBuffer

namespace Ring

variable {β : Type*} (p : Pages)

/-! ## What is promised, and what is needed -/

/-- The kernel overwrites no byte that was not read, and shows no byte that it did not write. -/
def Produces (s : Ring β) : Produce β → Prop
  | .write bs => s.written.length + bs.length ≤ s.dataTail + p.area
  | .advance n => s.dataHead + n ≤ s.written.length

/-- Positions in the stream are numbers of 64 bits. -/
def Countable (s : Ring β) : Produce β → Prop
  | .write bs => s.written.length + bs.length < 18446744073709551616
  | .advance _ => True

/-- The kernel keeps to this, also while the program reads; sizes are not negative. -/
def Promised (s : Ring β) : Op β → Prop
  | .produce e => Produces p s e
  | .read _ meanwhile => Runs.Along (produce p) (Produces p) s meanwhile
  | .skip size meanwhile =>
    0 ≤ size ∧ size ≤ 2147483647 ∧ Runs.Along (produce p) (Produces p) s meanwhile

/-- A piece of the area that a read takes right: it does not pass the end. In an area of 4 GiB and
more, positions are cut off to 32 bits, and a read from the first page ends there. -/
def Straight (offset size : Nat) : Prop :=
  offset + size ≤ p.area ∧ (4294967296 ≤ p.area →
    offset < 4294967296 ∧ (offset + size ≤ p.pageSize ∨ p.pageSize < offset))

/-- What a step needs. -/
def Meets (s : Ring β) : Op β → Prop
  | .produce e => Countable s e
  | .read size meanwhile =>
    Runs.Along (produce p) Countable s meanwhile ∧
      (size ≤ s.dataHead - s.dataTail → Straight p (s.dataTail % p.area) size)
  | .skip size meanwhile =>
    Runs.Along (produce p) Countable s meanwhile ∧ s.dataTail + size < 18446744073709551616

/-- What a step is to do: a read gives its piece of the stream and touches the area only, or
changes nothing. -/
def Right (s : Ring β) : Op β → Prop
  | .produce _ => True
  | .read size meanwhile =>
    (size ≤ s.dataHead - s.dataTail →
      ∃ c, (s.mmapBufferRead p size meanwhile).2 = some c ∧
        c.bytes = (s.written.drop s.dataTail).take size ∧
        (∀ offset ∈ c.offsets, offset < p.area) ∧
        (s.mmapBufferRead p size meanwhile).1.dataTail = s.dataTail + size) ∧
      (s.dataHead - s.dataTail < size →
        s.mmapBufferRead p size meanwhile = (meanwhile.foldl (produce p) s, none))
  | .skip _ _ => True

/-! ## The invariant -/

structure Sound (s : Ring β) : Prop where
  tail_le : s.dataTail ≤ s.dataHead
  head_le : s.dataHead ≤ s.written.length
  written_le : s.written.length ≤ s.dataTail + p.area
  written_lt : s.written.length < 18446744073709551616
  keeps : Keeps p.area s.mem s.written s.dataTail

variable {p} {s : Ring β}

/-- **What the kernel does** keeps the invariant. -/
theorem Sound.produce (h : Sound p s) {e : Produce β} (hproduces : Produces p s e)
    (hcountable : Countable s e) : Sound p (s.produce p e) := by
  have hhead := h.head_le
  have htail := h.tail_le
  have hlt := h.written_lt
  cases e with
  | write bs =>
    exact
      { tail_le := htail
        head_le := by simp [Ring.produce]; omega
        written_le := by simpa [Ring.produce, Produces] using hproduces
        written_lt := by simpa [Ring.produce, Countable] using hcountable
        keeps := keeps_put h.keeps hproduces }
  | advance n =>
    have hle : s.dataHead + n ≤ s.written.length := hproduces
    have hmod : (s.dataHead + n) % 18446744073709551616 = s.dataHead + n :=
      Nat.mod_eq_of_lt (by omega)
    exact
      { tail_le := by simp only [Ring.produce, hmod]; omega
        head_le := by simpa only [Ring.produce, hmod] using hle
        written_le := h.written_le
        written_lt := hlt
        keeps := h.keeps }

/-- What the kernel does while the program reads: more is written, and the tail stays. -/
structure After (p : Pages) (s s' : Ring β) : Prop where
  sound : Sound p s'
  tail_eq : s'.dataTail = s.dataTail
  head_le : s.dataHead ≤ s'.dataHead
  starts : s.written <+: s'.written

theorem Sound.after (h : Sound p s) {meanwhile : List (Produce β)}
    (hproduces : Runs.Along (Ring.produce p) (Produces p) s meanwhile)
    (hcountable : Runs.Along (Ring.produce p) Countable s meanwhile) :
    After p s (meanwhile.foldl (Ring.produce p) s) := by
  induction meanwhile generalizing s with
  | nil => exact ⟨h, rfl, Nat.le_refl _, List.prefix_rfl⟩
  | cons e meanwhile ih =>
    have hone := h.produce hproduces.1 hcountable.1
    have hrest := ih hone hproduces.2 hcountable.2
    have hhead : s.dataHead ≤ (s.produce p e).dataHead := by
      cases e with
      | write bs => exact Nat.le_refl _
      | advance n =>
        have hle : s.dataHead + n ≤ s.written.length := hproduces.1
        have hlt := h.written_lt
        have hmod : (s.dataHead + n) % 18446744073709551616 = s.dataHead + n :=
          Nat.mod_eq_of_lt (by omega)
        simp only [Ring.produce, hmod]
        omega
    have htail : (s.produce p e).dataTail = s.dataTail := by
      cases e <;> rfl
    have hstarts : s.written <+: (s.produce p e).written := by
      cases e with
      | write bs => exact List.prefix_append _ _
      | advance n => exact List.prefix_rfl
    exact ⟨hrest.sound, hrest.tail_eq.trans htail, hhead.trans hrest.head_le,
      hstarts.trans hrest.starts⟩

/-! ## Offsets -/

theorem two_pow_cases (exp : Nat) : 2 ^ exp ≤ 2147483648 ∨ 4294967296 ∣ 2 ^ exp := by
  by_cases hexp : exp ≤ 31
  · exact .inl (Nat.pow_le_pow_right (by decide) hexp)
  · exact .inr (Nat.pow_dvd_pow 2 (by omega : 32 ≤ exp))

/-- **The mask** takes the offset of a position. -/
theorem and_mask {dataTail : Nat}
    (h : 4294967296 ≤ p.area → dataTail % p.area < 4294967296) :
    dataTail &&& mask p = dataTail % p.area := by
  have harea : p.area = 2 ^ p.exp := p.area_eq
  have hpos : 0 < 2 ^ p.exp := Nat.two_pow_pos _
  rw [harea] at h
  rw [mask, p.area_eq, harea]
  rcases two_pow_cases p.exp with hsmall | hdvd
  · have hmask : (((2 ^ p.exp : Nat) - 1 : Int) % 4294967296).toNat = 2 ^ p.exp - 1 := by omega
    rw [hmask, Nat.and_two_pow_sub_one_eq_mod]
  · have hlarge : 4294967296 ≤ 2 ^ p.exp := Nat.le_of_dvd hpos hdvd
    have hmask : (((2 ^ p.exp : Nat) - 1 : Int) % 4294967296).toNat = 2 ^ 32 - 1 := by
      obtain ⟨k, hk⟩ := hdvd
      omega
    rw [hmask, Nat.and_two_pow_sub_one_eq_mod, ← Nat.mod_mod_of_dvd _ hdvd]
    exact Nat.mod_eq_of_lt (h hlarge)

theorem pageSize_le_area (p : Pages) : p.pageSize ≤ p.area := by
  have hpos : 0 < p.pageNum * p.pageSize := p.area_eq ▸ Nat.two_pow_pos p.exp
  exact Nat.le_mul_of_pos_left _ (Nat.pos_of_mul_pos_right hpos)

theorem area_lt (p : Pages) : p.area < 9223372036854775808 :=
  calc p.area ≤ p.pageNum * 4294967296 := Nat.mul_le_mul_left _ p.pageSize_lt.le
    _ < 2147483648 * 4294967296 := Nat.mul_lt_mul_of_pos_right p.pageNum_lt (by decide)

/-- A piece that is straight is not split, or nothing is before the split. -/
theorem ncopies_straight {offset size : Nat} (h : Straight p offset size) :
    size ≤ ncopies p offset ∨ (offset = 0 ∧ ncopies p offset = 0) := by
  obtain ⟨hend, hlarge⟩ := h
  have hpage := pageSize_le_area p
  have harea := area_lt p
  have hlen : mmapLen p = (p.area + p.pageSize) % 4294967296 := by
    rw [mmapLen, Nat.succ_mul]
    rfl
  have hsize := p.pageSize_lt
  rw [ncopies, difference, hlen]
  rcases two_pow_cases p.exp with hsmall | hdvd
  · rw [← p.area_eq] at hsmall
    change p.area ≤ 2147483648 at hsmall
    omega
  · have hpos : 0 < 2 ^ p.exp := Nat.two_pow_pos _
    have hle := Nat.le_of_dvd hpos hdvd
    rw [← p.area_eq] at hle hdvd
    obtain ⟨hoffset, hfirst⟩ := hlarge hle
    obtain ⟨k, hk⟩ := hdvd
    change p.area = 4294967296 * k at hk
    omega

/-- **A piece that is straight** is copied in a row. -/
theorem offsets_straight {offset size : Nat} (h : Straight p offset size) :
    offsets p offset size = (List.range size).map fun i => offset + i := by
  rw [offsets]
  rcases ncopies_straight h with hall | ⟨rfl, hnone⟩
  · rw [if_neg (not_lt.2 hall)]
  · rw [hnone]
    split_ifs
    · simp
    · rfl

/-! ## Steps -/

theorem Sound.difference_eq (h : Sound p s) :
    difference s.dataHead s.dataTail = s.dataHead - s.dataTail := by
  have htail := h.tail_le
  have hhead := h.head_le
  have hlt := h.written_lt
  rw [difference]
  omega

/-- A read that finds too few bytes. -/
theorem mmapBufferRead_short (h : Sound p s) {size : Nat} (hshort : s.dataHead - s.dataTail < size)
    (meanwhile : List (Produce β)) :
    s.mmapBufferRead p size meanwhile = (meanwhile.foldl (Ring.produce p) s, none) := by
  rw [mmapBufferRead]
  simp only [h.difference_eq, hshort, if_true]

/-- **A read** of a straight piece. -/
theorem mmapBufferRead_straight (h : Sound p s) {size : Nat} {meanwhile : List (Produce β)}
    (hafter : After p s (meanwhile.foldl (Ring.produce p) s))
    (hsize : size ≤ s.dataHead - s.dataTail) (hstraight : Straight p (s.dataTail % p.area) size) :
    s.mmapBufferRead p size meanwhile =
      ({ meanwhile.foldl (Ring.produce p) s with dataTail := s.dataTail + size },
        some ⟨(s.written.drop s.dataTail).take size,
          (List.range size).map fun i => s.dataTail % p.area + i⟩) := by
  have htail := h.tail_le
  have hhead := h.head_le
  have hlt := h.written_lt
  have hnot : ¬ s.dataHead - s.dataTail < size := not_lt.2 hsize
  have hmask : s.dataTail &&& mask p = s.dataTail % p.area :=
    and_mask fun hlarge => (hstraight.2 hlarge).1
  have hmod : (s.dataTail + size) % 18446744073709551616 = s.dataTail + size :=
    Nat.mod_eq_of_lt (by omega)
  have hlength : s.written.length ≤ (meanwhile.foldl (Ring.produce p) s).written.length :=
    hafter.starts.length_le
  have hcells : (cells p.area s.dataTail size).map (meanwhile.foldl (Ring.produce p) s).mem =
      ((meanwhile.foldl (Ring.produce p) s).written.drop s.dataTail).take size :=
    map_cells hafter.sound.keeps hafter.tail_eq.le (by omega)
  rw [cells_straight hstraight.1] at hcells
  have hslice : ((meanwhile.foldl (Ring.produce p) s).written.drop s.dataTail).take size =
      (s.written.drop s.dataTail).take size := by
    obtain ⟨more, hmore⟩ := hafter.starts
    rw [← hmore, List.drop_append_of_le_length (by omega), List.take_append_of_le_length]
    rw [List.length_drop]
    omega
  rw [mmapBufferRead]
  simp only [h.difference_eq, hnot, if_false, hmask, offsets_straight hstraight, hafter.tail_eq,
    hmod, hcells, hslice]

/-- The tail moves on, not past the head. -/
theorem Sound.setTail (h : Sound p s) {dataTail : Nat} (hle : s.dataTail ≤ dataTail)
    (hhead : dataTail ≤ s.dataHead) : Sound p { s with dataTail := dataTail } where
  tail_le := hhead
  head_le := h.head_le
  written_le := h.written_le.trans (Nat.add_le_add_right hle _)
  written_lt := h.written_lt
  keeps := h.keeps.mono hle

/-- **A skip** goes to the head at most. -/
theorem mmapBufferSkip_eq (h : Sound p s) {size : Nat} {meanwhile : List (Produce β)}
    (hafter : After p s (meanwhile.foldl (Ring.produce p) s)) (hint : size ≤ 2147483647)
    (hlt : s.dataTail + size < 18446744073709551616) :
    s.mmapBufferSkip p size meanwhile =
      { meanwhile.foldl (Ring.produce p) s with
        dataTail := min (s.dataTail + size) s.dataHead } := by
  have htail := h.tail_le
  have hsum : ((s.dataTail : Int) + size) % 18446744073709551616 = (s.dataTail + size : Nat) := by
    omega
  rw [mmapBufferSkip]
  simp only [hafter.tail_eq, hsum, Int.ofNat_lt]
  by_cases hpast : s.dataHead < s.dataTail + size
  · have hunread : (((s.dataHead - s.dataTail : Nat) : Int).bmod 4294967296) =
        (s.dataHead - s.dataTail : Nat) := Int.bmod_eq_of_le (by omega) (by omega)
    have hnew : (((s.dataTail : Int) + (s.dataHead - s.dataTail : Nat)) %
        18446744073709551616).toNat = min (s.dataTail + size) s.dataHead := by
      omega
    rw [if_pos hpast, h.difference_eq, hunread, hnew]
  · have hnew : ((s.dataTail + size : Nat) : Int).toNat = min (s.dataTail + size) s.dataHead := by
      omega
    rw [if_neg hpast, hsum, hnew]

theorem Sound.read (h : Sound p s) {size : Nat} {meanwhile : List (Produce β)}
    (hpromised : Promised p s (.read size meanwhile)) (hmeets : Meets p s (.read size meanwhile)) :
    Sound p (s.step p (.read size meanwhile)) := by
  have hafter := h.after hpromised hmeets.1
  by_cases hsize : size ≤ s.dataHead - s.dataTail
  · have htail := h.tail_le
    have hhead := hafter.head_le
    rw [Ring.step, mmapBufferRead_straight h hafter hsize (hmeets.2 hsize)]
    exact hafter.sound.setTail (by rw [hafter.tail_eq]; omega) (by omega)
  · rw [Ring.step, mmapBufferRead_short h (not_le.1 hsize)]
    exact hafter.sound

theorem Sound.skip (h : Sound p s) {size : Int} {meanwhile : List (Produce β)}
    (hpromised : Promised p s (.skip size meanwhile)) (hmeets : Meets p s (.skip size meanwhile)) :
    Sound p (s.mmapBufferSkip p size meanwhile) := by
  obtain ⟨hnonneg, hint, hproduces⟩ := hpromised
  obtain ⟨hcountable, hlt⟩ := hmeets
  obtain ⟨n, rfl⟩ := Int.eq_ofNat_of_zero_le hnonneg
  have hafter := h.after hproduces hcountable
  have htail := h.tail_le
  have hhead := hafter.head_le
  rw [mmapBufferSkip_eq h hafter (by omega) (by omega)]
  exact hafter.sound.setTail (by rw [hafter.tail_eq]; omega) (by omega)

/-- **A step** that meets the condition keeps the invariant. -/
theorem Sound.step (h : Sound p s) {op : Op β} (hpromised : Promised p s op)
    (hmeets : Meets p s op) : Sound p (s.step p op) := by
  cases op with
  | produce e => exact h.produce hpromised hmeets
  | read size meanwhile => exact h.read hpromised hmeets
  | skip size meanwhile => exact h.skip hpromised hmeets

/-- **A read** that meets the condition is right. -/
theorem Sound.right (h : Sound p s) {op : Op β} (hpromised : Promised p s op)
    (hmeets : Meets p s op) : Right p s op := by
  cases op with
  | produce e => trivial
  | read size meanwhile =>
    refine ⟨fun hsize => ?_, fun hshort => mmapBufferRead_short h hshort meanwhile⟩
    have hafter := h.after hpromised hmeets.1
    have hstraight := hmeets.2 hsize
    rw [mmapBufferRead_straight h hafter hsize hstraight]
    refine ⟨_, rfl, rfl, fun offset hoffset => ?_, rfl⟩
    obtain ⟨i, hi, rfl⟩ := List.mem_map.1 hoffset
    have hlt := List.mem_range.1 hi
    have hend := hstraight.1
    omega
  | skip size meanwhile => trivial

/-! ## Runs -/

theorem sound_init (p : Pages) (mem : Nat → β) : Sound p { mem := mem } where
  tail_le := Nat.le_refl _
  head_le := Nat.le_refl _
  written_le := Nat.zero_le _
  written_lt := Nat.succ_pos _
  keeps := keeps_nil

/-- What a run is to do: the tail stays behind the head, and every step is right. -/
structure Reads (p : Pages) (s : Ring β) (ops : List (Op β)) : Prop where
  tail_le : Runs.Holds (Ring.step p) (fun s => s.dataTail ≤ s.dataHead) s ops
  right : Runs.Along (Ring.step p) (Right p) s ops

/-- **The stream is read** in every run in which no read passes the end of the area. -/
theorem reads_stream (p : Pages) (mem : Nat → β) {ops : List (Op β)}
    (hpromised : Runs.Along (Ring.step p) (Promised p) { mem := mem } ops)
    (hmeets : Runs.Along (Ring.step p) (Meets p) { mem := mem } ops) :
    Reads p { mem := mem } ops := by
  have hsound := sound_init p mem
  generalize ({ mem := mem } : Ring β) = s at *
  induction ops generalizing s with
  | nil => exact ⟨(Runs.holds_nil _).2 hsound.tail_le, trivial⟩
  | cons op ops ih =>
    have hstep := hsound.step hpromised.1 hmeets.1
    have hrest := ih _ hpromised.2 hmeets.2 hstep
    exact ⟨(Runs.holds_cons _).2 ⟨hsound.tail_le, hrest.tail_le⟩,
      hsound.right hpromised.1 hmeets.1, hrest.right⟩

/-- A buffer with a page of data. -/
def onePage : Pages where
  pageSize := 4096
  pageNum := 1
  exp := 12
  area_eq := rfl
  pageSize_lt := by decide
  pageNum_lt := by decide

/-- Bytes are written, read and skipped. -/
def fewOps : List (Op Nat) :=
  [.produce (.write [1, 2, 3, 4, 5]), .read 3 [.advance 4], .read 3 [], .skip 9 [.advance 1]]

theorem reads_stream_fewOps : Reads onePage { mem := fun _ => 0 } fewOps := by
  refine reads_stream onePage _ ?_ ?_
  · simp [fewOps, Runs.Along, Promised, Produces, onePage, Pages.area, Ring.step, Ring.produce,
      mmapBufferRead, difference]
  · simp [fewOps, Runs.Along, Meets, Countable, Straight, onePage, Pages.area, Ring.step,
      Ring.produce, mmapBufferRead, difference]

/-- Six bytes before the end of the area, and a read of ten. -/
def wrappedOps : List (Op Nat) :=
  [.produce (.write (List.replicate 4090 0)), .produce (.advance 4090), .skip 4090 [],
    .produce (.write (List.replicate 10 0)), .produce (.advance 10), .read 10 []]

theorem promised_wrappedOps :
    Runs.Along (Ring.step onePage) (Promised onePage) { mem := fun _ => 0 } wrappedOps := by
  simp [-List.reduceReplicate, wrappedOps, Runs.Along, Promised, Produces, onePage, Pages.area,
    Ring.step, Ring.produce, mmapBufferSkip]

/-- A read of ten bytes from six before the end of the area. -/
theorem mmapBufferRead_wrapped {s : Ring Nat} (hhead : s.dataHead = 4100)
    (htail : s.dataTail = 4090) :
    (s.mmapBufferRead onePage 10 []).2 =
      some ⟨(offsets onePage 4090 10).map s.mem, offsets onePage 4090 10⟩ := by
  have hmask : 4090 &&& mask onePage = 4090 := by decide
  simp only [mmapBufferRead, List.foldl_nil, hhead, htail, hmask]
  rfl

/-- A read that passes the end of the area reads what is behind it. -/
theorem not_reads_stream_wrapped :
    ¬ ∀ (p : Pages) (mem : Nat → Nat) (ops : List (Op Nat)),
      Runs.Along (Ring.step p) (Promised p) { mem := mem } ops → Reads p { mem := mem } ops := by
  intro h
  obtain ⟨-, -, -, -, -, -, hread, -⟩ := h onePage _ wrappedOps promised_wrappedOps
  generalize hs : Ring.step onePage _ (.produce (.advance 10)) = s at hread
  have hhead : s.dataHead = 4100 := by
    rw [← hs]
    simp [-List.reduceReplicate, Ring.step, Ring.produce, mmapBufferSkip]
  have htail : s.dataTail = 4090 := by
    rw [← hs]
    simp [-List.reduceReplicate, Ring.step, Ring.produce, mmapBufferSkip]
  obtain ⟨c, hc, -, hinside, -⟩ := hread.1 (by omega)
  obtain rfl := Option.some.inj ((mmapBufferRead_wrapped hhead htail).symm.trans hc)
  have hbehind : 4096 ∈ offsets onePage 4090 10 := by decide
  exact absurd (hinside 4096 hbehind) (by decide)

end Ring

end PerfEvent

end LibVsf
