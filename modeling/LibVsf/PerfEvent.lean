import LibVsf.Lib.RingBuffer
import LibVsf.Lib.Runs

/-!
# `perf_event`: the buffer of events

`utils/perf_event.cpp`. A page with the header is followed by pages of data, to which the kernel
writes a stream of bytes as to a ring; `data_head` and `data_tail` are positions in the stream. The
program reads and skips, and the kernel may go on while it does.

An offset is one into the data; the memory goes on behind the pages.
-/

namespace LibVsf

namespace PerfEvent

/-- The pages of a buffer. -/
structure Pages where
  pageSize : Nat
  pageNum : Nat
  exp : Nat
  /-- The data area is a power of two. -/
  area_eq : pageNum * pageSize = 2 ^ exp
  pageSize_lt : pageSize < 4294967296
  pageNum_lt : pageNum < 2147483648

def Pages.area (p : Pages) : Nat := p.pageNum * p.pageSize

/-- `struct perf_event_mmap_page` and the data, with all that the kernel has written so far. -/
structure Ring (β : Type*) where
  dataHead : Nat := 0
  dataTail : Nat := 0
  mem : Nat → β
  written : List β := []

/-- What the kernel does: it writes bytes, and it lets the program see more of them. -/
inductive Produce (β : Type*) where
  | write (bs : List β)
  | advance (n : Nat)

namespace Ring

variable {β : Type*} (p : Pages)

def produce (s : Ring β) : Produce β → Ring β
  | .write bs =>
    { s with
      mem := RingBuffer.put p.area s.mem s.written.length bs
      written := s.written ++ bs }
  | .advance n => { s with dataHead := (s.dataHead + n) % 18446744073709551616 }

/-! ## `mmap_buffer_read` -/

/-- `page_num * page_size - 1`, of `unsigned int`s. -/
def mask : Nat := (((p.pageNum * p.pageSize : Nat) - 1 : Int) % 4294967296).toNat

/-- `(page_num + 1) * page_size`. -/
def mmapLen : Nat := (p.pageNum + 1) * p.pageSize % 4294967296

/-- A difference of `uint64_t`s. -/
def difference (a b : Nat) : Nat := (((a : Int) - b) % 18446744073709551616).toNat

def ncopies (dataTail : Nat) : Nat := difference (mmapLen p) dataTail

/-- The offsets that `memcpy` reads, one byte after the other. -/
def offsets (dataTail size : Nat) : List Nat :=
  if ncopies p dataTail < size then
    (List.range (ncopies p dataTail)).map (fun i => dataTail + i) ++
      List.range (size - ncopies p dataTail)
  else (List.range size).map fun i => dataTail + i

/-- What is copied, and from where. -/
structure Copied (β : Type*) where
  bytes : List β
  offsets : List Nat

/-- `mmap_buffer_read`; the kernel goes on after the header was read. -/
def mmapBufferRead (s : Ring β) (size : Nat) (meanwhile : List (Produce β)) :
    Ring β × Option (Copied β) :=
  let dataTail := s.dataTail
  let dataHead := s.dataHead
  let s := meanwhile.foldl (produce p) s
  if difference dataHead dataTail < size then (s, none)
  else
    let dataTail := dataTail &&& mask p
    ({ s with dataTail := (s.dataTail + size) % 18446744073709551616 },
      some ⟨(offsets p dataTail size).map s.mem, offsets p dataTail size⟩)

/-! ## `mmap_buffer_skip` -/

/-- `mmap_buffer_skip`. The difference to the head is assigned to an `int`. -/
def mmapBufferSkip (s : Ring β) (size : Int) (meanwhile : List (Produce β)) : Ring β :=
  let dataHead := s.dataHead
  let s := meanwhile.foldl (produce p) s
  let size :=
    if (dataHead : Int) < (s.dataTail + size) % 18446744073709551616 then
      (difference dataHead s.dataTail : Int).bmod 4294967296
    else size
  { s with dataTail := ((s.dataTail + size) % 18446744073709551616).toNat }

/-! ## Runs -/

inductive Op (β : Type*) where
  | produce (e : Produce β)
  | read (size : Nat) (meanwhile : List (Produce β))
  | skip (size : Int) (meanwhile : List (Produce β))

def step (s : Ring β) : Op β → Ring β
  | .produce e => s.produce p e
  | .read size meanwhile => (s.mmapBufferRead p size meanwhile).1
  | .skip size meanwhile => s.mmapBufferSkip p size meanwhile

end Ring

end PerfEvent

end LibVsf
