import OsRiscv.Kernel.Basic
import OsRiscv.Lib.Run

/-!
# Cache — the buffer cache of `kernel/fs/Bio.c`

The cache consists of `BCACHE_GROUP_NUM` groups of `NBUF` buffers.  A block is only ever cached in
the group `blockno & (BCACHE_GROUP_NUM - 1)`.  The circular list of a group, read from `head.next`,
is the list `order g`: the most recently released buffer comes first.

`sdRead(b->data, b->blockno, 1)` is a read of one sector of `disk`; the device number plays no part
in it.  `sdWrite` has no caller in this file: the call in `bwrite` is commented out.

A call of `bread` that finds its buffer locked sleeps in `acquiresleep`; it has not completed, and
the model returns `none` for it.
-/

namespace OsRiscv
namespace Bio

open Lib

variable {δ : Type*}

/-- `NBUF` -/
def nbuf : Nat := 16

/-- `BCACHE_GROUP_NUM` -/
def bcacheGroupNum : Nat := 1024

/-- `struct buf`, with the two fields of its sleep lock that the code reads. -/
structure Buf (δ : Type*) where
  valid : Bool
  dev : Nat
  blockno : Nat
  locked : Bool
  tid : Nat
  refcnt : Nat
  data : δ

/-- `&bcache[p.1].buf[p.2]` -/
abbrev BufPtr := Nat × Nat

structure Bcache (δ : Type*) where
  buf : BufPtr → Buf δ
  order : Nat → List BufPtr
  disk : Nat → δ

namespace Bcache

def setBuf (c : Bcache δ) (p : BufPtr) (b : Buf δ) : Bcache δ :=
  { c with buf := Function.update c.buf p b }

end Bcache

/-- `blockno & (BCACHE_GROUP_NUM - 1)` -/
def groupOf (blockno : Nat) : Nat := blockno &&& (bcacheGroupNum - 1)

/-- `binit`: every buffer is inserted at the head of its group.  The buffers are in zeroed memory. -/
def binit (disk : Nat → δ) (zero : δ) : Bcache δ :=
  { buf := fun _ =>
      { valid := false, dev := 0, blockno := 0, locked := false, tid := 0, refcnt := 0, data := zero }
    order := fun g => ((List.range nbuf).map fun i => (g, i)).reverse
    disk := disk }

/-! ## `bget` -/

/-- `b->dev == dev && b->blockno == blockno` -/
def carries (c : Bcache δ) (dev blockno : Nat) (p : BufPtr) : Bool :=
  (c.buf p).dev = dev ∧ (c.buf p).blockno = blockno

/-- The first loop of `bget`: the first buffer of the group that carries `(dev, blockno)`.  The
parameter `int dev` is negative for device numbers from `2 ^ 31` on, and the loop is skipped. -/
def lookup (c : Bcache δ) (dev blockno : Nat) : Option BufPtr :=
  if dev < 2 ^ 31 then
    (c.order (groupOf blockno)).find? (carries c dev blockno)
  else
    none

/-- The second loop of `bget`, backwards from `head.prev`: the least recently released buffer that
nobody refers to. -/
def victim (c : Bcache δ) (blockno : Nat) : Option BufPtr :=
  (c.order (groupOf blockno)).reverse.find? fun p => (c.buf p).refcnt = 0

/-- `acquiresleep(&b->lock)` of a buffer that is not locked. -/
def acquiresleep (tid : Nat) (b : Buf δ) : Kernel (Buf δ) :=
  if b.locked then none else some { b with locked := true, tid := tid }

def bget (c : Bcache δ) (tid dev blockno : Nat) : Kernel (BufPtr × Bcache δ) :=
  match lookup c dev blockno with
  | some p => do
      let b ← acquiresleep tid { c.buf p with refcnt := (c.buf p).refcnt + 1 }
      return (p, c.setBuf p b)
  | none =>
    match victim c blockno with
    | some p => do
        let b ← acquiresleep tid
          { c.buf p with dev := dev, blockno := blockno, valid := false, refcnt := 1 }
        return (p, c.setBuf p b)
    | none => none

/-! ## The interface -/

def bread (c : Bcache δ) (tid dev blockno : Nat) : Kernel (BufPtr × Bcache δ) := do
  let (p, c') ← bget c tid dev blockno
  let b := c'.buf p
  if b.valid then
    return (p, c')
  else
    return (p, c'.setBuf p { b with data := c'.disk b.blockno, valid := true })

/-- `holdingsleep(&b->lock)` -/
def holdingsleep (tid : Nat) (b : Buf δ) : Bool := b.locked && b.tid == tid

/-- `bwrite` checks the lock and does nothing else. -/
def bwrite (c : Bcache δ) (tid : Nat) (p : BufPtr) : Kernel (Bcache δ) :=
  if holdingsleep tid (c.buf p) then some c else none

/-- Unlink `p` and insert it behind the head of group `g`. -/
def moveToFront (order : Nat → List BufPtr) (g : Nat) (p : BufPtr) : Nat → List BufPtr :=
  fun k => if k = g then p :: (order k).erase p else (order k).erase p

def brelse (c : Bcache δ) (tid : Nat) (p : BufPtr) : Kernel (Bcache δ) :=
  if holdingsleep tid (c.buf p) then
    let b := { c.buf p with locked := false, tid := 0, refcnt := (c.buf p).refcnt - 1 }
    let c' := c.setBuf p b
    if b.refcnt = 0 then
      some { c' with order := moveToFront c'.order (groupOf b.blockno) p }
    else
      some c'
  else
    none

/-! ## The system: one device, used by any threads

`content` is a history variable: for each block the result of its last modification, or what the
device held if there was none. -/

structure Sys (δ : Type*) where
  cache : Bcache δ
  content : Nat → δ

inductive Op (δ : Type*)
  | bread (tid blockno : Nat)
  /-- The holder `tid` of `p` changes the data in place to `d` and calls `bwrite`. -/
  | modify (tid : Nat) (p : BufPtr) (d : δ)
  | brelse (tid : Nat) (p : BufPtr)

def step (dev : Nat) (s : Sys δ) : Op δ → Kernel (Sys δ)
  | .bread tid blockno => do
      let (_, c) ← bread s.cache tid dev blockno
      return { s with cache := c }
  | .modify tid p d => do
      let c ← bwrite (s.cache.setBuf p { s.cache.buf p with data := d }) tid p
      return { cache := c, content := Function.update s.content (c.buf p).blockno d }
  | .brelse tid p => do
      let c ← brelse s.cache tid p
      return { s with cache := c }

def init (disk : Nat → δ) (zero : δ) : Sys δ :=
  { cache := binit disk zero, content := disk }

end Bio
end OsRiscv
