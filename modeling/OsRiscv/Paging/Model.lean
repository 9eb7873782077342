import OsRiscv.Kernel.Basic
import OsRiscv.Lib.Radix

/-!
# Model — page tables and the pages they are made of

The functions of `kernel/memory/Page.c` on page tables, with the macros of `Page.h` and `MemoryConfig.h`.

A page is named by its physical address.  Of the memory only whole pages are used, as 512 words each; a
pointer to a table entry is a page and an index.  `pages[]` is the counter `ref` of each page, and `freePages`
is a list of pages.  The end of the list is a `panic`.
-/

namespace OsRiscv
namespace Paging

open Lib.Radix (write)

abbrev Word := BitVec 64

/-! ## `Page.h` -/

def pteValid : Word := 1
def pteRead : Word := 2
def pteWrite : Word := 4
def pteExecute : Word := 8
def pteUser : Word := 16
def pteAccessed : Word := 64
def pteDirty : Word := 128
def pteCow : Word := 256

/-- `(1ull << 54) - (1ull << 10)`, the bits of a table entry that hold the page -/
def paMask : Word := 0x3ffffffffffc00

def pte2Perm (pte : Word) : Word := pte &&& ~~~paMask
def pte2Pa (pte : Word) : Word := ((pte &&& paMask) >>> 10) <<< 12
def pa2Pte (pa : Word) : Word := (pa >>> 12) <<< 10

/-- `x & PTE_VALID`, and the same for the other bits -/
def has (pte bit : Word) : Bool := pte &&& bit != 0

instance neZero_512 : NeZero 512 := ⟨nofun⟩

/-- `GET_PAGE_TABLE_INDEX`; `Fin.ofNat 512` is the mask `0x1ff`. -/
def getPageTableIndex (va : Word) (level : Nat) : Fin 512 := Fin.ofNat 512 (va >>> (12 + 9 * level)).toNat

/-- `DOWN_ALIGN(x, PAGE_SIZE)` -/
def downAlign (x : Word) : Word := x &&& ~~~0xfff

def physicalAddressBase : Word := 0x80000000
def physicalMemoryTop : Word := 0x90000000

/-- `IS_RAM` -/
def isRam (pa : Word) : Bool := physicalAddressBase ≤ pa && pa < physicalMemoryTop

/-- `MAXVA` -/
def maxVa : Nat := 2 ^ 38

/-! ## Pages -/

structure Mem where
  word : Word → Fin 512 → Word
  ref : Word → BitVec 32
  freePages : List Word

/-- A pointer to an entry of a table. -/
abbrev Ptr := Word × Fin 512

namespace Mem

/-- `*ptr` -/
def load (m : Mem) (ptr : Ptr) : Word := m.word ptr.1 ptr.2

/-- `*ptr = e` -/
def store (m : Mem) (ptr : Ptr) (e : Word) : Mem := { m with word := write m.word ptr.1 ptr.2 e }

def setRef (m : Mem) (page : Word) (n : BitVec 32) : Mem := { m with ref := Function.update m.ref page n }

end Mem

/-- `pageAlloc`: the first free page, zeroed. -/
def pageAlloc (m : Mem) : Kernel (Word × Mem) :=
  match m.freePages with
  | [] => none
  | page :: rest => some (page, { m with freePages := rest, word := Function.update m.word page fun _ => 0 })

def pageFree (m : Mem) (page : Word) : Mem :=
  if m.ref page = 0 then { m with freePages := page :: m.freePages } else m

/-! ## Tables -/

/-- One level of `pageWalk`: the table behind an entry.  `!(*addr) & PTE_VALID` holds when the entry is 0. -/
def walkLevel (m : Mem) (addr : Ptr) (create : Bool) : Kernel (Option Word × Mem) :=
  if m.load addr = 0 then
    if create then do
      let (pp, m) ← pageAlloc m
      let m := m.store addr (pa2Pte pp ||| pteValid)
      let m := m.setRef pp (m.ref pp + 1)
      return (some (pte2Pa (m.load addr)), m)
    else return (none, m)
  else return (some (pte2Pa (m.load addr)), m)

/-- `pageWalk`, with what it stores in `*pte`. -/
def pageWalk (m : Mem) (pgdir va : Word) (create : Bool) : Kernel (Option Ptr × Mem) := do
  match ← walkLevel m (pgdir, getPageTableIndex va 2) create with
  | (none, m) => return (none, m)
  | (some table, m) =>
    match ← walkLevel m (table, getPageTableIndex va 1) create with
    | (none, m) => return (none, m)
    | (some table, m) => return (some (table, getPageTableIndex va 0), m)

/-- `pageWalk` without `create`, which writes nothing. -/
def entryOf (m : Mem) (pgdir va : Word) : Option Ptr := (pageWalk m pgdir va false).bind Prod.fst

/-- `pageLookup`: the page and the entry, or nothing when it returns 0 and leaves `*pte` as it was. -/
def pageLookup (m : Mem) (pgdir va : Word) : Option (Word × Ptr) :=
  match entryOf m pgdir va with
  | none => none
  | some entry => if has (m.load entry) pteValid then some (pte2Pa (m.load entry), entry) else none

/-- `pageRemove`; without a page `pte` is not initialised, but then `pa` is 0 and the call returns -1. -/
def pageRemove (m : Mem) (pgdir va : Word) : Int × Mem :=
  match pageLookup m pgdir va with
  | none => (-1, m)
  | some (pa, pte) =>
    if isRam pa then
      let m := m.setRef pa (m.ref pa - 1)
      let m := pageFree m pa
      (0, m.store pte 0)
    else (-1, m)

/-- The first part of `pageInsert`: a mapping that is there is removed. -/
def dropMapping (m : Mem) (pgdir va : Word) : Mem :=
  match entryOf m pgdir va with
  | none => m
  | some pte => if has (m.load pte) pteValid then (pageRemove m pgdir va).2 else m

def pageInsert (m : Mem) (pgdir va pa perm : Word) : Kernel Mem := do
  let va := downAlign va
  let pa := downAlign pa
  let perm := perm ||| pteAccessed ||| pteDirty
  let m := dropMapping m pgdir va
  match ← pageWalk m pgdir va true with
  | (none, _) => none
  | (some pte, m) =>
    let m := m.store pte (pa2Pte pa ||| perm ||| pteValid)
    return if isRam pa then m.setRef pa (m.ref pa + 1) else m

def allocPgdir (m : Mem) : Kernel (Word × Mem) := do
  let (page, m) ← pageAlloc m
  return (page, m.setRef page (m.ref page + 1))

/-! ## The end of a table -/

/-- `paDecreaseRef`; the assertion fails unless the count reaches 0. -/
def paDecreaseRef (m : Mem) (pa : Word) : Kernel Mem :=
  let m := m.setRef pa (m.ref pa - 1)
  if m.ref pa = 0 then some { m with freePages := pa :: m.freePages } else none

/-- `(i << 30) | (j << 21) | (k << 12)` -/
def addressOf (i j k : Fin 512) : Word :=
  (BitVec.ofNat 64 i <<< 30) ||| (BitVec.ofNat 64 j <<< 21) ||| (BitVec.ofNat 64 k <<< 12)

/-- The inner loop of `pgdirFree`, over the entries of one table of leaves. -/
def freeLeaves (pgdir pa2 : Word) (i j : Fin 512) : List (Fin 512) → Mem → Mem
  | [], m => m
  | k :: ks, m =>
    if has (m.word pa2 k) pteValid then freeLeaves pgdir pa2 i j ks (pageRemove m pgdir (addressOf i j k)).2
    else freeLeaves pgdir pa2 i j ks m

/-- The middle loop; after the inner one it clears `pa2[j]`, an entry of the table of leaves. -/
def freeTables (pgdir pa : Word) (i : Fin 512) (js : List (Fin 512)) (m : Mem) : Kernel Mem :=
  js.foldlM (fun m j =>
    if has (m.word pa j) pteValid then
      let pa2 := pte2Pa (m.word pa j)
      let m := freeLeaves pgdir pa2 i j (List.finRange 512) m
      paDecreaseRef (m.store (pa2, j) 0) pa2
    else some m) m

def pgdirFree (m : Mem) (pgdir : Word) : Kernel Mem := do
  let m ← (List.finRange 512).foldlM (fun m i =>
    if has (m.word pgdir i) pteValid then do
      let pa := pte2Pa (m.word pgdir i)
      let m ← freeTables pgdir pa i (List.finRange 512) m
      paDecreaseRef m pa
    else some m) m
  paDecreaseRef m pgdir

/-! ## Copy on write -/

/-- How the kernel stops. -/
inductive Stop
  | panic
  | nullDereference
  deriving DecidableEq, Repr

def orPanic {α : Type} : Kernel α → Except Stop α
  | some x => .ok x
  | none => .error .panic

/-- `bcopy` of a whole page -/
def copyPage (m : Mem) (src dst : Word) : Mem := { m with word := Function.update m.word dst (m.word src) }

/-- `cowHandler`; a `pte` that `pageLookup` does not set is a null pointer. -/
def cowHandler (m : Mem) (pgdir badAddr : Word) : Except Stop (Word × Mem) :=
  match pageLookup m pgdir badAddr with
  | none => .error .nullDereference
  | some (_, pte) =>
    if has (m.load pte) pteCow then do
      let (page, m) ← orPanic (pageAlloc m)
      let (pa, pte) := (pageLookup m pgdir badAddr).getD (0, pte)
      let m := copyPage m pa page
      let perm := (pte2Perm (m.load pte) ||| pteWrite) &&& ~~~pteCow
      let m ← orPanic (pageInsert m pgdir badAddr page perm)
      return (page + (badAddr &&& 0xfff), m)
    else .error .panic

end Paging
end OsRiscv
