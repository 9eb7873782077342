import OsRiscv.Files.Table
import OsRiscv.Lib.Ring

/-!
# Model — `kernel/fs/Socket.c`

Sockets of the local host: a table of sockets over the file table of `Files`, whose field `socketUsed`
is `sockets[i].used`.  A connection is nothing but two sockets whose addresses match:
`remote_find_peer_socket` looks for the peer anew in every call.

A `connect` ends in `sleep`; the model has the call up to there, and the value that it returns when it
is woken.  A call that waits by turning the `ecall` back has no effect and no value.  The padding of
`SocketAddr`, the lock and the process of a socket are left out.

`client` and `gen` of a request, and `gen`, `conns`, `enqueued` and `accepted`, are history variables:
who made the request, how often a socket has been allocated, the connections made, and the requests
queued and delivered at each socket since it was allocated.
-/

namespace OsRiscv
namespace Net

open Function (update)
open Lib
open Files (socketCount)

def pendingCount : Nat := 128

structure SocketAddr where
  family : UInt16
  port : UInt16
  addr : UInt32
  deriving DecidableEq, Repr

/-- An entry of `pending_queue`. -/
structure Request where
  addr : SocketAddr
  client : Nat
  gen : Nat
  deriving DecidableEq, Repr

/-- `struct Socket`, with the page at `getSocketBufferBase`.  `head` and `tail` have 64 bits. -/
structure Socket where
  addr : SocketAddr
  targetAddr : SocketAddr
  head : Nat
  tail : Nat
  buffer : Nat → UInt8
  pendingQueue : Nat → Request
  pendingH : Nat
  pendingT : Nat
  listening : Bool

/-- An `accept` that took the request of a client and created a socket for it. -/
structure Conn where
  client : Nat
  clientGen : Nat
  server : Nat
  serverGen : Nat
  deriving DecidableEq, Repr

structure Host where
  files : Files.Sys
  socket : Nat → Socket
  /-- the `local_port` of `gen_local_socket_addr` -/
  localPort : Nat
  gen : Nat → Nat
  conns : List Conn
  enqueued : Nat → List Request
  accepted : Nat → List Request

inductive Panic
  | files (r : Files.Panic)
  | nullPointer
  | assertion
  /-- signed overflow of `pending_t` -/
  | overflow
  deriving DecidableEq, Repr

abbrev NCall := Call Host Panic

/-- A call on the file table. -/
def onFiles {α : Type} (x : Files.KCall α) : NCall α := fun n =>
  match x n.files with
  | .done a s => .done a { n with files := s }
  | .panic r s => .panic (.files r) { n with files := s }

def setSocket (i : Nat) (v : Socket) : NCall Unit :=
  Call.modify fun n => { n with socket := update n.socket i v }

namespace Host

def used (n : Host) (i : Nat) : Bool := n.files.socketUsed i

/-- The socket that was allocated as number `g` of slot `i` is open. -/
def isOpen (n : Host) (i g : Nat) : Bool := n.used i && n.gen i == g

end Host

/-! ## Creation -/

/-- What `socketAlloc` resets. -/
def cleared (v : Socket) : Socket :=
  { v with head := 0, tail := 0, buffer := fun _ => 0, pendingH := 0, pendingT := 0, listening := false }

def socketAlloc : NCall (Option Nat) := do
  match ← onFiles Files.socketAlloc with
  | none => return none
  | some i =>
    Call.modify fun n => { n with
      socket := update n.socket i (cleared (n.socket i))
      gen := update n.gen i (n.gen i + 1)
      enqueued := update n.enqueued i []
      accepted := update n.accepted i [] }
    return some i

def createSocket (p : Nat) (family : UInt16) : NCall Int := do
  let f ← onFiles Files.filealloc
  match ← socketAlloc with
  | none => Call.panic (.files .noSocket)
  | some i =>
    let n ← Call.get
    setSocket i { n.socket i with
      addr := { (n.socket i).addr with family := family }, pendingH := 0, pendingT := 0,
      listening := false }
    match f with
    | none => Call.panic .nullPointer
    | some f => onFiles (Files.installSocket p f i)

/-- The socket behind a descriptor, as all calls find it. -/
def socketOf (p : Nat) (fd : Int) : NCall Nat := do
  let n ← Call.get
  match Files.argfd n.files p fd with
  | none => Call.panic .nullPointer
  | some f =>
    if (n.files.file f).type ≠ .socket then
      Call.panic .assertion
    else
      return (n.files.file f).socket

def bindSocket (p : Nat) (fd : Int) (sa : SocketAddr) : NCall Int := do
  let i ← socketOf p fd
  let n ← Call.get
  if (n.socket i).addr.family ≠ sa.family then
    Call.panic .assertion
  else do
    setSocket i { n.socket i with addr := { (n.socket i).addr with addr := sa.addr, port := sa.port } }
    return 0

def listen (p : Nat) (fd : Int) : NCall Int := do
  let i ← socketOf p fd
  let n ← Call.get
  setSocket i { n.socket i with listening := true }
  return 0

/-! ## Connections -/

/-- The test of `remote_find_peer_socket`: `b` is at the target of `a` and has the port of `a` as its
target. -/
def isPeer (a b : Socket) : Bool :=
  b.addr.family == a.targetAddr.family && b.addr.port == a.targetAddr.port &&
    b.targetAddr.port == a.addr.port

def remoteFindPeerSocket (n : Host) (i : Nat) : Option Nat :=
  (List.range socketCount).find? fun j => n.used j && isPeer (n.socket i) (n.socket j)

def remoteFindListeningSocket (n : Host) (addr : SocketAddr) : Option Nat :=
  (List.range socketCount).find? fun j =>
    n.used j && (n.socket j).addr.family == addr.family && (n.socket j).addr.port == addr.port &&
      (n.socket j).listening

/-- `gen_local_socket_addr`: 127.0.0.1, and the port truncated to 16 bits. -/
def genLocalSocketAddr (localPort : Nat) : SocketAddr :=
  { family := 2, port := UInt16.ofNat localPort, addr := 0x7F000001 }

/-- The first part of `connect`: the client gets a local address and its target. -/
def setOut (n : Host) (i : Nat) (addr : SocketAddr) : Host :=
  { n with
    socket := update n.socket i
      { n.socket i with addr := genLocalSocketAddr n.localPort, targetAddr := addr }
    localPort := n.localPort + 1 }

/-- `pending_queue[(pending_t++) % PENDING_COUNT] = addr` -/
def pushRequest (v : Socket) (r : Request) : Socket :=
  { v with
    pendingQueue := update v.pendingQueue (v.pendingT % pendingCount) r
    pendingT := v.pendingT + 1 }

def connect (p : Nat) (sockfd : Int) (addr : SocketAddr) : NCall Int := do
  let i ← socketOf p sockfd
  Call.modify fun n => setOut n i addr
  let n ← Call.get
  match remoteFindListeningSocket n addr with
  | none => return -1
  | some l =>
    if (n.socket l).pendingT - (n.socket l).pendingH = pendingCount then
      return -1
    else if (n.socket l).pendingT = 2 ^ 31 - 1 then
      Call.panic .overflow
    else do
      let r := { addr := (n.socket i).addr, client := i, gen := n.gen i }
      setSocket l (pushRequest (n.socket l) r)
      Call.modify fun n => { n with enqueued := update n.enqueued l (n.enqueued l ++ [r]) }
      return 0

/-- The history of an `accept` at `l` that took the request `r` and created the socket `s`. -/
def noteAccept (l : Nat) (r : Request) (s : Nat) (fd : Int) (n : Host) : Host :=
  { n with
    conns := if n.isOpen r.client r.gen then
        ⟨r.client, r.gen, s, n.gen s⟩ :: n.conns
      else n.conns
    accepted := if 0 ≤ fd then update n.accepted l (n.accepted l ++ [r]) else n.accepted }

/-- `accept`, with the address it stores. -/
def accept (p : Nat) (sockfd : Int) : NCall (Int × Option SocketAddr) := do
  let l ← socketOf p sockfd
  let n ← Call.get
  if (n.socket l).pendingH = (n.socket l).pendingT then
    return (-11, none)
  else do
    let r := (n.socket l).pendingQueue ((n.socket l).pendingH % pendingCount)
    setSocket l { n.socket l with pendingH := (n.socket l).pendingH + 1 }
    match ← socketAlloc with
    | none => Call.panic (.files .noSocket)
    | some s =>
      let n ← Call.get
      setSocket s { n.socket s with addr := (n.socket l).addr, targetAddr := r.addr }
      match ← onFiles Files.filealloc with
      | none => Call.panic .assertion
      | some f => do
          let fd ← onFiles (Files.installSocket p f s)
          Call.modify (noteAccept l r s fd)
          return (fd, some r.addr)

def close (p : Nat) (fd : Int) : NCall Int := onFiles (Files.syscallClose p fd)

/-! ## Bytes -/

/-- Subtraction of 64-bit numbers. -/
def sub64 (a b : Nat) : Nat := (a + 2 ^ 64 - b) % 2 ^ 64

/-- The bytes that `strncpy(s, t, n)` writes: up to the first zero byte it copies, then it fills with
zeros. -/
def strncpy : List UInt8 → Nat → List UInt8
  | _, 0 => []
  | [], n + 1 => List.replicate (n + 1) 0
  | t :: ts, n + 1 => if t = 0 then List.replicate (n + 1) 0 else t :: strncpy ts n

/-- `num` of `sendTo` -/
def sendNum (v : Socket) (len : Nat) : Nat := min (sub64 pageSize (sub64 v.tail v.head)) len

/-- The number of bytes up to the end of the page. -/
def untilEnd (counter num : Nat) : Nat := min num (pageSize - counter % pageSize)

/-- The receiving socket after `sendTo`. -/
def pushBytes (v : Socket) (buf : List UInt8) (num : Nat) : Socket :=
  let len1 := untilEnd v.tail num
  let buffer := overlay v.buffer (v.tail % pageSize) (strncpy buf len1)
  let buffer := if len1 < num then overlay buffer 0 (strncpy (buf.drop len1) (num - len1)) else buffer
  { v with buffer := buffer, tail := (v.tail + num) % 2 ^ 64 }

/-- `sendTo`; `none` is a call that waits.  Without a peer the index of `sockets` is garbage. -/
def sendTo (i : Nat) (buf : List UInt8) (len : Nat) : NCall (Option Nat) := do
  let n ← Call.get
  match remoteFindPeerSocket n i with
  | none => Call.panic .nullPointer
  | some j =>
    let num := sendNum (n.socket j) len
    if num = 0 then
      return none
    else do
      setSocket j (pushBytes (n.socket j) buf num)
      return some num

/-- `num` of `receiveFrom` -/
def receiveNum (v : Socket) (len : Nat) : Nat := min len (sub64 v.tail v.head)

/-- The bytes that `receiveFrom` copies to the user. -/
def pulledBytes (v : Socket) (num : Nat) : List UInt8 :=
  let len1 := untilEnd v.head num
  slice v.buffer (v.head % pageSize) len1 ++ if len1 < num then slice v.buffer 0 (num - len1) else []

/-- `receiveFrom`, with the bytes copied; `none` is a call that waits. -/
def receiveFrom (i len : Nat) : NCall (Option (List UInt8)) := do
  let n ← Call.get
  let num := receiveNum (n.socket i) len
  if num = 0 then
    return none
  else do
    setSocket i { n.socket i with head := ((n.socket i).head + num) % 2 ^ 64 }
    return some (pulledBytes (n.socket i) num)

/-! ## Boot -/

/-- `sockets` is zeroed memory. -/
def bootSocket : Socket where
  addr := ⟨0, 0, 0⟩
  targetAddr := ⟨0, 0, 0⟩
  head := 0
  tail := 0
  buffer := fun _ => 0
  pendingQueue := fun _ => ⟨⟨0, 0, 0⟩, 0, 0⟩
  pendingH := 0
  pendingT := 0
  listening := false

/-- No socket is in use; `p` is the first process. -/
def boot (p : Nat) : Host where
  files := Files.init p fun _ => false
  socket := fun _ => bootSocket
  localPort := 10000
  gen := fun _ => 0
  conns := []
  enqueued := fun _ => []
  accepted := fun _ => []

/-! ## Runs -/

inductive Act
  | socket (p : Nat) (family : UInt16)
  | bind (p : Nat) (fd : Int) (sa : SocketAddr)
  | listen (p : Nat) (fd : Int)
  | connect (p : Nat) (fd : Int) (addr : SocketAddr)
  | accept (p : Nat) (fd : Int)
  | close (p : Nat) (fd : Int)

/-- The call, with the value it returns. -/
def call : Act → NCall Int
  | .socket p family => createSocket p family
  | .bind p fd sa => bindSocket p fd sa
  | .listen p fd => listen p fd
  | .connect p fd addr => connect p fd addr
  | .accept p fd => do
      let (r, _) ← accept p fd
      return r
  | .close p fd => close p fd

def step (n : Host) (a : Act) : Option Host := (call a n).toOption.map Prod.snd

/-- A server socket on port 80, a client that connects to it, and the `accept`: the sockets 1 and 2
are connected. -/
def pairActs : List Act :=
  [.socket 0 2, .bind 0 0 ⟨2, 80, 0⟩, .listen 0 0, .socket 0 2, .connect 0 1 ⟨2, 80, 0⟩, .accept 0 0]

end Net
end OsRiscv
