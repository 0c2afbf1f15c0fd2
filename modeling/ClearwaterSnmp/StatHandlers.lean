import ClearwaterSnmp.AlarmIdentifier
import ClearwaterSnmp.OidTree
import Mathlib.Algebra.Ring.Int.Defs

namespace ClearwaterSnmp
open Std

/-! ## The C library -/

/-- The value of an `int` that holds the low 32 bits of `n`. -/
def toInt32 (n : ℤ) : ℤ := n.bmod (2 ^ 32)

/-- `strtol` in base ten: a 64-bit result, the nearest one on overflow. -/
def strtol (input : List Char) : ℤ :=
  let (negative, rest) := scanSign (input.dropWhile isSpace)
  let value : ℤ := digitsValue (rest.takeWhile Char.isDigit)
  if negative then max (-2 ^ 63) (-value) else min (2 ^ 63 - 1) value

def atoi (s : String) : ℤ := toInt32 (strtol (cStr s))

/-- `inet_pton`, for the two address families. -/
structure InetPton where
  v4 : List Char → Option (Vector UInt8 4)
  v6 : List Char → Option (Vector UInt8 16)

/-! ## OIDs of internet addresses -/

/-- `OIDInetAddr`, by its type. -/
inductive OidInetAddr
  | unknown
  | ipv4 (addr : Vector UInt8 4)
  | ipv6 (addr : Vector UInt8 16)
deriving DecidableEq

namespace OidInetAddr

/-- `setAddr` -/
def setAddr (inet : InetPton) (addrStr : String) : OidInetAddr :=
  match inet.v4 (cStr addrStr) with
  | some addr => .ipv4 addr
  | none =>
    match inet.v6 (cStr addrStr) with
    | some addr => .ipv6 addr
    | none => .unknown

def isValid : OidInetAddr → Bool
  | unknown => false
  | _ => true

/-- `toOIDBytes`: the type, the length and the octets. -/
def toOidBytes : OidInetAddr → List ℕ
  | unknown => []
  | ipv4 addr => 1 :: 4 :: addr.toList.map UInt8.toNat
  | ipv6 addr => 2 :: 16 :: addr.toList.map UInt8.toNat

end OidInetAddr

/-- `append` of an `int`, which becomes an `unsigned long`. -/
def Oid.appendInt (o : Oid) (x : ℤ) : Oid := o ++ [(x % 2 ^ 64).toNat]

/-- `append` of an address. -/
def Oid.appendAddr (o : Oid) (addr : OidInetAddr) : Oid := o ++ addr.toOidBytes

/-! ## What handlers do to the tree -/

/-- A call of one of the operations that change an `OIDTree`. -/
inductive TreeCall
  | set (key : Oid) (value : ℤ)
  | remove (key : Oid)
  | removeSubtree (rootOid : Oid)
  | replaceSubtree (rootOid : Oid) (update : OidMap)

def TreeCall.apply (t : OidTree) : TreeCall → OidTree
  | set key value => t.set key value
  | remove key => t.remove key
  | removeSubtree rootOid => t.removeSubtree rootOid
  | replaceSubtree rootOid update => t.replaceSubtree rootOid update

/-- The parts of a multipart message, at least two of them: the name of the
statistic and its status. -/
abbrev Message := List String

/-- `BareStatHandler::handle` -/
def bareStatHandle (rootOid : Oid) : Message → List TreeCall
  | _ :: _ :: value :: _ => [.set rootOid (atoi value)]
  | _ => []

/-- The handlers of a single number make one entry, or none from a short message. -/
def singleEntryHandle (suffix : Oid) (rootOid : Oid) : Message → List TreeCall
  | _ :: _ :: value :: _ =>
    [.replaceSubtree rootOid ((∅ : OidMap).insert (rootOid ++ suffix) (atoi value))]
  | _ => [.removeSubtree rootOid]

/-- `SingleNumberStatHandler::handle` -/
def singleNumberStatHandle (rootOid : Oid) : Message → List TreeCall :=
  singleEntryHandle [0] rootOid

/-- `SingleNumberWithScopeStatHandler::handle` -/
def singleNumberWithScopeStatHandle (rootOid : Oid) : Message → List TreeCall :=
  singleEntryHandle [1, 2] rootOid

/-- `AccumulatedWithCountStatHandler::handle`. The high-water mark comes after the
low-water mark in the message and before it in the tree. -/
def accumulatedWithCountStatHandle (rootOid : Oid) : Message → List TreeCall
  | _ :: _ :: average :: variance :: lwm :: hwm :: count :: _ =>
    [.replaceSubtree rootOid ((∅ : OidMap)
      |>.insertIfNew (rootOid ++ [1, 2]) (atoi average)
      |>.insertIfNew (rootOid ++ [1, 3]) (atoi variance)
      |>.insertIfNew (rootOid ++ [1, 4]) (atoi hwm)
      |>.insertIfNew (rootOid ++ [1, 5]) (atoi lwm)
      |>.insertIfNew (rootOid ++ [1, 6]) (atoi count))]
  | _ => [.removeSubtree rootOid]

/-- The loop of `IPCountStatHandler::handle`, from `it_ip` on. The second of the two
increments in `it_ip++++` is made to a copy, so the iterators move on by one field. -/
def ipCountLoop (inet : InetPton) (rootOid : Oid) : List String → OidMap → OidMap
  | ip :: val :: rest, newSubtree =>
    let oidAddr := OidInetAddr.setAddr inet ip
    ipCountLoop inet rootOid (val :: rest)
      (if oidAddr.isValid then
        newSubtree.insert ((rootOid ++ [1, 3]).appendAddr oidAddr) (atoi val)
      else newSubtree)
  | _, newSubtree => newSubtree

/-- `IPCountStatHandler::handle` -/
def ipCountStatHandle (inet : InetPton) (rootOid : Oid) (msgs : Message) : List TreeCall :=
  [.replaceSubtree rootOid (ipCountLoop inet rootOid (msgs.drop 2) ∅)]

/-- `AstaireGlobalStatHandler::handle` -/
def astaireGlobalStatHandle (rootOid : Oid) : Message → List TreeCall
  | _ :: _ :: needing :: resynchronized :: entries :: data :: bandwidth :: _ =>
    [.set (rootOid ++ [1, 0]) (atoi needing),
      .set (rootOid ++ [2, 0]) (atoi resynchronized),
      .set (rootOid ++ [3, 0]) (atoi entries),
      .set (rootOid ++ [4, 0]) (atoi data),
      .set (rootOid ++ [5, 1, 2, 1]) (atoi bandwidth)]
  | _ =>
    [.remove (rootOid ++ [1, 0]), .remove (rootOid ++ [2, 0]), .remove (rootOid ++ [3, 0]),
      .remove (rootOid ++ [4, 0]), .remove (rootOid ++ [5, 1, 2, 1])]

/-! ## The connections of Astaire -/

/-- `msgs[k]`, with no result where there is no such field. -/
def fieldAt (msgs : Message) (k : ℤ) : Option String := if k < 0 then none else msgs[k.toNat]?

/-- The three maps that `AstaireConnectionStatHandler::handle` fills. -/
structure ConnectionTrees where
  connectionTree : OidMap
  bucketTree : OidMap
  bucketBandwidthTree : OidMap

namespace ConnectionTrees

def empty : ConnectionTrees := ⟨∅, ∅, ∅⟩

/-- The OID of a field of a connection, or of a bucket if `indices` goes on with the
identity of one. -/
def fieldOid (baseOid : Oid) (column : ℕ) (oidAddr : OidInetAddr) (indices : List ℤ) : Oid :=
  indices.foldl Oid.appendInt ((baseOid ++ [column]).appendAddr oidAddr)

def setConnection (rootOid : Oid) (oidAddr : OidInetAddr) (port needing resynchronized : ℤ)
    (trees : ConnectionTrees) : ConnectionTrees :=
  { trees with
    connectionTree := trees.connectionTree
      |>.insert (fieldOid (rootOid ++ [6, 1]) 4 oidAddr [port]) needing
      |>.insert (fieldOid (rootOid ++ [6, 1]) 5 oidAddr [port]) resynchronized }

def setBucket (rootOid : Oid) (oidAddr : OidInetAddr) (port bucketId entries data bandwidth : ℤ)
    (trees : ConnectionTrees) : ConnectionTrees :=
  { trees with
    bucketTree := trees.bucketTree
      |>.insert (fieldOid (rootOid ++ [7, 1]) 5 oidAddr [port, bucketId]) entries
      |>.insert (fieldOid (rootOid ++ [7, 1]) 6 oidAddr [port, bucketId]) data
    bucketBandwidthTree := trees.bucketBandwidthTree
      |>.insert (fieldOid (rootOid ++ [8, 1]) 6 oidAddr [port, bucketId, 1]) bandwidth }

/-- The replacement of the three tables. -/
def calls (rootOid : Oid) (trees : ConnectionTrees) : List TreeCall :=
  [.replaceSubtree (rootOid ++ [6, 1]) trees.connectionTree,
    .replaceSubtree (rootOid ++ [7, 1]) trees.bucketTree,
    .replaceSubtree (rootOid ++ [8, 1]) trees.bucketBandwidthTree]

end ConnectionTrees

section Astaire

variable (inet : InetPton) (rootOid : Oid) (msgs : Message)

/-- The loop over the buckets of a connection, for less than the given number of
rounds: the field after them and what they set, or no result if a field is missing. -/
def bucketLoop (oidAddr : OidInetAddr) (port endBuckets : ℤ) :
    ℕ → ℤ → ConnectionTrees → Option (ℤ × ConnectionTrees)
  | 0, _, _ => none
  | rounds + 1, ii, trees =>
    if ii < endBuckets then do
      let bucketId := atoi (← fieldAt msgs ii)
      let entries := atoi (← fieldAt msgs (ii + 1))
      let data := atoi (← fieldAt msgs (ii + 2))
      let bandwidth := atoi (← fieldAt msgs (ii + 3))
      bucketLoop oidAddr port endBuckets rounds (toInt32 (ii + 4))
        (trees.setBucket rootOid oidAddr port bucketId entries data bandwidth)
    else some (ii, trees)

/-- The loop over the connections, for less than the given number of rounds. It
stops at a connection with too few fields, an invalid address or too few fields for
its buckets, and keeps what was set before. -/
def connectionLoop : ℕ → ℤ → ConnectionTrees → Option ConnectionTrees
  | 0, _, _ => none
  | rounds + 1, ii, trees =>
    let size := toInt32 msgs.length
    if ii < size then
      if toInt32 (ii + 5) ≤ size then do
        let oidAddr := OidInetAddr.setAddr inet (← fieldAt msgs ii)
        let port := atoi (← fieldAt msgs (ii + 1))
        if oidAddr.isValid then do
          let needing := atoi (← fieldAt msgs (ii + 2))
          let resynchronized := atoi (← fieldAt msgs (ii + 3))
          let trees := trees.setConnection rootOid oidAddr port needing resynchronized
          let numBuckets := atoi (← fieldAt msgs (ii + 4))
          let ii := toInt32 (ii + 5)
          let endBuckets := toInt32 (ii + toInt32 (numBuckets * 4))
          if endBuckets ≤ size then do
            let (ii, trees) ← bucketLoop rootOid msgs oidAddr port endBuckets (msgs.length + 1) ii
              trees
            connectionLoop rounds ii trees
          else some trees
        else some trees
      else some trees
    else some trees

/-- `AstaireConnectionStatHandler::handle`. Each round takes at least five fields. -/
def astaireConnectionStatHandle : List TreeCall :=
  (connectionLoop inet rootOid msgs (msgs.length + 1) 2 .empty).elim []
    (ConnectionTrees.calls rootOid)

end Astaire

/-! ## Handlers -/

inductive HandlerKind
  | ipCount
  | bare
  | singleNumber
  | singleNumberWithScope
  | accumulatedWithCount
  | astaireGlobal
  | astaireConnection
deriving DecidableEq, Repr

/-- A `ZMQMessageHandler`. -/
structure StatHandler where
  kind : HandlerKind
  rootOid : Oid
deriving DecidableEq, Repr

namespace StatHandler

/-- `handle`: the calls it makes on the tree, in their order. -/
def handle (inet : InetPton) (h : StatHandler) (msgs : Message) : List TreeCall :=
  match h.kind with
  | .ipCount => ipCountStatHandle inet h.rootOid msgs
  | .bare => bareStatHandle h.rootOid msgs
  | .singleNumber => singleNumberStatHandle h.rootOid msgs
  | .singleNumberWithScope => singleNumberWithScopeStatHandle h.rootOid msgs
  | .accumulatedWithCount => accumulatedWithCountStatHandle h.rootOid msgs
  | .astaireGlobal => astaireGlobalStatHandle h.rootOid msgs
  | .astaireConnection => astaireConnectionStatHandle inet h.rootOid msgs

/-- The tree after a message has been handled. -/
def process (inet : InetPton) (h : StatHandler) (msgs : Message) (t : OidTree) : OidTree :=
  (h.handle inet msgs).foldl TreeCall.apply t

end StatHandler
end ClearwaterSnmp
