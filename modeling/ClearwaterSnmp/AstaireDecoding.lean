import ClearwaterSnmp.IdentifierExactness
import ClearwaterSnmp.StatIsolation

namespace ClearwaterSnmp
open Std

/-! ## Numbers in decimal -/

theorem toInt32_of_lt {n : ℤ} (h : 0 ≤ n) (hlt : n < 2 ^ 31) : toInt32 n = n := by
  unfold toInt32
  apply Int.bmod_eq_of_le_mul_two <;> omega

theorem toInt32_emod (n : ℤ) : toInt32 n % 2 ^ 32 = n % 2 ^ 32 := Int.bmod_emod

theorem toInt32_lt (n : ℤ) : toInt32 n < 2 ^ 31 := Int.bmod_lt (by decide)

theorem digitsValue_toDigits (n : ℕ) : digitsValue (Nat.toDigits 10 n) = n :=
  Nat.ofDigitChars_ten_toDigits

theorem toNat_ne_zero_of_isDigit {c : Char} (h : c.isDigit = true) : c.toNat ≠ 0 := by
  rintro h0
  have hlow : 48 ≤ c.toNat := by
    simp only [Char.isDigit, Bool.and_eq_true, decide_eq_true_eq] at h
    exact h.1
  omega

theorem strtol_digits {digits : List Char} (hd : ∀ c ∈ digits, c.isDigit = true)
    (hlt : digitsValue digits < 2 ^ 63) : strtol digits = digitsValue digits := by
  have hspace : digits.dropWhile isSpace = digits := by
    cases digits with
    | nil => rfl
    | cons c cs => simp [not_isSpace_of_isDigit (hd c List.mem_cons_self)]
  have hsign : scanSign digits = (false, digits) := by
    apply scanSign_append .absent
    intro c hc
    exact hd c (List.mem_of_mem_head? hc)
  have htake : digits.takeWhile Char.isDigit = digits := List.takeWhile_eq_self_iff.mpr hd
  simp only [strtol, hspace, hsign, htake]
  exact min_eq_right (by omega)

theorem isDigit_of_mem_digits {n : ℕ} {c : Char} (hc : c ∈ Nat.toDigits 10 n) :
    c.isDigit = true := Nat.isDigit_of_mem_toDigits (by decide) (by decide) hc

/-- `atoi` truncates what `strtol` reads. -/
theorem atoi_repr_of_lt {n : ℕ} (h : n < 2 ^ 63) : atoi (Nat.repr n) = toInt32 n := by
  have hc : cStr (Nat.repr n) = Nat.toDigits 10 n := by
    rw [cStr, Nat.toList_repr]
    apply List.takeWhile_eq_self_iff.mpr
    intro c hc
    simpa using toNat_ne_zero_of_isDigit (isDigit_of_mem_digits hc)
  have hv := digitsValue_toDigits n
  rw [atoi, hc, strtol_digits (fun _ => isDigit_of_mem_digits) (by omega), hv]

/-- `atoi` reads a non-negative `int` back. -/
theorem atoi_repr {n : ℕ} (h : n < 2 ^ 31) : atoi (Nat.repr n) = n := by
  rw [atoi_repr_of_lt (by omega)]
  exact toInt32_of_lt (by omega) (by omega)

/-! ## Headers -/

namespace Astaire

variable (inet : InetPton) (rootOid : Oid) (msgs : Message)

/-- What `AstaireConnectionStatHandler::handle` reads of a connection before its buckets. -/
structure Header where
  oidAddr : OidInetAddr
  port : ℤ
  needing : ℤ
  resynchronized : ℤ
  numBuckets : ℤ
deriving DecidableEq

/-- The header at the field `ii`, if the handler gets as far as the number of buckets. -/
def headerAt (ii : ℤ) : Option Header :=
  if ii < toInt32 msgs.length ∧ toInt32 (ii + 5) ≤ toInt32 msgs.length then do
    let oidAddr := OidInetAddr.setAddr inet (← fieldAt msgs ii)
    let port := atoi (← fieldAt msgs (ii + 1))
    if oidAddr.isValid then do
      let needing := atoi (← fieldAt msgs (ii + 2))
      let resynchronized := atoi (← fieldAt msgs (ii + 3))
      let numBuckets := atoi (← fieldAt msgs (ii + 4))
      some ⟨oidAddr, port, needing, resynchronized, numBuckets⟩
    else none
  else none

namespace Header

/-- `end_buckets`, computed in 32 bits. -/
def endBuckets (h : Header) (ii : ℤ) : ℤ := toInt32 (toInt32 (ii + 5) + toInt32 (h.numBuckets * 4))

/-- The field after the buckets, over the integers. -/
def target (h : Header) (ii : ℤ) : ℤ := ii + 5 + 4 * h.numBuckets

def setConnection (h : Header) (trees : ConnectionTrees) : ConnectionTrees :=
  trees.setConnection rootOid h.oidAddr h.port h.needing h.resynchronized

/-- The loop over the buckets of the connection at `ii`. -/
def bucketLoop (h : Header) (ii : ℤ) (trees : ConnectionTrees) : Option (ℤ × ConnectionTrees) :=
  ClearwaterSnmp.bucketLoop rootOid msgs h.oidAddr h.port (h.endBuckets ii) (msgs.length + 1)
    (toInt32 (ii + 5)) (h.setConnection rootOid trees)

/-- The end is exact if it is not before the buckets and within the range of `int`. -/
theorem endBuckets_eq_target {h : Header} {ii : ℤ} (hii : 0 ≤ ii) (hn : 0 ≤ h.numBuckets)
    (hlt : h.target ii < 2 ^ 31) : h.endBuckets ii = h.target ii := by
  rw [target] at hlt ⊢
  have hmul : toInt32 (h.numBuckets * 4) = h.numBuckets * 4 :=
    toInt32_of_lt (by omega) (by omega)
  have hadd : toInt32 (ii + 5) = ii + 5 := toInt32_of_lt (by omega) (by omega)
  rw [endBuckets, hmul, hadd, toInt32_of_lt (by omega) (by omega)]
  omega

end Header

/-- The fields of a header and the tests it has passed. -/
theorem headerAt_eq_some {ii : ℤ} {h : Header} (hh : headerAt inet msgs ii = some h) :
    ∃ address port needing resynchronized numBuckets,
      (ii < toInt32 msgs.length ∧ toInt32 (ii + 5) ≤ toInt32 msgs.length) ∧
      fieldAt msgs ii = some address ∧ fieldAt msgs (ii + 1) = some port ∧
      (OidInetAddr.setAddr inet address).isValid = true ∧
      fieldAt msgs (ii + 2) = some needing ∧ fieldAt msgs (ii + 3) = some resynchronized ∧
      fieldAt msgs (ii + 4) = some numBuckets ∧
      h = ⟨.setAddr inet address, atoi port, atoi needing, atoi resynchronized,
        atoi numBuckets⟩ := by
  simp only [headerAt, Option.bind_eq_bind] at hh
  split_ifs at hh with hfields
  obtain ⟨address, h0, hh⟩ := Option.bind_eq_some_iff.mp hh
  obtain ⟨port, h1, hh⟩ := Option.bind_eq_some_iff.mp hh
  split_ifs at hh with hvalid
  obtain ⟨needing, h2, hh⟩ := Option.bind_eq_some_iff.mp hh
  obtain ⟨resynchronized, h3, hh⟩ := Option.bind_eq_some_iff.mp hh
  obtain ⟨numBuckets, h4, hh⟩ := Option.bind_eq_some_iff.mp hh
  exact ⟨address, port, needing, resynchronized, numBuckets, hfields, h0, h1, hvalid, h2, h3, h4,
    (Option.some.inj hh).symm⟩

/-- A round of the loop over the connections. -/
theorem connectionLoop_of_header {ii : ℤ} {h : Header} (hh : headerAt inet msgs ii = some h)
    (rounds : ℕ) (trees : ConnectionTrees) :
    connectionLoop inet rootOid msgs (rounds + 1) ii trees =
      if h.endBuckets ii ≤ toInt32 msgs.length then
        (h.bucketLoop rootOid msgs ii trees).bind fun next =>
          connectionLoop inet rootOid msgs rounds next.1 next.2
      else some (h.setConnection rootOid trees) := by
  obtain ⟨address, port, needing, resynchronized, numBuckets, hfields, h0, h1, hvalid, h2, h3, h4,
    rfl⟩ := headerAt_eq_some inet msgs hh
  rw [connectionLoop, if_pos hfields.1, if_pos hfields.2, h0, h1]
  simp only [Option.bind_eq_bind, Option.bind_some]
  rw [if_pos hvalid, h2, h3, h4, Option.bind_some, Option.bind_some, Option.bind_some,
    Header.bucketLoop, Header.endBuckets, Header.setConnection]

end Astaire

/-! ## Messages -/

/-- A number in the non-negative range of `int`. -/
abbrev Counter := Fin (2 ^ 31)

structure Bucket where
  bucketId : Counter
  entries : Counter
  data : Counter
  bandwidth : Counter

/-- A connection at an address that `inet_pton` accepts. -/
structure Connection (inet : InetPton) where
  address : String
  isValid : (OidInetAddr.setAddr inet address).isValid = true
  port : Counter
  needing : Counter
  resynchronized : Counter
  buckets : List Bucket

def Counter.text (n : Counter) : String := Nat.repr n.val

theorem atoi_text (n : Counter) : atoi n.text = n.val := atoi_repr n.isLt

def Bucket.fields (b : Bucket) : List String :=
  [b.bucketId.text, b.entries.text, b.data.text, b.bandwidth.text]

variable {inet : InetPton}

namespace Connection

def addr (c : Connection inet) : OidInetAddr := .setAddr inet c.address

/-- The address, the port, two numbers and the number of buckets. -/
def header (c : Connection inet) : List String :=
  [c.address, c.port.text, c.needing.text, c.resynchronized.text, Nat.repr c.buckets.length]

def fields (c : Connection inet) : List String := c.header ++ c.buckets.flatMap Bucket.fields

/-- The message that lists the connections. -/
def message (name status : String) (cs : List (Connection inet)) : Message :=
  name :: status :: cs.flatMap fields

/-- The header as the decoder reads it. -/
def decoded (c : Connection inet) : Astaire.Header :=
  ⟨c.addr, c.port.val, c.needing.val, c.resynchronized.val, c.buckets.length⟩

/-- What the decoder does for a bucket of the connection. -/
def setBucket (rootOid : Oid) (c : Connection inet) (trees : ConnectionTrees) (b : Bucket) :
    ConnectionTrees :=
  trees.setBucket rootOid c.addr c.port.val b.bucketId.val b.entries.val b.data.val b.bandwidth.val

/-- What the decoder does for the connection. -/
def setAll (rootOid : Oid) (trees : ConnectionTrees) (c : Connection inet) : ConnectionTrees :=
  c.buckets.foldl (c.setBucket rootOid)
    (trees.setConnection rootOid c.addr c.port.val c.needing.val c.resynchronized.val)

end Connection

/-! ## The two loops -/

theorem fieldAt_of_append {msgs pre fields rest : List String}
    (hmsgs : msgs = pre ++ (fields ++ rest)) {j : ℕ} {x : String} (hx : fields[j]? = some x)
    {k : ℤ} (hk : k = pre.length + j) : fieldAt msgs k = some x := by
  have hj : j < fields.length := (List.getElem?_eq_some_iff.mp hx).1
  have hnat : k.toNat = pre.length + j := by omega
  rw [fieldAt, if_neg (by omega), hnat, hmsgs, List.getElem?_append_right (by omega),
    Nat.add_sub_cancel_left, List.getElem?_append_left hj, hx]

theorem length_flatMap_bucket_fields (bs : List Bucket) :
    (bs.flatMap Bucket.fields).length = 4 * bs.length := by
  induction bs with
  | nil => rfl
  | cons b bs ih =>
    rw [List.flatMap_cons, List.length_append, ih, List.length_cons]
    simp only [Bucket.fields, List.length_cons, List.length_nil]
    omega

/-- A round takes the four fields of a bucket. -/
theorem bucketLoop_succ_fields (rootOid : Oid) (c : Connection inet)
    {msgs pre rest : List String} {b : Bucket} (hmsgs : msgs = pre ++ (b.fields ++ rest))
    (hlen : msgs.length < 2 ^ 31) {endBuckets : ℤ} (hend : (pre ++ b.fields).length ≤ endBuckets)
    (rounds : ℕ) (trees : ConnectionTrees) :
    bucketLoop rootOid msgs c.addr c.port.val endBuckets (rounds + 1) pre.length trees =
      bucketLoop rootOid msgs c.addr c.port.val endBuckets rounds (pre ++ b.fields).length
        (c.setBucket rootOid trees b) := by
  have hpre : ((pre ++ b.fields).length : ℤ) = pre.length + 4 := by simp [Bucket.fields]
  have hle : (pre ++ b.fields).length ≤ msgs.length :=
    List.IsPrefix.length_le ⟨rest, by rw [hmsgs, List.append_assoc]⟩
  have h0 : fieldAt msgs pre.length = some b.bucketId.text :=
    fieldAt_of_append (j := 0) hmsgs rfl (by omega)
  have h1 : fieldAt msgs (pre.length + 1) = some b.entries.text :=
    fieldAt_of_append (j := 1) hmsgs rfl (by omega)
  have h2 : fieldAt msgs (pre.length + 2) = some b.data.text :=
    fieldAt_of_append (j := 2) hmsgs rfl (by omega)
  have h3 : fieldAt msgs (pre.length + 3) = some b.bandwidth.text :=
    fieldAt_of_append (j := 3) hmsgs rfl (by omega)
  rw [bucketLoop, if_pos (by omega), h0, h1, h2, h3, toInt32_of_lt (by omega) (by omega), hpre]
  simp only [Option.bind_eq_bind, Option.bind_some, atoi_text]
  rfl

theorem bucketLoop_fields (rootOid : Oid) (c : Connection inet) {msgs pre rest : List String}
    {bs : List Bucket} (hmsgs : msgs = pre ++ (bs.flatMap Bucket.fields ++ rest))
    (hlen : msgs.length < 2 ^ 31) {rounds : ℕ} (hrounds : bs.length < rounds)
    {endBuckets : ℤ} (hend : endBuckets = pre.length + 4 * bs.length) (trees : ConnectionTrees) :
    bucketLoop rootOid msgs c.addr c.port.val endBuckets rounds pre.length trees =
      some (endBuckets, bs.foldl (c.setBucket rootOid) trees) := by
  obtain ⟨rounds, rfl⟩ : ∃ r, rounds = r + 1 := ⟨rounds - 1, by omega⟩
  induction bs generalizing pre rounds trees with
  | nil => simp [bucketLoop, hend]
  | cons b bs ih =>
    rw [List.length_cons] at hend hrounds
    obtain ⟨rounds, rfl⟩ : ∃ r, rounds = r + 1 := ⟨rounds - 1, by omega⟩
    have hpre : ((pre ++ b.fields).length : ℤ) = pre.length + 4 := by simp [Bucket.fields]
    have hmsgs' : msgs = pre ++ (b.fields ++ (bs.flatMap Bucket.fields ++ rest)) := by
      simp [hmsgs]
    rw [bucketLoop_succ_fields rootOid c hmsgs' hlen (by omega)]
    exact ih (by rw [hmsgs', List.append_assoc]) (by omega) _ (by omega) (by omega)

theorem Connection.length_fields (c : Connection inet) :
    c.fields.length = 5 + 4 * c.buckets.length := by
  rw [fields, List.length_append, length_flatMap_bucket_fields]
  rfl

theorem headerAt_fields {msgs pre rest : List String} {c : Connection inet}
    (hmsgs : msgs = pre ++ (c.fields ++ rest)) (hlen : msgs.length < 2 ^ 31) :
    Astaire.headerAt inet msgs pre.length = some c.decoded := by
  have hlength : msgs.length = pre.length + (5 + 4 * c.buckets.length + rest.length) := by
    rw [hmsgs, List.length_append, List.length_append, c.length_fields]
  have hsize : toInt32 msgs.length = msgs.length := toInt32_of_lt (by omega) (by omega)
  have hadd : toInt32 (pre.length + 5) = pre.length + 5 := toInt32_of_lt (by omega) (by omega)
  have h0 : fieldAt msgs pre.length = some c.address :=
    fieldAt_of_append (j := 0) hmsgs rfl (by omega)
  have h1 : fieldAt msgs (pre.length + 1) = some c.port.text :=
    fieldAt_of_append (j := 1) hmsgs rfl (by omega)
  have h2 : fieldAt msgs (pre.length + 2) = some c.needing.text :=
    fieldAt_of_append (j := 2) hmsgs rfl (by omega)
  have h3 : fieldAt msgs (pre.length + 3) = some c.resynchronized.text :=
    fieldAt_of_append (j := 3) hmsgs rfl (by omega)
  have h4 : fieldAt msgs (pre.length + 4) = some (Nat.repr c.buckets.length) :=
    fieldAt_of_append (j := 4) hmsgs rfl (by omega)
  have hnum : atoi (Nat.repr c.buckets.length) = c.buckets.length := atoi_repr (by omega)
  rw [Astaire.headerAt, hsize, hadd, if_pos (by omega), h0, h1]
  simp only [Option.bind_eq_bind, Option.bind_some, if_pos c.isValid, h2, h3, h4, atoi_text, hnum]
  rfl

/-- A round takes the fields of a connection and of its buckets. -/
theorem connectionLoop_succ_fields (rootOid : Oid) {msgs pre rest : List String}
    {c : Connection inet} (hmsgs : msgs = pre ++ (c.fields ++ rest)) (hlen : msgs.length < 2 ^ 31)
    (rounds : ℕ) (trees : ConnectionTrees) :
    connectionLoop inet rootOid msgs (rounds + 1) pre.length trees =
      connectionLoop inet rootOid msgs rounds (pre ++ c.fields).length
        (Connection.setAll rootOid trees c) := by
  have hbuckets : msgs = (pre ++ c.header) ++ (c.buckets.flatMap Bucket.fields ++ rest) := by
    simp [hmsgs, Connection.fields]
  have hheader : ((pre ++ c.header).length : ℤ) = pre.length + 5 := by simp [Connection.header]
  have hpre : (pre ++ c.fields).length = pre.length + (5 + 4 * c.buckets.length) := by
    rw [List.length_append, c.length_fields]
  have hle : (pre ++ c.fields).length ≤ msgs.length :=
    List.IsPrefix.length_le ⟨rest, by rw [hmsgs, List.append_assoc]⟩
  have hsize : toInt32 msgs.length = msgs.length := toInt32_of_lt (by omega) (by omega)
  have hadd : toInt32 (pre.length + 5) = pre.length + 5 := toInt32_of_lt (by omega) (by omega)
  have hcount : c.decoded.numBuckets = c.buckets.length := rfl
  have htarget : c.decoded.target pre.length = (pre ++ c.fields).length := by
    rw [Astaire.Header.target, hcount]
    omega
  have hend : c.decoded.endBuckets pre.length = (pre ++ c.fields).length := by
    rw [Astaire.Header.endBuckets_eq_target (by omega) (by omega) (by omega), htarget]
  have hrounds : c.buckets.length < msgs.length + 1 := by omega
  have hlast : ((pre ++ c.fields).length : ℤ) =
      (pre ++ c.header).length + 4 * c.buckets.length := by omega
  have hloop := bucketLoop_fields rootOid c hbuckets hlen hrounds hlast
    (trees.setConnection rootOid c.addr c.port.val c.needing.val c.resynchronized.val)
  rw [hheader] at hloop
  rw [Astaire.connectionLoop_of_header inet rootOid msgs (headerAt_fields hmsgs hlen),
    Astaire.Header.bucketLoop, hend, hsize, hadd, if_pos (by omega)]
  exact congrArg (Option.bind · _) hloop

theorem connectionLoop_fields (rootOid : Oid) {msgs pre : List String}
    {cs : List (Connection inet)} (hmsgs : msgs = pre ++ cs.flatMap Connection.fields)
    (hlen : msgs.length < 2 ^ 31) {rounds : ℕ} (hrounds : cs.length < rounds)
    (trees : ConnectionTrees) :
    connectionLoop inet rootOid msgs rounds pre.length trees =
      some (cs.foldl (Connection.setAll rootOid) trees) := by
  obtain ⟨rounds, rfl⟩ : ∃ r, rounds = r + 1 := ⟨rounds - 1, by omega⟩
  induction cs generalizing pre rounds trees with
  | nil =>
    have hdone : (msgs.length : ℤ) = pre.length := by simp [hmsgs]
    have hsize : toInt32 msgs.length = pre.length := by
      rw [toInt32_of_lt (by omega) (by omega), hdone]
    rw [connectionLoop, hsize, if_neg (lt_irrefl _)]
    rfl
  | cons c cs ih =>
    rw [List.length_cons] at hrounds
    obtain ⟨rounds, rfl⟩ : ∃ r, rounds = r + 1 := ⟨rounds - 1, by omega⟩
    rw [connectionLoop_succ_fields rootOid hmsgs hlen]
    exact ih (by rw [hmsgs, List.flatMap_cons, List.append_assoc]) _ _ (by omega)

theorem length_le_length_flatMap_fields (cs : List (Connection inet)) :
    cs.length ≤ (cs.flatMap Connection.fields).length := by
  induction cs with
  | nil => exact Nat.le_refl 0
  | cons c cs ih =>
    rw [List.flatMap_cons, List.length_append, c.length_fields, List.length_cons]
    omega

/-- A message that lists connections is decoded into these connections. -/
theorem connectionLoop_message (rootOid : Oid) (name status : String)
    {cs : List (Connection inet)} (hlen : (Connection.message name status cs).length < 2 ^ 31) :
    connectionLoop inet rootOid (Connection.message name status cs)
        ((Connection.message name status cs).length + 1) 2 .empty =
      some (cs.foldl (Connection.setAll rootOid) .empty) := by
  have hmsgs : Connection.message name status cs =
      [name, status] ++ cs.flatMap Connection.fields := rfl
  have hrounds : cs.length < (Connection.message name status cs).length + 1 := by
    have hle := length_le_length_flatMap_fields cs
    rw [hmsgs, List.length_append]
    omega
  exact connectionLoop_fields rootOid hmsgs hlen hrounds .empty

end ClearwaterSnmp
