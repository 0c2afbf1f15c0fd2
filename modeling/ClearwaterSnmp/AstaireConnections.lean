import ClearwaterSnmp.AstaireDecoding
import ClearwaterSnmp.StatAtomicity

namespace ClearwaterSnmp
open Std

/-! ## The OIDs of rows -/

/-- The OID of a field of the row for an address and further indices. -/
def rowOid (rootOid column : Oid) (addr : OidInetAddr) (indices : List ℕ) : Oid :=
  rootOid ++ (column ++ (addr.toOidBytes ++ indices))

theorem toNat_map_injective {n : ℕ} {a b : Vector UInt8 n}
    (h : a.toList.map UInt8.toNat = b.toList.map UInt8.toNat) : a = b := by
  have hlist : a.toList = b.toList := List.map_injective_iff.mpr (fun _ _ => UInt8.toNat_inj.mp) h
  exact Vector.toList_inj.mp hlist

/-- The octets of a valid address say themselves where they end. -/
theorem OidInetAddr.toOidBytes_append_inj {a b : OidInetAddr} (ha : a.isValid = true)
    (hb : b.isValid = true) {x y : List ℕ} (h : a.toOidBytes ++ x = b.toOidBytes ++ y) :
    a = b ∧ x = y := by
  have hlen {n : ℕ} (u v : Vector UInt8 n) :
      (u.toList.map UInt8.toNat).length = (v.toList.map UInt8.toNat).length := by simp
  cases a with
  | unknown => cases ha
  | ipv4 u =>
    cases b with
    | unknown => cases hb
    | ipv4 v =>
      simp only [toOidBytes, List.cons_append, List.cons.injEq, true_and] at h
      obtain ⟨huv, hxy⟩ := List.append_inj h (hlen u v)
      exact ⟨congrArg ipv4 (toNat_map_injective huv), hxy⟩
    | ipv6 v => simp [toOidBytes] at h
  | ipv6 u =>
    cases b with
    | unknown => cases hb
    | ipv4 v => simp [toOidBytes] at h
    | ipv6 v =>
      simp only [toOidBytes, List.cons_append, List.cons.injEq, true_and] at h
      obtain ⟨huv, hxy⟩ := List.append_inj h (hlen u v)
      exact ⟨congrArg ipv6 (toNat_map_injective huv), hxy⟩

theorem rowOid_inj {rootOid column column' : Oid} {a b : OidInetAddr} (ha : a.isValid = true)
    (hb : b.isValid = true) {is js : List ℕ}
    (h : rowOid rootOid column a is = rowOid rootOid column' b js)
    (hcol : column.length = column'.length) :
    column = column' ∧ a = b ∧ is = js := by
  obtain ⟨hc, hrest⟩ := List.append_inj (List.append_cancel_left h) hcol
  exact ⟨hc, OidInetAddr.toOidBytes_append_inj ha hb hrest⟩

theorem foldl_appendInt (o : Oid) (ns : List Counter) :
    (ns.map fun n => (n.val : ℤ)).foldl Oid.appendInt o = o ++ ns.map Fin.val := by
  induction ns generalizing o with
  | nil => simp
  | cons n ns ih =>
    have hn : ((n.val : ℤ) % 2 ^ 64).toNat = n.val := by omega
    rw [List.map_cons, List.foldl_cons, ih, Oid.appendInt, hn, List.append_assoc]
    rfl

theorem fieldOid_eq (rootOid table : Oid) (column : ℕ) (addr : OidInetAddr) (ns : List Counter) :
    ConnectionTrees.fieldOid (rootOid ++ table) column addr (ns.map fun n => (n.val : ℤ)) =
      rowOid rootOid (table ++ [column]) addr (ns.map Fin.val) := by
  rw [ConnectionTrees.fieldOid, foldl_appendInt]
  simp [Oid.appendAddr, rowOid]

/-! ## Maps that are filled entry by entry -/

/-- A later entry at a key replaces an earlier one. -/
def insertAll (m : OidMap) (entries : List (Oid × ℤ)) : OidMap :=
  entries.foldl (fun m entry => m.insert entry.1 entry.2) m

theorem insertAll_append (m : OidMap) (es fs : List (Oid × ℤ)) :
    insertAll m (es ++ fs) = insertAll (insertAll m es) fs := List.foldl_append

theorem getElem?_insertAll_of_forall_ne {es : List (Oid × ℤ)} {k : Oid} (h : ∀ e ∈ es, e.1 ≠ k)
    (m : OidMap) : (insertAll m es)[k]? = m[k]? := by
  induction es generalizing m with
  | nil => rfl
  | cons e es ih =>
    obtain ⟨he, hes⟩ := List.forall_mem_cons.mp h
    change (insertAll (m.insert e.1 e.2) es)[k]? = m[k]?
    rw [ih hes, ExtTreeMap.getElem?_insert, if_neg]
    exact fun hc => he (Std.compare_eq_iff_eq.mp hc)

/-- The last entry at a key is the one that is found. -/
theorem getElem?_insertAll_of_last (m : OidMap) (es : List (Oid × ℤ)) {fs : List (Oid × ℤ)}
    {e : Oid × ℤ} (h : ∀ f ∈ fs, f.1 ≠ e.1) : (insertAll m (es ++ e :: fs))[e.1]? = some e.2 := by
  rw [insertAll_append]
  change (insertAll ((insertAll m es).insert e.1 e.2) fs)[e.1]? = some e.2
  rw [getElem?_insertAll_of_forall_ne h, ExtTreeMap.getElem?_insert_self]

theorem exists_of_getElem?_insertAll {es : List (Oid × ℤ)} {k : Oid} {v : ℤ}
    (h : (insertAll ∅ es)[k]? = some v) : ∃ e ∈ es, e.1 = k := by
  by_contra hne
  have hnone : (insertAll ∅ es)[k]? = none := by
    rw [getElem?_insertAll_of_forall_ne (fun e he hk => hne ⟨e, he, hk⟩)]
    exact ExtTreeMap.getElem?_empty
  rw [hnone] at h
  cases h

/-- Items that make several entries each: those of the last item with its keys are found. -/
theorem getElem?_insertAll_flatMap {α : Type*} (entries : α → List (Oid × ℤ)) (m : OidMap)
    (before : List α) {x : α} {after : List α} {es fs : List (Oid × ℤ)} {e : Oid × ℤ}
    (hx : entries x = es ++ e :: fs) (hfs : ∀ f ∈ fs, f.1 ≠ e.1)
    (hafter : ∀ y ∈ after, ∀ f ∈ entries y, f.1 ≠ e.1) :
    (insertAll m ((before ++ x :: after).flatMap entries))[e.1]? = some e.2 := by
  have hsplit : (before ++ x :: after).flatMap entries =
      (before.flatMap entries ++ es) ++ e :: (fs ++ after.flatMap entries) := by
    simp [hx]
  rw [hsplit]
  apply getElem?_insertAll_of_last
  intro f hf
  rcases List.mem_append.mp hf with hf | hf
  · exact hfs f hf
  · obtain ⟨y, hy, hfy⟩ := List.mem_flatMap.mp hf
    exact hafter y hy f hfy

theorem exists_of_getElem?_insertAll_flatMap {α : Type*} {entries : α → List (Oid × ℤ)}
    {items : List α} {k : Oid} {v : ℤ} (h : (insertAll ∅ (items.flatMap entries))[k]? = some v) :
    ∃ x ∈ items, ∃ e ∈ entries x, k = e.1 := by
  obtain ⟨e, he, hek⟩ := exists_of_getElem?_insertAll h
  obtain ⟨x, hx, hxe⟩ := List.mem_flatMap.mp he
  exact ⟨x, hx, e, hxe, hek.symm⟩

/-! ## The rows of a message -/

variable {inet : InetPton}

namespace Connection

def index (c : Connection inet) : OidInetAddr × ℕ := (c.addr, c.port.val)

/-- A column of the table of connections, `6.1`. -/
def oid (rootOid : Oid) (column : ℕ) (c : Connection inet) : Oid :=
  rowOid rootOid [6, 1, column] c.addr [c.port.val]

def entries (rootOid : Oid) (c : Connection inet) : List (Oid × ℤ) :=
  [(c.oid rootOid 4, c.needing.val), (c.oid rootOid 5, c.resynchronized.val)]

/-- The buckets of all connections, each with its connection. -/
def allBuckets (cs : List (Connection inet)) : List (Connection inet × Bucket) :=
  cs.flatMap fun c => c.buckets.map fun b => (c, b)

def bucketIndex (x : Connection inet × Bucket) : OidInetAddr × ℕ × ℕ :=
  (x.1.addr, x.1.port.val, x.2.bucketId.val)

/-- A column of the table of buckets, `7.1`. -/
def bucketOid (rootOid : Oid) (column : ℕ) (x : Connection inet × Bucket) : Oid :=
  rowOid rootOid [7, 1, column] x.1.addr [x.1.port.val, x.2.bucketId.val]

/-- The only column of the table of bandwidths, `8.1`. -/
def bandwidthOid (rootOid : Oid) (x : Connection inet × Bucket) : Oid :=
  rowOid rootOid [8, 1, 6] x.1.addr [x.1.port.val, x.2.bucketId.val, 1]

def bucketEntries (rootOid : Oid) (x : Connection inet × Bucket) : List (Oid × ℤ) :=
  [(bucketOid rootOid 5 x, x.2.entries.val), (bucketOid rootOid 6 x, x.2.data.val)]

def bandwidthEntries (rootOid : Oid) (x : Connection inet × Bucket) : List (Oid × ℤ) :=
  [(bandwidthOid rootOid x, x.2.bandwidth.val)]

variable {rootOid : Oid}

theorem setConnection_eq (c : Connection inet) (trees : ConnectionTrees) :
    trees.setConnection rootOid c.addr c.port.val c.needing.val c.resynchronized.val =
      { trees with connectionTree := insertAll trees.connectionTree (c.entries rootOid) } := by
  have hoid (column : ℕ) : ConnectionTrees.fieldOid (rootOid ++ [6, 1]) column c.addr
      [(c.port.val : ℤ)] = c.oid rootOid column := fieldOid_eq rootOid [6, 1] column c.addr [c.port]
  rw [ConnectionTrees.setConnection, hoid, hoid]
  rfl

theorem setBucket_eq (c : Connection inet) (b : Bucket) (trees : ConnectionTrees) :
    c.setBucket rootOid trees b =
      { trees with
        bucketTree := insertAll trees.bucketTree (bucketEntries rootOid (c, b))
        bucketBandwidthTree :=
          insertAll trees.bucketBandwidthTree (bandwidthEntries rootOid (c, b)) } := by
  have hoid (column : ℕ) : ConnectionTrees.fieldOid (rootOid ++ [7, 1]) column c.addr
      [(c.port.val : ℤ), (b.bucketId.val : ℤ)] = bucketOid rootOid column (c, b) :=
    fieldOid_eq rootOid [7, 1] column c.addr [c.port, b.bucketId]
  have hband : ConnectionTrees.fieldOid (rootOid ++ [8, 1]) 6 c.addr
      [(c.port.val : ℤ), (b.bucketId.val : ℤ), 1] = bandwidthOid rootOid (c, b) :=
    fieldOid_eq rootOid [8, 1] 6 c.addr [c.port, b.bucketId, 1]
  rw [setBucket, ConnectionTrees.setBucket, hoid, hoid, hband]
  rfl

/-- The three maps of the connections, on top of what was there. -/
def filled (rootOid : Oid) (trees : ConnectionTrees) (cs : List (Connection inet)) :
    ConnectionTrees where
  connectionTree := insertAll trees.connectionTree (cs.flatMap (entries rootOid))
  bucketTree := insertAll trees.bucketTree ((allBuckets cs).flatMap (bucketEntries rootOid))
  bucketBandwidthTree :=
    insertAll trees.bucketBandwidthTree ((allBuckets cs).flatMap (bandwidthEntries rootOid))

theorem foldl_setBucket_eq (c : Connection inet) (bs : List Bucket) (trees : ConnectionTrees) :
    bs.foldl (c.setBucket rootOid) trees =
      { trees with
        bucketTree := insertAll trees.bucketTree
          ((bs.map fun b => (c, b)).flatMap (bucketEntries rootOid))
        bucketBandwidthTree := insertAll trees.bucketBandwidthTree
          ((bs.map fun b => (c, b)).flatMap (bandwidthEntries rootOid)) } := by
  induction bs generalizing trees with
  | nil => rfl
  | cons b bs ih =>
    rw [List.foldl_cons, ih, setBucket_eq]
    simp only [List.map_cons, List.flatMap_cons, insertAll_append]

theorem foldl_setAll_eq (cs : List (Connection inet)) (trees : ConnectionTrees) :
    cs.foldl (setAll rootOid) trees = filled rootOid trees cs := by
  induction cs generalizing trees with
  | nil => rfl
  | cons c cs ih =>
    rw [List.foldl_cons, ih, setAll, foldl_setBucket_eq, setConnection_eq]
    simp only [filled, allBuckets, List.flatMap_cons, List.flatMap_append, insertAll_append]

theorem isValid_addr (c : Connection inet) : c.addr.isValid = true := c.isValid

theorem oid_inj {c c' : Connection inet} {column column' : ℕ}
    (h : c.oid rootOid column = c'.oid rootOid column') :
    column = column' ∧ c.index = c'.index := by
  obtain ⟨hcol, haddr, hport⟩ := rowOid_inj c.isValid_addr c'.isValid_addr h rfl
  simp_all [index]

theorem bucketOid_inj {x y : Connection inet × Bucket} {column column' : ℕ}
    (h : bucketOid rootOid column x = bucketOid rootOid column' y) :
    column = column' ∧ bucketIndex x = bucketIndex y := by
  obtain ⟨hcol, haddr, hport⟩ := rowOid_inj x.1.isValid_addr y.1.isValid_addr h rfl
  simp_all [bucketIndex]

theorem bandwidthOid_inj {x y : Connection inet × Bucket}
    (h : bandwidthOid rootOid x = bandwidthOid rootOid y) : bucketIndex x = bucketIndex y := by
  obtain ⟨-, haddr, hport⟩ := rowOid_inj x.1.isValid_addr y.1.isValid_addr h rfl
  simp_all [bucketIndex]

theorem fst_of_mem_entries {c : Connection inet} {e : Oid × ℤ} (he : e ∈ c.entries rootOid) :
    e.1 = c.oid rootOid 4 ∨ e.1 = c.oid rootOid 5 := by
  simp only [entries, List.mem_cons, List.not_mem_nil, or_false] at he
  exact he.imp (congrArg Prod.fst) (congrArg Prod.fst)

theorem fst_of_mem_bucketEntries {x : Connection inet × Bucket} {e : Oid × ℤ}
    (he : e ∈ bucketEntries rootOid x) :
    e.1 = bucketOid rootOid 5 x ∨ e.1 = bucketOid rootOid 6 x := by
  simp only [bucketEntries, List.mem_cons, List.not_mem_nil, or_false] at he
  exact he.imp (congrArg Prod.fst) (congrArg Prod.fst)

theorem fst_of_mem_bandwidthEntries {x : Connection inet × Bucket} {e : Oid × ℤ}
    (he : e ∈ bandwidthEntries rootOid x) : e.1 = bandwidthOid rootOid x :=
  congrArg Prod.fst (List.mem_singleton.mp he)

/-- An entry at a key of a row is an entry of a row with its index. -/
theorem index_of_mem_entries {c c' : Connection inet} {column : ℕ} {f : Oid × ℤ}
    (hf : f ∈ c'.entries rootOid) (h : f.1 = c.oid rootOid column) : c'.index = c.index := by
  rcases fst_of_mem_entries hf with he | he
  · exact (oid_inj (he.symm.trans h)).2
  · exact (oid_inj (he.symm.trans h)).2

theorem bucketIndex_of_mem_bucketEntries {x y : Connection inet × Bucket} {column : ℕ}
    {f : Oid × ℤ} (hf : f ∈ bucketEntries rootOid y) (h : f.1 = bucketOid rootOid column x) :
    bucketIndex y = bucketIndex x := by
  rcases fst_of_mem_bucketEntries hf with he | he
  · exact (bucketOid_inj (he.symm.trans h)).2
  · exact (bucketOid_inj (he.symm.trans h)).2

theorem rowOid_prefix (table : Oid) (column : ℕ) (addr : OidInetAddr) (indices : List ℕ) :
    rootOid ++ table <+: rowOid rootOid (table ++ [column]) addr indices := by
  simp [rowOid, List.append_assoc]

end Connection

/-! ## The tree after a message -/

/-- Below one of the three tables, the tree is what the message says. -/
theorem get_foldl_calls {rootOid : Oid} {trees : ConnectionTrees}
    (hb : ConnectionTrees.BelowTables rootOid trees) {i : Fin 3} {k : Oid}
    (hk : rootOid ++ ConnectionTrees.tableSuffix i <+: k) (t : OidTree) :
    ((trees.calls rootOid).foldl TreeCall.apply t).get k = (trees.table i)[k]? := by
  -- the other two replacements leave the key alone
  have hcomp (j : Fin 3) :
      Oid.Comparable (rootOid ++ ConnectionTrees.tableSuffix j) k ↔ j = i := by
    constructor
    · intro h
      by_contra hji
      exact ConnectionTrees.tables_incomparable rootOid hji (h.of_prefix hk)
    · rintro rfl
      exact Or.inl hk
  rw [TreeCall.get_foldl_apply, ConnectionTrees.calls_eq, List.foldl_map]
  simp only [TreeCall.act_replaceSubtree (hb.table _), hcomp]
  match i with
  | 0 => rfl
  | 1 => rfl
  | 2 => rfl

/-- The tree `t'` has exactly the rows of the connections in the three tables, the
last one for every index, and is otherwise as `t` was. -/
structure DecodedExactly (rootOid : Oid) (cs : List (Connection inet)) (t t' : OidTree) : Prop where
  connections : ∀ before c after, cs = before ++ c :: after →
    (∀ c' ∈ after, c'.index ≠ c.index) →
      t'.get (c.oid rootOid 4) = some (c.needing.val : ℤ) ∧
      t'.get (c.oid rootOid 5) = some (c.resynchronized.val : ℤ)
  buckets : ∀ before x after, Connection.allBuckets cs = before ++ x :: after →
    (∀ y ∈ after, Connection.bucketIndex y ≠ Connection.bucketIndex x) →
      t'.get (Connection.bucketOid rootOid 5 x) = some (x.2.entries.val : ℤ) ∧
      t'.get (Connection.bucketOid rootOid 6 x) = some (x.2.data.val : ℤ) ∧
      t'.get (Connection.bandwidthOid rootOid x) = some (x.2.bandwidth.val : ℤ)
  nothing_else : ∀ i k v, rootOid ++ ConnectionTrees.tableSuffix i <+: k → t'.get k = some v →
    (∃ c ∈ cs, k = c.oid rootOid 4 ∨ k = c.oid rootOid 5) ∨
    ∃ x ∈ Connection.allBuckets cs, k = Connection.bucketOid rootOid 5 x ∨
      k = Connection.bucketOid rootOid 6 x ∨ k = Connection.bandwidthOid rootOid x
  distinct_connections : ∀ c ∈ cs, ∀ c' ∈ cs, c.index ≠ c'.index → ∀ column column',
    c.oid rootOid column ≠ c'.oid rootOid column'
  distinct_buckets : ∀ x ∈ Connection.allBuckets cs, ∀ y ∈ Connection.allBuckets cs,
    Connection.bucketIndex x ≠ Connection.bucketIndex y →
      (∀ column column', Connection.bucketOid rootOid column x ≠
        Connection.bucketOid rootOid column' y) ∧
      Connection.bandwidthOid rootOid x ≠ Connection.bandwidthOid rootOid y
  unchanged : ∀ k, (∀ i, ¬rootOid ++ ConnectionTrees.tableSuffix i <+: k) → t'.get k = t.get k

section Decoding

variable {rootOid : Oid} {cs : List (Connection inet)} {t t' : OidTree}

/-- Below the three tables, the tree has what the connections fill in. -/
def Filled (rootOid : Oid) (cs : List (Connection inet)) (t : OidTree) : Prop :=
  ∀ i k, rootOid ++ ConnectionTrees.tableSuffix i <+: k →
    t.get k = ((Connection.filled rootOid .empty cs).table i)[k]?

theorem Filled.get_oid (ht : Filled rootOid cs t) (column : ℕ) (c : Connection inet) :
    t.get (c.oid rootOid column) =
      (insertAll ∅ (cs.flatMap (Connection.entries rootOid)))[c.oid rootOid column]? :=
  ht 0 _ (Connection.rowOid_prefix [6, 1] column _ _)

theorem Filled.get_bucketOid (ht : Filled rootOid cs t) (column : ℕ)
    (x : Connection inet × Bucket) :
    t.get (Connection.bucketOid rootOid column x) =
      (insertAll ∅ ((Connection.allBuckets cs).flatMap (Connection.bucketEntries rootOid)))[
        Connection.bucketOid rootOid column x]? :=
  ht 1 _ (Connection.rowOid_prefix [7, 1] column _ _)

theorem Filled.get_bandwidthOid (ht : Filled rootOid cs t) (x : Connection inet × Bucket) :
    t.get (Connection.bandwidthOid rootOid x) =
      (insertAll ∅ ((Connection.allBuckets cs).flatMap (Connection.bandwidthEntries rootOid)))[
        Connection.bandwidthOid rootOid x]? :=
  ht 2 _ (Connection.rowOid_prefix [8, 1] 6 _ _)

theorem Filled.connections (ht : Filled rootOid cs t) {before after : List (Connection inet)}
    {c : Connection inet} (hcs : cs = before ++ c :: after)
    (hlast : ∀ c' ∈ after, c'.index ≠ c.index) :
    t.get (c.oid rootOid 4) = some (c.needing.val : ℤ) ∧
      t.get (c.oid rootOid 5) = some (c.resynchronized.val : ℤ) := by
  have hafter (column : ℕ) : ∀ c' ∈ after, ∀ f ∈ c'.entries rootOid,
      f.1 ≠ c.oid rootOid column := fun c' hc' f hf h =>
    hlast c' hc' (Connection.index_of_mem_entries hf h)
  subst hcs
  constructor
  · rw [ht.get_oid]
    refine getElem?_insertAll_flatMap (e := (c.oid rootOid 4, c.needing.val))
      (Connection.entries rootOid) ∅ before (List.nil_append _).symm ?_ (hafter 4)
    intro f hf h
    rw [List.mem_singleton.mp hf] at h
    exact absurd (Connection.oid_inj h).1 (by decide)
  · rw [ht.get_oid]
    exact getElem?_insertAll_flatMap (e := (c.oid rootOid 5, c.resynchronized.val))
      (Connection.entries rootOid) ∅ before (List.singleton_append).symm (by simp) (hafter 5)

theorem Filled.buckets (ht : Filled rootOid cs t)
    {before after : List (Connection inet × Bucket)} {x : Connection inet × Bucket}
    (hcs : Connection.allBuckets cs = before ++ x :: after)
    (hlast : ∀ y ∈ after, Connection.bucketIndex y ≠ Connection.bucketIndex x) :
    t.get (Connection.bucketOid rootOid 5 x) = some (x.2.entries.val : ℤ) ∧
      t.get (Connection.bucketOid rootOid 6 x) = some (x.2.data.val : ℤ) ∧
      t.get (Connection.bandwidthOid rootOid x) = some (x.2.bandwidth.val : ℤ) := by
  have hafter (column : ℕ) : ∀ y ∈ after, ∀ f ∈ Connection.bucketEntries rootOid y,
      f.1 ≠ Connection.bucketOid rootOid column x := fun y hy f hf h =>
    hlast y hy (Connection.bucketIndex_of_mem_bucketEntries hf h)
  refine ⟨?_, ?_, ?_⟩
  · rw [ht.get_bucketOid, hcs]
    refine getElem?_insertAll_flatMap (e := (Connection.bucketOid rootOid 5 x, x.2.entries.val))
      (Connection.bucketEntries rootOid) ∅ before (List.nil_append _).symm ?_ (hafter 5)
    intro f hf h
    rw [List.mem_singleton.mp hf] at h
    exact absurd (Connection.bucketOid_inj h).1 (by decide)
  · rw [ht.get_bucketOid, hcs]
    exact getElem?_insertAll_flatMap (e := (Connection.bucketOid rootOid 6 x, x.2.data.val))
      (Connection.bucketEntries rootOid) ∅ before (List.singleton_append).symm (by simp) (hafter 6)
  · rw [ht.get_bandwidthOid, hcs]
    refine getElem?_insertAll_flatMap (e := (Connection.bandwidthOid rootOid x, x.2.bandwidth.val))
      (Connection.bandwidthEntries rootOid) ∅ before (List.nil_append _).symm (by simp) ?_
    intro y hy f hf h
    have he := Connection.fst_of_mem_bandwidthEntries hf
    exact hlast y hy (Connection.bandwidthOid_inj (he.symm.trans h))

theorem Filled.nothing_else (ht : Filled rootOid cs t) {i : Fin 3} {k : Oid} {v : ℤ}
    (hk : rootOid ++ ConnectionTrees.tableSuffix i <+: k) (hv : t.get k = some v) :
    (∃ c ∈ cs, k = c.oid rootOid 4 ∨ k = c.oid rootOid 5) ∨
    ∃ x ∈ Connection.allBuckets cs, k = Connection.bucketOid rootOid 5 x ∨
      k = Connection.bucketOid rootOid 6 x ∨ k = Connection.bandwidthOid rootOid x := by
  rw [ht i k hk] at hv
  match i with
  | 0 =>
    obtain ⟨c, hc, e, he, rfl⟩ := exists_of_getElem?_insertAll_flatMap hv
    exact Or.inl ⟨c, hc, Connection.fst_of_mem_entries he⟩
  | 1 =>
    obtain ⟨x, hx, e, he, rfl⟩ := exists_of_getElem?_insertAll_flatMap hv
    exact Or.inr ⟨x, hx, (Connection.fst_of_mem_bucketEntries he).imp_right Or.inl⟩
  | 2 =>
    obtain ⟨x, hx, e, he, rfl⟩ := exists_of_getElem?_insertAll_flatMap hv
    exact Or.inr ⟨x, hx, Or.inr (Or.inr (Connection.fst_of_mem_bandwidthEntries he))⟩

theorem filled_process (rootOid : Oid) (name status : String)
    (hlen : (Connection.message name status cs).length < 2 ^ 31) (t : OidTree) :
    Filled rootOid cs
      ((astairePair rootOid false).process inet (Connection.message name status cs) t) := by
  have hloop := connectionLoop_message rootOid name status hlen
  rw [Connection.foldl_setAll_eq] at hloop
  have hcalls : (astairePair rootOid false).handle inet (Connection.message name status cs) =
      (Connection.filled rootOid .empty cs).calls rootOid := by
    change astaireConnectionStatHandle inet rootOid _ = _
    rw [astaireConnectionStatHandle, hloop, Option.elim_some]
  have hb : ConnectionTrees.BelowTables rootOid (Connection.filled rootOid .empty cs) :=
    ConnectionTrees.belowTables_empty.connectionLoop inet _ hloop
  intro i k hk
  rw [StatHandler.process, hcalls]
  exact get_foldl_calls hb hk t

/-- What is not below the three tables is kept: if it is above one of them, there is no
entry to be removed. -/
theorem get_process_of_outside (past : List (Bool × Message)) (msgs : Message) {k : Oid}
    (hk : ∀ i, ¬rootOid ++ ConnectionTrees.tableSuffix i <+: k) :
    ((astairePair rootOid false).process inet msgs
      (treeAfter inet (astairePair rootOid) past)).get k =
      (treeAfter inet (astairePair rootOid) past).get k := by
  have howned : ∀ p ∈ (astairePair rootOid false).owned, ¬p <+: k := by
    intro p hp
    have hp' : p ∈ (List.finRange 3).map fun i => rootOid ++ ConnectionTrees.tableSuffix i := hp
    obtain ⟨i, -, rfl⟩ := List.mem_map.mp hp'
    exact hk i
  by_cases hcomp : ∃ p ∈ (astairePair rootOid false).owned, Oid.Comparable p k
  · -- the comparison that erases matches `k`, but neither handler can have put it there
    obtain ⟨q, hq, hqk⟩ := hcomp
    have hkq : k <+: q := hqk.resolve_left (howned q hq)
    have hnone : (treeAfter inet (astairePair rootOid) past).get k = none := by
      apply get_treeAfter_none
      rintro (_ | _) ⟨p, hp, hpk⟩
      · exact howned p hp hpk
      · exact astairePair_incomparable rootOid (by decide) p hp q hq (Or.inl (hpk.trans hkq))
    rw [hnone]
    apply StatHandler.get_process_none inet _ msgs hnone
    rintro ⟨p, hp, hpk⟩
    exact howned p hp hpk
  · apply StatHandler.get_process_of_incomparable
    intro p hp hc
    exact hcomp ⟨p, hp, hc⟩

end Decoding

/-- The connections of a message are read into the three tables, whatever the tree of the
plugin was. -/
theorem connections_decoded_exactly (inet : InetPton) (rootOid : Oid)
    (past : List (Bool × Message)) (name status : String) (cs : List (Connection inet))
    (hlen : (Connection.message name status cs).length < 2 ^ 31 - 5) :
    DecodedExactly rootOid cs (treeAfter inet (astairePair rootOid) past)
      ((astairePair rootOid false).process inet (Connection.message name status cs)
        (treeAfter inet (astairePair rootOid) past)) := by
  have hf := filled_process rootOid name status (Nat.lt_of_lt_of_le hlen (by decide))
    (treeAfter inet (astairePair rootOid) past)
  exact
    { connections := fun _ _ _ => hf.connections
      buckets := fun _ _ _ => hf.buckets
      nothing_else := fun _ _ _ => hf.nothing_else
      distinct_connections := fun _ _ _ _ hne _ _ h => hne (Connection.oid_inj h).2
      distinct_buckets := fun _ _ _ _ hne =>
        ⟨fun _ _ h => hne (Connection.bucketOid_inj h).2,
          fun h => hne (Connection.bandwidthOid_inj h)⟩
      unchanged := fun _ hk => get_process_of_outside past _ hk }

/-- Two reports on one connection, the second of them with a bucket. -/
def sampleConnections : List (Connection sampleInet) :=
  [⟨"10.0.0.1", by decide, 11211, 4, 1, []⟩,
    ⟨"10.0.0.1", by decide, 11211, 3, 2, [⟨7, 50, 6000, 800⟩]⟩]

theorem connections_decoded_exactly_sample :
    DecodedExactly NodeData.astaireOid sampleConnections
      (treeAfter sampleInet (astairePair NodeData.astaireOid) [])
      ((astairePair NodeData.astaireOid false).process sampleInet
        (Connection.message "astaire_connections" "OK" sampleConnections)
        (treeAfter sampleInet (astairePair NodeData.astaireOid) [])) :=
  connections_decoded_exactly sampleInet NodeData.astaireOid [] "astaire_connections" "OK"
    sampleConnections (by decide)

end ClearwaterSnmp
