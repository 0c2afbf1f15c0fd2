import ClearwaterSnmp.AstaireDecoding

namespace ClearwaterSnmp
namespace Oid

/-- `to_string`: a dot before each sub-identifier. -/
protected def toString (o : Oid) : String := o.foldl (fun ss x => ss ++ "." ++ Nat.repr x) ""

/-- `append` of a text: the fields between the dots, without those that are empty. -/
def appendString (o : Oid) (oidstr : String) : Oid :=
  (oidstr.toList.splitOn '.').foldl
    (fun oids field => if field.isEmpty then oids else oids.appendInt (atoi (.ofList field))) o

/-- `OID(std::string)` -/
def ofString (oidstr : String) : Oid := appendString [] oidstr

/-! ## What is printed -/

theorem toList_foldl_text (o : Oid) (s : String) :
    (o.foldl (fun ss x => ss ++ "." ++ Nat.repr x) s).toList =
      s.toList ++ o.flatMap fun x => '.' :: Nat.toDigits 10 x := by
  induction o generalizing s with
  | nil => simp
  | cons x o ih => simp [ih, Nat.toList_repr]

theorem toList_toString (o : Oid) :
    (Oid.toString o).toList = o.flatMap fun x => '.' :: Nat.toDigits 10 x := by
  rw [Oid.toString, toList_foldl_text]
  rfl

theorem dot_notMem_digits (n : ℕ) : '.' ∉ Nat.toDigits 10 n := by
  intro h
  exact absurd (isDigit_of_mem_digits h) (by decide)

theorem splitOn_text (o : Oid) {pre : List Char} (hpre : '.' ∉ pre) :
    (pre ++ o.flatMap fun x => '.' :: Nat.toDigits 10 x).splitOn '.' =
      pre :: o.map (Nat.toDigits 10) := by
  induction o generalizing pre with
  | nil => simpa using List.splitOn_eq_singleton hpre
  | cons x o ih =>
    rw [List.flatMap_cons, List.cons_append, List.splitOn_append_cons_self_of_not_mem hpre,
      ih (dot_notMem_digits x), List.map_cons]

theorem splitOn_toString (o : Oid) :
    (Oid.toString o).toList.splitOn '.' = [] :: o.map (Nat.toDigits 10) := by
  rw [toList_toString]
  exact splitOn_text o (List.not_mem_nil)

/-! ## What is read back -/

/-- The sub-identifier that `append` makes of the decimal text of `x`: through an `int`, and
then widened to an `unsigned long`. -/
def reread (x : ℕ) : ℕ := (toInt32 x % 2 ^ 64).toNat

theorem reread_of_lt {x : ℕ} (h : x < 2 ^ 31) : reread x = x := by
  rw [reread, toInt32_of_lt (by omega) (by omega)]
  omega

/-- From the upper half on, the `int` is negative and its sign is extended. -/
theorem reread_of_le {x : ℕ} (h : 2 ^ 31 ≤ x) (hlt : x < 2 ^ 32) :
    reread x = x + (2 ^ 64 - 2 ^ 32) := by
  have hint : toInt32 x = x - 2 ^ 32 := by
    have hmod : (x : ℤ) % (2 ^ 32 : ℕ) = x := by omega
    rw [toInt32, Int.bmod_def, hmod, if_neg (by omega)]
    rfl
  rw [reread, hint]
  omega

theorem reread_eq_iff {x : ℕ} (hlt : x < 2 ^ 32) : reread x = x ↔ x < 2 ^ 31 := by
  constructor
  · intro h
    by_contra hge
    rw [reread_of_le (by omega) hlt] at h
    omega
  · exact reread_of_lt

theorem appendString_toString (a : Oid) {b : Oid} (hb : ∀ x ∈ b, x < 2 ^ 32) :
    a.appendString (Oid.toString b) = a ++ b.map reread := by
  rw [appendString, splitOn_toString, List.foldl_cons, List.foldl_map]
  show b.foldl _ a = _
  induction b generalizing a with
  | nil => simp
  | cons x b ih =>
    have hx : x < 2 ^ 63 := by
      have := hb x List.mem_cons_self
      omega
    have hne : (Nat.toDigits 10 x).isEmpty = false := by
      simp
    have hread : atoi (.ofList (Nat.toDigits 10 x)) = toInt32 x := atoi_repr_of_lt hx
    rw [List.foldl_cons, hne, hread, ih _ fun y hy => hb y (List.mem_cons_of_mem x hy)]
    simp [appendInt, reread]

theorem map_reread_eq_iff {b : Oid} (hb : ∀ x ∈ b, x < 2 ^ 32) :
    b.map reread = b ↔ ∀ x ∈ b, x < 2 ^ 31 := by
  have hid : b.map reread = b ↔ ∀ x ∈ b, reread x = x := by
    have hmap := List.map_inj_left (f := reread) (g := id) (l := b)
    rwa [List.map_id] at hmap
  rw [hid]
  exact forall₂_congr fun x hx => reread_eq_iff (hb x hx)

/-- The text of an OID is read back, alone or behind another OID, exactly if its
sub-identifiers are in the lower half of their range. -/
theorem text_round_trip_iff (a b : Oid) (hb : ∀ x ∈ b, x < 2 ^ 32) :
    (ofString (Oid.toString b) = b ∧ a.appendString (Oid.toString b) = a ++ b) ↔
      ∀ x ∈ b, x < 2 ^ 31 := by
  rw [ofString, appendString_toString _ hb, appendString_toString _ hb, List.nil_append,
    List.append_cancel_left_eq, and_self, map_reread_eq_iff hb]

theorem text_round_trip_sample :
    (ofString (Oid.toString [1, 2, 826]) = [1, 2, 826] ∧
      appendString [9] (Oid.toString [1, 2, 826]) = [9] ++ [1, 2, 826]) ↔
      ∀ x ∈ [1, 2, 826], x < 2 ^ 31 :=
  text_round_trip_iff [9] [1, 2, 826] (by decide)

/-- The sub-identifier `2 ^ 31` is read back as `2 ^ 64 - 2 ^ 31`. -/
theorem text_of_upper_half :
    ofString (Oid.toString [1, 2147483648]) = [1, 18446744071562067968] ∧
      ofString (Oid.toString [1, 2147483648]) ≠ [1, 2147483648] ∧
      appendString [1] (Oid.toString [2147483648]) ≠ [1] ++ [2147483648] := by
  have h1 := appendString_toString [] (b := [1, 2147483648]) (by decide)
  have h2 := appendString_toString [1] (b := [2147483648]) (by decide)
  have hone : reread 1 = 1 := reread_of_lt (by decide)
  have hup : reread 2147483648 = 18446744071562067968 := reread_of_le (by decide) (by decide)
  simp only [List.map_cons, List.map_nil, hone, hup, List.nil_append] at h1 h2
  rw [ofString, h1, h2]
  decide

end Oid
end ClearwaterSnmp
