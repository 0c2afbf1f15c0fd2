import Mathlib.Data.List.Infix

namespace ClearwaterSnmp

/-- An object identifier, as its sub-identifiers. -/
abbrev Oid := List ℕ

/-- One of the two is a prefix of the other. -/
def Oid.Comparable (p q : Oid) : Prop := p <+: q ∨ q <+: p

instance (p q : Oid) : Decidable (Oid.Comparable p q) := inferInstanceAs (Decidable (_ ∨ _))

/-- What is below `p` is incomparable with what `p` is incomparable with. -/
theorem Oid.Comparable.of_prefix {p k q : Oid} (hp : p <+: k) (h : Oid.Comparable q k) :
    Oid.Comparable q p := by
  rcases h with hq | hq
  · exact List.prefix_or_prefix_of_prefix hq hp
  · exact Or.inr (hp.trans hq)

theorem Oid.comparable_append_left (root p q : Oid) :
    Oid.Comparable (root ++ p) (root ++ q) ↔ Oid.Comparable p q :=
  or_congr (List.prefix_append_right_inj root) (List.prefix_append_right_inj root)

/-- `snmp_oidtree_compare` yields zero: the two agree as far as the shorter one goes. -/
def Oid.subtreeContains (root oid : Oid) : Bool :=
  root.take (min root.length oid.length) = oid.take (min root.length oid.length)

/-- The comparison holds not only below the root but also above it. -/
theorem Oid.subtreeContains_iff {root oid : Oid} :
    root.subtreeContains oid = true ↔ Oid.Comparable root oid := by
  unfold subtreeContains Comparable
  rw [decide_eq_true_eq]
  rcases le_total root.length oid.length with hle | hle
  · rw [min_eq_left hle, List.take_length, ← List.prefix_iff_eq_take]
    constructor
    · exact Or.inl
    · rintro (h | h)
      · exact h
      · rw [h.eq_of_length_le hle]
  · rw [min_eq_right hle, List.take_length, eq_comm, ← List.prefix_iff_eq_take]
    constructor
    · exact Or.inr
    · rintro (h | h)
      · rw [h.eq_of_length_le hle]
      · exact h

end ClearwaterSnmp
