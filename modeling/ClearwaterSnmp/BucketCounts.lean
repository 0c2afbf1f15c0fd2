import ClearwaterSnmp.AstaireDecoding
import ClearwaterSnmp.IpCountPairs

namespace ClearwaterSnmp
namespace Astaire

variable (inet : InetPton) (rootOid : Oid) (msgs : Message)

/-- The given number of buckets from the field `ii` on. -/
def Header.readBuckets (h : Header) : ℕ → ℤ → ConnectionTrees → ConnectionTrees
  | 0, _, trees => trees
  | count + 1, ii, trees =>
    let number k := ((fieldAt msgs k).map atoi).getD 0
    readBuckets h count (ii + 4) (trees.setBucket rootOid h.oidAddr h.port (number ii)
      (number (ii + 1)) (number (ii + 2)) (number (ii + 3)))

/-! ## What should happen at a connection -/

/-- The loop goes on behind the buckets if their number is not negative and the message has
their fields, and otherwise stops with nothing but the connection itself. -/
def RejectsBadCount (ii : ℤ) (h : Header) (trees : ConnectionTrees) : Prop :=
  ∀ rounds, connectionLoop inet rootOid msgs (rounds + 1) ii trees =
    if 0 ≤ h.numBuckets ∧ h.target ii ≤ msgs.length then
      connectionLoop inet rootOid msgs rounds (h.target ii)
        (h.readBuckets rootOid msgs h.numBuckets.toNat (ii + 5) (h.setConnection rootOid trees))
    else some (h.setConnection rootOid trees)

/-- The 32-bit computation of the end of the buckets is exact and does not go backwards. -/
def ComputesEnd (ii : ℤ) (h : Header) : Prop :=
  toInt32 (h.numBuckets * 4) = h.numBuckets * 4 ∧ h.endBuckets ii = h.target ii ∧
    ii + 5 ≤ h.endBuckets ii

/-- The fields and maps that the loop over the connections starts its rounds with. -/
inductive Reaches : ℤ → ConnectionTrees → Prop
  | first : Reaches 2 .empty
  | next {ii : ℤ} {trees : ConnectionTrees} {h : Header} {next : ℤ × ConnectionTrees} :
    Reaches ii trees → headerAt inet msgs ii = some h →
      h.endBuckets ii ≤ toInt32 msgs.length → h.bucketLoop rootOid msgs ii trees = some next →
      Reaches next.1 next.2

/-- Every connection that the handler parses is treated as it should be. -/
def RejectsBadCounts : Prop :=
  ∀ ii trees h, Reaches inet rootOid msgs ii trees → headerAt inet msgs ii = some h →
    RejectsBadCount inet rootOid msgs ii h trees ∧ ComputesEnd ii h

/-- The fields where connections start in the message itself, each behind the buckets of the
one before. -/
inductive StartsAt : ℤ → Prop
  | first : StartsAt 2
  | next {ii : ℤ} {h : Header} : StartsAt ii → headerAt inet msgs ii = some h →
    0 ≤ h.numBuckets → h.target ii ≤ msgs.length → StartsAt (h.target ii)

/-- The number of buckets is not negative, their end is an `int`, and it is not behind the
length of the message as an `int` if the message has that many fields. -/
def CountFits (ii : ℤ) (h : Header) : Prop :=
  0 ≤ h.numBuckets ∧ h.target ii < 2 ^ 31 ∧
    (h.target ii ≤ msgs.length → h.target ii ≤ toInt32 msgs.length)

/-! ## The loop over the buckets -/

variable {inet rootOid msgs}

theorem toInt32_length_le (msgs : Message) : toInt32 msgs.length ≤ msgs.length := by
  have hmod := toInt32_emod (msgs.length : ℤ)
  have hlt := toInt32_lt (msgs.length : ℤ)
  omega

theorem exists_fieldAt (msgs : Message) {k : ℤ} (h0 : 0 ≤ k) (hk : k < msgs.length) :
    ∃ field, fieldAt msgs k = some field := by
  have hlt : k.toNat < msgs.length := by omega
  exact ⟨msgs[k.toNat], by rw [fieldAt, if_neg (by omega), List.getElem?_eq_getElem hlt]⟩

/-- Within the message the loop reads every bucket up to the end. -/
theorem bucketLoop_eq_readBuckets (h : Header) {count rounds : ℕ} {ii endBuckets : ℤ}
    (h0 : 0 ≤ ii) (hend : ii + 4 * count = endBuckets) (hle : endBuckets ≤ msgs.length)
    (hlt : endBuckets < 2 ^ 31) (hrounds : count < rounds) (trees : ConnectionTrees) :
    bucketLoop rootOid msgs h.oidAddr h.port endBuckets rounds ii trees =
      some (endBuckets, h.readBuckets rootOid msgs count ii trees) := by
  obtain ⟨rounds, rfl⟩ : ∃ r, rounds = r + 1 := ⟨rounds - 1, by omega⟩
  induction count generalizing ii rounds trees with
  | zero =>
    have hii : ii = endBuckets := by omega
    rw [bucketLoop, if_neg (by omega), hii]
    rfl
  | succ count ih =>
    obtain ⟨rounds, rfl⟩ : ∃ r, rounds = r + 1 := ⟨rounds - 1, by omega⟩
    obtain ⟨bucketId, hid⟩ := exists_fieldAt msgs h0 (by omega)
    obtain ⟨entries, hentries⟩ := exists_fieldAt msgs (k := ii + 1) (by omega) (by omega)
    obtain ⟨data, hdata⟩ := exists_fieldAt msgs (k := ii + 2) (by omega) (by omega)
    obtain ⟨bandwidth, hband⟩ := exists_fieldAt msgs (k := ii + 3) (by omega) (by omega)
    have hstep : toInt32 (ii + 4) = ii + 4 := toInt32_of_lt (by omega) (by omega)
    rw [bucketLoop, if_pos (by omega), hid, hentries, hdata, hband, hstep]
    simp only [Option.bind_eq_bind, Option.bind_some]
    rw [ih (by omega) (by omega) _ _ (by omega)]
    simp only [Header.readBuckets, hid, hentries, hdata, hband, Option.map_some, Option.getD_some]

/-! ## Counts that fit -/

theorem StartsAt.two_le {ii : ℤ} (hs : StartsAt inet msgs ii) : 2 ≤ ii := by
  induction hs with
  | first => exact Int.le_refl 2
  | next _ _ hn _ ih =>
    rw [Header.target]
    omega

theorem computesEnd_of_fits {ii : ℤ} {h : Header} (hii : 2 ≤ ii) (hn : 0 ≤ h.numBuckets)
    (hlt : h.target ii < 2 ^ 31) : ComputesEnd ii h := by
  have hend : h.endBuckets ii = h.target ii := Header.endBuckets_eq_target (by omega) hn hlt
  rw [Header.target] at hlt
  refine ⟨toInt32_of_lt (by omega) (by omega), hend, ?_⟩
  rw [hend, Header.target]
  omega

theorem fits_of_computesEnd {ii : ℤ} {h : Header} (hc : ComputesEnd ii h) :
    0 ≤ h.numBuckets ∧ h.target ii < 2 ^ 31 := by
  obtain ⟨-, hend, hle⟩ := hc
  have hlt : h.endBuckets ii < 2 ^ 31 := toInt32_lt _
  refine ⟨?_, by omega⟩
  rw [hend, Header.target] at hle
  omega

/-- The buckets of a connection whose count fits are read, and the loop is behind them. -/
theorem bucketLoop_of_fits {ii : ℤ} {h : Header} (hii : 2 ≤ ii) (hn : 0 ≤ h.numBuckets)
    (hlt : h.target ii < 2 ^ 31) (hle : h.target ii ≤ msgs.length) (trees : ConnectionTrees) :
    h.bucketLoop rootOid msgs ii trees =
      some (h.target ii, h.readBuckets rootOid msgs h.numBuckets.toNat (ii + 5)
        (h.setConnection rootOid trees)) := by
  have hend := (computesEnd_of_fits hii hn hlt).2.1
  have htarget : h.target ii = ii + 5 + 4 * h.numBuckets := rfl
  have hadd : toInt32 (ii + 5) = ii + 5 := toInt32_of_lt (by omega) (by omega)
  rw [Header.bucketLoop, hend, hadd]
  exact bucketLoop_eq_readBuckets h (by omega) (by omega) hle hlt (by omega) _

theorem rejectsBadCount_of_fits {ii : ℤ} {h : Header} (hii : 2 ≤ ii)
    (hh : headerAt inet msgs ii = some h) (hfits : CountFits msgs ii h) (trees : ConnectionTrees) :
    RejectsBadCount inet rootOid msgs ii h trees := by
  obtain ⟨hn, hlt, hcut⟩ := hfits
  intro rounds
  rw [connectionLoop_of_header inet rootOid msgs hh, (computesEnd_of_fits hii hn hlt).2.1]
  by_cases hle : h.target ii ≤ msgs.length
  · rw [if_pos (hcut hle), if_pos ⟨hn, hle⟩, bucketLoop_of_fits hii hn hlt hle, Option.bind_some]
  · have hsize := toInt32_length_le msgs
    rw [if_neg (by omega), if_neg (by omega)]

/-! ## Whole messages -/

/-- Where every count fits, the handler starts only where a connection starts. -/
theorem Reaches.startsAt
    (hfits : ∀ ii h, StartsAt inet msgs ii → headerAt inet msgs ii = some h → CountFits msgs ii h)
    {ii : ℤ} {trees : ConnectionTrees} (hr : Reaches inet rootOid msgs ii trees) :
    StartsAt inet msgs ii := by
  induction hr with
  | first => exact .first
  | @next ii trees h next _ hh hend hloop ih =>
    obtain ⟨hn, hlt, -⟩ := hfits ii h ih hh
    rw [(computesEnd_of_fits ih.two_le hn hlt).2.1] at hend
    have hle : h.target ii ≤ msgs.length := hend.trans (toInt32_length_le msgs)
    rw [bucketLoop_of_fits ih.two_le hn hlt hle] at hloop
    cases hloop
    exact ih.next hh hn hle

/-- A loop that goes on behind the buckets has passed the test of their end. -/
theorem endBuckets_le_of_rejects {ii : ℤ} {h : Header} {trees : ConnectionTrees}
    (hh : headerAt inet msgs ii = some h) (hrej : RejectsBadCount inet rootOid msgs ii h trees)
    (hn : 0 ≤ h.numBuckets) (hle : h.target ii ≤ msgs.length) :
    h.endBuckets ii ≤ toInt32 msgs.length := by
  by_contra hgt
  have hstop := hrej 0
  have hnone (k : ℤ) (trees' : ConnectionTrees) :
      connectionLoop inet rootOid msgs 0 k trees' = none := by rw [connectionLoop]
  rw [connectionLoop_of_header inet rootOid msgs hh, if_neg hgt, if_pos ⟨hn, hle⟩, hnone] at hstop
  exact absurd hstop (Option.some_ne_none _)

/-- Where bad counts are rejected, the handler starts wherever a connection starts. -/
theorem StartsAt.reaches (hrej : RejectsBadCounts inet rootOid msgs) {ii : ℤ}
    (hs : StartsAt inet msgs ii) : ∃ trees, Reaches inet rootOid msgs ii trees := by
  induction hs with
  | first => exact ⟨.empty, .first⟩
  | @next ii h hs hh hn hle ih =>
    obtain ⟨trees, hr⟩ := ih
    obtain ⟨hcount, hcomputes⟩ := hrej ii trees h hr hh
    have hend := endBuckets_le_of_rejects hh hcount hn hle
    have hlt := (fits_of_computesEnd hcomputes).2
    exact ⟨_, hr.next hh hend (bucketLoop_of_fits hs.two_le hn hlt hle trees)⟩

/-- Bad counts are rejected exactly if there are none that do not fit: at every connection of
the message the number of buckets is not negative and the field after them is within the range
of `int`. -/
theorem rejects_bad_counts_iff (inet : InetPton) (rootOid : Oid) (msgs : Message) :
    RejectsBadCounts inet rootOid msgs ↔
      ∀ ii h, StartsAt inet msgs ii → headerAt inet msgs ii = some h → CountFits msgs ii h := by
  constructor
  · intro hrej ii h hs hh
    obtain ⟨trees, hr⟩ := hs.reaches hrej
    obtain ⟨hcount, hcomputes⟩ := hrej ii trees h hr hh
    obtain ⟨hn, hlt⟩ := fits_of_computesEnd hcomputes
    refine ⟨hn, hlt, fun hle => ?_⟩
    rw [← hcomputes.2.1]
    exact endBuckets_le_of_rejects hh hcount hn hle
  · intro hfits ii trees h hr hh
    have hs := hr.startsAt hfits
    obtain ⟨hn, hlt, -⟩ := hfits ii h hs hh
    exact ⟨rejectsBadCount_of_fits hs.two_le hh (hfits ii h hs hh) trees,
      computesEnd_of_fits hs.two_le hn hlt⟩

/-- Two connections, the first with a negative number of buckets. -/
def negativeCount : Message :=
  ["astaire_connections", "OK", "10.0.0.1", "11311", "1", "2", "-1",
    "10.0.0.2", "11311", "3", "4", "0"]

/-- The connection behind the bad count is still taken in. -/
theorem negative_count_not_rejected :
    (StatHandler.process .dottedQuads ⟨.astaireConnection, [9]⟩ negativeCount .empty).get
        [9, 6, 1, 4, 1, 4, 10, 0, 0, 2, 11311] = some 3 ∧
      ¬RejectsBadCounts .dottedQuads [9] negativeCount := by
  have hh : headerAt .dottedQuads negativeCount 2 =
      some ⟨.ipv4 #v[10, 0, 0, 1], 11311, 1, 2, -1⟩ := by decide
  refine ⟨by decide, ?_⟩
  intro hrej
  have hcomputes := (hrej 2 .empty _ .first hh).2
  exact absurd (fits_of_computesEnd hcomputes).1 (by decide)

end Astaire
end ClearwaterSnmp
