import ClearwaterSnmp.BucketCounts
import ClearwaterSnmp.Traced

namespace ClearwaterSnmp.Astaire

/-! ## The decoder with a trace -/

/-- What is recorded of a call of `AstaireConnectionStatHandler::handle`. -/
inductive DecoderEvent
  /-- `msgs[k]` is evaluated. -/
  | read (k : ℤ)
  /-- `ii` gets a value. -/
  | assigned (ii : ℤ)
  /-- A round of one of the two loops is over, and the loop was not left. -/
  | iterated (before after : ℤ)
deriving DecidableEq, Repr

section Traced

variable (inet : InetPton) (rootOid : Oid) (msgs : Message)

/-- `msgs[k]` -/
def readField (k : ℤ) : Traced DecoderEvent String := .event (.read k) (fieldAt msgs k)

/-- The value that is given to `ii`. -/
def assign (ii : ℤ) : Traced DecoderEvent ℤ := .event (.assigned ii) (some ii)

def endRound (before after : ℤ) : Traced DecoderEvent Unit :=
  .event (.iterated before after) (some ())

/-- The loop over the buckets of a connection. -/
def tracedBucketLoop (oidAddr : OidInetAddr) (port endBuckets : ℤ) :
    ℕ → ℤ → ConnectionTrees → Traced DecoderEvent (ℤ × ConnectionTrees)
  | 0, _, _ => failure
  | rounds + 1, ii, trees =>
    if ii < endBuckets then do
      let bucketId ← readField msgs ii
      let entries ← readField msgs (ii + 1)
      let data ← readField msgs (ii + 2)
      let bandwidth ← readField msgs (ii + 3)
      let next ← assign (toInt32 (ii + 4))
      endRound ii next
      tracedBucketLoop oidAddr port endBuckets rounds next
        (trees.setBucket rootOid oidAddr port (atoi bucketId) (atoi entries) (atoi data)
          (atoi bandwidth))
    else pure (ii, trees)

/-- The loop over the connections. -/
def tracedConnectionLoop : ℕ → ℤ → ConnectionTrees → Traced DecoderEvent ConnectionTrees
  | 0, _, _ => failure
  | rounds + 1, ii, trees =>
    if ii < toInt32 msgs.length then
      if toInt32 (ii + 5) ≤ toInt32 msgs.length then do
        let address ← readField msgs ii
        let port ← readField msgs (ii + 1)
        if (OidInetAddr.setAddr inet address).isValid then do
          let needing ← readField msgs (ii + 2)
          let resynchronized ← readField msgs (ii + 3)
          let numBuckets ← readField msgs (ii + 4)
          let h : Header := ⟨.setAddr inet address, atoi port, atoi needing, atoi resynchronized,
            atoi numBuckets⟩
          let first ← assign (toInt32 (ii + 5))
          if h.endBuckets ii ≤ toInt32 msgs.length then do
            let next ← tracedBucketLoop rootOid msgs h.oidAddr h.port (h.endBuckets ii)
              (msgs.length + 1) first (h.setConnection rootOid trees)
            endRound ii next.1
            tracedConnectionLoop rounds next.1 next.2
          else pure (h.setConnection rootOid trees)
        else do
          -- the address is read once more, for the log
          let _ ← readField msgs ii
          pure trees
      else pure trees
    else pure trees

/-- `AstaireConnectionStatHandler::handle` up to the replacement of the tables. -/
def tracedDecoder : Traced DecoderEvent ConnectionTrees := do
  let ii ← assign 2
  tracedConnectionLoop inet rootOid msgs (msgs.length + 1) ii .empty

end Traced

/-! ## The trace does not change the decoder -/

variable {inet : InetPton} {rootOid : Oid} {msgs : Message}

theorem result_tracedBucketLoop (oidAddr : OidInetAddr) (port endBuckets : ℤ) (rounds : ℕ) (ii : ℤ)
    (trees : ConnectionTrees) :
    (tracedBucketLoop rootOid msgs oidAddr port endBuckets rounds ii trees).result =
      bucketLoop rootOid msgs oidAddr port endBuckets rounds ii trees := by
  induction rounds generalizing ii trees with
  | zero => rfl
  | succ rounds ih =>
    rw [tracedBucketLoop, bucketLoop]
    split
    · apply Traced.result_bind_congr rfl
      intro bucketId _
      apply Traced.result_bind_congr rfl
      intro entries _
      apply Traced.result_bind_congr rfl
      intro data _
      apply Traced.result_bind_congr rfl
      intro bandwidth _
      exact ih (toInt32 (ii + 4)) _
    · rfl

theorem result_tracedConnectionLoop (rounds : ℕ) (ii : ℤ) (trees : ConnectionTrees) :
    (tracedConnectionLoop inet rootOid msgs rounds ii trees).result =
      connectionLoop inet rootOid msgs rounds ii trees := by
  induction rounds generalizing ii trees with
  | zero => rfl
  | succ rounds ih =>
    rw [tracedConnectionLoop, connectionLoop]
    by_cases hlt : ii < toInt32 msgs.length
    · rw [if_pos hlt, if_pos hlt]
      by_cases hle : toInt32 (ii + 5) ≤ toInt32 msgs.length
      · rw [if_pos hle, if_pos hle]
        apply Traced.result_bind_congr rfl
        intro address haddress
        apply Traced.result_bind_congr rfl
        intro port _
        by_cases hvalid : (OidInetAddr.setAddr inet address).isValid = true
        · rw [if_pos hvalid, if_pos hvalid]
          apply Traced.result_bind_congr rfl
          intro needing _
          apply Traced.result_bind_congr rfl
          intro resynchronized _
          apply Traced.result_bind_congr rfl
          intro numBuckets _
          rw [Traced.result_bind_of_eq_some rfl, Header.endBuckets]
          by_cases hend : toInt32 (toInt32 (ii + 5) + toInt32 (atoi numBuckets * 4)) ≤
              toInt32 msgs.length
          · rw [if_pos hend, if_pos hend]
            apply Traced.result_bind_congr (result_tracedBucketLoop _ _ _ _ _ _)
            intro next _
            exact ih next.1 next.2
          · rw [if_neg hend, if_neg hend]
            rfl
        · rw [if_neg hvalid, if_neg hvalid, Traced.result_bind_of_eq_some haddress]
          rfl
      · rw [if_neg hle, if_neg hle]
        rfl
    · rw [if_neg hlt, if_neg hlt]
      rfl

/-! ## Reads and rounds -/

/-- Reads are of fields of the message, `ii` is not past its end, and rounds move it on. -/
def SafeEvent (msgs : Message) : DecoderEvent → Prop
  | .read k => 0 ≤ k ∧ k < msgs.length
  | .assigned ii => ii ≤ msgs.length
  | .iterated before after => before < after

theorem meets_readField (msgs : Message) {k : ℤ} (h0 : 0 ≤ k) (hk : k < msgs.length) :
    (readField msgs k).Meets (SafeEvent msgs) fun _ => True := by
  obtain ⟨field, hfield⟩ := exists_fieldAt msgs h0 hk
  rw [readField, hfield]
  exact Traced.meets_event ⟨h0, hk⟩ trivial

theorem meets_assign (msgs : Message) (ii : ℤ) (h : ii ≤ msgs.length) :
    (assign ii).Meets (SafeEvent msgs) fun next => next = ii := Traced.meets_event h rfl

theorem meets_endRound {before after : ℤ} (h : before < after) :
    (endRound before after).Meets (SafeEvent msgs) fun _ => True := Traced.meets_event h trivial

/-- The end stays a multiple of four fields away, also if it wraps: four divides `2 ^ 32`. -/
theorem Header.four_dvd_endBuckets_sub (h : Header) (ii : ℤ) :
    (4 : ℤ) ∣ h.endBuckets ii - toInt32 (ii + 5) := by
  have hend := toInt32_emod (toInt32 (ii + 5) + toInt32 (h.numBuckets * 4))
  have hmul := toInt32_emod (h.numBuckets * 4)
  rw [← Header.endBuckets] at hend
  omega

/-- If the end is past `ii` it is past all four fields of the next bucket. -/
theorem meets_tracedBucketLoop (oidAddr : OidInetAddr) (port : ℤ) {endBuckets : ℤ} {rounds : ℕ}
    {ii : ℤ} (hlen : msgs.length < 2 ^ 31) (h0 : 0 ≤ ii) (hle : ii ≤ msgs.length)
    (hend : endBuckets ≤ msgs.length) (hdvd : (4 : ℤ) ∣ endBuckets - ii)
    (hrounds : msgs.length < ii + rounds) (trees : ConnectionTrees) :
    (tracedBucketLoop rootOid msgs oidAddr port endBuckets rounds ii trees).Meets (SafeEvent msgs)
      fun next : ℤ × ConnectionTrees => ii ≤ next.1 ∧ next.1 ≤ msgs.length := by
  induction rounds generalizing ii trees with
  | zero => omega
  | succ rounds ih =>
    rw [tracedBucketLoop]
    split
    · have hstep : toInt32 (ii + 4) = ii + 4 := toInt32_of_lt (by omega) (by omega)
      apply (meets_readField msgs h0 (by omega)).bind
      intro bucketId _
      apply (meets_readField msgs (k := ii + 1) (by omega) (by omega)).bind
      intro entries _
      apply (meets_readField msgs (k := ii + 2) (by omega) (by omega)).bind
      intro data _
      apply (meets_readField msgs (k := ii + 3) (by omega) (by omega)).bind
      intro bandwidth _
      rw [hstep]
      apply (meets_assign msgs (ii + 4) (by omega)).bind
      rintro next rfl
      apply (meets_endRound (by omega)).bind
      intro _ _
      apply (ih (by omega) (by omega) (by omega) (by omega) _).imp
      omega
    · exact Traced.meets_pure ⟨Int.le_refl ii, hle⟩

theorem meets_tracedConnectionLoop {rounds : ℕ} {ii : ℤ} (hlen : msgs.length < 2 ^ 31 - 5)
    (h0 : 0 ≤ ii) (hle : ii ≤ msgs.length) (hrounds : msgs.length < ii + rounds)
    (trees : ConnectionTrees) :
    (tracedConnectionLoop inet rootOid msgs rounds ii trees).Meets (SafeEvent msgs)
      fun _ => True := by
  induction rounds generalizing ii trees with
  | zero => omega
  | succ rounds ih =>
    have hsize : toInt32 msgs.length = msgs.length := toInt32_of_lt (by omega) (by omega)
    have hstep : toInt32 (ii + 5) = ii + 5 := toInt32_of_lt (by omega) (by omega)
    rw [tracedConnectionLoop, hsize, hstep]
    split_ifs with hlt hfields
    · apply (meets_readField msgs h0 (by omega)).bind
      intro address _
      apply (meets_readField msgs (k := ii + 1) (by omega) (by omega)).bind
      intro port _
      split_ifs
      · apply (meets_readField msgs (k := ii + 2) (by omega) (by omega)).bind
        intro needing _
        apply (meets_readField msgs (k := ii + 3) (by omega) (by omega)).bind
        intro resynchronized _
        apply (meets_readField msgs (k := ii + 4) (by omega) (by omega)).bind
        intro numBuckets _
        apply (meets_assign msgs (ii + 5) (by omega)).bind
        rintro first rfl
        split_ifs with hend
        · have hdvd := Header.four_dvd_endBuckets_sub ⟨.setAddr inet address, atoi port,
            atoi needing, atoi resynchronized, atoi numBuckets⟩ ii
          rw [hstep] at hdvd
          apply (meets_tracedBucketLoop _ _ (by omega) (by omega) (by omega) hend hdvd (by omega)
            _).bind
          rintro ⟨next, trees⟩ ⟨hnext, hlast⟩
          apply (meets_endRound (by omega)).bind
          intro _ _
          exact ih (by omega) hlast (by omega) trees
        · exact Traced.meets_pure trivial
      · apply (meets_readField msgs h0 (by omega)).bind
        exact fun _ _ => Traced.meets_pure trivial
    · exact Traced.meets_pure trivial
    · exact Traced.meets_pure trivial

/-- Without a name and a status the decoder does not get into its loops. -/
theorem tracedDecoder_of_short (inet : InetPton) (rootOid : Oid) (hlen : msgs.length < 2) :
    (tracedDecoder inet rootOid msgs).result = some .empty ∧
      (tracedDecoder inet rootOid msgs).trace = [.assigned 2] := by
  have hsize : toInt32 msgs.length = msgs.length := toInt32_of_lt (by omega) (by omega)
  have hloop : tracedConnectionLoop inet rootOid msgs (msgs.length + 1) 2 .empty =
      pure .empty := by
    rw [tracedConnectionLoop, hsize, if_neg (by omega)]
  constructor
  · rw [tracedDecoder, Traced.result_bind_of_eq_some rfl, hloop]
    rfl
  · rw [tracedDecoder, Traced.trace_bind rfl, hloop]
    rfl

theorem meets_tracedDecoder (inet : InetPton) (rootOid : Oid)
    (hlen : msgs.length < 2 ^ 31 - 5) (htwo : 2 ≤ msgs.length) :
    (tracedDecoder inet rootOid msgs).Meets (SafeEvent msgs) fun _ => True := by
  apply (meets_assign msgs 2 (by omega)).bind
  rintro ii rfl
  exact meets_tracedConnectionLoop hlen (by omega) (by omega) (by omega) .empty

/-- The handler is the decoder, followed by the replacement of the tables. -/
theorem astaireConnectionStatHandle_of_result {trees : ConnectionTrees}
    (h : (tracedDecoder inet rootOid msgs).result = some trees) :
    astaireConnectionStatHandle inet rootOid msgs = trees.calls rootOid := by
  rw [tracedDecoder, Traced.result_bind_of_eq_some rfl, result_tracedConnectionLoop] at h
  rw [astaireConnectionStatHandle, h]
  rfl

/-- Whatever is in the message: both loops come to an end, only fields of the message are read,
every round that does not leave its loop moves `ii` on, and `ii` is never past the end of the
message, unless there is not even a name and a status: then it stays at 2 and nothing is read. -/
theorem decoder_safe (inet : InetPton) (rootOid : Oid) (msgs : Message)
    (hlen : msgs.length < 2 ^ 31 - 5) :
    (∃ trees, (tracedDecoder inet rootOid msgs).result = some trees ∧
      astaireConnectionStatHandle inet rootOid msgs = trees.calls rootOid) ∧
      (∀ k : ℤ, .read k ∈ (tracedDecoder inet rootOid msgs).trace → 0 ≤ k ∧ k < msgs.length) ∧
      (∀ before after, .iterated before after ∈ (tracedDecoder inet rootOid msgs).trace →
        before < after) ∧
      (2 ≤ msgs.length →
        ∀ ii : ℤ, .assigned ii ∈ (tracedDecoder inet rootOid msgs).trace → ii ≤ msgs.length) ∧
      (msgs.length < 2 → (tracedDecoder inet rootOid msgs).trace = [.assigned 2]) := by
  by_cases htwo : 2 ≤ msgs.length
  · have hmeets := meets_tracedDecoder inet rootOid hlen htwo
    obtain ⟨trees, hr, -⟩ := hmeets.returns
    exact ⟨⟨trees, hr, astaireConnectionStatHandle_of_result hr⟩, fun k => hmeets.events (.read k),
      fun before after => hmeets.events (.iterated before after),
      fun _ ii => hmeets.events (.assigned ii), fun hlt => absurd hlt (by omega)⟩
  · obtain ⟨hr, htrace⟩ := tracedDecoder_of_short inet rootOid (Nat.lt_of_not_le htwo)
    rw [htrace]
    exact ⟨⟨.empty, hr, astaireConnectionStatHandle_of_result hr⟩, by simp, by simp,
      fun h => absurd h htwo, fun _ => rfl⟩

/-- The fields of `2 ^ 30` buckets are none in 32 bits, so that the decoder goes on with the
connection behind them. -/
def wrappingCount : Message :=
  ["astaire_connections", "OK", "10.0.0.1", "11311", "1", "2", "1073741824",
    "10.0.0.2", "11311", "3", "4", "-536870912"]

theorem decoder_safe_sample :
    wrappingCount.length < 2 ^ 31 - 5 ∧
      (∃ trees, (tracedDecoder .dottedQuads [9] wrappingCount).result = some trees ∧
        astaireConnectionStatHandle .dottedQuads [9] wrappingCount = trees.calls [9]) ∧
      (∀ k : ℤ, .read k ∈ (tracedDecoder .dottedQuads [9] wrappingCount).trace →
        0 ≤ k ∧ k < wrappingCount.length) ∧
      .iterated 2 7 ∈ (tracedDecoder .dottedQuads [9] wrappingCount).trace := by
  obtain ⟨hreturns, hreads, -⟩ := decoder_safe .dottedQuads [9] wrappingCount (by decide)
  exact ⟨by decide, hreturns, hreads, by decide⟩

/-- Without a status `ii` is past the end from the start. -/
theorem index_past_short_message :
    (tracedDecoder .dottedQuads [9] ["astaire_connections"]).trace = [.assigned 2] ∧
      ¬∀ (inet : InetPton) (rootOid : Oid) (msgs : Message), msgs.length < 2 ^ 31 - 5 →
        ∀ ii : ℤ, .assigned ii ∈ (tracedDecoder inet rootOid msgs).trace →
          ii ≤ msgs.length := by
  have htrace : (tracedDecoder .dottedQuads [9] ["astaire_connections"]).trace =
      [.assigned 2] := (tracedDecoder_of_short .dottedQuads [9] (by decide)).2
  refine ⟨htrace, ?_⟩
  intro h
  have hle := h .dottedQuads [9] ["astaire_connections"] (by decide) 2 (by
    rw [htrace]
    exact List.mem_singleton_self _)
  exact absurd hle (by decide)

end ClearwaterSnmp.Astaire
