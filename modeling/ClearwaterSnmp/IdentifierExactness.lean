import ClearwaterSnmp.AlarmAgent
import Mathlib.Data.List.TakeWhile

namespace ClearwaterSnmp

/-! ## What `sscanf` reads -/

theorem takeWhile_dropWhile_append {p : Char → Bool} {cs rest : List Char}
    (hcs : ∀ c ∈ cs, p c = true) (hrest : ∀ c ∈ rest.head?, p c = false) :
    (cs ++ rest).takeWhile p = cs ∧ (cs ++ rest).dropWhile p = rest := by
  rw [List.takeWhile_append_of_pos hcs, List.dropWhile_append_of_pos hcs]
  cases rest with
  | nil => simp
  | cons c rest => simp [hrest c rfl]

inductive Sign
  | absent
  | plus
  | minus
deriving DecidableEq

def Sign.text : Sign → List Char
  | absent => []
  | plus => ['+']
  | minus => ['-']

/-- What a `%u` conversion can read: white space, a sign and digits. -/
structure Numeral where
  spaces : List Char
  sign : Sign
  digits : List Char
  isSpace_of_mem : ∀ c ∈ spaces, isSpace c = true
  isDigit_of_mem : ∀ c ∈ digits, c.isDigit = true
  digits_ne_nil : digits ≠ []

namespace Numeral

def text (a : Numeral) : List Char := a.spaces ++ (a.sign.text ++ a.digits)

/-- The number that is stored. -/
def stored (a : Numeral) : ℕ := strtoul (a.sign = .minus) a.digits % 2 ^ 32

/-- Digits alone, for a number of at most 32 bits. -/
structure Plain (a : Numeral) : Prop where
  spaces : a.spaces = []
  sign : a.sign = .absent
  in_range : digitsValue a.digits < 2 ^ 32

theorem Plain.text_eq {a : Numeral} (h : a.Plain) : a.text = a.digits := by
  simp [text, h.spaces, h.sign, Sign.text]

theorem Plain.stored_eq {a : Numeral} (h : a.Plain) : a.stored = digitsValue a.digits := by
  have hr := h.in_range
  have hnot : ¬2 ^ 64 ≤ digitsValue a.digits := by omega
  simp only [stored, strtoul, h.sign, if_neg hnot]
  exact Nat.mod_eq_of_lt hr

end Numeral

theorem not_isSpace_of_isDigit {c : Char} (h : c.isDigit = true) : isSpace c = false := by
  have hlow : 48 ≤ c.toNat := by
    simp only [Char.isDigit, Bool.and_eq_true, decide_eq_true_eq] at h
    exact h.1
  have hne : c ≠ ' ' := by
    rintro rfl
    contradiction
  have hhigh : ¬c.toNat ≤ 13 := by omega
  simp [isSpace, hne, hhigh]

theorem scanSign_text (input : List Char) : ∃ sign : Sign,
    input = sign.text ++ (scanSign input).2 ∧ (scanSign input).1 = decide (sign = .minus) := by
  unfold scanSign
  split
  · exact ⟨.minus, rfl, rfl⟩
  · exact ⟨.plus, rfl, rfl⟩
  · exact ⟨.absent, rfl, rfl⟩

theorem scanSign_append (sign : Sign) {rest : List Char}
    (h : ∀ c ∈ rest.head?, c.isDigit = true) :
    scanSign (sign.text ++ rest) = (decide (sign = .minus), rest) := by
  cases sign with
  | absent =>
    cases rest with
    | nil => rfl
    | cons c rest =>
      have hc : c.isDigit = true := h c rfl
      simp only [Sign.text, List.nil_append]
      unfold scanSign
      split
      · rename_i he
        cases he
        contradiction
      · rename_i he
        cases he
        contradiction
      · rfl
  | plus => rfl
  | minus => rfl

theorem head_isDigit (a : Numeral) (rest : List Char) :
    ∀ c ∈ (a.digits ++ rest).head?, c.isDigit = true := by
  intro c hc
  cases hd : a.digits with
  | nil => exact absurd hd a.digits_ne_nil
  | cons d ds =>
    rw [hd] at hc
    obtain rfl := Option.some.inj hc
    exact a.isDigit_of_mem d (by simp [hd])

theorem head_not_isSpace (a : Numeral) (rest : List Char) :
    ∀ c ∈ (a.sign.text ++ (a.digits ++ rest)).head?, isSpace c = false := by
  intro c hc
  cases hs : a.sign with
  | absent =>
    rw [hs] at hc
    exact not_isSpace_of_isDigit (head_isDigit a rest c hc)
  | plus =>
    rw [hs] at hc
    obtain rfl := Option.some.inj hc
    rfl
  | minus =>
    rw [hs] at hc
    obtain rfl := Option.some.inj hc
    rfl

theorem scanUnsigned_text (a : Numeral) {rest : List Char}
    (hrest : ∀ c ∈ rest.head?, c.isDigit = false) :
    scanUnsigned (a.text ++ rest) = some (a.stored, rest) := by
  obtain ⟨-, hspaces⟩ := takeWhile_dropWhile_append a.isSpace_of_mem (head_not_isSpace a rest)
  obtain ⟨htake, hdrop⟩ := takeWhile_dropWhile_append a.isDigit_of_mem hrest
  have htext : a.text ++ rest = a.spaces ++ (a.sign.text ++ (a.digits ++ rest)) := by
    simp [Numeral.text]
  rw [htext]
  simp only [scanUnsigned, hspaces, scanSign_append a.sign (head_isDigit a rest), htake, hdrop,
    if_neg a.digits_ne_nil]
  rfl

/-- A `%u` conversion reads as far as the digits go. -/
theorem exists_numeral_of_scanUnsigned {input rest : List Char} {v : ℕ}
    (h : scanUnsigned input = some (v, rest)) :
    ∃ a : Numeral, input = a.text ++ rest ∧ a.stored = v ∧
      ∀ c ∈ rest.head?, c.isDigit = false := by
  obtain ⟨sign, hsign, hneg⟩ := scanSign_text (input.dropWhile isSpace)
  simp only [scanUnsigned] at h
  split at h
  · contradiction
  · rename_i hne
    obtain ⟨rfl, rfl⟩ := Prod.mk.inj (Option.some.inj h)
    refine ⟨⟨input.takeWhile isSpace, sign, _, fun c hc => List.mem_takeWhile_imp hc,
      fun c hc => List.mem_takeWhile_imp hc, hne⟩, ?_, ?_, fun c hc => ?_⟩
    · simp only [Numeral.text, List.append_assoc, List.takeWhile_append_dropWhile]
      rw [← hsign, List.takeWhile_append_dropWhile]
    · rw [Numeral.stored, hneg]
    · have hnot := List.head?_dropWhile_not Char.isDigit (scanSign (input.dropWhile isSpace)).2
      rw [hc] at hnot
      simpa using hnot

/-- The identifier is `a`, a dot and `b`, with `tail` left over. -/
structure Reads (identifier : String) (a b : Numeral) (tail : List Char) : Prop where
  text : identifier.toList = a.text ++ '.' :: (b.text ++ tail)
  ends : ∀ c ∈ tail.head?, c.isDigit = false

theorem Numeral.text_ne_nul (a : Numeral) : ∀ c ∈ a.text, decide (c.toNat ≠ 0) = true := by
  intro c hc
  rw [decide_eq_true_eq]
  intro h0
  obtain rfl : c = Char.ofNat 0 := by rw [← h0, Char.ofNat_toNat]
  simp only [text, List.mem_append] at hc
  rcases hc with hs | hs | hd
  · exact absurd (a.isSpace_of_mem _ hs) (by decide)
  · cases hsign : a.sign <;> simp [hsign, Sign.text] at hs
  · exact absurd (a.isDigit_of_mem _ hd) (by decide)

theorem sscanfIdentifier_text {a b : Numeral} {tail : List Char}
    (hends : ∀ c ∈ tail.head?, c.isDigit = false) :
    sscanfIdentifier (a.text ++ '.' :: (b.text ++ tail)) = some (a.stored, b.stored) := by
  have hdot : ∀ c ∈ ('.' :: (b.text ++ tail)).head?, c.isDigit = false := by
    intro c hc
    obtain rfl := Option.some.inj hc
    rfl
  simp [sscanfIdentifier, scanUnsigned_text a hdot, scanUnsigned_text b hends]

/-- `sscanf` makes both conversions exactly if the identifier reads as two
numerals and a dot, whatever is left over. -/
theorem sscanfIdentifier_eq_some {identifier : String} {i n : ℕ} :
    sscanfIdentifier (cStr identifier) = some (i, n) ↔
      ∃ a b tail, Reads identifier a b tail ∧ a.stored = i ∧ b.stored = n := by
  constructor
  · intro h
    simp only [sscanfIdentifier, Option.bind_eq_bind] at h
    obtain ⟨⟨i', rest⟩, hi, h⟩ := Option.bind_eq_some_iff.mp h
    dsimp only at h
    split at h
    · rename_i rest'
      obtain ⟨⟨n', left⟩, hn, h⟩ := Option.bind_eq_some_iff.mp h
      obtain ⟨rfl, rfl⟩ := Prod.mk.inj (Option.some.inj h)
      obtain ⟨a, ha, hia, -⟩ := exists_numeral_of_scanUnsigned hi
      obtain ⟨b, hb, hnb, hends⟩ := exists_numeral_of_scanUnsigned hn
      -- what `c_str()` hides follows what is left over
      let hidden := identifier.toList.dropWhile (·.toNat ≠ 0)
      refine ⟨a, b, left ++ hidden, ⟨?_, ?_⟩, hia, hnb⟩
      · have hall : identifier.toList = cStr identifier ++ hidden :=
          List.takeWhile_append_dropWhile.symm
        rw [hall, ha, hb]
        simp
      · intro c hc
        cases left with
        | nil =>
          have hnul := List.head?_dropWhile_not (fun c : Char => decide (c.toNat ≠ 0))
            identifier.toList
          rw [List.nil_append] at hc
          rw [show (identifier.toList.dropWhile (·.toNat ≠ 0)).head? = some c from hc] at hnul
          have h0 : c.toNat = 0 := by simpa using hnul
          obtain rfl : c = Char.ofNat 0 := by rw [← h0, Char.ofNat_toNat]
          rfl
        | cons d left => exact hends c hc
    · contradiction
  · rintro ⟨a, b, tail, h, rfl, rfl⟩
    have hc : cStr identifier = a.text ++ '.' :: (b.text ++ tail.takeWhile (·.toNat ≠ 0)) := by
      rw [cStr, h.text, List.takeWhile_append_of_pos a.text_ne_nul,
        List.takeWhile_cons_of_pos (by decide), List.takeWhile_append_of_pos b.text_ne_nul]
    rw [hc]
    apply sscanfIdentifier_text
    intro c hc
    cases tail with
    | nil => contradiction
    | cons d tail =>
      rw [List.takeWhile_cons] at hc
      split at hc
      · exact h.ends c hc
      · contradiction

/-! ## What an identifier denotes -/

def IsNumeral (ds : List Char) : Prop := ds ≠ [] ∧ ∀ c ∈ ds, c.isDigit = true

/-- The identifier is a decimal numeral, a dot and a decimal numeral, and nothing
else, with the values `i` and `n`. -/
def Denotes (identifier : String) (i n : ℕ) : Prop :=
  ∃ ds es, IsNumeral ds ∧ IsNumeral es ∧ identifier.toList = ds ++ '.' :: es ∧
    digitsValue ds = i ∧ digitsValue es = n

theorem Numeral.bare_of_digits {a : Numeral} (h : ∀ c ∈ a.text, c.isDigit = true ∨ c = '.') :
    a.spaces = [] ∧ a.sign = .absent := by
  constructor
  · apply List.eq_nil_iff_forall_not_mem.mpr
    intro c hc
    have hspace := a.isSpace_of_mem c hc
    rcases h c (List.mem_append_left _ hc) with hd | rfl
    · simp [not_isSpace_of_isDigit hd] at hspace
    · contradiction
  · have hsign : ∀ c ∈ a.sign.text, c.isDigit = true ∨ c = '.' :=
      fun c hc => h c (List.mem_append_right _ (List.mem_append_left _ hc))
    cases hs : a.sign with
    | absent => rfl
    | plus =>
      rw [hs] at hsign
      exact absurd (hsign '+' List.mem_cons_self) (by decide)
    | minus =>
      rw [hs] at hsign
      exact absurd (hsign '-' List.mem_cons_self) (by decide)

theorem Denotes.isDigit_or_dot {identifier : String} {i n : ℕ} (h : Denotes identifier i n) :
    ∀ c ∈ identifier.toList, c.isDigit = true ∨ c = '.' := by
  obtain ⟨ds, es, hds, hes, htext, -⟩ := h
  intro c hc
  rw [htext, List.mem_append, List.mem_cons] at hc
  rcases hc with hc | hc | hc
  · exact Or.inl (hds.2 c hc)
  · exact Or.inr hc
  · exact Or.inl (hes.2 c hc)

theorem Denotes.index_eq {identifier : String} {i n : ℕ} (h : Denotes identifier i n) :
    i = digitsValue (identifier.toList.takeWhile Char.isDigit) := by
  obtain ⟨ds, es, hds, -, htext, hi, -⟩ := h
  have hdot : ∀ c ∈ ('.' :: es).head?, c.isDigit = false := by
    intro c hc
    obtain rfl := Option.some.inj hc
    rfl
  rw [htext, (takeWhile_dropWhile_append hds.2 hdot).1, hi]

/-- An identifier that denotes two numbers reads in one way only. -/
theorem Reads.of_denotes {identifier : String} {a b : Numeral} {tail : List Char} {i n : ℕ}
    (h : Reads identifier a b tail) (hd : Denotes identifier i n) :
    (a.spaces = [] ∧ a.sign = .absent ∧ digitsValue a.digits = i) ∧
      (b.spaces = [] ∧ b.sign = .absent ∧ digitsValue b.digits = n) ∧ tail = [] := by
  have hchars := hd.isDigit_or_dot
  rw [h.text] at hchars
  obtain ⟨haspaces, hasign⟩ := a.bare_of_digits fun c hc => hchars c (by simp [hc])
  obtain ⟨hbspaces, hbsign⟩ := b.bare_of_digits fun c hc => hchars c (by simp [hc])
  obtain ⟨ds, es, hds, hes, htext, rfl, rfl⟩ := hd
  have hnot (rest : List Char) : ∀ c ∈ ('.' :: rest).head?, c.isDigit = false := by
    intro c hc
    obtain rfl := Option.some.inj hc
    rfl
  have hatext : a.text = a.digits := by simp [Numeral.text, haspaces, hasign, Sign.text]
  have hbtext : b.text = b.digits := by simp [Numeral.text, hbspaces, hbsign, Sign.text]
  have heq : ds ++ '.' :: es = a.digits ++ '.' :: (b.digits ++ tail) := by
    rw [← htext, h.text, hatext, hbtext]
  -- the digits before the dot, and what is after it, are the same in both splittings
  obtain ⟨hta, hda⟩ := takeWhile_dropWhile_append a.isDigit_of_mem (hnot (b.digits ++ tail))
  obtain ⟨hts, hds'⟩ := takeWhile_dropWhile_append hds.2 (hnot es)
  have hdigits : ds = a.digits := by rw [← hts, heq, hta]
  have hes' : es = b.digits ++ tail := by
    have hdrop : '.' :: es = '.' :: (b.digits ++ tail) := by rw [← hds', heq, hda]
    exact (List.cons.inj hdrop).2
  have htail : tail = [] := by
    cases tail with
    | nil => rfl
    | cons c tail =>
      have hc := hes.2 c (by simp [hes'])
      simp [h.ends c rfl] at hc
  refine ⟨⟨haspaces, hasign, by rw [hdigits]⟩, ⟨hbspaces, hbsign, ?_⟩, htail⟩
  rw [hes', htail, List.append_nil]

/-- The identifier is accepted exactly if it denotes the index and the severity of
a loaded definition, and these are what it is accepted for. -/
def ParsedExactly (defs : AlarmTableDefs) (identifier : String) : Prop :=
  ∀ i n, validateAlarmTrigger defs identifier = some (i, n) ↔
    Denotes identifier i n ∧ (defs.getDefinition i n).isValid = true

/-- An identifier whose stored numbers name a loaded definition has no white
space, no sign, no number beyond 32 bits and nothing left over. -/
def ReadsPlainly (defs : AlarmTableDefs) (identifier : String) : Prop :=
  ∀ a b tail, Reads identifier a b tail → (defs.getDefinition a.stored b.stored).isValid = true →
    a.Plain ∧ b.Plain ∧ tail = []

theorem Numeral.stored_lt (a : Numeral) : a.stored < 2 ^ 32 := Nat.mod_lt _ (by decide)

/-- Alarm indexes are unsigned ints. -/
theorem parsed_exactly_iff (defs : AlarmTableDefs)
    (hrange : ∀ d, defs.Loaded d → d.alarmIndex < 2 ^ 32) (identifier : String) :
    ParsedExactly defs identifier ↔ ReadsPlainly defs identifier := by
  constructor
  · intro h a b tail hreads hvalid
    have haccept := validateAlarmTrigger_eq_some.mpr
      ⟨sscanfIdentifier_eq_some.mpr ⟨a, b, tail, hreads, rfl, rfl⟩, hvalid⟩
    obtain ⟨hdenotes, -⟩ := (h a.stored b.stored).mp haccept
    obtain ⟨⟨has, hag, hav⟩, ⟨hbs, hbg, hbv⟩, htail⟩ := hreads.of_denotes hdenotes
    exact ⟨⟨has, hag, hav ▸ a.stored_lt⟩, ⟨hbs, hbg, hbv ▸ b.stored_lt⟩, htail⟩
  · intro h i n
    rw [validateAlarmTrigger_eq_some, sscanfIdentifier_eq_some]
    constructor
    · rintro ⟨⟨a, b, tail, hreads, rfl, rfl⟩, hvalid⟩
      obtain ⟨ha, hb, rfl⟩ := h a b tail hreads hvalid
      refine ⟨⟨a.digits, b.digits, ⟨a.digits_ne_nil, a.isDigit_of_mem⟩,
        ⟨b.digits_ne_nil, b.isDigit_of_mem⟩, ?_, ha.stored_eq.symm, hb.stored_eq.symm⟩, hvalid⟩
      rw [hreads.text, ha.text_eq, hb.text_eq, List.append_nil]
    · rintro ⟨⟨ds, es, hds, hes, htext, rfl, rfl⟩, hvalid⟩
      obtain ⟨hloaded, hindex, hseverity⟩ := AlarmTableDefs.loaded_of_isValid hvalid
      let a : Numeral := ⟨[], .absent, ds, by simp, hds.2, hds.1⟩
      let b : Numeral := ⟨[], .absent, es, by simp, hes.2, hes.1⟩
      have ha : a.Plain := ⟨rfl, rfl, hindex ▸ hrange _ hloaded⟩
      have hb : b.Plain := by
        refine ⟨rfl, rfl, ?_⟩
        have hle :=
          Severity.number_le (defs.getDefinition (digitsValue ds) (digitsValue es)).severity
        rw [hseverity] at hle
        exact hle.trans_lt (by decide)
      refine ⟨⟨a, b, [], ⟨?_, by simp⟩, ha.stored_eq, hb.stored_eq⟩, hvalid⟩
      rw [htext, ha.text_eq, hb.text_eq, List.append_nil]

theorem Denotes.readsPlainly {identifier : String} {i n : ℕ} (h : Denotes identifier i n)
    (hi : i < 2 ^ 32) (hn : n < 2 ^ 32) (defs : AlarmTableDefs) : ReadsPlainly defs identifier := by
  intro a b tail hreads _
  obtain ⟨⟨has, hag, rfl⟩, ⟨hbs, hbg, rfl⟩, htail⟩ := hreads.of_denotes h
  exact ⟨⟨has, hag, hi⟩, ⟨hbs, hbg, hn⟩, htail⟩

theorem parsed_exactly_sample : ParsedExactly .sample "1000.3" := by
  have hrange : ∀ d, AlarmTableDefs.sample.Loaded d → d.alarmIndex < 2 ^ 32 := by
    have hall : ∀ d ∈ AlarmTableDefs.sample.iterate, d.alarmIndex < 2 ^ 32 := by decide
    exact fun d hd => hall d (AlarmTableDefs.mem_iterate.mpr hd)
  have hdenotes : Denotes "1000.3" 1000 3 :=
    ⟨"1000".toList, "3".toList, ⟨by decide, List.all_eq_true.mp rfl⟩,
      ⟨by decide, List.all_eq_true.mp rfl⟩, by decide, by decide, by decide⟩
  rw [parsed_exactly_iff .sample hrange]
  exact hdenotes.readsPlainly (by decide) (by decide) .sample

theorem not_parsedExactly {defs : AlarmTableDefs} {identifier : String} {i n : ℕ}
    (h : validateAlarmTrigger defs identifier = some (i, n)) (hd : ¬Denotes identifier i n) :
    ¬ParsedExactly defs identifier := fun hp => hd ((hp i n).mp h).1

/-- Trailing text, white space, a number of more than 32 bits and a negative
one are all accepted for alarm 1000. -/
theorem lenient_identifiers :
    ¬ParsedExactly .sample "1000.3x" ∧ ¬ParsedExactly .sample " 1000.3" ∧
      ¬ParsedExactly .sample "4294968296.3" ∧ ¬ParsedExactly .sample "-4294966296.3" := by
  have htext {c : Char} {identifier : String} {i n : ℕ} (hc : c ∈ identifier.toList)
      (hn : ¬(c.isDigit = true ∨ c = '.')) : ¬Denotes identifier i n :=
    fun h => hn (h.isDigit_or_dot c hc)
  refine ⟨?_, ?_, ?_, ?_⟩
  · exact not_parsedExactly (i := 1000) (n := 3) (by decide)
      (htext (c := 'x') (by decide) (by decide))
  · exact not_parsedExactly (i := 1000) (n := 3) (by decide)
      (htext (c := ' ') (by decide) (by decide))
  · apply not_parsedExactly (i := 1000) (n := 3) (by decide)
    exact fun h => absurd h.index_eq (by decide)
  · exact not_parsedExactly (i := 1000) (n := 3) (by decide)
      (htext (c := '-') (by decide) (by decide))

end ClearwaterSnmp
