import Ember.Resp.Delimited

/-!
# Panics of the parser

Lengths and counts are taken from the peer as they are.  A length takes part in two
additions before it is compared with the buffer, and a count is turned into an
allocation at once, so both can bring the parser down.  Everything else it computes
stays inside the buffer: the parser panics at the header of a frame, or in an element of
an array.
-/

namespace Ember.Resp.Parser

open Ember.Base

variable {target : Target}

/-! ## The typed parsers -/

theorem parseLine_ne_panic {α : Type} {skip : ℕ} {decode : List UInt8 → Outcome ParseError α}
    (returns : ∀ data, decode data ≠ .panic) (buf : List UInt8) :
    parseLine skip decode buf ≠ .panic := by
  rw [parseLine]
  split
  next data len found =>
    cases decoded : decode data with
    | panic => exact absurd decoded (returns data)
    | ok value => rintro ⟨⟩
    | error reason => rintro ⟨⟩
  next => rintro ⟨⟩

theorem parseHeader_ne_panic (buf : List UInt8) : parseHeader buf ≠ .panic := by
  apply parseLine_ne_panic
  intro data
  unfold parseUsizeFromBuf
  cases fromUtf8 data with
  | none => nofun
  | some text =>
      rw [Outcome.ofOption_some, Outcome.ok_bind]
      cases parseUnsigned 64 text <;> nofun

theorem parseSimple_ne_panic (buf : List UInt8) : parseSimple buf ≠ .panic := by
  apply parseLine_ne_panic
  intro data
  unfold decodeSimple
  cases fromUtf8 data <;> nofun

theorem parseInline_ne_panic (buf : List UInt8) : parseInline buf ≠ .panic := by
  apply parseLine_ne_panic
  intro data
  unfold decodeInline
  cases fromUtf8 data <;> nofun

theorem parseInteger_ne_panic (buf : List UInt8) : parseInteger buf ≠ .panic := by
  apply parseLine_ne_panic
  intro data
  unfold decodeInteger
  cases fromUtf8 data with
  | none => nofun
  | some text =>
      rw [Outcome.ofOption_some, Outcome.ok_bind]
      cases parseSigned 63 text <;> nofun

theorem parseNull_ne_panic (buf : List UInt8) : parseNull buf ≠ .panic := by
  apply parseLine_ne_panic
  intro data
  nofun

theorem parseBool_ne_panic (buf : List UInt8) : parseBool buf ≠ .panic := by
  apply parseLine_ne_panic
  intro data
  unfold decodeBool
  split <;> nofun

theorem parseBulkBody_eq_panic_iff {buf : List UInt8} {len start : ℕ} (word : len < usizeModulus) :
    parseBulkBody target buf len start = .panic ↔
      usizeModulus ≤ start + len + 2 ∧
        (target.overflowChecks = true ∨ (start + len + 2) % usizeModulus ≤ buf.length) := by
  by_cases overflow : usizeModulus ≤ start + len + 2
  · rw [parseBulkBody_of_overflow target word overflow]
    cases target.overflowChecks <;> simp [overflow]
  · rw [parseBulkBody_of_fits target (Nat.lt_of_not_le overflow)]
    apply iff_of_false
    · split
      · nofun
      · split
        · nofun
        · cases fromUtf8 ((buf.drop start).take len) <;> nofun
    · exact fun both => overflow both.1

theorem parseBulkString_eq_panic_iff {buf : List UInt8} :
    parseBulkString target buf = .panic ↔ ∃ len start, parseHeader buf = .ok (len, start) ∧
      usizeModulus ≤ start + len + 2 ∧
        (target.overflowChecks = true ∨ (start + len + 2) % usizeModulus ≤ buf.length) := by
  rw [parseBulkString]
  cases header : parseHeader buf with
  | panic => exact absurd header (parseHeader_ne_panic buf)
  | error reason => simp
  | ok opened =>
      rcases opened with ⟨len, start⟩
      rw [Outcome.ok_bind, parseBulkBody_eq_panic_iff (parseHeader_lt header)]
      constructor
      · intro overflow
        exact ⟨len, start, rfl, overflow⟩
      · rintro ⟨_, _, ⟨⟩, overflow⟩
        exact overflow

/-! ## Arrays -/

/-- The element loop panics exactly when one of the elements does. -/
theorem parseElements_eq_panic_iff {parse : List UInt8 → Parsed}
    (delimited : Framing.SelfDelimiting .incomplete parse) {buf : List UInt8} {start : ℕ}
    (inside : start ≤ buf.length) (remaining : ℕ) (arr : List RespType) :
    parseElements parse buf remaining arr start = .panic ↔
      ∃ k arr' n, k < remaining ∧ parseElements parse buf k arr start = .ok (.array arr', n) ∧
        parse (buf.drop n) = .panic := by
  induction remaining generalizing arr start with
  | zero => exact iff_of_false nofun (by simp)
  | succ remaining ih =>
      rw [parseElements_succ inside]
      cases first : parse (buf.drop start) with
      | panic => exact iff_of_true rfl ⟨0, arr, start, Nat.succ_pos remaining, rfl, first⟩
      | error reason =>
          apply iff_of_false
          · nofun
          · rintro ⟨_ | k, arr', n, -, read, panics⟩
            · cases read
              rw [first] at panics
              cases panics
            · rw [parseElements_succ inside, first] at read
              cases read
      | ok parsed =>
          have bound := delimited.consumed_le first
          rw [List.length_drop] at bound
          rw [Outcome.ok_bind, ih (by omega)]
          constructor
          · rintro ⟨k, arr', n, below, read, panics⟩
            refine ⟨k + 1, arr', n, Nat.succ_lt_succ below, ?_, panics⟩
            rwa [parseElements_succ inside, first, Outcome.ok_bind]
          · rintro ⟨_ | k, arr', n, below, read, panics⟩
            · cases read
              rw [first] at panics
              cases panics
            · rw [parseElements_succ inside, first, Outcome.ok_bind] at read
              exact ⟨k, arr', n, Nat.lt_of_succ_lt_succ below, read, panics⟩

theorem parseArray_eq_panic_iff {parse : List UInt8 → Parsed}
    (delimited : Framing.SelfDelimiting .incomplete parse) {buf : List UInt8} :
    parseArray target parse buf = .panic ↔ ∃ count start, parseHeader buf = .ok (count, start) ∧
      (isizeMax < count * target.elementSize ∨ count * target.elementSize ≤ isizeMax ∧
        ∃ k arr n, k < count ∧ parseElements parse buf k [] start = .ok (.array arr, n) ∧
          parse (buf.drop n) = .panic) := by
  rw [parseArray]
  cases header : parseHeader buf with
  | panic => exact absurd header (parseHeader_ne_panic buf)
  | error reason => simp
  | ok opened =>
      rcases opened with ⟨count, start⟩
      have inside := parseHeader_selfDelimiting.consumed_le header
      rw [Outcome.ok_bind]
      dsimp only
      by_cases large : isizeMax < count * target.elementSize
      · rw [Target.withCapacity, if_neg (Nat.not_le_of_lt large)]
        exact iff_of_true rfl ⟨count, start, rfl, Or.inl large⟩
      · have fits := Nat.le_of_not_lt large
        rw [target.withCapacity_of_le fits, Outcome.ok_bind,
          parseElements_eq_panic_iff delimited inside]
        constructor
        · intro element
          exact ⟨count, start, rfl, Or.inr ⟨fits, element⟩⟩
        · rintro ⟨_, _, ⟨⟩, large' | ⟨-, element⟩⟩
          · exact absurd large' large
          · exact element

/-! ## The parser -/

theorem eq_of_ofUInt8_eq {first marker : UInt8} (same : Char.ofUInt8 first = Char.ofUInt8 marker) :
    first = marker := by
  have numbers := congrArg Char.toNat same
  exact UInt8.toNat_inj.mp numbers

/-- Only bulk strings and arrays can bring the parser down. -/
theorem parserFor_eq_panic_iff {parse : List UInt8 → Parsed} {first : UInt8} {buf : List UInt8} :
    parserFor target parse first buf = .panic ↔
      first = 36 ∧ parseBulkString target buf = .panic ∨
        first = 42 ∧ parseArray target parse buf = .panic := by
  by_cases bulk : first = 36
  · subst bulk
    change parseBulkString target buf = .panic ↔ _
    simp
  by_cases array : first = 42
  · subst array
    change parseArray target parse buf = .panic ↔ _
    simp
  simp only [bulk, array, false_and, or_self, iff_false]
  fun_cases parserFor target parse first with
  | case1 => exact parseInline_ne_panic buf
  | case2 => exact parseSimple_ne_panic buf
  | case3 => exact parseSimple_ne_panic buf
  | case4 => exact parseInteger_ne_panic buf
  | case5 _ marker => exact absurd (eq_of_ofUInt8_eq marker) bulk
  | case6 _ marker => exact absurd (eq_of_ofUInt8_eq marker) array
  | case7 => exact parseNull_ne_panic buf
  | case8 => exact parseBool_ne_panic buf
  | case9 => rintro ⟨⟩

/-- The parser panics at the header of the frame, or in an element of it. -/
theorem parse_eq_panic_iff_header (target : Target) (buf : List UInt8) :
    parse target buf = .panic ↔ ∃ number start, parseHeader buf = .ok (number, start) ∧
      (buf.head? = some 36 ∧ usizeModulus ≤ start + number + 2 ∧
          (target.overflowChecks = true ∨ (start + number + 2) % usizeModulus ≤ buf.length) ∨
        buf.head? = some 42 ∧ (isizeMax < number * target.elementSize ∨
          number * target.elementSize ≤ isizeMax ∧ ∃ k arr n, k < number ∧
            parseElements (parse target) buf k [] start = .ok (.array arr, n) ∧
              parse target (buf.drop n) = .panic)) := by
  rw [parse_eq]
  cases buf with
  | nil => simp [parseStep]
  | cons first rest =>
      rw [parseStep, parserFor_eq_panic_iff, parseBulkString_eq_panic_iff,
        parseArray_eq_panic_iff (parse_selfDelimiting target)]
      simp only [List.head?_cons, Option.some.injEq]
      constructor
      · rintro (⟨marker, len, start, header, overflow⟩ | ⟨marker, count, start, header, array⟩)
        · exact ⟨len, start, header, Or.inl ⟨marker, overflow⟩⟩
        · exact ⟨count, start, header, Or.inr ⟨marker, array⟩⟩
      · rintro ⟨number, start, header, ⟨marker, overflow⟩ | ⟨marker, array⟩⟩
        · exact Or.inl ⟨marker, number, start, header, overflow⟩
        · exact Or.inr ⟨marker, number, start, header, array⟩

end Ember.Resp.Parser
