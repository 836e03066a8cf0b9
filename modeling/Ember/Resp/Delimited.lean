import Ember.Resp.Parser

/-!
# Frames are self-delimiting

The verdict of the parser on a buffer depends only on the bytes of the frame it
reports.  Each of the typed parsers has this property, and the array parser
inherits it from the parser of its elements, so it holds of the parser cut off
at any nesting depth and, since the depth never matters, of the parser itself.
-/

namespace Ember.Resp.Parser

open Ember.Base
open Ember.Base.Framing

/-! ## Lines -/

/-- `readUntilCrlf` finds the first CR LF: the line does not contain one. -/
theorem readUntilCrlf_eq_some_iff {buf data : List UInt8} {len : ℕ} :
    readUntilCrlf buf = some (data, len) ↔
      data ++ RespType.crlf <+: buf ∧ ¬ RespType.crlf <:+: data ∧ len = data.length + 2 := by
  induction buf generalizing data len with
  | nil => simp [readUntilCrlf, RespType.crlf]
  | cons b rest ih =>
      rw [readUntilCrlf]
      split
      · next found =>
          rcases found with ⟨rfl, head⟩
          obtain ⟨tail, rfl⟩ : ∃ tail, rest = 10 :: tail := by
            cases rest with
            | nil => simp at head
            | cons c tail => exact ⟨tail, by simpa using head⟩
          constructor
          · intro equal
            cases equal
            exact ⟨⟨tail, rfl⟩, by simp [RespType.crlf], rfl⟩
          · rintro ⟨⟨suffix, line⟩, clean, rfl⟩
            -- a longer line would begin with the CR LF just found
            rcases data with _ | ⟨c, _ | ⟨d, data⟩⟩
            · rfl
            · simp [RespType.crlf] at line
            · simp only [List.cons_append, List.cons.injEq] at line
              rcases line with ⟨rfl, rfl, -⟩
              exact absurd ⟨[], data, rfl⟩ clean
      · next missed =>
          rw [Option.map_eq_some_iff]
          constructor
          · rintro ⟨⟨data', len'⟩, found, equal⟩
            cases equal
            rcases ih.mp found with ⟨⟨suffix, rfl⟩, clean, rfl⟩
            refine ⟨⟨suffix, rfl⟩, ?_, rfl⟩
            intro inside
            rcases List.infix_cons_iff.mp inside with front | later
            · apply missed
              rcases front with ⟨tail, equal⟩
              simp only [RespType.crlf, List.cons_append, List.nil_append, List.cons.injEq] at equal
              rcases equal with ⟨rfl, rfl⟩
              exact ⟨rfl, rfl⟩
            · exact clean later
          · rintro ⟨⟨suffix, line⟩, clean, rfl⟩
            cases data with
            | nil =>
                simp only [RespType.crlf, List.cons_append, List.nil_append,
                  List.cons.injEq] at line
                rcases line with ⟨rfl, rfl⟩
                exact absurd ⟨rfl, rfl⟩ missed
            | cons c data =>
                simp only [List.cons_append, List.cons.injEq] at line
                rcases line with ⟨rfl, rfl⟩
                refine ⟨(data, data.length + 2), ih.mpr ⟨⟨suffix, rfl⟩, ?_, rfl⟩, rfl⟩
                intro inside
                exact clean (inside.trans (List.suffix_cons c data).isInfix)

theorem readUntilCrlf_append {buf data : List UInt8} {len : ℕ}
    (found : readUntilCrlf buf = some (data, len)) (suffix : List UInt8) :
    readUntilCrlf (buf ++ suffix) = some (data, len) := by
  rw [readUntilCrlf_eq_some_iff] at found ⊢
  exact ⟨found.1.trans (List.prefix_append buf suffix), found.2⟩

theorem readUntilCrlf_le {buf data : List UInt8} {len : ℕ}
    (found : readUntilCrlf buf = some (data, len)) : len ≤ buf.length ∧ 2 ≤ len := by
  rcases readUntilCrlf_eq_some_iff.mp found with ⟨line, -, rfl⟩
  have bound := line.length_le
  rw [List.length_append] at bound
  exact ⟨bound, Nat.le_add_left 2 data.length⟩

theorem readUntilCrlf_take {buf data : List UInt8} {len : ℕ}
    (found : readUntilCrlf buf = some (data, len)) :
    readUntilCrlf (buf.take len) = some (data, len) := by
  rw [readUntilCrlf_eq_some_iff] at found ⊢
  rcases found with ⟨⟨suffix, rfl⟩, clean, rfl⟩
  refine ⟨?_, clean, rfl⟩
  have cut : (data ++ RespType.crlf ++ suffix).take (data.length + 2) = data ++ RespType.crlf :=
    List.take_left' (by simp [RespType.crlf])
  exact cut.symm ▸ List.prefix_refl _

theorem parseLine_eq_ok_iff {α : Type} {skip n : ℕ} {decode : List UInt8 → Outcome ParseError α}
    {buf : List UInt8} {value : α} :
    parseLine skip decode buf = .ok (value, n) ↔
      ∃ data len, readUntilCrlf (buf.drop skip) = some (data, len) ∧
        decode data = .ok value ∧ n = len + skip := by
  rw [parseLine]
  split
  · next data len found =>
      simp only [Outcome.map_eq_ok_iff, found, Option.some.injEq, Prod.mk.injEq]
      constructor
      · rintro ⟨value', decoded, rfl, rfl⟩
        exact ⟨data, len, ⟨rfl, rfl⟩, decoded, rfl⟩
      · rintro ⟨_, _, ⟨rfl, rfl⟩, decoded, rfl⟩
        exact ⟨value, decoded, rfl, rfl⟩
  · next none => simp [none]

private theorem readUntilCrlf_drop_le {skip len : ℕ} {buf data : List UInt8}
    (found : readUntilCrlf (buf.drop skip) = some (data, len)) :
    len + skip ≤ buf.length ∧ 2 ≤ len := by
  rcases readUntilCrlf_le found with ⟨le, two⟩
  rw [List.length_drop] at le
  exact ⟨by omega, two⟩

/-- A one-line parser is self-delimiting, whatever it makes of the line. -/
theorem parseLine_selfDelimiting {α : Type} (skip : ℕ)
    (decode : List UInt8 → Outcome ParseError α) :
    SelfDelimiting .incomplete (parseLine skip decode) := by
  constructor
  · intro buf value n accepted
    rcases parseLine_eq_ok_iff.mp accepted with ⟨data, len, found, -, rfl⟩
    exact Nat.add_pos_left (Nat.lt_of_lt_of_le Nat.zero_lt_two (readUntilCrlf_drop_le found).2) skip
  · intro buf value n accepted
    rcases parseLine_eq_ok_iff.mp accepted with ⟨data, len, found, -, rfl⟩
    exact (readUntilCrlf_drop_le found).1
  · intro buf value n accepted
    rcases parseLine_eq_ok_iff.mp accepted with ⟨data, len, found, decoded, rfl⟩
    refine parseLine_eq_ok_iff.mpr ⟨data, len, ?_, decoded, rfl⟩
    rw [List.drop_take, Nat.add_sub_cancel]
    exact readUntilCrlf_take found
  · intro buf suffix decided
    cases found : readUntilCrlf (buf.drop skip) with
    | none => exact absurd (by rw [parseLine, found]) decided
    | some line =>
        rcases line with ⟨data, len⟩
        have inside : skip ≤ buf.length :=
          (Nat.le_add_left skip len).trans (readUntilCrlf_drop_le found).1
        have found' : readUntilCrlf ((buf ++ suffix).drop skip) = some (data, len) := by
          rw [List.drop_append_of_le_length inside]
          exact readUntilCrlf_append found suffix
        rw [parseLine, parseLine, found, found']

/-! ## Bulk strings -/

/-- A header announces a pointer-width number. -/
theorem parseHeader_lt {buf : List UInt8} {count start : ℕ}
    (header : parseHeader buf = .ok (count, start)) : count < usizeModulus := by
  rcases parseLine_eq_ok_iff.mp header with ⟨data, len, -, decoded, -⟩
  rcases Outcome.bind_eq_ok_iff.mp decoded with ⟨text, -, number⟩
  exact parseUnsigned_lt (Outcome.ofOption_eq_ok_iff.mp number)

theorem parseHeader_selfDelimiting : SelfDelimiting .incomplete parseHeader :=
  parseLine_selfDelimiting 1 parseUsizeFromBuf

/-- The plain case: no addition overflows, and the slices are in order. -/
theorem parseBulkBody_of_fits (target : Target) {bulkStrLen dataStart : ℕ}
    (fits : dataStart + bulkStrLen + 2 < usizeModulus) (buf : List UInt8) :
    parseBulkBody target buf bulkStrLen dataStart =
      if buf.length < dataStart + bulkStrLen + 2 then .error .incomplete
      else if (buf.drop (dataStart + bulkStrLen)).take 2 ≠ RespType.crlf then
        .error (.invalid "Missing CRLF after bulk string")
      else
        (fun text => (.bulkString text, dataStart + bulkStrLen + 2)) <$>
          Outcome.ofOption (.invalid "Invalid UTF-8")
            (fromUtf8 ((buf.drop dataStart).take bulkStrLen)) := by
  rw [parseBulkBody, target.addUsize_of_lt (Nat.lt_of_le_of_lt (Nat.le_add_right _ 2) fits),
    Outcome.ok_bind, target.addUsize_of_lt fits, Outcome.ok_bind]
  split
  · rfl
  · next long =>
      have bound : dataStart + bulkStrLen + 2 ≤ buf.length := Nat.le_of_not_lt long
      rw [slice_of_le (Nat.le_add_right _ _) ((Nat.le_add_right _ 2).trans bound),
        Outcome.ok_bind, slice_of_le (Nat.le_add_right _ 2) bound, Outcome.ok_bind,
        Nat.add_sub_cancel_left, Nat.add_sub_cancel_left]
      rfl

/-- An overflow never leads to a value or to a complaint: the parser panics at
once, or, where sums wrap around, waits until the buffer is as long as the sum it
has computed and panics then. -/
theorem parseBulkBody_of_overflow (target : Target) {bulkStrLen dataStart : ℕ}
    (word : bulkStrLen < usizeModulus)
    (overflow : usizeModulus ≤ dataStart + bulkStrLen + 2) (buf : List UInt8) :
    parseBulkBody target buf bulkStrLen dataStart =
      if target.overflowChecks = false ∧
        buf.length < (dataStart + bulkStrLen + 2) % usizeModulus then .error .incomplete
      else .panic := by
  by_cases first : usizeModulus ≤ dataStart + bulkStrLen
  · cases checks : target.overflowChecks with
    | true =>
        rw [parseBulkBody, target.addUsize_checked checks first]
        rfl
    | false =>
        -- the data ends before it starts
        have wrapped : (dataStart + bulkStrLen) % usizeModulus < dataStart := by
          rw [Nat.mod_eq_sub_mod first]
          exact Nat.lt_of_le_of_lt (Nat.mod_le _ _) (by omega)
        have added : (target.addUsize ((dataStart + bulkStrLen) % usizeModulus) 2 :
            Outcome ParseError ℕ) = .ok ((dataStart + bulkStrLen + 2) % usizeModulus) := by
          by_cases again : usizeModulus ≤ (dataStart + bulkStrLen) % usizeModulus + 2
          · rw [target.addUsize_wrapping checks again, Nat.mod_add_mod]
          · rw [target.addUsize_of_lt (Nat.lt_of_not_le again),
              ← Nat.mod_add_mod (dataStart + bulkStrLen) usizeModulus 2,
              Nat.mod_eq_of_lt (Nat.lt_of_not_le again)]
        rw [parseBulkBody, target.addUsize_wrapping checks first, Outcome.ok_bind, added,
          Outcome.ok_bind, slice_of_lt wrapped]
        simp only [true_and]
        rfl
  · have fits : dataStart + bulkStrLen < usizeModulus := Nat.lt_of_not_le first
    cases checks : target.overflowChecks with
    | true =>
        rw [parseBulkBody, target.addUsize_of_lt fits, Outcome.ok_bind,
          target.addUsize_checked checks overflow]
        rfl
    | false =>
        -- the terminator ends before it starts
        have wrapped : (dataStart + bulkStrLen + 2) % usizeModulus < dataStart + bulkStrLen := by
          rw [Nat.mod_eq_sub_mod overflow]
          apply Nat.lt_of_le_of_lt (Nat.mod_le _ _)
          simp only [usizeModulus] at *
          omega
        rw [parseBulkBody, target.addUsize_of_lt fits, Outcome.ok_bind,
          target.addUsize_wrapping checks overflow, Outcome.ok_bind, slice_of_lt wrapped]
        simp only [true_and]
        by_cases short : buf.length < (dataStart + bulkStrLen + 2) % usizeModulus
        · rw [if_pos short, if_pos short]
        · rw [if_neg short, if_neg short, slice]
          split <;> rfl

variable {target : Target}

/-- What an accepted bulk string looks like behind its header. -/
theorem parseBulkBody_eq_ok_iff {buf : List UInt8} {value : RespType} {len start n : ℕ}
    (word : len < usizeModulus) :
    parseBulkBody target buf len start = .ok (value, n) ↔
      start + len + 2 < usizeModulus ∧ n = start + len + 2 ∧ n ≤ buf.length ∧
        (buf.drop (start + len)).take 2 = RespType.crlf ∧
        ∃ text, fromUtf8 ((buf.drop start).take len) = some text ∧ value = .bulkString text := by
  constructor
  · intro accepted
    by_cases fits : start + len + 2 < usizeModulus
    · rw [parseBulkBody_of_fits target fits] at accepted
      split at accepted
      · cases accepted
      · next long =>
          split at accepted
          · cases accepted
          · next terminated =>
              rcases Outcome.map_eq_ok_iff.mp accepted with ⟨text, decoded, equal⟩
              cases equal
              exact ⟨fits, rfl, Nat.le_of_not_lt long, not_not.mp terminated, text,
                Outcome.ofOption_eq_ok_iff.mp decoded, rfl⟩
    · rw [parseBulkBody_of_overflow target word (Nat.le_of_not_lt fits)] at accepted
      split at accepted <;> cases accepted
  · rintro ⟨fits, rfl, long, terminated, text, decoded, rfl⟩
    rw [parseBulkBody_of_fits target fits, if_neg (Nat.not_lt_of_le long),
      if_neg (not_not.mpr terminated), decoded]
    rfl

theorem parseBulkBody_append {buf : List UInt8} {len start : ℕ} (word : len < usizeModulus)
    (decided : parseBulkBody target buf len start ≠ .error .incomplete) (suffix : List UInt8) :
    parseBulkBody target (buf ++ suffix) len start = parseBulkBody target buf len start := by
  have longer : buf.length ≤ (buf ++ suffix).length := by
    rw [List.length_append]
    exact Nat.le_add_right _ _
  by_cases fits : start + len + 2 < usizeModulus
  · rw [parseBulkBody_of_fits target fits] at decided ⊢
    have long : ¬ buf.length < start + len + 2 := by
      intro short
      exact decided (if_pos short)
    have bound : start + len + 2 ≤ buf.length := Nat.le_of_not_lt long
    rw [parseBulkBody_of_fits target fits, if_neg long,
      if_neg (Nat.not_lt_of_le (bound.trans longer)),
      List.drop_append_of_le_length (by omega), List.drop_append_of_le_length (by omega),
      List.take_append_of_le_length (by rw [List.length_drop]; omega),
      List.take_append_of_le_length (by rw [List.length_drop]; omega)]
  · have overflow := Nat.le_of_not_lt fits
    rw [parseBulkBody_of_overflow target word overflow] at decided ⊢
    split at decided
    next => exact absurd rfl decided
    next long =>
      rw [parseBulkBody_of_overflow target word overflow, if_neg long, if_neg]
      rintro ⟨wraps, short⟩
      exact long ⟨wraps, Nat.lt_of_le_of_lt longer short⟩

theorem parseBulkString_selfDelimiting : SelfDelimiting .incomplete (parseBulkString target) := by
  apply selfDelimiting_bind parseHeader_selfDelimiting (parseBulkBody target)
  · intro buf len start value n header accepted
    rcases (parseBulkBody_eq_ok_iff (parseHeader_lt header)).mp accepted with ⟨-, rfl, long, -⟩
    exact ⟨by omega, long⟩
  · intro buf len start value n header accepted
    have word := parseHeader_lt header
    obtain ⟨fits, rfl, long, terminated, text, decoded, rfl⟩ :=
      (parseBulkBody_eq_ok_iff word).mp accepted
    refine (parseBulkBody_eq_ok_iff word).mpr ⟨fits, rfl, ?_, ?_, text, ?_, rfl⟩
    · rw [List.length_take]
      exact Nat.le_min.mpr ⟨le_rfl, long⟩
    · rw [List.drop_take, Nat.add_sub_cancel_left, List.take_take, Nat.min_self]
      exact terminated
    · rw [List.drop_take, List.take_take, Nat.min_eq_left (by omega)]
      exact decoded
  · intro buf len start suffix header decided
    exact parseBulkBody_append (parseHeader_lt header) decided suffix

/-! ## Arrays -/

section

variable {parse : List UInt8 → Parsed}

/-- One turn of the element loop. -/
theorem parseElements_succ {buf : List UInt8} {start : ℕ} (inside : start ≤ buf.length)
    (remaining : ℕ) (arr : List RespType) :
    parseElements parse buf (remaining + 1) arr start =
      parse (buf.drop start) >>= fun parsed =>
        parseElements parse buf remaining (arr ++ [parsed.1]) (start + parsed.2) := by
  rw [parseElements, slice_to_end inside]
  rfl

theorem parseElements_bounds (delimited : SelfDelimiting .incomplete parse) {buf : List UInt8}
    {remaining start n : ℕ} {arr : List RespType} {value : RespType}
    (inside : start ≤ buf.length)
    (accepted : parseElements parse buf remaining arr start = .ok (value, n)) :
    start ≤ n ∧ n ≤ buf.length := by
  induction remaining generalizing arr start with
  | zero =>
      cases accepted
      exact ⟨le_rfl, inside⟩
  | succ remaining ih =>
      rw [parseElements_succ inside] at accepted
      rcases Outcome.bind_eq_ok_iff.mp accepted with ⟨⟨element, len⟩, first, rest⟩
      have bound := delimited.consumed_le first
      rw [List.length_drop] at bound
      rcases ih (by omega) rest with ⟨le, inside'⟩
      exact ⟨by omega, inside'⟩

theorem parseElements_take (delimited : SelfDelimiting .incomplete parse) {buf : List UInt8}
    {remaining start n m : ℕ} {arr : List RespType} {value : RespType}
    (inside : start ≤ buf.length) (behind : n ≤ m)
    (accepted : parseElements parse buf remaining arr start = .ok (value, n)) :
    parseElements parse (buf.take m) remaining arr start = .ok (value, n) := by
  induction remaining generalizing arr start with
  | zero => exact accepted
  | succ remaining ih =>
      have bounds := parseElements_bounds delimited inside accepted
      rw [parseElements_succ inside] at accepted
      rcases Outcome.bind_eq_ok_iff.mp accepted with ⟨⟨element, len⟩, first, rest⟩
      have bound := delimited.consumed_le first
      rw [List.length_drop] at bound
      have rest_bounds := parseElements_bounds delimited (by omega) rest
      have inside' : start ≤ (buf.take m).length := by
        rw [List.length_take]
        omega
      rw [parseElements_succ inside', List.drop_take, delimited.take_of_le first (by omega)]
      exact ih (by omega) rest

theorem parseElements_append (delimited : SelfDelimiting .incomplete parse) {buf : List UInt8}
    {remaining start : ℕ} {arr : List RespType} (inside : start ≤ buf.length)
    (decided : parseElements parse buf remaining arr start ≠ .error .incomplete)
    (suffix : List UInt8) :
    parseElements parse (buf ++ suffix) remaining arr start =
      parseElements parse buf remaining arr start := by
  induction remaining generalizing arr start with
  | zero => rfl
  | succ remaining ih =>
      have inside' : start ≤ (buf ++ suffix).length := by
        rw [List.length_append]
        omega
      rw [parseElements_succ inside] at decided ⊢
      rw [parseElements_succ inside', List.drop_append_of_le_length inside]
      have settled : parse (buf.drop start) ≠ .error .incomplete := by
        intro waiting
        exact decided (by rw [waiting]; rfl)
      rw [delimited.stable suffix settled]
      cases first : parse (buf.drop start) with
      | panic => rfl
      | error reason => rfl
      | ok parsed =>
          have bound := delimited.consumed_le first
          rw [List.length_drop] at bound
          rw [first] at decided
          exact ih (by omega) decided

theorem parseArray_selfDelimiting (delimited : SelfDelimiting .incomplete parse) :
    SelfDelimiting .incomplete (parseArray target parse) := by
  apply selfDelimiting_bind parseHeader_selfDelimiting fun buf arrLen start =>
    target.withCapacity arrLen >>= fun _ => parseElements parse buf arrLen [] start
  · intro buf arrLen start value n header accepted
    rcases Outcome.bind_eq_ok_iff.mp accepted with ⟨⟨⟩, -, elements⟩
    exact parseElements_bounds delimited (parseHeader_selfDelimiting.consumed_le header) elements
  · intro buf arrLen start value n header accepted
    rcases Outcome.bind_eq_ok_iff.mp accepted with ⟨⟨⟩, capacity, elements⟩
    exact Outcome.bind_eq_ok_iff.mpr ⟨(), capacity, parseElements_take delimited
      (parseHeader_selfDelimiting.consumed_le header) le_rfl elements⟩
  · intro buf arrLen start suffix header decided
    cases capacity : (target.withCapacity arrLen : Outcome ParseError Unit) with
    | panic => rfl
    | error reason => rfl
    | ok reserved =>
        rw [capacity] at decided
        exact parseElements_append delimited (parseHeader_selfDelimiting.consumed_le header)
          decided suffix

/-! ## The parser -/

theorem parserFor_selfDelimiting (delimited : SelfDelimiting .incomplete parse) (first : UInt8) :
    SelfDelimiting .incomplete (parserFor target parse first) := by
  rw [parserFor]
  split
  · exact parseLine_selfDelimiting 0 decodeInline
  · split
    · exact parseLine_selfDelimiting 1 decodeSimple
    · exact parseLine_selfDelimiting 1 decodeSimple
    · exact parseLine_selfDelimiting 1 decodeInteger
    · exact parseBulkString_selfDelimiting
    · exact parseArray_selfDelimiting delimited
    · exact parseLine_selfDelimiting 1 decodeNull
    · exact parseLine_selfDelimiting 1 decodeBool
    · exact selfDelimiting_error _ _

theorem parseStep_selfDelimiting (delimited : SelfDelimiting .incomplete parse) :
    SelfDelimiting .incomplete (parseStep target parse) :=
  selfDelimiting_byFirst (parserFor target parse) rfl (fun _ _ => rfl)
    (parserFor_selfDelimiting delimited)

end

theorem parseWithin_selfDelimiting (depth : ℕ) :
    SelfDelimiting .incomplete (parseWithin target depth) := by
  induction depth with
  | zero => exact selfDelimiting_error _ _
  | succ depth ih => exact parseStep_selfDelimiting ih

/-! ### The nesting depth does not matter -/

section

variable {parse parse' : List UInt8 → Parsed}

theorem parseElements_congr {buf : List UInt8}
    (agree : ∀ b, b.length < buf.length → parse b = parse' b) {start : ℕ} (opened : 0 < start)
    (remaining : ℕ) (arr : List RespType) :
    parseElements parse buf remaining arr start = parseElements parse' buf remaining arr start := by
  induction remaining generalizing arr start with
  | zero => rfl
  | succ remaining ih =>
      by_cases inside : start ≤ buf.length
      · have shorter : (buf.drop start).length < buf.length := by
          rw [List.length_drop]
          omega
        rw [parseElements_succ inside, parseElements_succ inside, agree _ shorter]
        congr 1
        funext parsed
        exact ih (Nat.add_pos_left opened parsed.2) (arr ++ [parsed.1])
      · have outside : (slice buf start buf.length : Outcome ParseError (List UInt8)) = .panic :=
          slice_of_lt (Nat.lt_of_not_le inside) buf
        rw [parseElements, parseElements, outside]
        rfl

theorem parseArray_congr {buf : List UInt8}
    (agree : ∀ b, b.length < buf.length → parse b = parse' b) :
    parseArray target parse buf = parseArray target parse' buf := by
  rw [parseArray, parseArray]
  cases header : parseHeader buf with
  | panic => rfl
  | error reason => rfl
  | ok opened =>
      have pos := parseHeader_selfDelimiting.consumed_pos header
      simp only [Outcome.ok_bind, parseElements_congr agree pos]

theorem parseStep_congr {buf : List UInt8}
    (agree : ∀ b, b.length < buf.length → parse b = parse' b) :
    parseStep target parse buf = parseStep target parse' buf := by
  cases buf with
  | nil => rfl
  | cons first rest =>
      rw [parseStep, parseStep]
      fun_cases parserFor target parse first with
      | case6 marked array =>
          have selected : parserFor target parse' first = parseArray target parse' := by
            simp [parserFor, marked, array]
          rw [selected]
          exact parseArray_congr agree
      | _ => simp [parserFor, *]

end

/-- Beyond the length of the buffer, the depth of the recursion is irrelevant. -/
theorem parseWithin_eq_of_le {buf : List UInt8} {depth depth' : ℕ}
    (enough : buf.length ≤ depth) (enough' : buf.length ≤ depth') :
    parseWithin target depth buf = parseWithin target depth' buf := by
  induction depth generalizing buf depth' with
  | zero =>
      have empty : buf = [] := List.eq_nil_of_length_eq_zero (Nat.le_zero.mp enough)
      subst empty
      cases depth' <;> rfl
  | succ depth ih =>
      cases depth' with
      | zero =>
          have empty : buf = [] := List.eq_nil_of_length_eq_zero (Nat.le_zero.mp enough')
          subst empty
          rfl
      | succ depth' =>
          apply parseStep_congr
          intro b shorter
          exact ih (Nat.le_of_lt_succ (shorter.trans_le enough))
            (Nat.le_of_lt_succ (shorter.trans_le enough'))

theorem parse_eq_parseWithin {buf : List UInt8} {depth : ℕ} (enough : buf.length ≤ depth) :
    parse target buf = parseWithin target depth buf :=
  parseWithin_eq_of_le le_rfl enough

/-- The recursion of the parser: its elements are parsed by the parser itself. -/
theorem parse_eq (buf : List UInt8) : parse target buf = parseStep target (parse target) buf := by
  rw [parse_eq_parseWithin (Nat.le_succ buf.length)]
  apply parseStep_congr
  intro b shorter
  exact (parse_eq_parseWithin shorter.le).symm

theorem parse_selfDelimiting (target : Target) : SelfDelimiting .incomplete (parse target) where
  consumed_pos := (parseWithin_selfDelimiting _).consumed_pos
  consumed_le := (parseWithin_selfDelimiting _).consumed_le
  take_consumed := by
    intro buf value n accepted
    have shorter : (buf.take n).length ≤ buf.length := by
      rw [List.length_take]
      exact Nat.min_le_right _ _
    rw [parse_eq_parseWithin shorter]
    exact (parseWithin_selfDelimiting _).take_consumed accepted
  stable := by
    intro buf suffix decided
    have longer : buf.length ≤ (buf ++ suffix).length := by
      rw [List.length_append]
      exact Nat.le_add_right _ _
    rw [parse_eq_parseWithin longer] at decided ⊢
    exact (parseWithin_selfDelimiting _).stable suffix decided

/-- Verdicts are stable as bytes arrive.  An accepted frame is recognised by its
own bytes alone, with anything or nothing behind them, and every proper part of
it is incomplete; a malformed buffer stays malformed, for the same reason. -/
theorem parse_verdict_stable (target : Target) (buf : List UInt8) :
    (∀ value n, parse target buf = .ok (value, n) →
      0 < n ∧ n ≤ buf.length ∧
        (∀ suffix, parse target (buf.take n ++ suffix) = .ok (value, n)) ∧
        ∀ front, front <+: buf.take n → front ≠ buf.take n →
          parse target front = .error .incomplete) ∧
    ∀ message, parse target buf = .error (.invalid message) →
      ∀ suffix, parse target (buf ++ suffix) = .error (.invalid message) := by
  have delimited := parse_selfDelimiting target
  constructor
  · intro value n accepted
    refine ⟨delimited.consumed_pos accepted, delimited.consumed_le accepted,
      delimited.take_append accepted, ?_⟩
    intro front isFront proper
    have length_lt : front.length < n := by
      apply lt_of_le_of_ne (isFront.length_le.trans (List.length_take_le n buf))
      intro equal
      apply proper
      apply isFront.eq_of_length
      rw [equal, List.length_take, Nat.min_eq_left (delimited.consumed_le accepted)]
    have front_eq : front = buf.take front.length := by
      have cut := List.prefix_iff_eq_take.mp isFront
      rwa [List.take_take, Nat.min_eq_left length_lt.le] at cut
    rw [front_eq]
    exact delimited.more_of_prefix accepted length_lt
  · intro message malformed suffix
    rw [delimited.stable suffix (by rw [malformed]; nofun), malformed]

/-- The first frame of a pipelined batch, and a malformed one. -/
theorem parse_verdict_stable_pong :
    parse ⟨true, 32⟩ (utf8Bytes "+Pong\r\n:1\r\n") = .ok (.simpleString "Pong", 7) ∧
      parse ⟨true, 32⟩ (utf8Bytes "+Pong\r\n*2\r\n") = .ok (.simpleString "Pong", 7) ∧
      parse ⟨true, 32⟩ (utf8Bytes "+Pon") = .error .incomplete ∧
      parse ⟨true, 32⟩ (utf8Bytes "#x\r\n" ++ utf8Bytes "+Pong\r\n") =
        .error (.invalid "Invalid value for boolean. Only \"t\" or \"f\" is accepted.") := by
  have accepted : parse ⟨true, 32⟩ (utf8Bytes "+Pong\r\n:1\r\n") =
      .ok (.simpleString "Pong", 7) := rfl
  rcases (parse_verdict_stable ⟨true, 32⟩ _).1 _ _ accepted with ⟨-, -, again, partly⟩
  refine ⟨accepted, again (utf8Bytes "*2\r\n"), partly _ (by decide) (by decide), ?_⟩
  exact (parse_verdict_stable ⟨true, 32⟩ (utf8Bytes "#x\r\n")).2 _ rfl _

end Ember.Resp.Parser
