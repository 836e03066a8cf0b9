import Ember.Base.Lexical
import Ember.Resp.Panics
import Ember.Resp.RoundTrip

/-!
# The frame grammar

Which byte sequences are frames, and of which values, told without the parser:
lines end at a CR LF, lengths and counts are decimal numerals, arrays nest.  On
every buffer on which it returns, the parser accepts exactly a frame at the front
of the buffer.  A buffer never starts with two different frames, so what it means
is determined before the parser looks at it.
-/

namespace Ember.Resp

open Ember.Base
open Ember.Base.Framing

/-- The bytes contain no end of line. -/
def Unbroken (data : List UInt8) : Prop :=
  ¬ RespType.crlf <:+: data

/-- The type markers `+`, `-`, `:`, `$`, `*`, `_` and `#`. -/
def markers : List UInt8 :=
  [43, 45, 58, 36, 42, 95, 35]

/-- Consecutive elements, and the values they stand for. -/
inductive Elements (Element : List UInt8 → RespType → Prop) :
    List UInt8 → List RespType → Prop
  | nil : Elements Element [] []
  | cons {front rest : List UInt8} {value : RespType} {values : List RespType}
      (first : Element front value) (others : Elements Element rest values) :
      Elements Element (front ++ rest) (value :: values)

/-- The bytes are a frame that stands for the value. -/
inductive Frame : List UInt8 → RespType → Prop
  | simpleString {marker : UInt8} {text : String} (marked : marker = 43 ∨ marker = 45)
      (line : Unbroken (utf8Bytes text)) :
      Frame (marker :: utf8Bytes text ++ RespType.crlf) (.simpleString text)
  | integer {numeral : List UInt8} {i : ℤ} (decimal : Signed 63 numeral i) :
      Frame (58 :: numeral ++ RespType.crlf) (.integer (Int64.ofInt i))
  | bulkString {numeral : List UInt8} {text : String}
      (length : Unsigned 64 numeral (utf8Bytes text).length) :
      Frame (36 :: numeral ++ RespType.crlf ++ utf8Bytes text ++ RespType.crlf)
        (.bulkString text)
  | array {numeral bytes : List UInt8} {items : List RespType}
      (count : Unsigned 64 numeral items.length) (elements : Elements Frame bytes items) :
      Frame (42 :: numeral ++ RespType.crlf ++ bytes) (.array items)
  | null {data : List UInt8} (line : Unbroken data) : Frame (95 :: data ++ RespType.crlf) .null
  | boolean (value : Bool) :
      Frame (35 :: [if value then 116 else 102] ++ RespType.crlf) (.boolean value)
  | inline {line : String} {words : List String} (unbroken : Unbroken (utf8Bytes line))
      (unmarked : ∀ first ∈ (utf8Bytes line ++ RespType.crlf).head?, first ∉ markers)
      (split : Words line.toList words) :
      Frame (utf8Bytes line ++ RespType.crlf) (.array (words.map .bulkString))

/-! ## Lexical facts -/

theorem cr_notMem_of_digits {bytes : List UInt8} {n : ℕ} (digits : Digits bytes n) :
    13 ∉ bytes := by
  have codes : ∀ digit : Fin 10, (13 : UInt8) ≠ digitByte digit := by decide
  induction digits with
  | single digit => simpa using codes digit
  | snoc digits digit ih => simpa [ih] using codes digit

theorem unbroken_of_unsigned {width n : ℕ} {bytes : List UInt8} (number : Unsigned width bytes n) :
    Unbroken bytes := by
  apply Parser.not_crlf_infix
  rcases number with ⟨digits, -⟩ | ⟨digits, -⟩
  · exact cr_notMem_of_digits digits
  · simpa using cr_notMem_of_digits digits

theorem unbroken_of_signed {width : ℕ} {i : ℤ} {bytes : List UInt8}
    (number : Signed width bytes i) : Unbroken bytes := by
  apply Parser.not_crlf_infix
  rcases number with ⟨digits, -⟩ | ⟨digits, -⟩ | ⟨digits, -⟩
  · exact cr_notMem_of_digits digits
  · simpa using cr_notMem_of_digits digits
  · simpa using cr_notMem_of_digits digits

namespace Parser

theorem isInline_iff {first : UInt8} : isInline first = true ↔ first ∉ markers := by
  have letters : Char.ofUInt8 first ∈ markers.map Char.ofUInt8 ↔ first ∈ markers :=
    List.mem_map_of_injective fun _ _ => eq_of_ofUInt8_eq
  rw [← letters, isInline]
  split
  case h_8 noPlus noMinus noColon noDollar noStar noUnderscore noHash =>
    simp only [markers, List.map_cons, List.map_nil, List.mem_cons, List.not_mem_nil, true_iff]
    rintro (plus | minus | colon | dollar | star | underscore | hash | ⟨⟨⟩⟩)
    · exact noPlus plus
    · exact noMinus minus
    · exact noColon colon
    · exact noDollar dollar
    · exact noStar star
    · exact noUnderscore underscore
    · exact noHash hash
  all_goals
    next marker =>
      rw [marker]
      decide

/-! ## The contents of lines -/

theorem decodeSimple_eq_ok_iff {data : List UInt8} {value : RespType} :
    decodeSimple data = .ok value ↔ ∃ text, data = utf8Bytes text ∧ value = .simpleString text := by
  simp only [decodeSimple, Outcome.bind_eq_ok_iff, Outcome.ofOption_eq_ok_iff,
    fromUtf8_eq_some_iff, Outcome.pure_eq_ok, Outcome.ok.injEq, eq_comm (a := value)]

theorem decodeInteger_eq_ok_iff {data : List UInt8} {value : RespType} :
    decodeInteger data = .ok value ↔
      ∃ i, Signed 63 data i ∧ value = .integer (Int64.ofInt i) := by
  simp only [decodeInteger, Outcome.bind_eq_ok_iff, Outcome.ofOption_eq_ok_iff,
    fromUtf8_eq_some_iff, Outcome.pure_eq_ok, Outcome.ok.injEq, signed_iff]
  constructor
  · rintro ⟨text, bytes, i, parsed, rfl⟩
    exact ⟨i, ⟨text, bytes, parsed⟩, rfl⟩
  · rintro ⟨i, ⟨text, bytes, parsed⟩, rfl⟩
    exact ⟨text, bytes, i, parsed, rfl⟩

theorem decodeBool_eq_ok_iff {data : List UInt8} {value : RespType} :
    decodeBool data = .ok value ↔
      ∃ b : Bool, data = [if b then 116 else 102] ∧ value = .boolean b := by
  unfold decodeBool
  split
  · simp [eq_comm]
  · simp [eq_comm]
  · next other isTrue isFalse =>
      simp only [reduceCtorEq, Bool.exists_bool, false_iff]
      rintro (⟨equal, -⟩ | ⟨equal, -⟩)
      · exact isFalse equal
      · exact isTrue equal

theorem decodeInline_eq_ok_iff {data : List UInt8} {value : RespType} :
    decodeInline data = .ok value ↔
      ∃ line words, data = utf8Bytes line ∧ Words line.toList words ∧
        value = .array (words.map .bulkString) := by
  simp only [decodeInline, Outcome.bind_eq_ok_iff, Outcome.ofOption_eq_ok_iff,
    fromUtf8_eq_some_iff, Outcome.pure_eq_ok, Outcome.ok.injEq, words_iff]
  constructor
  · rintro ⟨line, bytes, rfl⟩
    exact ⟨line, _, bytes, rfl, rfl⟩
  · rintro ⟨line, _, bytes, rfl, rfl⟩
    exact ⟨line, bytes, rfl⟩

theorem parseUsizeFromBuf_eq_ok_iff {data : List UInt8} {n : ℕ} :
    parseUsizeFromBuf data = .ok n ↔ Unsigned 64 data n := by
  simp only [parseUsizeFromBuf, Outcome.bind_eq_ok_iff, Outcome.ofOption_eq_ok_iff,
    fromUtf8_eq_some_iff, unsigned_iff]

/-! ## What is accepted is a frame -/

theorem parseLine_take {α : Type} {skip n : ℕ} {decode : List UInt8 → Outcome ParseError α}
    {buf : List UInt8} {value : α} (accepted : parseLine skip decode buf = .ok (value, n)) :
    ∃ data, decode data = .ok value ∧ Unbroken data ∧
      buf.take n = buf.take skip ++ data ++ RespType.crlf := by
  rcases parseLine_eq_ok_iff.mp accepted with ⟨data, len, found, decoded, rfl⟩
  rcases readUntilCrlf_eq_some_iff.mp found with ⟨⟨suffix, line⟩, unbroken, rfl⟩
  refine ⟨data, decoded, unbroken, ?_⟩
  rw [Nat.add_comm, List.take_add, ← line, List.take_left' (by simp [RespType.crlf]),
    List.append_assoc]

variable {target : Target}

theorem parseBulkString_take {buf : List UInt8} {value : RespType} {n : ℕ}
    (accepted : parseBulkString target buf = .ok (value, n)) :
    ∃ numeral text, Unsigned 64 numeral (utf8Bytes text).length ∧ value = .bulkString text ∧
      buf.take n = buf.take 1 ++ numeral ++ RespType.crlf ++ utf8Bytes text ++ RespType.crlf := by
  rcases Outcome.bind_eq_ok_iff.mp accepted with ⟨⟨len, start⟩, header, body⟩
  rcases (parseBulkBody_eq_ok_iff (parseHeader_lt header)).mp body with
    ⟨-, rfl, long, terminator, text, decoded, rfl⟩
  rcases parseLine_take header with ⟨numeral, number, -, opening⟩
  have data := fromUtf8_eq_some_iff.mp decoded
  have length : (utf8Bytes text).length = len := by
    rw [← data, List.length_take, List.length_drop]
    omega
  refine ⟨numeral, text, ?_, rfl, ?_⟩
  · rw [length]
    exact parseUsizeFromBuf_eq_ok_iff.mp number
  · rw [List.take_add, List.take_add, terminator, data, opening]

theorem parseElements_elements {parse : List UInt8 → Parsed}
    (delimited : SelfDelimiting .incomplete parse) {buf : List UInt8}
    (framed : ∀ b value n, b.length < buf.length → parse b = .ok (value, n) →
      Frame (b.take n) value)
    {remaining start n : ℕ} {arr : List RespType} {value : RespType} (opened : 0 < start)
    (inside : start ≤ buf.length)
    (accepted : parseElements parse buf remaining arr start = .ok (value, n)) :
    ∃ bytes items, items.length = remaining ∧ value = .array (arr ++ items) ∧
      Elements Frame bytes items ∧ buf.take n = buf.take start ++ bytes := by
  induction remaining generalizing arr start with
  | zero =>
      cases accepted
      exact ⟨[], [], rfl, by rw [List.append_nil], .nil, by rw [List.append_nil]⟩
  | succ remaining ih =>
      rw [parseElements_succ inside] at accepted
      rcases Outcome.bind_eq_ok_iff.mp accepted with ⟨⟨element, len⟩, first, rest⟩
      have bound := delimited.consumed_le first
      have frame := framed _ _ _ (by rw [List.length_drop]; omega) first
      rw [List.length_drop] at bound
      rcases ih (by omega) (by omega) rest with ⟨bytes, items, rfl, rfl, elements, taken⟩
      refine ⟨_, element :: items, rfl, ?_, .cons frame elements, ?_⟩
      · rw [List.append_assoc, List.singleton_append]
      · rw [taken, List.take_add, List.append_assoc]

theorem parseArray_take {parse : List UInt8 → Parsed}
    (delimited : SelfDelimiting .incomplete parse) {buf : List UInt8}
    (framed : ∀ b value n, b.length < buf.length → parse b = .ok (value, n) →
      Frame (b.take n) value)
    {value : RespType} {n : ℕ} (accepted : parseArray target parse buf = .ok (value, n)) :
    ∃ numeral bytes items, Unsigned 64 numeral items.length ∧ Elements Frame bytes items ∧
      value = .array items ∧ buf.take n = buf.take 1 ++ numeral ++ RespType.crlf ++ bytes := by
  rcases Outcome.bind_eq_ok_iff.mp accepted with ⟨⟨count, start⟩, header, opened⟩
  rcases Outcome.bind_eq_ok_iff.mp opened with ⟨⟨⟩, -, loop⟩
  rcases parseElements_elements delimited framed (parseHeader_selfDelimiting.consumed_pos header)
    (parseHeader_selfDelimiting.consumed_le header) loop with
    ⟨bytes, items, rfl, rfl, elements, taken⟩
  rcases parseLine_take header with ⟨numeral, number, -, opening⟩
  refine ⟨numeral, bytes, items, parseUsizeFromBuf_eq_ok_iff.mp number, elements, rfl, ?_⟩
  rw [taken, opening]

theorem frame_of_parse {buf : List UInt8} {value : RespType} {n : ℕ}
    (accepted : parse target buf = .ok (value, n)) : Frame (buf.take n) value := by
  -- the elements of an array are parsed on shorter buffers
  induction size : buf.length using Nat.strong_induction_on generalizing buf value n with
  | h size ih =>
      subst size
      rw [parse_eq] at accepted
      cases buf with
      | nil => cases accepted
      | cons first rest =>
          rw [parseStep] at accepted
          revert accepted
          fun_cases parserFor target (parse target) first with
          | case1 inline =>
              intro accepted
              rcases parseLine_take accepted with ⟨data, decoded, unbroken, taken⟩
              rcases decodeInline_eq_ok_iff.mp decoded with ⟨line, words, rfl, split, rfl⟩
              rw [taken]
              refine .inline unbroken ?_ split
              intro head member
              have sameHead : head = first := by
                rw [← List.nil_append (utf8Bytes line), ← List.take_zero (l := first :: rest),
                  ← taken, List.head?_take] at member
                simp_all
              rw [sameHead]
              exact isInline_iff.mp inline
          | case2 _ marker =>
              intro accepted
              rcases parseLine_take accepted with ⟨data, decoded, unbroken, taken⟩
              rcases decodeSimple_eq_ok_iff.mp decoded with ⟨text, rfl, rfl⟩
              rw [taken]
              exact .simpleString (Or.inl (eq_of_ofUInt8_eq marker)) unbroken
          | case3 _ marker =>
              intro accepted
              rcases parseLine_take accepted with ⟨data, decoded, unbroken, taken⟩
              rcases decodeSimple_eq_ok_iff.mp decoded with ⟨text, rfl, rfl⟩
              rw [taken]
              exact .simpleString (Or.inr (eq_of_ofUInt8_eq marker)) unbroken
          | case4 _ marker =>
              intro accepted
              rcases parseLine_take accepted with ⟨numeral, decoded, -, taken⟩
              rcases decodeInteger_eq_ok_iff.mp decoded with ⟨i, decimal, rfl⟩
              obtain rfl : first = 58 := eq_of_ofUInt8_eq marker
              rw [taken]
              exact .integer decimal
          | case5 _ marker =>
              intro accepted
              rcases parseBulkString_take accepted with ⟨numeral, text, length, rfl, taken⟩
              obtain rfl : first = 36 := eq_of_ofUInt8_eq marker
              rw [taken]
              exact .bulkString length
          | case6 _ marker =>
              intro accepted
              rcases parseArray_take (parse_selfDelimiting target)
                (fun b item len shorter parsed => ih _ shorter parsed rfl) accepted with
                ⟨numeral, bytes, items, count, elements, rfl, taken⟩
              obtain rfl : first = 42 := eq_of_ofUInt8_eq marker
              rw [taken]
              exact .array count elements
          | case7 _ marker =>
              intro accepted
              rcases parseLine_take accepted with ⟨data, decoded, unbroken, taken⟩
              cases decoded
              obtain rfl : first = 95 := eq_of_ofUInt8_eq marker
              rw [taken]
              exact .null unbroken
          | case8 _ marker =>
              intro accepted
              rcases parseLine_take accepted with ⟨data, decoded, -, taken⟩
              rcases decodeBool_eq_ok_iff.mp decoded with ⟨b, rfl, rfl⟩
              obtain rfl : first = 35 := eq_of_ofUInt8_eq marker
              rw [taken]
              exact .boolean b
          | case9 => rintro ⟨⟩

/-! ## A frame is accepted -/

/-- On these bytes alone the parser returns the value, unless it panics. -/
def Reads (target : Target) (bytes : List UInt8) (value : RespType) : Prop :=
  parse target bytes = .ok (value, bytes.length) ∨ parse target bytes = .panic

/-- Bytes behind the frame make no difference. -/
theorem Reads.append {bytes : List UInt8} {value : RespType} (reads : Reads target bytes value)
    (suffix : List UInt8) :
    parse target (bytes ++ suffix) = .ok (value, bytes.length) ∨
      parse target (bytes ++ suffix) = .panic := by
  have delimited := parse_selfDelimiting target
  rcases reads with accepted | panics
  · left
    rw [delimited.stable suffix (by rw [accepted]; nofun), accepted]
  · right
    rw [delimited.stable suffix (by rw [panics]; nofun), panics]

theorem parseHeader_numeral {numeral : List UInt8} {n : ℕ} (number : Unsigned 64 numeral n)
    (marker : UInt8) (suffix : List UInt8) :
    parseHeader (marker :: numeral ++ RespType.crlf ++ suffix) =
      .ok (n, (marker :: numeral ++ RespType.crlf).length) :=
  parseLine_line marker (unbroken_of_unsigned number) (parseUsizeFromBuf_eq_ok_iff.mpr number)
    suffix

theorem reads_bulkString {numeral : List UInt8} {text : String}
    (length : Unsigned 64 numeral (utf8Bytes text).length) :
    Reads target (36 :: numeral ++ RespType.crlf ++ utf8Bytes text ++ RespType.crlf)
      (.bulkString text) := by
  have header := parseHeader_numeral length 36 (utf8Bytes text ++ RespType.crlf)
  rw [← List.append_assoc] at header
  have word := parseHeader_lt header
  have selected : parse target (36 :: numeral ++ RespType.crlf ++ utf8Bytes text ++ RespType.crlf) =
      parseBulkString target
        (36 :: numeral ++ RespType.crlf ++ utf8Bytes text ++ RespType.crlf) := by
    rw [parse_eq]
    rfl
  rw [Reads, selected, parseBulkString, header, Outcome.ok_bind]
  dsimp only
  generalize 36 :: numeral ++ RespType.crlf = opening
  by_cases fits : opening.length + (utf8Bytes text).length + 2 < usizeModulus
  · left
    have body := @parseBulkBody_text target _ _ fits []
    rwa [List.append_nil] at body
  · right
    -- the whole frame is there, so the buffer reaches up to any wrapped end
    rw [parseBulkBody_of_overflow target word (Nat.le_of_not_lt fits), if_neg]
    rintro ⟨-, short⟩
    apply Nat.not_lt_of_le (Nat.mod_le _ usizeModulus) (Nat.lt_of_le_of_lt (le_of_eq _) short)
    simp [RespType.crlf, Nat.add_assoc]

theorem parseElements_of_elements {bytes : List UInt8} {items : List RespType}
    (elements : Elements Frame bytes items)
    (each : ∀ b value, b.length ≤ bytes.length → Frame b value → Reads target b value)
    (front suffix : List UInt8) (arr : List RespType) :
    parseElements (parse target) (front ++ (bytes ++ suffix)) items.length arr front.length =
        .ok (.array (arr ++ items), (front ++ bytes).length) ∨
      parseElements (parse target) (front ++ (bytes ++ suffix)) items.length arr front.length =
        .panic := by
  induction elements generalizing front arr with
  | nil =>
      left
      simp [parseElements]
  | @cons first rest value values frame others ih =>
      have inside : front.length ≤ (front ++ (first ++ rest ++ suffix)).length :=
        (List.prefix_append front _).length_le
      rw [List.length_cons, parseElements_succ inside, List.drop_left, List.append_assoc]
      have fits : first.length ≤ (first ++ rest).length := (List.prefix_append _ _).length_le
      rcases (each first value fits frame).append (rest ++ suffix) with accepted | panics
      · have loop := ih (fun b item shorter => each b item (shorter.trans
          (List.suffix_append first rest).length_le)) (front ++ first) (arr ++ [value])
        rw [accepted, Outcome.ok_bind]
        simpa only [List.append_assoc, List.singleton_append, List.length_append] using loop
      · right
        rw [panics]
        rfl

theorem reads_array {numeral bytes : List UInt8} {items : List RespType}
    (count : Unsigned 64 numeral items.length) (elements : Elements Frame bytes items)
    (each : ∀ b value, b.length ≤ bytes.length → Frame b value → Reads target b value) :
    Reads target (42 :: numeral ++ RespType.crlf ++ bytes) (.array items) := by
  have header := parseHeader_numeral count 42 bytes
  have selected : parse target (42 :: numeral ++ RespType.crlf ++ bytes) =
      parseArray target (parse target) (42 :: numeral ++ RespType.crlf ++ bytes) := by
    rw [parse_eq]
    rfl
  have loop := parseElements_of_elements elements each (42 :: numeral ++ RespType.crlf) [] []
  rw [List.append_nil] at loop
  rw [Reads, selected, parseArray, header, Outcome.ok_bind]
  dsimp only
  by_cases fits : items.length * target.elementSize ≤ isizeMax
  · rw [target.withCapacity_of_le fits]
    exact loop
  · right
    rw [Target.withCapacity, if_neg fits]
    rfl

/-- An inline command is read as far as its CR LF. -/
theorem parse_inline {line : String} {words : List String} (unbroken : Unbroken (utf8Bytes line))
    (unmarked : ∀ first ∈ (utf8Bytes line ++ RespType.crlf).head?, first ∉ markers)
    (split : Words line.toList words) (suffix : List UInt8) :
    parse target (utf8Bytes line ++ RespType.crlf ++ suffix) =
      .ok (.array (words.map .bulkString), (utf8Bytes line ++ RespType.crlf).length) := by
  have opened : utf8Bytes line ++ RespType.crlf ≠ [] := by simp [RespType.crlf]
  rcases List.exists_cons_of_ne_nil opened with ⟨first, rest, opening⟩
  have inline : isInline first = true :=
    isInline_iff.mpr (unmarked first (by rw [opening]; rfl))
  rw [parse_eq, opening, List.cons_append, parseStep, parserFor, if_pos inline, ← List.cons_append,
    ← opening]
  refine parseLine_eq_ok_iff.mpr ⟨utf8Bytes line, (utf8Bytes line).length + 2, ?_,
    decodeInline_eq_ok_iff.mpr ⟨line, words, rfl, split, rfl⟩, ?_⟩
  · exact readUntilCrlf_eq_some_iff.mpr ⟨List.prefix_append _ suffix, unbroken, rfl⟩
  · simp [RespType.crlf]

/-- Every frame is read, unless the parser panics at one of its numbers. -/
theorem reads_of_frame (target : Target) {bytes : List UInt8} {value : RespType}
    (frame : Frame bytes value) : Reads target bytes value := by
  induction size : bytes.length using Nat.strong_induction_on generalizing bytes value with
  | h size ih =>
      subst size
      cases frame with
      | @simpleString marker text marked line =>
          left
          have selected : ∀ parse, parserFor target parse marker = parseSimple := by
            intro parse
            rcases marked with rfl | rfl <;> rfl
          have read := parse_simpleString line marker selected []
          rwa [List.append_nil] at read
      | @integer numeral i decimal =>
          left
          have read := parseLine_line 58 (unbroken_of_signed decimal)
            (decodeInteger_eq_ok_iff.mpr ⟨i, decimal, rfl⟩) []
          rw [List.append_nil] at read
          rw [parse_eq]
          exact read
      | bulkString length => exact reads_bulkString length
      | @array numeral inner items count elements =>
          refine reads_array count elements ?_
          intro b item shorter frame
          refine ih b.length ?_ frame rfl
          simp only [List.length_append, List.length_cons]
          omega
      | @null data line =>
          left
          have read := @parseLine_line _ decodeNull _ _ 95 line rfl []
          rw [List.append_nil] at read
          rw [parse_eq]
          exact read
      | boolean b =>
          left
          rw [parse_eq]
          cases b <;> rfl
      | inline unbroken unmarked split =>
          left
          have read := @parse_inline target _ _ unbroken unmarked split []
          rwa [List.append_nil] at read

/-! ## Nothing starts with two frames -/

/-- A line is determined by the bytes from its start on. -/
theorem eq_of_lines {data data' rest rest' : List UInt8} (unbroken : Unbroken data)
    (unbroken' : Unbroken data')
    (same : data ++ RespType.crlf ++ rest = data' ++ RespType.crlf ++ rest') :
    data = data' ∧ rest = rest' := by
  have found := readUntilCrlf_eq_some_iff.mpr ⟨⟨rest, same⟩, unbroken, rfl⟩
  have found' := readUntilCrlf_eq_some_iff.mpr ⟨⟨rest', rfl⟩, unbroken', rfl⟩
  rw [found] at found'
  cases found'
  exact ⟨rfl, List.append_cancel_left same⟩

theorem eq_of_unsigned {width n m : ℕ} {bytes : List UInt8} (number : Unsigned width bytes n)
    (number' : Unsigned width bytes m) : n = m := by
  rcases unsigned_iff.mp number with ⟨text, rfl, parsed⟩
  rcases unsigned_iff.mp number' with ⟨text', same, parsed'⟩
  rw [utf8Bytes_injective same, parsed'] at parsed
  exact (Option.some.inj parsed).symm

theorem eq_of_signed {width : ℕ} {i j : ℤ} {bytes : List UInt8} (number : Signed width bytes i)
    (number' : Signed width bytes j) : i = j := by
  rcases signed_iff.mp number with ⟨text, rfl, parsed⟩
  rcases signed_iff.mp number' with ⟨text', same, parsed'⟩
  rw [utf8Bytes_injective same, parsed'] at parsed
  exact (Option.some.inj parsed).symm

/-- A length or a count is determined by the bytes from its marker on. -/
theorem eq_of_headers {marker : UInt8} {numeral numeral' rest rest' : List UInt8} {n m : ℕ}
    (number : Unsigned 64 numeral n) (number' : Unsigned 64 numeral' m)
    (same : marker :: numeral ++ (RespType.crlf ++ rest) =
      marker :: numeral' ++ (RespType.crlf ++ rest')) :
    numeral = numeral' ∧ n = m ∧ rest = rest' := by
  rw [List.cons_append, List.cons_append, List.cons.injEq, ← List.append_assoc,
    ← List.append_assoc] at same
  obtain ⟨rfl, behind⟩ :=
    eq_of_lines (unbroken_of_unsigned number) (unbroken_of_unsigned number') same.2
  exact ⟨rfl, eq_of_unsigned number number', behind⟩

theorem eq_of_elements {bytes bytes' rest rest' : List UInt8} {items items' : List RespType}
    (elements : Elements Frame bytes items) (elements' : Elements Frame bytes' items')
    (unique : ∀ b v c w s t, b.length ≤ bytes.length → Frame b v → Frame c w → b ++ s = c ++ t →
      b = c ∧ v = w)
    (count : items.length = items'.length) (same : bytes ++ rest = bytes' ++ rest') :
    bytes = bytes' ∧ items = items' := by
  induction elements generalizing bytes' items' with
  | nil =>
      cases elements' with
      | nil => exact ⟨rfl, rfl⟩
      | cons => cases count
  | @cons front tail value values frame others ih =>
      cases elements' with
      | nil => cases count
      | @cons front' tail' value' values' frame' others' =>
          rw [List.append_assoc, List.append_assoc] at same
          obtain ⟨rfl, rfl⟩ :=
            unique _ _ _ _ _ _ (List.prefix_append _ _).length_le frame frame' same
          rcases ih others' (fun b v c w s t shorter => unique b v c w s t (shorter.trans
            (List.suffix_append front tail).length_le)) (Nat.succ.inj count)
            (List.append_cancel_left same) with ⟨rfl, rfl⟩
          exact ⟨rfl, rfl⟩

theorem ne_nil_of_frame {bytes : List UInt8} {value : RespType} (frame : Frame bytes value) :
    bytes ≠ [] := by
  cases frame <;> simp [RespType.crlf]

/-- No buffer starts with two different frames. -/
theorem eq_of_frames {b c s t : List UInt8} {v w : RespType} (frame : Frame b v)
    (frame' : Frame c w) (same : b ++ s = c ++ t) : b = c ∧ v = w := by
  induction size : b.length using Nat.strong_induction_on generalizing b v c w s t with
  | h size ih =>
      subst size
      have heads : b.head? = c.head? := by
        have first := congrArg List.head? same
        rwa [List.head?_append_of_ne_nil _ (ne_nil_of_frame frame),
          List.head?_append_of_ne_nil _ (ne_nil_of_frame frame')] at first
      cases frame with
      | @simpleString marker text marked line =>
          cases frame' with
          | @simpleString marker' text' marked' line' =>
              cases heads
              rcases eq_of_lines line line' (List.cons.inj same).2 with ⟨bytes, -⟩
              rw [utf8Bytes_injective bytes]
              exact ⟨rfl, rfl⟩
          | inline _ unmarked =>
              rcases marked with rfl | rfl
              · exact absurd (unmarked _ heads.symm) (by decide)
              · exact absurd (unmarked _ heads.symm) (by decide)
          | _ =>
              rcases marked with rfl | rfl <;> cases heads
      | @integer numeral i decimal =>
          cases frame' with
          | @integer numeral' j decimal' =>
              obtain ⟨rfl, -⟩ := eq_of_lines (unbroken_of_signed decimal)
                (unbroken_of_signed decimal') (List.cons.inj same).2
              rw [eq_of_signed decimal decimal']
              exact ⟨rfl, rfl⟩
          | simpleString marked => rcases marked with rfl | rfl <;> cases heads
          | inline _ unmarked => exact absurd (unmarked _ heads.symm) (by decide)
          | _ => cases heads
      | @bulkString numeral text length =>
          cases frame' with
          | @bulkString numeral' text' length' =>
              simp only [List.append_assoc] at same
              obtain ⟨rfl, lengths, behind⟩ := eq_of_headers length length' same
              have texts := (List.append_inj behind lengths).1
              rw [utf8Bytes_injective texts]
              exact ⟨rfl, rfl⟩
          | simpleString marked => rcases marked with rfl | rfl <;> cases heads
          | inline _ unmarked => exact absurd (unmarked _ heads.symm) (by decide)
          | _ => cases heads
      | @array numeral bytes items count elements =>
          cases frame' with
          | @array numeral' bytes' items' count' elements' =>
              simp only [List.append_assoc] at same
              obtain ⟨rfl, counts, behind⟩ := eq_of_headers count count' same
              have unique : ∀ b v c w s t, b.length ≤ bytes.length → Frame b v → Frame c w →
                  b ++ s = c ++ t → b = c ∧ v = w := by
                intro b v c w s t shorter frame frame' same
                refine ih b.length ?_ frame frame' same rfl
                simp only [List.length_append, List.length_cons]
                omega
              obtain ⟨rfl, rfl⟩ := eq_of_elements elements elements' unique counts behind
              exact ⟨rfl, rfl⟩
          | simpleString marked => rcases marked with rfl | rfl <;> cases heads
          | inline _ unmarked => exact absurd (unmarked _ heads.symm) (by decide)
          | _ => cases heads
      | @null data line =>
          cases frame' with
          | @null data' line' =>
              obtain ⟨rfl, -⟩ := eq_of_lines line line' (List.cons.inj same).2
              exact ⟨rfl, rfl⟩
          | simpleString marked => rcases marked with rfl | rfl <;> cases heads
          | inline _ unmarked => exact absurd (unmarked _ heads.symm) (by decide)
          | _ => cases heads
      | boolean value =>
          cases frame' with
          | boolean value' =>
              have letters := (List.cons.inj (List.cons.inj same).2).1
              cases value <;> cases value' <;> first | exact ⟨rfl, rfl⟩ | cases letters
          | simpleString marked => rcases marked with rfl | rfl <;> cases heads
          | inline _ unmarked => exact absurd (unmarked _ heads.symm) (by decide)
          | _ => cases heads
      | @inline line words unbroken unmarked split =>
          cases frame' with
          | @inline line' words' unbroken' unmarked' split' =>
              obtain ⟨bytes, -⟩ := eq_of_lines unbroken unbroken' same
              obtain rfl := utf8Bytes_injective bytes
              rw [← words_iff.mp split, ← words_iff.mp split']
              exact ⟨rfl, rfl⟩
          | simpleString marked =>
              rcases marked with rfl | rfl <;> exact absurd (unmarked _ heads) (by decide)
          | _ => exact absurd (unmarked _ heads) (by decide)

/-! ## The parser and the grammar -/

/-- The parser accepts exactly its frame grammar.  On every buffer on which it
returns, it accepts a value with `n` bytes just when the first `n` bytes of the
buffer are a frame of that value; and of no buffer are two different front parts
frames, nor one front part a frame of two values. -/
theorem parse_accepts_frames (target : Target) (buf : List UInt8) :
    (parse target buf ≠ .panic → ∀ value n, parse target buf = .ok (value, n) ↔
      n ≤ buf.length ∧ Frame (buf.take n) value) ∧
    ∀ value value' n n', n ≤ buf.length → n' ≤ buf.length → Frame (buf.take n) value →
      Frame (buf.take n') value' → n = n' ∧ value = value' := by
  constructor
  · intro returns value n
    constructor
    · intro accepted
      exact ⟨(parse_selfDelimiting target).consumed_le accepted, frame_of_parse accepted⟩
    · rintro ⟨inside, frame⟩
      have read := (reads_of_frame target frame).append (buf.drop n)
      rw [List.take_append_drop, List.length_take, Nat.min_eq_left inside] at read
      exact read.resolve_right returns
  · intro value value' n n' inside inside' frame frame'
    have same : buf.take n ++ buf.drop n = buf.take n' ++ buf.drop n' := by
      rw [List.take_append_drop, List.take_append_drop]
    rcases eq_of_frames frame frame' same with ⟨bytes, values⟩
    have lengths := congrArg List.length bytes
    rw [List.length_take, List.length_take, Nat.min_eq_left inside,
      Nat.min_eq_left inside'] at lengths
    exact ⟨lengths, values⟩

/-- A nested array, and the beginning of what follows it. -/
theorem parse_accepts_frames_nested :
    Frame ((utf8Bytes "*1\r\n*1\r\n#t\r\nPI").take 12) (.array [.array [.boolean true]]) := by
  have accepted : parse ⟨true, 24⟩ (utf8Bytes "*1\r\n*1\r\n#t\r\nPI") =
      .ok (.array [.array [.boolean true]], 12) := rfl
  have returns : parse ⟨true, 24⟩ (utf8Bytes "*1\r\n*1\r\n#t\r\nPI") ≠ .panic := by
    rw [accepted]
    rintro ⟨⟩
  exact (((parse_accepts_frames ⟨true, 24⟩ _).1 returns _ _).mp accepted).2

/-! ## Where the parser panics -/

/-- The buffer starts with a marker and a number in a line of its own, `start` bytes
in all. -/
def Announces (buf : List UInt8) (marker : UInt8) (number start : ℕ) : Prop :=
  ∃ numeral rest, Unsigned 64 numeral number ∧
    buf = marker :: numeral ++ RespType.crlf ++ rest ∧
      start = (marker :: numeral ++ RespType.crlf).length

/-- The frame at the front of a buffer announces a bulk string whose end is not a
pointer-width number, or an array that is larger than any object.  Where sums wrap
around, the wrong end is only noticed in a buffer that reaches up to it. -/
def Excessive (target : Target) (buf : List UInt8) : Prop :=
  ∃ number start,
    Announces buf 36 number start ∧ usizeModulus ≤ start + number + 2 ∧
        (target.overflowChecks = true ∨ (start + number + 2) % usizeModulus ≤ buf.length) ∨
      Announces buf 42 number start ∧ isizeMax < number * target.elementSize

/-- The buffer starts with an array, and behind `n` bytes, which hold fewer elements than
it announces, the next one begins. -/
def NextElement (target : Target) (buf : List UInt8) (n : ℕ) : Prop :=
  ∃ count start bytes items, Announces buf 42 count start ∧
    count * target.elementSize ≤ isizeMax ∧ Elements Frame bytes items ∧ items.length < count ∧
      bytes <+: buf.drop start ∧ n = start + bytes.length

/-- In a buffer, a frame begins with `rest`: this is the buffer itself, or an element of an
array that begins in it. -/
inductive Visits (target : Target) : List UInt8 → List UInt8 → Prop
  | here (buf : List UInt8) : Visits target buf buf
  | element {buf rest : List UInt8} {n : ℕ} (next : NextElement target buf n)
      (inside : Visits target (buf.drop n) rest) : Visits target buf rest

theorem announces_iff {buf : List UInt8} {marker : UInt8} {number start : ℕ} :
    Announces buf marker number start ↔
      buf.head? = some marker ∧ parseHeader buf = .ok (number, start) := by
  constructor
  · rintro ⟨numeral, rest, decimal, rfl, rfl⟩
    exact ⟨rfl, parseHeader_numeral decimal marker rest⟩
  · rintro ⟨marked, header⟩
    rcases parseLine_take header with ⟨numeral, number, -, opening⟩
    have front : buf.take 1 = [marker] := by
      cases buf with
      | nil => cases marked
      | cons first rest => rw [← Option.some.inj marked]; rfl
    rw [front, List.singleton_append] at opening
    refine ⟨numeral, buf.drop start, parseUsizeFromBuf_eq_ok_iff.mp number, ?_, ?_⟩
    · rw [← opening, List.take_append_drop]
    · have length := congrArg List.length opening
      rwa [List.length_take, Nat.min_eq_left (parseHeader_selfDelimiting.consumed_le header)]
        at length

theorem excessive_iff {target : Target} {buf : List UInt8} :
    Excessive target buf ↔ ∃ number start, parseHeader buf = .ok (number, start) ∧
      (buf.head? = some 36 ∧ usizeModulus ≤ start + number + 2 ∧
          (target.overflowChecks = true ∨ (start + number + 2) % usizeModulus ≤ buf.length) ∨
        buf.head? = some 42 ∧ isizeMax < number * target.elementSize) := by
  simp only [Excessive, announces_iff]
  constructor
  · rintro ⟨number, start, ⟨⟨marked, header⟩, overflow⟩ | ⟨⟨marked, header⟩, large⟩⟩
    · exact ⟨number, start, header, Or.inl ⟨marked, overflow⟩⟩
    · exact ⟨number, start, header, Or.inr ⟨marked, large⟩⟩
  · rintro ⟨number, start, header, ⟨marked, overflow⟩ | ⟨marked, large⟩⟩
    · exact ⟨number, start, Or.inl ⟨⟨marked, header⟩, overflow⟩⟩
    · exact ⟨number, start, Or.inr ⟨⟨marked, header⟩, large⟩⟩

/-- The elements that the parser has read lead to the next one. -/
theorem nextElement_of_read {buf : List UInt8} {count start k n : ℕ} {arr : List RespType}
    (announced : Announces buf 42 count start) (fits : count * target.elementSize ≤ isizeMax)
    (below : k < count) (read : parseElements (parse target) buf k [] start = .ok (.array arr, n)) :
    NextElement target buf n := by
  have delimited := parse_selfDelimiting target
  have header := (announces_iff.mp announced).2
  have inside := parseHeader_selfDelimiting.consumed_le header
  rcases parseElements_elements delimited (fun b value n _ => frame_of_parse)
    (parseHeader_selfDelimiting.consumed_pos header) inside read with
    ⟨bytes, items, rfl, -, elements, taken⟩
  have bounds := parseElements_bounds delimited inside read
  have length : n = start + bytes.length := by
    have lengths := congrArg List.length taken
    rwa [List.length_append, List.length_take, List.length_take, Nat.min_eq_left bounds.2,
      Nat.min_eq_left inside] at lengths
  refine ⟨count, start, bytes, items, announced, fits, elements, below, ?_, length⟩
  rw [length, List.take_add] at taken
  exact List.append_cancel_left taken ▸ List.take_prefix _ _

/-- The parser, at an array, comes to its next element or panics on the way. -/
theorem parse_eq_panic_of_nextElement {buf : List UInt8} {n : ℕ} (next : NextElement target buf n)
    (panics : parse target (buf.drop n) = .panic) : parse target buf = .panic := by
  rcases next with
    ⟨count, start, bytes, items, announced, fits, elements, below, ⟨rest, behind⟩, rfl⟩
  rcases announces_iff.mp announced with ⟨marked, header⟩
  have inside := parseHeader_selfDelimiting.consumed_le header
  refine (parse_eq_panic_iff_header target buf).mpr ⟨count, start, header, Or.inr ⟨marked,
    Or.inr ⟨fits, ?_⟩⟩⟩
  have split : buf = buf.take start ++ (bytes ++ rest) := by rw [behind, List.take_append_drop]
  have length : (buf.take start).length = start := by
    rw [List.length_take, Nat.min_eq_left inside]
  have loop := parseElements_of_elements elements
    (fun b value _ => reads_of_frame target) (buf.take start) rest []
  rw [← split, length, List.length_append, length, List.nil_append] at loop
  rcases loop with read | panicked
  · exact ⟨items.length, items, _, below, read, panics⟩
  · rcases (parseElements_eq_panic_iff (parse_selfDelimiting target) inside _ _).mp panicked with
      ⟨k, arr, n, earlier, read, panics⟩
    exact ⟨k, arr, n, earlier.trans below, read, panics⟩

theorem NextElement.length_drop_lt {buf : List UInt8} {n : ℕ} (next : NextElement target buf n) :
    (buf.drop n).length < buf.length := by
  rcases next with ⟨count, start, bytes, items, announced, -, -, -, -, rfl⟩
  have header := (announces_iff.mp announced).2
  have opened := parseHeader_selfDelimiting.consumed_pos header
  have inside := parseHeader_selfDelimiting.consumed_le header
  rw [List.length_drop]
  omega

/-- The parser panics on exactly those buffers in which a frame begins with a length or a
count that is too large, at any nesting depth.  On all others it returns. -/
theorem parse_eq_panic_iff (target : Target) (buf : List UInt8) :
    parse target buf = .panic ↔ ∃ rest, Visits target buf rest ∧ Excessive target rest := by
  constructor
  · intro panics
    -- The elements of an array are shorter than the array.
    induction size : buf.length using Nat.strong_induction_on generalizing buf with
    | h size ih =>
        rcases (parse_eq_panic_iff_header target buf).mp panics with
          ⟨number, start, header, bulk | ⟨marked, large | ⟨fits, k, arr, n, below, read, inner⟩⟩⟩
        · exact ⟨buf, .here buf, excessive_iff.mpr ⟨number, start, header, Or.inl bulk⟩⟩
        · exact ⟨buf, .here buf,
            excessive_iff.mpr ⟨number, start, header, Or.inr ⟨marked, large⟩⟩⟩
        · have next := nextElement_of_read (announces_iff.mpr ⟨marked, header⟩) fits below read
          have shorter := next.length_drop_lt
          rcases ih _ (size ▸ shorter) (buf.drop n) inner rfl with ⟨rest, visits, excessive⟩
          exact ⟨rest, .element next visits, excessive⟩
  · rintro ⟨rest, visits, excessive⟩
    induction visits with
    | here buf =>
        rcases excessive_iff.mp excessive with ⟨number, start, header, bulk | ⟨marked, large⟩⟩
        · exact (parse_eq_panic_iff_header target buf).mpr ⟨number, start, header, Or.inl bulk⟩
        · exact (parse_eq_panic_iff_header target buf).mpr
            ⟨number, start, header, Or.inr ⟨marked, Or.inl large⟩⟩
    | element next _ ih => exact parse_eq_panic_of_nextElement next (ih excessive)

/-- A length and a count sent by a peer, the count as the element of an array. -/
theorem parse_panics_on_large_numbers :
    parse ⟨true, 24⟩ (utf8Bytes "$18446744073709551615\r\n") = .panic ∧
    parse ⟨false, 24⟩ (utf8Bytes "$18446744073709551615\r\n\r\n") = .panic ∧
    parse ⟨false, 24⟩ (utf8Bytes "*1\r\n*9223372036854775807\r\n") = .panic := by
  exact ⟨rfl, rfl, rfl⟩

end Parser

end Ember.Resp
