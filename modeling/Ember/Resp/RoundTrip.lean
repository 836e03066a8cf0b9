import Ember.Resp.Delimited

/-!
# Encoding and parsing round trip

Parsing the encoding of a value gives that value back, up to the treatment of
simple errors, which the parser reports as simple strings.  The texts of simple
strings and simple errors are written without a length, so they must not contain
a CR LF; the parser never returns a value that breaks this condition.
-/

namespace Ember.Resp

open Ember.Base
open Ember.Base.Framing

namespace RespType

/-! ## Side conditions -/

mutual

/-- A value and everything nested in it. -/
def nodes : RespType → List RespType
  | array items => array items :: itemsNodes items
  | leaf => [leaf]

/-- Everything nested in the items of an array. -/
def itemsNodes : List RespType → List RespType
  | [] => []
  | item :: items => nodes item ++ itemsNodes items

end

mutual

/-- The value the parser reports: every simple error becomes a simple string. -/
def norm : RespType → RespType
  | simpleError text => simpleString text
  | array items => array (normItems items)
  | leaf => leaf

/-- The items of an array as the parser reports them. -/
def normItems : List RespType → List RespType
  | [] => []
  | item :: items => norm item :: normItems items

end

/-- No text that is written without a length contains a CR LF. -/
def LineSafe (resp : RespType) : Prop :=
  ∀ text, (simpleString text ∈ resp.nodes ∨ simpleError text ∈ resp.nodes) →
    ¬ crlf <:+: utf8Bytes text

/-- No simple error occurs anywhere in the value. -/
def ErrorFree (resp : RespType) : Prop :=
  ∀ text, simpleError text ∉ resp.nodes

/-- The encoding, and the storage of the items of every array, can be objects in
memory. -/
def FitsInMemory (target : Target) (resp : RespType) : Prop :=
  resp.toBytes.length ≤ isizeMax ∧
    ∀ items, array items ∈ resp.nodes → items.length * target.elementSize ≤ isizeMax

theorem nodes_array (items : List RespType) :
    (array items).nodes = array items :: itemsNodes items := by
  rw [nodes]

theorem mem_nodes_self (resp : RespType) : resp ∈ resp.nodes := by
  cases resp <;> simp [nodes]

theorem mem_itemsNodes_iff {resp : RespType} {items : List RespType} :
    resp ∈ itemsNodes items ↔ ∃ item ∈ items, resp ∈ item.nodes := by
  induction items with
  | nil => simp [itemsNodes]
  | cons item items ih => simp [itemsNodes, ih]

theorem nodes_subset_of_mem {item : RespType} {items : List RespType} (member : item ∈ items) :
    item.nodes ⊆ (array items).nodes := by
  intro resp inside
  rw [nodes_array]
  exact List.mem_cons_of_mem _ (mem_itemsNodes_iff.mpr ⟨item, member, inside⟩)

theorem length_toBytes_le_itemsToBytes {item : RespType} {items : List RespType}
    (member : item ∈ items) : item.toBytes.length ≤ (itemsToBytes items).length := by
  induction items with
  | nil => simp at member
  | cons first rest ih =>
      rw [itemsToBytes_cons, List.length_append]
      rcases List.mem_cons.mp member with equal | inRest
      · subst equal
        exact Nat.le_add_right _ _
      · exact (ih inRest).trans (Nat.le_add_left _ _)

theorem toBytes_ne_nil (resp : RespType) : resp.toBytes ≠ [] := by
  cases resp with
  | simpleString text => simp [toBytes_simpleString]
  | simpleError text => simp [toBytes_simpleError]
  | integer value => simp [toBytes_integer]
  | bulkString text => simp [toBytes_bulkString]
  | array items => simp [toBytes_array]
  | null => simp [toBytes_null]
  | boolean value => simp [toBytes_boolean]

/-- Every item takes at least one byte. -/
theorem length_le_itemsToBytes (items : List RespType) :
    items.length ≤ (itemsToBytes items).length := by
  induction items with
  | nil => exact Nat.zero_le _
  | cons item items ih =>
      have pos := List.length_pos_of_ne_nil item.toBytes_ne_nil
      rw [itemsToBytes_cons, List.length_append, List.length_cons]
      omega

theorem LineSafe.of_mem {item : RespType} {items : List RespType} (safe : (array items).LineSafe)
    (member : item ∈ items) : item.LineSafe := by
  intro text inside
  exact safe text (inside.imp (nodes_subset_of_mem member ·) (nodes_subset_of_mem member ·))

/-- A value that nests nothing satisfies the side conditions by its own text. -/
theorem leaf_sound {resp : RespType} (leaf : resp.nodes = [resp])
    (clean : ∀ text, resp = simpleString text → ¬ crlf <:+: utf8Bytes text)
    (noError : ∀ text, resp ≠ simpleError text) : resp.LineSafe ∧ resp.ErrorFree := by
  constructor
  · intro text inside
    rw [leaf, List.mem_singleton, List.mem_singleton] at inside
    rcases inside with equal | equal
    · exact clean text equal.symm
    · exact absurd equal.symm (noError text)
  · intro text inside
    rw [leaf, List.mem_singleton] at inside
    exact noError text inside.symm

/-- An array satisfies the side conditions when its items do. -/
theorem array_sound {items : List RespType}
    (each : ∀ item ∈ items, item.LineSafe ∧ item.ErrorFree) :
    (array items).LineSafe ∧ (array items).ErrorFree := by
  have nested : ∀ {resp : RespType}, resp ∈ (array items).nodes → resp ≠ array items →
      ∃ item ∈ items, resp ∈ item.nodes := by
    intro resp inside proper
    rw [nodes_array, List.mem_cons] at inside
    exact mem_itemsNodes_iff.mp (inside.resolve_left proper)
  constructor
  · intro text inside
    rcases inside with inside | inside
    · rcases nested inside (by simp) with ⟨item, member, deeper⟩
      exact (each item member).1 text (.inl deeper)
    · rcases nested inside (by simp) with ⟨item, member, deeper⟩
      exact (each item member).1 text (.inr deeper)
  · intro text inside
    rcases nested inside (by simp) with ⟨item, member, deeper⟩
    exact (each item member).2 text deeper

theorem FitsInMemory.of_mem {target : Target} {item : RespType} {items : List RespType}
    (fits : (array items).FitsInMemory target) (member : item ∈ items) :
    item.FitsInMemory target := by
  refine ⟨?_, fun inner inside => fits.2 inner (nodes_subset_of_mem member inside)⟩
  have whole := fits.1
  rw [toBytes_array, List.length_append] at whole
  have part := length_toBytes_le_itemsToBytes member
  omega

theorem normItems_eq_map (items : List RespType) : normItems items = items.map norm := by
  induction items with
  | nil => rfl
  | cons item items ih => rw [normItems, ih, List.map_cons]

/-- Without simple errors nothing is changed by parsing. -/
theorem ErrorFree.norm_eq {resp : RespType} (free : resp.ErrorFree) : resp.norm = resp := by
  induction resp with
  | simpleError text => exact absurd (mem_nodes_self _) (free text)
  | array items ih =>
      rw [norm, normItems_eq_map, List.map_congr_left, List.map_id]
      intro item member
      exact ih item member fun text inside => free text (nodes_subset_of_mem member inside)
  | _ => rfl

end RespType

namespace Parser

/-! ## Parsing an encoding -/

theorem not_crlf_infix {data : List UInt8} (noCr : 13 ∉ data) : ¬ RespType.crlf <:+: data := by
  rintro ⟨front, back, rfl⟩
  apply noCr
  simp [RespType.crlf]

theorem not_crlf_infix_repr (n : ℤ) : ¬ RespType.crlf <:+: utf8Bytes n.repr := by
  apply not_crlf_infix
  intro member
  rcases mem_utf8Bytes_repr member with equal | bounds
  · exact absurd equal (by decide)
  · exact absurd bounds.1 (by decide)

/-- A line behind its marker is read as far as its CR LF. -/
theorem parseLine_line {α : Type} {decode : List UInt8 → Outcome ParseError α}
    {data : List UInt8} {value : α} (marker : UInt8) (clean : ¬ RespType.crlf <:+: data)
    (decoded : decode data = .ok value) (suffix : List UInt8) :
    parseLine 1 decode (marker :: data ++ RespType.crlf ++ suffix) =
      .ok (value, (marker :: data ++ RespType.crlf).length) := by
  refine parseLine_eq_ok_iff.mpr ⟨data, data.length + 2, ?_, decoded, ?_⟩
  · exact readUntilCrlf_eq_some_iff.mpr ⟨⟨suffix, rfl⟩, clean, rfl⟩
  · simp [RespType.crlf]

/-- The printed length or count of a frame is read back. -/
theorem parseHeader_repr {n : ℕ} (word : n < usizeModulus) (marker : UInt8)
    (suffix : List UInt8) :
    parseHeader (marker :: utf8Bytes n.repr ++ RespType.crlf ++ suffix) =
      .ok (n, (marker :: utf8Bytes n.repr ++ RespType.crlf).length) := by
  have clean : ¬ RespType.crlf <:+: utf8Bytes n.repr := not_crlf_infix_repr n
  have parsed : parseUnsigned 64 n.repr = some n := parseUnsigned_toString word
  apply parseLine_line marker clean
  rw [parseUsizeFromBuf, fromUtf8_utf8Bytes, Outcome.ofOption_some, Outcome.ok_bind, parsed]
  rfl

variable {target : Target}

theorem parse_simpleString {text : String} (clean : ¬ RespType.crlf <:+: utf8Bytes text)
    (marker : UInt8) (selected : ∀ parse, parserFor target parse marker = parseSimple)
    (suffix : List UInt8) :
    parse target (marker :: utf8Bytes text ++ RespType.crlf ++ suffix) =
      .ok (.simpleString text, (marker :: utf8Bytes text ++ RespType.crlf).length) := by
  rw [parse_eq, List.cons_append, List.cons_append, parseStep, selected]
  exact parseLine_line marker clean (by simp [decodeSimple]) suffix

theorem parse_integer (value : Int64) (suffix : List UInt8) :
    parse target ((RespType.integer value).toBytes ++ suffix) =
      .ok (.integer value, (RespType.integer value).toBytes.length) := by
  rw [RespType.toBytes_integer, parse_eq, List.cons_append, List.cons_append]
  refine parseLine_line 58 (not_crlf_infix_repr _) ?_ suffix
  have parsed : parseSigned 63 value.toInt.repr = some value.toInt :=
    parseSigned_toString (Int64.le_toInt value) (Int64.toInt_lt value)
  simp [decodeInteger, parsed]

/-- The data of a bulk string behind its opening line. -/
theorem parseBulkBody_text {opening : List UInt8} {text : String}
    (fits : opening.length + (utf8Bytes text).length + 2 < usizeModulus) (suffix : List UInt8) :
    parseBulkBody target (opening ++ utf8Bytes text ++ RespType.crlf ++ suffix)
        (utf8Bytes text).length opening.length =
      .ok (.bulkString text, (opening ++ utf8Bytes text ++ RespType.crlf).length) := by
  have word : (utf8Bytes text).length < usizeModulus := by omega
  refine (parseBulkBody_eq_ok_iff word).mpr ⟨fits, by simp [RespType.crlf, Nat.add_assoc], ?_, ?_,
    text, ?_, rfl⟩
  · exact (List.prefix_append _ suffix).length_le
  · rw [List.append_assoc (opening ++ utf8Bytes text), ← List.length_append, List.drop_left]
    rfl
  · rw [List.append_assoc (opening ++ utf8Bytes text), List.append_assoc opening, List.drop_left,
      List.take_left]
    exact fromUtf8_utf8Bytes text

theorem parse_bulkString {text : String}
    (fits : (RespType.bulkString text).toBytes.length ≤ isizeMax) (suffix : List UInt8) :
    parse target ((RespType.bulkString text).toBytes ++ suffix) =
      .ok (.bulkString text, (RespType.bulkString text).toBytes.length) := by
  rw [RespType.toBytes_bulkString] at fits ⊢
  generalize opening_eq :
    36 :: utf8Bytes (utf8Bytes text).length.repr ++ RespType.crlf = opening at fits ⊢
  have small : opening.length + (utf8Bytes text).length + 2 < usizeModulus := by
    rw [List.length_append, List.length_append] at fits
    simp only [RespType.crlf, List.length_cons, List.length_nil, isizeMax, usizeModulus] at *
    omega
  have header : parseHeader (opening ++ utf8Bytes text ++ RespType.crlf ++ suffix) =
      .ok ((utf8Bytes text).length, opening.length) := by
    rw [List.append_assoc, List.append_assoc, ← opening_eq]
    exact parseHeader_repr (by omega) 36 _
  have selected : parse target (opening ++ utf8Bytes text ++ RespType.crlf ++ suffix) =
      parseBulkString target (opening ++ utf8Bytes text ++ RespType.crlf ++ suffix) := by
    rw [parse_eq, ← opening_eq]
    rfl
  rw [selected, parseBulkString, header]
  exact parseBulkBody_text small suffix

/-- The element loop on the encodings of the items, with whatever was read
before them and whatever comes behind. -/
theorem parseElements_itemsToBytes {items : List RespType}
    (each : ∀ item ∈ items, ∀ suffix,
      parse target (item.toBytes ++ suffix) = .ok (item.norm, item.toBytes.length))
    (front suffix : List UInt8) (arr : List RespType) :
    parseElements (parse target) (front ++ RespType.itemsToBytes items ++ suffix) items.length
        arr front.length =
      .ok (.array (arr ++ items.map RespType.norm),
        (front ++ RespType.itemsToBytes items).length) := by
  induction items generalizing front arr with
  | nil => simp [parseElements]
  | cons item items ih =>
      have inside : front.length ≤
          (front ++ RespType.itemsToBytes (item :: items) ++ suffix).length := by
        simp only [List.length_append]
        omega
      have first := each item List.mem_cons_self (RespType.itemsToBytes items ++ suffix)
      rw [List.length_cons, parseElements_succ inside, List.append_assoc, List.drop_left,
        RespType.itemsToBytes_cons, List.append_assoc, first, Outcome.ok_bind]
      have rest := ih (fun other member => each other (List.mem_cons_of_mem item member))
        (front ++ item.toBytes) (arr ++ [item.norm])
      rw [List.length_append] at rest
      simpa [List.append_assoc] using rest

/-- Parsing what was encoded, with any bytes behind it. -/
theorem parse_toBytes_append {resp : RespType} (safe : resp.LineSafe)
    (fits : resp.FitsInMemory target) (suffix : List UInt8) :
    parse target (resp.toBytes ++ suffix) = .ok (resp.norm, resp.toBytes.length) := by
  induction resp generalizing suffix with
  | simpleString text =>
      have clean := safe text (.inl (RespType.mem_nodes_self _))
      rw [RespType.toBytes_simpleString]
      exact parse_simpleString clean 43 (fun _ => rfl) suffix
  | simpleError text =>
      have clean := safe text (.inr (RespType.mem_nodes_self _))
      rw [RespType.toBytes_simpleError]
      exact parse_simpleString clean 45 (fun _ => rfl) suffix
  | integer value => exact parse_integer value suffix
  | bulkString text => exact parse_bulkString fits.1 suffix
  | null =>
      have empty : ¬ RespType.crlf <:+: [] := not_crlf_infix List.not_mem_nil
      have decoded : decodeNull [] = .ok .null := rfl
      rw [RespType.toBytes_null, parse_eq]
      exact parseLine_line 95 empty decoded suffix
  | boolean value =>
      have letter : ¬ RespType.crlf <:+: [if value then 116 else 102] :=
        not_crlf_infix (by cases value <;> decide)
      have decoded : decodeBool [if value then 116 else 102] = .ok (.boolean value) := by
        cases value <;> rfl
      rw [RespType.toBytes_boolean, parse_eq]
      exact parseLine_line 35 letter decoded suffix
  | array items ih =>
      have each : ∀ item ∈ items, ∀ suffix,
          parse target (item.toBytes ++ suffix) = .ok (item.norm, item.toBytes.length) :=
        fun item member => ih item member (safe.of_mem member) (fits.of_mem member)
      have capacity := fits.2 items (RespType.mem_nodes_self _)
      have whole := fits.1
      rw [RespType.toBytes_array] at whole ⊢
      generalize opening_eq : 42 :: utf8Bytes items.length.repr ++ RespType.crlf = opening
        at whole ⊢
      have word : items.length < usizeModulus := by
        have counted := RespType.length_le_itemsToBytes items
        rw [List.length_append] at whole
        simp only [isizeMax, usizeModulus] at *
        omega
      have header : parseHeader (opening ++ RespType.itemsToBytes items ++ suffix) =
          .ok (items.length, opening.length) := by
        rw [List.append_assoc, ← opening_eq]
        exact parseHeader_repr word 42 _
      have selected : parse target (opening ++ RespType.itemsToBytes items ++ suffix) =
          parseArray target (parse target) (opening ++ RespType.itemsToBytes items ++ suffix) := by
        rw [parse_eq, ← opening_eq]
        rfl
      have elements := parseElements_itemsToBytes each opening suffix []
      rw [selected, parseArray, header, Outcome.ok_bind]
      change target.withCapacity items.length >>= _ = _
      rw [target.withCapacity_of_le capacity, Outcome.ok_bind, elements, RespType.norm,
        RespType.normItems_eq_map]
      rfl

/-! ## What the parser returns -/

/-- The element loop keeps what it has and adds values the parser returned. -/
theorem parseElements_ok {parse : List UInt8 → Parsed} {buf : List UInt8} {remaining start n : ℕ}
    {arr : List RespType} {value : RespType}
    (accepted : parseElements parse buf remaining arr start = .ok (value, n)) :
    ∃ found, value = .array (arr ++ found) ∧
      ∀ item ∈ found, ∃ b len, parse b = .ok (item, len) := by
  induction remaining generalizing arr start with
  | zero =>
      cases accepted
      exact ⟨[], by rw [List.append_nil], by simp⟩
  | succ remaining ih =>
      rw [parseElements] at accepted
      rcases Outcome.bind_eq_ok_iff.mp accepted with ⟨rest, -, parsed⟩
      rcases Outcome.bind_eq_ok_iff.mp parsed with ⟨⟨element, len⟩, first, elements⟩
      rcases ih elements with ⟨found, rfl, each⟩
      refine ⟨element :: found, by rw [List.append_assoc, List.singleton_append], ?_⟩
      intro item member
      rcases List.mem_cons.mp member with equal | later
      · exact equal ▸ ⟨rest, len, first⟩
      · exact each item later

theorem parseSimple_sound {buf : List UInt8} {value : RespType} {n : ℕ}
    (accepted : parseSimple buf = .ok (value, n)) : value.LineSafe ∧ value.ErrorFree := by
  rcases parseLine_eq_ok_iff.mp accepted with ⟨data, len, found, decoded, -⟩
  rcases Outcome.bind_eq_ok_iff.mp decoded with ⟨text, valid, equal⟩
  cases equal
  have bytes := fromUtf8_eq_some_iff.mp (Outcome.ofOption_eq_ok_iff.mp valid)
  refine RespType.leaf_sound rfl ?_ (by simp)
  rintro _ ⟨⟩
  rw [← bytes]
  exact (readUntilCrlf_eq_some_iff.mp found).2.1

theorem parseInline_sound {buf : List UInt8} {value : RespType} {n : ℕ}
    (accepted : parseInline buf = .ok (value, n)) : value.LineSafe ∧ value.ErrorFree := by
  rcases parseLine_eq_ok_iff.mp accepted with ⟨data, len, -, decoded, -⟩
  rcases Outcome.bind_eq_ok_iff.mp decoded with ⟨line, -, equal⟩
  cases equal
  apply RespType.array_sound
  intro item member
  rcases List.mem_map.mp member with ⟨word, -, rfl⟩
  exact RespType.leaf_sound rfl (by simp) (by simp)

theorem parseArray_sound {parse : List UInt8 → Parsed} {buf : List UInt8} {value : RespType}
    {n : ℕ} (sound : ∀ b item len, parse b = .ok (item, len) → item.LineSafe ∧ item.ErrorFree)
    (accepted : parseArray target parse buf = .ok (value, n)) :
    value.LineSafe ∧ value.ErrorFree := by
  rcases Outcome.bind_eq_ok_iff.mp accepted with ⟨⟨arrLen, start⟩, -, opened⟩
  rcases Outcome.bind_eq_ok_iff.mp opened with ⟨⟨⟩, -, elements⟩
  rcases parseElements_ok elements with ⟨found, rfl, each⟩
  apply RespType.array_sound
  intro item member
  rcases each item member with ⟨b, len, parsed⟩
  exact sound b item len parsed

/-- Whatever parser the first byte selects, its values satisfy the side
conditions when those of array elements do. -/
theorem parserFor_sound {parse : List UInt8 → Parsed} {first : UInt8} {buf : List UInt8}
    {value : RespType} {n : ℕ}
    (sound : ∀ b item len, parse b = .ok (item, len) → item.LineSafe ∧ item.ErrorFree)
    (accepted : parserFor target parse first buf = .ok (value, n)) :
    value.LineSafe ∧ value.ErrorFree := by
  revert accepted
  fun_cases parserFor target parse first with
  | case1 => exact parseInline_sound
  | case2 => exact parseSimple_sound
  | case3 => exact parseSimple_sound
  | case4 =>
      intro accepted
      rcases parseLine_eq_ok_iff.mp accepted with ⟨data, len, -, decoded, -⟩
      rcases Outcome.bind_eq_ok_iff.mp decoded with ⟨text, -, number⟩
      rcases Outcome.bind_eq_ok_iff.mp number with ⟨int, -, equal⟩
      cases equal
      exact RespType.leaf_sound rfl (by simp) (by simp)
  | case5 =>
      intro accepted
      rcases Outcome.bind_eq_ok_iff.mp accepted with ⟨⟨len, start⟩, header, body⟩
      obtain ⟨-, -, -, -, text, -, rfl⟩ :=
        (parseBulkBody_eq_ok_iff (parseHeader_lt header)).mp body
      exact RespType.leaf_sound rfl (by simp) (by simp)
  | case6 => exact parseArray_sound sound
  | case7 =>
      intro accepted
      rcases parseLine_eq_ok_iff.mp accepted with ⟨data, len, -, decoded, -⟩
      cases decoded
      exact RespType.leaf_sound rfl (by simp) (by simp)
  | case8 =>
      intro accepted
      rcases parseLine_eq_ok_iff.mp accepted with ⟨data, len, -, decoded, -⟩
      unfold decodeBool at decoded
      split at decoded
      · cases decoded
        exact RespType.leaf_sound rfl (by simp) (by simp)
      · cases decoded
        exact RespType.leaf_sound rfl (by simp) (by simp)
      · cases decoded
  | case9 => rintro ⟨⟩

theorem parseWithin_sound {depth : ℕ} {buf : List UInt8} {value : RespType} {n : ℕ}
    (accepted : parseWithin target depth buf = .ok (value, n)) :
    value.LineSafe ∧ value.ErrorFree := by
  induction depth generalizing buf value n with
  | zero => cases accepted
  | succ depth ih =>
      cases buf with
      | nil => cases accepted
      | cons first rest => exact parserFor_sound (fun _ _ _ parsed => ih parsed) accepted

/-- The wire format round trip.  Parsing an encoding, with any bytes behind it,
gives back the value with its simple errors read as simple strings and consumes
exactly the encoding; and since the parser returns only values to which this
applies and which hold no simple error, encoding and parsing again whatever was
accepted changes nothing. -/
theorem parse_toBytes_round_trip (target : Target) :
    (∀ (resp : RespType) suffix, resp.LineSafe → resp.FitsInMemory target →
      parse target (resp.toBytes ++ suffix) = .ok (resp.norm, resp.toBytes.length)) ∧
    ∀ buf (resp : RespType) n, parse target buf = .ok (resp, n) →
      resp.LineSafe ∧ resp.ErrorFree ∧
        (resp.FitsInMemory target →
          ∀ suffix, parse target (resp.toBytes ++ suffix) = .ok (resp, resp.toBytes.length)) := by
  constructor
  · exact fun resp suffix safe fits => parse_toBytes_append safe fits suffix
  · intro buf resp n accepted
    rcases parseWithin_sound accepted with ⟨safe, free⟩
    refine ⟨safe, free, fun fits suffix => ?_⟩
    rw [parse_toBytes_append safe fits suffix, free.norm_eq]

/-- A nested value whose bulk string looks like a frame itself. -/
theorem parse_toBytes_round_trip_nested :
    let resp := RespType.array [.integer (-7), .simpleError "no", .bulkString "é\r\n:1\r\n"]
    parse ⟨false, 32⟩ (resp.toBytes ++ [43]) =
      .ok (.array [.integer (-7), .simpleString "no", .bulkString "é\r\n:1\r\n"], 28) := by
  have safe : (RespType.array [.integer (-7), .simpleError "no",
      .bulkString "é\r\n:1\r\n"]).LineSafe := by
    intro text inside
    simp only [RespType.nodes, RespType.itemsNodes, List.mem_cons, List.mem_append] at inside
    simp at inside
    subst inside
    decide
  have fits : (RespType.array [.integer (-7), .simpleError "no",
      .bulkString "é\r\n:1\r\n"]).FitsInMemory ⟨false, 32⟩ := by
    constructor
    · exact by decide
    · intro items inside
      simp only [RespType.nodes, RespType.itemsNodes, List.mem_cons, List.mem_append] at inside
      simp at inside
      subst inside
      decide
  exact (parse_toBytes_round_trip ⟨false, 32⟩).1 _ [43] safe fits

end Parser

end Ember.Resp
