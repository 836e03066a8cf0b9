import Ember.Config.Client
import Ember.Resp.Grammar

/-!
# Inline commands

A command may be sent as a line of words instead of an array of bulk strings.  The
line means the same as the array, however its words are spaced: the parser gives
the same value and leaves the same bytes, so that the connection goes on in the
same way.
-/

namespace Ember

open Ember.Base Ember.Resp

/-- What may stand between the words of a line. -/
def Blank (c : Char) : Prop :=
  c = ' ' ∨ c = '\t'

/-- The words of a line that is made of blanks and of words, each of which is
followed by a blank or by the end of the line. -/
inductive Spaced : List String → List Char → Prop
  | nil : Spaced [] []
  | blank {c : Char} {words : List String} {rest : List Char} (blank : Blank c)
      (tail : Spaced words rest) : Spaced words (c :: rest)
  | word {word : String} {words : List String} {rest : List Char}
      (ends : ∀ c ∈ rest.head?, Blank c) (tail : Spaced words rest) :
      Spaced (word :: words) (word.toList ++ rest)

/-- A word of an inline command. -/
structure InlineWord (word : String) : Prop where
  nonempty : word ≠ ""
  visible : ∀ c ∈ word.toList, isWhitespace c = false

theorem InlineWord.toList_ne_nil {word : String} (inline : InlineWord word) : word.toList ≠ [] :=
  fun empty => inline.nonempty (String.toList_eq_nil_iff.mp empty)

instance (word : String) : Decidable (InlineWord word) :=
  decidable_of_iff (word ≠ "" ∧ word.toList.all (!isWhitespace ·) = true) <| by
    rw [List.all_eq_true]
    constructor
    · rintro ⟨nonempty, visible⟩
      exact ⟨nonempty, fun c member => (Bool.not_eq_true' _).mp (visible c member)⟩
    · rintro ⟨nonempty, visible⟩
      exact ⟨nonempty, fun c member => (Bool.not_eq_true' _).mpr (visible c member)⟩

/-- The characters that open the frames of the other types. -/
def markerChars : List Char :=
  ['+', '-', ':', '$', '*', '_', '#']

theorem Blank.isWhitespace {c : Char} (blank : Blank c) : isWhitespace c = true := by
  rcases blank with rfl | rfl <;> rfl

namespace Spaced

variable {words : List String} {chars : List Char}

/-- The words of a line are its words by white space. -/
theorem split (spaced : Spaced words chars) (each : ∀ word ∈ words, InlineWord word) :
    Words chars words := by
  induction spaced with
  | nil => exact .nil
  | blank blank tail ih => exact .space blank.isWhitespace (ih each)
  | @word word words rest ends tail ih =>
      rcases List.forall_mem_cons.mp each with ⟨first, others⟩
      have split := Words.word first.toList_ne_nil first.visible
        (fun c head => (ends c head).isWhitespace) (ih others)
      rwa [String.ofList_toList] at split

/-- All of a line but its blanks belongs to words. -/
theorem mem_cases (spaced : Spaced words chars) {c : Char} (member : c ∈ chars) :
    Blank c ∨ ∃ word ∈ words, c ∈ word.toList := by
  induction spaced with
  | nil => cases member
  | blank blank tail ih =>
      rcases List.mem_cons.mp member with rfl | later
      · exact Or.inl blank
      · exact ih later
  | @word word words rest ends tail ih =>
      rcases List.mem_append.mp member with inside | later
      · exact Or.inr ⟨word, List.mem_cons_self, inside⟩
      · rcases ih later with blank | ⟨word, inWords, inside⟩
        · exact Or.inl blank
        · exact Or.inr ⟨word, List.mem_cons_of_mem _ inWords, inside⟩

/-- A line opens with a blank or with its first word. -/
theorem head_cases (spaced : Spaced words chars) (each : ∀ word ∈ words, InlineWord word)
    {c : Char} (head : c ∈ chars.head?) :
    Blank c ∨ ∃ word ∈ words.head?, c ∈ word.toList.head? := by
  cases spaced with
  | nil => cases head
  | blank blank tail =>
      cases head
      exact Or.inl blank
  | @word word words rest ends tail =>
      right
      have nonempty := (each word List.mem_cons_self).toList_ne_nil
      rw [List.head?_append_of_ne_nil _ nonempty] at head
      exact ⟨word, rfl, head⟩

/-- The line ends at its CR LF and not before. -/
theorem unbroken (spaced : Spaced words chars) (each : ∀ word ∈ words, InlineWord word) :
    Unbroken (utf8Bytes (String.ofList chars)) := by
  apply Parser.not_crlf_infix
  intro member
  rcases exists_of_mem_utf8Bytes (by decide) member with ⟨c, inside, code⟩
  have isCr : c = '\r' := by
    rw [← Char.ofNat_toNat c, code]
    rfl
  subst isCr
  rcases spaced.mem_cases inside with blank | ⟨word, inWords, inWord⟩
  · exact absurd blank (by unfold Blank; decide)
  · exact absurd ((each word inWords).visible _ inWord) (by decide)

/-- The line is not taken for a frame of another type. -/
theorem unmarked (spaced : Spaced words chars) (each : ∀ word ∈ words, InlineWord word)
    (first : ∀ word ∈ words.head?, ∀ c ∈ word.toList.head?, c ∉ markerChars) :
    ∀ b ∈ (utf8Bytes (String.ofList chars) ++ RespType.crlf).head?, b ∉ markers := by
  intro b head isMarker
  have codes : ∀ marker ∈ markers, marker.toNat < 128 ∧
      Char.ofNat marker.toNat ∈ markerChars ∧ ¬Blank (Char.ofNat marker.toNat) := by
    unfold Blank
    decide +kernel
  rcases codes b isMarker with ⟨ascii, markerChar, notBlank⟩
  cases chars with
  | nil =>
      cases head
      exact absurd isMarker (by decide)
  | cons c rest =>
      have opening : Char.ofNat b.toNat = c := by
        rw [← head_of_head_utf8Bytes ascii head, Char.ofNat_toNat]
      rw [opening] at markerChar notBlank
      rcases spaced.head_cases each rfl with blank | ⟨word, isFirst, inWord⟩
      · exact notBlank blank
      · exact first word isFirst c inWord markerChar

end Spaced

/-- The array form of an inline command is read back. -/
theorem parse_words (target : Target) {words : List String}
    (fits : (RespType.array (words.map .bulkString)).FitsInMemory target) (suffix : List UInt8) :
    Parser.parse target ((RespType.array (words.map .bulkString)).toBytes ++ suffix) =
      .ok (.array (words.map .bulkString),
        (RespType.array (words.map .bulkString)).toBytes.length) := by
  have sound : (RespType.array (words.map .bulkString)).LineSafe ∧
      (RespType.array (words.map .bulkString)).ErrorFree := by
    apply RespType.array_sound
    intro item member
    rcases List.mem_map.mp member with ⟨word, -, rfl⟩
    exact RespType.leaf_sound rfl nofun nofun
  rw [Parser.parse_toBytes_append sound.1 fits, sound.2.norm_eq]

/-- A round of the loop over the frames depends on what the parser finds and on what
is behind it. -/
theorem drain_congr {S : Type} {target : Target} {serve : Serve S}
    {front front' suffix : List UInt8} {value : RespType} (nonempty : front ≠ [])
    (nonempty' : front' ≠ [])
    (parsed : Parser.parse target (front ++ suffix) = .ok (value, front.length))
    (parsed' : Parser.parse target (front' ++ suffix) = .ok (value, front'.length))
    (fuel pipelineCount : ℕ) (madeProgress : Bool) (writer : BufWriter UInt8) (state : S) :
    Connection.drain target serve (fuel + 1) pipelineCount madeProgress
        ⟨front ++ suffix, writer, state⟩ =
      Connection.drain target serve (fuel + 1) pipelineCount madeProgress
        ⟨front' ++ suffix, writer, state⟩ := by
  have some : front ++ suffix ≠ [] := fun empty => nonempty (List.append_eq_nil_iff.mp empty).1
  have some' : front' ++ suffix ≠ [] := fun empty => nonempty' (List.append_eq_nil_iff.mp empty).1
  rw [Connection.drain_succ, Connection.drain_succ, if_neg some, if_neg some', parsed, parsed']
  simp only [List.drop_left]

/-- A command means the same as a line of words as it does as an array of bulk
strings, whatever the spaces and tabs between the words are and whatever comes
after it: the parser finds the same value, in the whole of the line and its CR LF,
and the connection goes on in the same way. -/
theorem inline_eq_array (target : Target) {words : List String} {line : String}
    (each : ∀ word ∈ words, InlineWord word)
    (first : ∀ word ∈ words.head?, ∀ c ∈ word.toList.head?, c ∉ markerChars)
    (spaced : Spaced words line.toList)
    (fits : (RespType.array (words.map .bulkString)).FitsInMemory target) (suffix : List UInt8) :
    let value := RespType.array (words.map .bulkString)
    let inline := utf8Bytes line ++ RespType.crlf
    Parser.parse target (inline ++ suffix) = .ok (value, inline.length) ∧
      Parser.parse target (value.toBytes ++ suffix) = .ok (value, value.toBytes.length) ∧
      ∀ (clock : ℕ → Database.Instant) (fuel pipelineCount : ℕ) (madeProgress : Bool)
        (writer : BufWriter UInt8) (session : Session),
        Connection.drain target (Client.serve target clock) (fuel + 1) pipelineCount madeProgress
            ⟨inline ++ suffix, writer, session⟩ =
          Connection.drain target (Client.serve target clock) (fuel + 1) pipelineCount madeProgress
            ⟨value.toBytes ++ suffix, writer, session⟩ := by
  intro value inline
  have unbroken := spaced.unbroken each
  have unmarked := spaced.unmarked each first
  rw [String.ofList_toList] at unbroken unmarked
  have parsed : Parser.parse target (inline ++ suffix) = .ok (value, inline.length) :=
    Parser.parse_inline unbroken unmarked (spaced.split each) suffix
  have parsed' := parse_words target fits suffix
  have nonempty : inline ≠ [] := List.append_ne_nil_of_right_ne_nil _ (by decide)
  have nonempty' : value.toBytes ≠ [] := by
    rw [RespType.toBytes_array]
    exact List.cons_ne_nil _ _
  refine ⟨parsed, parsed', ?_⟩
  intro clock fuel pipelineCount madeProgress writer session
  exact drain_congr nonempty nonempty' parsed parsed' fuel pipelineCount madeProgress writer session

/-- A tab and several spaces make no difference. -/
theorem inline_eq_array_get :
    Parser.parse ⟨true, 32⟩ (utf8Bytes " GET\t  k " ++ RespType.crlf ++ [33]) =
      .ok (.array [.bulkString "GET", .bulkString "k"], 11) := by
  have each : ∀ word ∈ ["GET", "k"], InlineWord word := by decide
  have first : ∀ word ∈ ["GET", "k"].head?, ∀ c ∈ word.toList.head?, c ∉ markerChars := by
    rintro _ ⟨⟩ _ ⟨⟩
    decide
  have key : Spaced ["k"] ['k', ' '] := by
    apply @Spaced.word "k" [] [' ']
    · rintro c ⟨⟩
      exact .inl rfl
    · exact .blank (.inl rfl) .nil
  have spaced : Spaced ["GET", "k"] " GET\t  k ".toList := by
    apply Spaced.blank (.inl rfl)
    apply @Spaced.word "GET" ["k"] ['\t', ' ', ' ', 'k', ' ']
    · rintro c ⟨⟩
      exact .inr rfl
    · exact .blank (.inr rfl) (.blank (.inl rfl) (.blank (.inl rfl) key))
  have fits : (RespType.array (["GET", "k"].map .bulkString)).FitsInMemory ⟨true, 32⟩ := by
    constructor
    · decide
    · intro items inside
      rcases List.mem_cons.mp inside with same | nested
      · cases same
        decide
      · rcases RespType.mem_itemsNodes_iff.mp nested with ⟨item, member, node⟩
        rcases List.mem_map.mp member with ⟨word, -, rfl⟩
        cases List.mem_singleton.mp node
  exact (inline_eq_array ⟨true, 32⟩ each first spaced fits [33]).1

end Ember
