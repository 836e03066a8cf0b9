import Ember.Base.Lexical
import Ember.Command.Command

/-!
# Panics and deadlines of the command extraction

Most commands look at their arguments without asking first how many there are, and
SET multiplies a number of seconds in 32 bits.  These are the two ways in which a
frame can bring the extraction down.  Where overflows are not checked, the second
of them gives a wrong deadline instead.
-/

namespace Ember.Command

open Ember.Base Ember.Database Ember.Resp

/-- The number of arguments that a command, whose name is in upper case, takes for
granted. -/
def requiredArguments : String → ℕ
  | "ECHO" | "GET" | "DELETE" | "LPUSH" | "RPUSH" => 1
  | "EXPIRE" => 2
  | "LRANGE" => 3
  | _ => 0

/-- The arguments of a SET end in a number of seconds which is not a number of
milliseconds in 32 bits. -/
def SecondsOverflow (args : List RespType) : Prop :=
  ∃ key value flag seconds rest, args =
      .bulkString key :: .bulkString value :: .bulkString flag :: .bulkString seconds :: rest ∧
    toAsciiUppercase flag = "EX" ∧
      ¬(-2 ^ 31 ≤ (parseInt seconds).toInt * 1000 ∧ (parseInt seconds).toInt * 1000 < 2 ^ 31)

/-- The argument is a text. -/
def IsText (arg : RespType) : Prop :=
  ∃ text, arg = .bulkString text

variable {target : Target} {now : Instant} {args : List RespType}

/-! ## The branches -/

@[simp]
theorem argument_cons_zero (arg : RespType) (rest : List RespType) :
    argument (arg :: rest) 0 = .ok arg :=
  rfl

@[simp]
theorem argument_cons_succ (arg : RespType) (rest : List RespType) (i : ℕ) :
    argument (arg :: rest) (i + 1) = argument rest i :=
  rfl

@[simp]
theorem argument_nil (i : ℕ) : argument [] i = .panic :=
  rfl

theorem parseText_eq_panic_iff {command : String → Command} {message : String} :
    parseText args command message = .panic ↔ args.length < 1 := by
  cases args with
  | nil => exact iff_of_true rfl Nat.one_pos
  | cons arg rest =>
      apply iff_of_false
      · simp only [parseText, argument_cons_zero, Outcome.ok_bind]
        split <;> nofun
      · simp

theorem parseLrange_eq_panic_iff : parseLrange args = .panic ↔ args.length < 3 := by
  rcases args with _ | ⟨key, _ | ⟨start, _ | ⟨stop, rest⟩⟩⟩
  · simp [parseLrange]
  · simp [parseLrange]
  · simp [parseLrange]
  · apply iff_of_false
    · simp only [parseLrange, argument_cons_zero, argument_cons_succ, Outcome.ok_bind]
      split <;> nofun
    · simp

theorem parseExpireOption_ne_panic : parseExpireOption args ≠ .panic := by
  rcases args with _ | ⟨key, _ | ⟨expiresIn, _ | ⟨option, rest⟩⟩⟩
  · nofun
  · nofun
  · nofun
  · simp only [parseExpireOption, argument_cons_zero, argument_cons_succ, Outcome.ok_bind]
    split
    · split
      · split <;> nofun
      · nofun
    · nofun

theorem parseExpire_eq_panic_iff : parseExpire now args = .panic ↔ args.length < 2 := by
  rcases args with _ | ⟨key, _ | ⟨expiresIn, rest⟩⟩
  · simp [parseExpire]
  · simp [parseExpire]
  · apply iff_of_false
    · simp only [parseExpire, argument_cons_zero, argument_cons_succ, Outcome.ok_bind]
      split
      · intro panics
        rcases Outcome.bind_eq_panic_iff.mp panics with panics | ⟨option, -, panics⟩
        · exact parseExpireOption_ne_panic panics
        · cases panics
      · nofun
    · simp

theorem parseSetExpiry_eq_panic_iff {flag expiresIn : RespType} :
    parseSetExpiry target now flag expiresIn = .panic ↔ target.overflowChecks = true ∧
      ∃ unit seconds, flag = .bulkString unit ∧ expiresIn = .bulkString seconds ∧
        toAsciiUppercase unit = "EX" ∧
          ¬(-2 ^ 31 ≤ (parseInt seconds).toInt * 1000 ∧
            (parseInt seconds).toInt * 1000 < 2 ^ 31) := by
  unfold parseSetExpiry
  split
  next unit seconds =>
    split
    next seconds? =>
      rw [Outcome.bind_eq_panic_iff, Target.mulI32_eq_panic_iff]
      have thousand : (1000 : Int32).toInt = 1000 := rfl
      rw [thousand]
      constructor
      · rintro (⟨checks, overflow⟩ | ⟨millis, -, panics⟩)
        · exact ⟨checks, unit, seconds, rfl, rfl, seconds?, overflow⟩
        · cases panics
      · rintro ⟨checks, _, _, ⟨⟩, ⟨⟩, -, overflow⟩
        exact Or.inl ⟨checks, overflow⟩
    next other =>
      apply iff_of_false
      · split <;> nofun
      · rintro ⟨-, _, _, ⟨⟩, ⟨⟩, seconds?, -⟩
        exact other seconds?
  next mixed =>
    apply iff_of_false
    · nofun
    · rintro ⟨-, unit, seconds, rfl, rfl, -⟩
      exact mixed unit seconds rfl rfl

/-- Only a second pair of arguments is looked at. -/
theorem parseSet_texts (key value : String) (rest : List RespType) :
    parseSet target now (.bulkString key :: .bulkString value :: rest) =
      match rest with
      | flag :: expiresIn :: _ => do
          let expiresAt ← parseSetExpiry target now flag expiresIn
          return .set key value (some expiresAt)
      | _ => .ok (.set key value none) := by
  rcases rest with _ | ⟨flag, _ | ⟨expiresIn, more⟩⟩
  · rfl
  · rfl
  · have four : ¬more.length + 4 < 4 := Nat.not_lt_of_le (Nat.le_add_left 4 _)
    have two : ¬more.length + 4 < 2 := Nat.not_lt_of_le (Nat.le_add_left 2 _)
    simp only [parseSet, List.length_cons, if_neg four, if_neg two, argument_cons_zero,
      argument_cons_succ, Outcome.ok_bind]

/-- A SET whose first two arguments are not both texts is refused. -/
theorem parseSet_mixed {key value : RespType} (mixed : ¬(IsText key ∧ IsText value))
    (rest : List RespType) :
    parseSet target now (key :: value :: rest) = .error "SET arguments must be bulk strings." := by
  have two : ¬rest.length + 2 < 2 := Nat.not_lt_of_le (Nat.le_add_left 2 _)
  simp only [parseSet, List.length_cons, if_neg two, argument_cons_zero, argument_cons_succ,
    Outcome.ok_bind]
  split
  next key value => exact absurd ⟨⟨key, rfl⟩, ⟨value, rfl⟩⟩ mixed
  next => rfl

theorem parseSet_eq_panic_iff :
    parseSet target now args = .panic ↔ target.overflowChecks = true ∧ SecondsOverflow args := by
  rcases args with _ | ⟨key, _ | ⟨value, rest⟩⟩
  · exact iff_of_false nofun nofun
  · exact iff_of_false nofun nofun
  · by_cases texts : IsText key ∧ IsText value
    · rcases texts with ⟨⟨key, rfl⟩, ⟨value, rfl⟩⟩
      rw [parseSet_texts]
      split
      next flag expiresIn more =>
        rw [Outcome.bind_eq_panic_iff, parseSetExpiry_eq_panic_iff]
        constructor
        · rintro (⟨checks, unit, seconds, rfl, rfl, overflow⟩ | ⟨deadline, -, panics⟩)
          · exact ⟨checks, key, value, unit, seconds, more, rfl, overflow⟩
          · cases panics
        · rintro ⟨checks, _, _, unit, seconds, _, ⟨⟩, overflow⟩
          exact Or.inl ⟨checks, unit, seconds, rfl, rfl, overflow⟩
      next short =>
        apply iff_of_false
        · nofun
        · rintro ⟨-, _, _, _, _, _, ⟨⟩, -⟩
          exact short _ _ _ rfl
    · apply iff_of_false
      · rw [parseSet_mixed texts]
        nofun
      · rintro ⟨-, _, _, _, _, _, ⟨⟩, -⟩
        exact texts ⟨⟨_, rfl⟩, ⟨_, rfl⟩⟩

/-! ## The extraction -/

theorem parseCommand_eq_panic_iff {cmd : String} :
    parseCommand target now cmd args = .panic ↔ args.length < requiredArguments cmd ∨
      cmd = "SET" ∧ target.overflowChecks = true ∧ SecondsOverflow args := by
  fun_cases parseCommand target now cmd args with
  | case3 => simp [requiredArguments, parseSet_eq_panic_iff]
  | case2 | case4 | case5 | case6 | case7 => simp [requiredArguments, parseText_eq_panic_iff]
  | case8 => simp [requiredArguments, parseLrange_eq_panic_iff]
  | case9 => simp [requiredArguments, parseExpire_eq_panic_iff]
  | case1 | case10 | case11 | case12 | case13 | case14 => simp [requiredArguments]
  | case15 => simp_all [requiredArguments]

/-- The extraction panics on exactly those frames that name a command and have fewer
arguments than it takes for granted or, where overflows are checked, set a key for
too many seconds.  On all others it returns.  No deadline it computes leaves the
range of the clock, as long as the clock itself is not close to its end. -/
theorem extractCommand_eq_panic_iff (target : Target) (now : Instant) :
    (∀ resp, extractCommand target now resp = .panic ↔
      ∃ name args, resp = .array (.bulkString name :: args) ∧
        (args.length < requiredArguments (toAsciiUppercase name) ∨
          toAsciiUppercase name = "SET" ∧ target.overflowChecks = true ∧ SecondsOverflow args)) ∧
    (now < 2 ^ 62 * 1000000000 → ∀ millis, deadlineAfter now millis < 2 ^ 63 * 1000000000) := by
  constructor
  · intro resp
    unfold extractCommand
    split
    next name args =>
      rw [parseCommand_eq_panic_iff]
      constructor
      · intro panics
        exact ⟨name, args, rfl, panics⟩
      · rintro ⟨_, _, ⟨⟩, panics⟩
        exact panics
    next other =>
      apply iff_of_false
      · nofun
      · rintro ⟨name, args, rfl, -⟩
        exact other name args rfl
  · intro early millis
    have word := asU64_lt millis
    have near : asU64 millis * 1000000 < 2 ^ 62 * 1000000000 := by omega
    exact (Nat.add_lt_add early near).trans_eq (by norm_num)

/-- A SET for the largest number of seconds, and the deadline it gets. -/
theorem extractCommand_eq_panic_iff_seconds :
    extractCommand ⟨true, 24⟩ 5 (.array [.bulkString "SET", .bulkString "k", .bulkString "v",
      .bulkString "EX", .bulkString "2147483"]) ≠ .panic ∧
    deadlineAfter 5 2147483000 < 2 ^ 63 * 1000000000 := by
  have law := extractCommand_eq_panic_iff ⟨true, 24⟩ 5
  constructor
  · intro panics
    rcases (law.1 _).mp panics with ⟨_, _, ⟨⟩, short | ⟨-, -, overflow⟩⟩
    · exact absurd short (by decide)
    · rcases overflow with ⟨_, _, _, _, _, ⟨⟩, -, overflow⟩
      exact absurd (by decide) overflow
  · exact law.2 (by decide) 2147483000

/-- Commands without their arguments, and a SET for too many seconds. -/
theorem extractCommand_panics :
    extractCommand ⟨false, 24⟩ 0 (.array [.bulkString "echo"]) = .panic ∧
    extractCommand ⟨false, 24⟩ 0 (.array [.bulkString "LRANGE", .bulkString "k"]) = .panic ∧
    extractCommand ⟨true, 24⟩ 0 (.array [.bulkString "SET", .bulkString "k", .bulkString "v",
      .bulkString "EX", .bulkString "2147484"]) = .panic := by
  decide +kernel

/-! ## Deadlines -/

/-- The frame of a SET with a deadline, whose further arguments are ignored. -/
def setFrame (name key value flag expiresIn : String) (rest : List RespType) : RespType :=
  .array (.bulkString name :: .bulkString key :: .bulkString value :: .bulkString flag ::
    .bulkString expiresIn :: rest)

section Deadlines

variable {name key value flag numeral : String} {rest : List RespType} {n : ℕ}

theorem extractCommand_setFrame (set : toAsciiUppercase name = "SET") :
    extractCommand target now (setFrame name key value flag numeral rest) =
      (do
        let expiresAt ← parseSetExpiry target now (.bulkString flag) (.bulkString numeral)
        return .set key value (some expiresAt)) := by
  rw [setFrame, extractCommand, set]
  exact parseSet_texts key value _

theorem extractCommand_setFrame_eq_ok_iff (set : toAsciiUppercase name = "SET")
    {deadline : Instant} :
    extractCommand target now (setFrame name key value flag numeral rest) =
        .ok (.set key value (some deadline)) ↔
      parseSetExpiry target now (.bulkString flag) (.bulkString numeral) = .ok deadline := by
  rw [extractCommand_setFrame set, Outcome.bind_eq_ok_iff]
  constructor
  · rintro ⟨_, parsed, ⟨⟩⟩
    exact parsed
  · intro parsed
    exact ⟨deadline, parsed, rfl⟩

/-- A numeral for a 32-bit integer is read as what it says. -/
theorem toInt_parseInt_of_signed {i : ℤ} (number : Signed 31 (utf8Bytes numeral) i) :
    (parseInt numeral).toInt = i := by
  rcases signed_iff.mp number with ⟨text, same, parsed⟩
  cases utf8Bytes_injective same
  rw [parseInt, trim_eq_self (isWhitespace_of_parseSigned parsed), parsed, Option.getD_some]
  rcases parseSigned_range parsed with ⟨lower, upper⟩
  exact Int32.toInt_ofInt_of_le lower upper

theorem toInt_parseInt (value : digitsValue numeral.toList = some n) (word : n < 2 ^ 31) :
    (parseInt numeral).toInt = n := by
  have parsed : parseSigned 31 numeral = some (n : ℤ) :=
    parseSigned_eq_some_iff.mpr (Or.inl ⟨n, Or.inl value, rfl, word⟩)
  exact toInt_parseInt_of_signed (signed_iff.mpr ⟨numeral, rfl, parsed⟩)

theorem deadlineAfter_eq_iff {millis : Int32} {k : ℕ} (small : k < 2 ^ 63) :
    deadlineAfter now millis = now + k * 1000000 ↔ millis.toInt = k := by
  rw [deadlineAfter, Nat.add_left_cancel_iff, Nat.mul_left_inj (by decide), asU64_eq_iff small]

/-- Seconds are exact as long as they are a number of milliseconds in 32 bits. -/
theorem parseSetExpiry_seconds_iff (seconds : toAsciiUppercase flag = "EX")
    (value : digitsValue numeral.toList = some n) (word : n < 2 ^ 31) :
    parseSetExpiry target now (.bulkString flag) (.bulkString numeral) =
        .ok (now + 1000 * n * 1000000) ↔ n ≤ 2147483 := by
  have read := toInt_parseInt value word
  have exact := @Target.mulI32_exact_iff String target (parseInt numeral) 1000
  have thousand : (1000 : Int32).toInt = 1000 := rfl
  rw [read, thousand] at exact
  have product : ((1000 * n : ℕ) : ℤ) = n * 1000 := by omega
  have fits : (-2 ^ 31 ≤ (n : ℤ) * 1000 ∧ (n : ℤ) * 1000 < 2 ^ 31) ↔ n ≤ 2147483 := by omega
  rw [← fits, ← exact, parseSetExpiry, if_pos seconds, Outcome.bind_eq_ok_iff]
  apply exists_congr
  intro millis
  apply and_congr_right
  intro _
  rw [← product, ← deadlineAfter_eq_iff (by omega), Outcome.pure_eq_ok, Outcome.ok.injEq]

theorem parseSetExpiry_of_millis (millis : toAsciiUppercase flag = "PX") :
    parseSetExpiry target now (.bulkString flag) (.bulkString numeral) =
      .ok (deadlineAfter now (parseInt numeral)) := by
  have other : toAsciiUppercase flag ≠ "EX" := by
    rw [millis]
    decide
  rw [parseSetExpiry, if_neg other, if_pos millis]

/-- Milliseconds are exact. -/
theorem parseSetExpiry_millis (millis : toAsciiUppercase flag = "PX")
    (value : digitsValue numeral.toList = some n) (word : n < 2 ^ 31) :
    parseSetExpiry target now (.bulkString flag) (.bulkString numeral) =
      .ok (now + n * 1000000) := by
  rw [parseSetExpiry_of_millis millis]
  exact congrArg Outcome.ok ((deadlineAfter_eq_iff (by omega)).mpr (toInt_parseInt value word))

/-- Among exact deadlines the one for more time is not earlier. -/
theorem parseSetExpiry_mono {shorter : String} {m : ℕ} {early late : Instant}
    (value : digitsValue numeral.toList = some n) (word : n < 2 ^ 31)
    (shorterValue : digitsValue shorter.toList = some m) (less : m ≤ n)
    (bound : toAsciiUppercase flag = "EX" → n ≤ 2147483)
    (first : parseSetExpiry target now (.bulkString flag) (.bulkString shorter) = .ok early)
    (second : parseSetExpiry target now (.bulkString flag) (.bulkString numeral) = .ok late) :
    early ≤ late := by
  have shorterWord : m < 2 ^ 31 := Nat.lt_of_le_of_lt less word
  by_cases seconds : toAsciiUppercase flag = "EX"
  · have few := bound seconds
    cases second.symm.trans ((parseSetExpiry_seconds_iff seconds value word).mpr few)
    cases first.symm.trans
      ((parseSetExpiry_seconds_iff seconds shorterValue shorterWord).mpr (less.trans few))
    gcongr
  · by_cases millis : toAsciiUppercase flag = "PX"
    · cases second.symm.trans (parseSetExpiry_millis millis value word)
      cases first.symm.trans (parseSetExpiry_millis millis shorterValue shorterWord)
      gcongr
    · rw [parseSetExpiry, if_neg seconds, if_neg millis] at second
      cases second

/-- The deadline that a SET gives to its key.  A number of milliseconds is exact, and
a number of seconds is exact up to 2147483 and no further, with or without overflow
checks.  Among exact deadlines the one for more time is not earlier. -/
theorem extractCommand_set_exact_iff (target : Target) (now : Instant)
    (set : toAsciiUppercase name = "SET") (key value flag : String) (rest : List RespType)
    (numeralValue : digitsValue numeral.toList = some n) (word : n ≤ 2147483647) :
    (toAsciiUppercase flag = "EX" →
      (extractCommand target now (setFrame name key value flag numeral rest) =
        .ok (.set key value (some (now + 1000 * n * 1000000))) ↔ n ≤ 2147483)) ∧
    (toAsciiUppercase flag = "PX" →
      extractCommand target now (setFrame name key value flag numeral rest) =
        .ok (.set key value (some (now + n * 1000000)))) ∧
    ∀ shorter m early late, digitsValue (String.toList shorter) = some m → m ≤ n →
      (toAsciiUppercase flag = "EX" → n ≤ 2147483) →
      extractCommand target now (setFrame name key value flag shorter rest) =
        .ok (.set key value (some early)) →
      extractCommand target now (setFrame name key value flag numeral rest) =
        .ok (.set key value (some late)) → early ≤ late := by
  have fits : n < 2 ^ 31 := Nat.lt_succ_of_le word
  simp only [extractCommand_setFrame_eq_ok_iff set]
  refine ⟨fun seconds => parseSetExpiry_seconds_iff seconds numeralValue fits,
    fun millis => parseSetExpiry_millis millis numeralValue fits, ?_⟩
  intro shorter m early late shorterValue less bound first second
  exact parseSetExpiry_mono numeralValue fits shorterValue less bound first second

/-- The largest number of seconds with an exact deadline. -/
theorem extractCommand_set_exact_iff_bound :
    toAsciiUppercase "set" = "SET" ∧ digitsValue "2147483".toList = some 2147483 ∧
      extractCommand ⟨false, 32⟩ 5 (setFrame "set" "k" "v" "ex" "2147483" []) =
        .ok (.set "k" "v" (some (5 + 1000 * 2147483 * 1000000))) := by
  have numeral : digitsValue "2147483".toList = some 2147483 := by decide +kernel
  have name : toAsciiUppercase "set" = "SET" := by decide
  have law := extractCommand_set_exact_iff ⟨false, 32⟩ 5 name "k" "v" "ex" [] numeral (by decide)
  exact ⟨name, numeral, (law.1 (by decide)).mpr le_rfl⟩

/-- One second more panics or, without overflow checks, gives a deadline in the far
future; and fifty days can end before one second. -/
theorem extractCommand_set_wraps :
    extractCommand ⟨true, 32⟩ 0 (setFrame "SET" "k" "v" "EX" "2147484" []) = .panic ∧
    extractCommand ⟨false, 32⟩ 0 (setFrame "SET" "k" "v" "EX" "2147484" []) =
      .ok (.set "k" "v" (some ((2 ^ 64 - 2147483296) * 1000000))) ∧
    extractCommand ⟨false, 32⟩ 0 (setFrame "SET" "k" "v" "EX" "1" []) =
      .ok (.set "k" "v" (some (1000 * 1000000))) ∧
    extractCommand ⟨false, 32⟩ 0 (setFrame "SET" "k" "v" "EX" "4294968" []) =
      .ok (.set "k" "v" (some (704 * 1000000))) := by
  decide +kernel

end Deadlines

end Ember.Command
