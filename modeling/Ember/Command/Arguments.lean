import Ember.Command.Extraction

/-!
# Accounting for arguments

What the arguments of a request should say about the command that is made of them:
every argument occurs in it, texts as they stand and numerals by their value.  The
extraction keeps to that on requests that are well formed and refuses some others.
From the rest it drops arguments, takes a default for what is not a number, or
panics.
-/

namespace Ember.Command

open Ember.Base Ember.Database Ember.Resp

/-- The commands that take arguments. -/
def namesWithArguments : List String :=
  ["SET", "GET", "DELETE", "ECHO", "LPUSH", "RPUSH", "LRANGE", "EXPIRE"]

/-- The options of EXPIRE. -/
def expireOptions : List (Option String) :=
  [none, some "NX", some "XX", some "GT", some "LT"]

/-- The command accounts for all arguments of a request at time `now`.  A time to live
counts in the unit that the request has it in, with its sign. -/
def Accounts (now : Instant) (name : String) (args : List RespType) : Command → Prop
  | .echo msg => name = "ECHO" ∧ args = [.bulkString msg]
  | .get key => name = "GET" ∧ args = [.bulkString key]
  | .delete key => name = "DELETE" ∧ args = [.bulkString key]
  | .set key value none => name = "SET" ∧ args = [.bulkString key, .bulkString value]
  | .set key value (some deadline) => name = "SET" ∧ ∃ flag numeral n,
      args = [.bulkString key, .bulkString value, .bulkString flag, .bulkString numeral] ∧
        Signed 31 (utf8Bytes numeral) n ∧
        (toAsciiUppercase flag = "EX" ∧ (deadline : ℤ) = now + n * 1000 * 1000000 ∨
          toAsciiUppercase flag = "PX" ∧ (deadline : ℤ) = now + n * 1000000)
  | .lpush key values => name = "LPUSH" ∧ args = .bulkString key :: values.map .bulkString
  | .rpush key values => name = "RPUSH" ∧ args = .bulkString key :: values.map .bulkString
  | .lrange key start stop => name = "LRANGE" ∧ ∃ first last,
      args = [.bulkString key, .bulkString first, .bulkString last] ∧
        Signed 31 (utf8Bytes first) start.toInt ∧ Signed 31 (utf8Bytes last) stop.toInt
  | .expire key deadline option => name = "EXPIRE" ∧ ∃ numeral n,
      args = .bulkString key :: .bulkString numeral :: option.toList.map .bulkString ∧
        Signed 31 (utf8Bytes numeral) n ∧ (deadline : ℤ) = now + n * 1000000 ∧
          option ∈ expireOptions
  | _ => False

/-- The requests whose arguments can all be accounted for: there are neither too few
nor too many, all are texts, numbers are numerals, and times are not negative and
do not overflow. -/
def WellFormed (args : List RespType) : String → Prop
  | "ECHO" | "GET" | "DELETE" => ∃ text, args = [.bulkString text]
  | "SET" => ∃ key value, args = [.bulkString key, .bulkString value] ∨
      ∃ flag numeral n,
        args = [.bulkString key, .bulkString value, .bulkString flag, .bulkString numeral] ∧
          Signed 31 (utf8Bytes numeral) n ∧ 0 ≤ n ∧
            (toAsciiUppercase flag = "EX" ∧ n ≤ 2147483 ∨ toAsciiUppercase flag = "PX")
  | "LPUSH" | "RPUSH" => ∃ (key : String) (values : List String),
      args = .bulkString key :: values.map .bulkString
  | "LRANGE" => ∃ key first last i j,
      args = [.bulkString key, .bulkString first, .bulkString last] ∧
        Signed 31 (utf8Bytes first) i ∧ Signed 31 (utf8Bytes last) j
  | "EXPIRE" => ∃ key numeral n, ∃ option ∈ expireOptions,
      args = .bulkString key :: .bulkString numeral :: option.toList.map .bulkString ∧
        Signed 31 (utf8Bytes numeral) n ∧ 0 ≤ n
  | _ => False

/-- The arguments say how long a SET is to last. -/
def IsExpiry (flag expiresIn : RespType) : Prop :=
  ∃ unit numeral, flag = .bulkString unit ∧ expiresIn = .bulkString numeral ∧
    (toAsciiUppercase unit = "EX" ∨ toAsciiUppercase unit = "PX")

/-- The requests that are refused with an error. -/
def Refused (args : List RespType) : String → Prop
  | "SET" => args.length < 2 ∨ ∃ key value rest, args = key :: value :: rest ∧
      (¬(IsText key ∧ IsText value) ∨
        ∃ flag expiresIn more, rest = flag :: expiresIn :: more ∧ ¬IsExpiry flag expiresIn)
  | "LRANGE" => ∃ key first last rest, args = key :: first :: last :: rest ∧
      ¬(IsText key ∧ IsText first ∧ IsText last)
  | "EXPIRE" => ∃ key expiresIn rest, args = key :: expiresIn :: rest ∧
      (¬(IsText key ∧ IsText expiresIn) ∨
        ∃ option more, rest = option :: more ∧
          ¬∃ opt, option = .bulkString opt ∧ some opt ∈ expireOptions)
  | _ => ∃ first rest, args = first :: rest ∧ ¬IsText first

variable {target : Target} {now : Instant} {name : String} {args : List RespType}

/-! ## One text -/

theorem parseText_eq_ok_iff {command : String → Command} {message : String} {c : Command} :
    parseText args command message = .ok c ↔
      ∃ text rest, args = .bulkString text :: rest ∧ c = command text := by
  cases args with
  | nil =>
      apply iff_of_false
      · rintro ⟨⟩
      · rintro ⟨_, _, ⟨⟩, -⟩
  | cons first rest =>
      rw [parseText, argument_cons_zero, Outcome.ok_bind]
      cases first with
      | bulkString text =>
          constructor
          · rintro ⟨⟩
            exact ⟨text, rest, rfl, rfl⟩
          · rintro ⟨_, _, ⟨⟩, rfl⟩
            rfl
      | _ =>
          apply iff_of_false
          · rintro ⟨⟩
          · rintro ⟨_, _, ⟨⟩, -⟩

theorem parseText_error_iff {command : String → Command} {message : String} :
    (∃ e, parseText args command message = .error e) ↔
      ∃ first rest, args = first :: rest ∧ ¬IsText first := by
  cases args with
  | nil =>
      apply iff_of_false
      · rintro ⟨_, ⟨⟩⟩
      · rintro ⟨_, _, ⟨⟩, -⟩
  | cons first rest =>
      rw [parseText, argument_cons_zero, Outcome.ok_bind]
      cases first with
      | bulkString text =>
          apply iff_of_false
          · rintro ⟨_, ⟨⟩⟩
          · rintro ⟨_, _, ⟨⟩, other⟩
            exact other ⟨text, rfl⟩
      | _ =>
          apply iff_of_true ⟨message, rfl⟩
          refine ⟨_, rest, rfl, ?_⟩
          rintro ⟨_, ⟨⟩⟩

/-- The commands of a single text. -/
theorem parseText_accounted_iff {command : String → Command} {message : String}
    (single : ∀ text, Accounts now name args (command text) ↔ args = [.bulkString text]) :
    (∃ c, parseText args command message = .ok c ∧ Accounts now name args c) ↔
      ∃ text, args = [.bulkString text] := by
  constructor
  · rintro ⟨c, parsed, accounts⟩
    rcases parseText_eq_ok_iff.mp parsed with ⟨text, rest, -, rfl⟩
    exact ⟨text, (single text).mp accounts⟩
  · rintro ⟨text, rfl⟩
    exact ⟨command text, parseText_eq_ok_iff.mpr ⟨text, [], rfl, rfl⟩, (single text).mpr rfl⟩

theorem bulkStrings_map (values : List String) :
    bulkStrings (values.map .bulkString) = values := by
  induction values with
  | nil => rfl
  | cons value values ih => exact congrArg (value :: ·) ih

/-- The pushes, whose values must all be texts. -/
theorem parseText_push_accounted_iff {push : String → List String → Command} {message : String}
    (all : ∀ key values, Accounts now name args (push key values) ↔
      args = .bulkString key :: values.map .bulkString) :
    (∃ c, parseText args (fun key => push key (bulkStrings args.tail)) message = .ok c ∧
        Accounts now name args c) ↔
      ∃ (key : String) (values : List String),
        args = .bulkString key :: values.map .bulkString := by
  constructor
  · rintro ⟨c, parsed, accounts⟩
    rcases parseText_eq_ok_iff.mp parsed with ⟨key, rest, -, rfl⟩
    exact ⟨key, bulkStrings args.tail, (all _ _).mp accounts⟩
  · rintro ⟨key, values, rfl⟩
    refine ⟨push key values, ?_, (all key values).mpr rfl⟩
    rw [List.tail_cons, bulkStrings_map]
    rfl

/-! ## Ranges -/

theorem parseLrange_mixed {key first last : RespType}
    (mixed : ¬(IsText key ∧ IsText first ∧ IsText last)) (rest : List RespType) :
    parseLrange (key :: first :: last :: rest) =
      .error "LRANGE command requires an argument." := by
  simp only [parseLrange, argument_cons_zero, argument_cons_succ, Outcome.ok_bind]
  split
  next key first last => exact absurd ⟨⟨key, rfl⟩, ⟨first, rfl⟩, ⟨last, rfl⟩⟩ mixed
  next => rfl

theorem parseLrange_error_iff :
    (∃ e, parseLrange args = .error e) ↔ Refused args "LRANGE" := by
  rcases args with _ | ⟨key, _ | ⟨first, _ | ⟨last, rest⟩⟩⟩
  iterate 3 exact iff_of_false nofun nofun
  by_cases texts : IsText key ∧ IsText first ∧ IsText last
  · apply iff_of_false
    · rcases texts with ⟨⟨_, rfl⟩, ⟨_, rfl⟩, ⟨_, rfl⟩⟩
      nofun
    · rintro ⟨_, _, _, _, ⟨⟩, mixed⟩
      exact mixed texts
  · exact iff_of_true ⟨_, parseLrange_mixed texts rest⟩ ⟨key, first, last, rest, rfl, texts⟩

theorem parseLrange_accounted_iff :
    (∃ c, parseLrange args = .ok c ∧ Accounts now "LRANGE" args c) ↔
      WellFormed args "LRANGE" := by
  constructor
  · rintro ⟨c, -, accounts⟩
    cases c with
    | lrange key start stop =>
        rcases accounts with ⟨-, first, last, same, starts, stops⟩
        exact ⟨key, first, last, _, _, same, starts, stops⟩
    | set key value expiresAt => cases expiresAt <;> exact absurd accounts.1 (by decide)
    | _ => exact absurd accounts (by simp [Accounts])
  · rintro ⟨key, first, last, i, j, rfl, starts, stops⟩
    refine ⟨.lrange key (parseInt first) (parseInt last), rfl, rfl, first, last, rfl, ?_, ?_⟩
    · rwa [toInt_parseInt_of_signed starts]
    · rwa [toInt_parseInt_of_signed stops]

/-! ## Times to live -/

/-- A deadline is so many milliseconds away when they are the number that is counted,
and not negative. -/
theorem cast_deadlineAfter_eq_iff {millis : Int32} {k : ℤ} (small : k < 2 ^ 63) :
    (deadlineAfter now millis : ℤ) = now + k * 1000000 ↔ millis.toInt = k ∧ 0 ≤ k := by
  have lower := Int32.le_toInt millis
  have upper := Int32.toInt_lt millis
  rw [deadlineAfter, asU64]
  push_cast
  omega

theorem lt_of_signed {numeral : String} {n : ℤ} (number : Signed 31 (utf8Bytes numeral) n) :
    n < 2 ^ 31 := by
  rw [← toInt_parseInt_of_signed number]
  exact Int32.toInt_lt _

section

variable {flag numeral : String} {n : ℤ}

/-- Milliseconds are accounted for when they are not negative. -/
theorem deadlineAfter_parseInt_iff (number : Signed 31 (utf8Bytes numeral) n) :
    (deadlineAfter now (parseInt numeral) : ℤ) = now + n * 1000000 ↔ 0 ≤ n := by
  have bound := lt_of_signed number
  rw [cast_deadlineAfter_eq_iff (by omega), toInt_parseInt_of_signed number]
  exact and_iff_right rfl

/-- Seconds are accounted for when they also are milliseconds in 32 bits. -/
theorem parseSetExpiry_seconds_accounted_iff (seconds : toAsciiUppercase flag = "EX")
    (number : Signed 31 (utf8Bytes numeral) n) :
    (∃ deadline : Instant,
      parseSetExpiry target now (.bulkString flag) (.bulkString numeral) = .ok deadline ∧
        (deadline : ℤ) = now + n * 1000 * 1000000) ↔ 0 ≤ n ∧ n ≤ 2147483 := by
  have bound := lt_of_signed number
  have exact := @Target.mulI32_exact_iff String target (parseInt numeral) 1000
  have thousand : (1000 : Int32).toInt = 1000 := rfl
  rw [toInt_parseInt_of_signed number, thousand] at exact
  rw [parseSetExpiry, if_pos seconds]
  constructor
  · rintro ⟨deadline, parsed, away⟩
    rcases Outcome.bind_eq_ok_iff.mp parsed with ⟨millis, counted, ⟨⟩⟩
    rcases (cast_deadlineAfter_eq_iff (by omega)).mp away with ⟨product, nonneg⟩
    have fits := exact.mp ⟨millis, counted, product⟩
    omega
  · rintro ⟨nonneg, few⟩
    rcases exact.mpr (by omega) with ⟨millis, counted, product⟩
    refine ⟨deadlineAfter now millis, ?_, ?_⟩
    · rw [counted]
      rfl
    · exact (cast_deadlineAfter_eq_iff (by omega)).mpr ⟨product, by omega⟩

end

/-! ## SET -/

theorem parseSetExpiry_error_iff {flag expiresIn : RespType} :
    (∃ e, parseSetExpiry target now flag expiresIn = .error e) ↔ ¬IsExpiry flag expiresIn := by
  unfold parseSetExpiry
  split
  next flag numeral =>
    by_cases seconds : toAsciiUppercase flag = "EX"
    · rw [if_pos seconds]
      apply iff_of_false
      · rintro ⟨e, refused⟩
        rcases Outcome.bind_eq_error_iff.mp refused with overflow | ⟨millis, -, refused⟩
        · exact target.mulI32_failsWith (fun _ => False) _ _ e overflow
        · cases refused
      · exact not_not_intro ⟨flag, numeral, rfl, rfl, Or.inl seconds⟩
    · rw [if_neg seconds]
      by_cases millis : toAsciiUppercase flag = "PX"
      · rw [if_pos millis]
        exact iff_of_false nofun (not_not_intro ⟨flag, numeral, rfl, rfl, Or.inr millis⟩)
      · rw [if_neg millis]
        apply iff_of_true ⟨_, rfl⟩
        rintro ⟨_, _, ⟨⟩, ⟨⟩, unit⟩
        exact unit.elim seconds millis
  next mixed =>
    apply iff_of_true ⟨_, rfl⟩
    rintro ⟨flag, numeral, rfl, rfl, -⟩
    exact mixed flag numeral rfl rfl

theorem parseSet_error_iff :
    (∃ e, parseSet target now args = .error e) ↔ Refused args "SET" := by
  rcases args with _ | ⟨key, _ | ⟨value, rest⟩⟩
  · exact iff_of_true ⟨_, rfl⟩ (Or.inl Nat.two_pos)
  · exact iff_of_true ⟨_, rfl⟩ (Or.inl Nat.one_lt_two)
  · by_cases texts : IsText key ∧ IsText value
    · have two : ¬(key :: value :: rest).length < 2 := Nat.not_lt_of_le (Nat.le_add_left 2 _)
      -- Once key and value are texts, only the pair behind them can be refused.
      have refused : Refused (key :: value :: rest) "SET" ↔ ∃ flag expiresIn more,
          rest = flag :: expiresIn :: more ∧ ¬IsExpiry flag expiresIn := by
        constructor
        · rintro (few | ⟨_, _, _, ⟨⟩, mixed | other⟩)
          · exact absurd few two
          · exact absurd texts mixed
          · exact other
        · intro other
          exact Or.inr ⟨key, value, rest, rfl, Or.inr other⟩
      rw [refused]
      rcases texts with ⟨⟨key, rfl⟩, ⟨value, rfl⟩⟩
      rw [parseSet_texts]
      split
      next flag expiresIn more =>
        have expiry := @parseSetExpiry_error_iff target now flag expiresIn
        constructor
        · rintro ⟨e, refused⟩
          rcases Outcome.bind_eq_error_iff.mp refused with refused | ⟨deadline, -, refused⟩
          · exact ⟨flag, expiresIn, more, rfl, expiry.mp ⟨e, refused⟩⟩
          · cases refused
        · rintro ⟨_, _, _, ⟨⟩, other⟩
          rcases expiry.mpr other with ⟨e, refused⟩
          exact ⟨e, Outcome.bind_eq_error_iff.mpr (Or.inl refused)⟩
      next short =>
        apply iff_of_false
        · nofun
        · rintro ⟨flag, expiresIn, more, rfl, -⟩
          exact short flag expiresIn more rfl
    · exact iff_of_true ⟨_, parseSet_mixed texts rest⟩
        (Or.inr ⟨key, value, rest, rfl, Or.inl texts⟩)

theorem parseSet_accounted_iff :
    (∃ c, parseSet target now args = .ok c ∧ Accounts now "SET" args c) ↔
      WellFormed args "SET" := by
  constructor
  · rintro ⟨c, parsed, accounts⟩
    cases c with
    | set key value expiresAt =>
        cases expiresAt with
        | none => exact ⟨key, value, Or.inl accounts.2⟩
        | some deadline =>
            rcases accounts with ⟨-, flag, numeral, n, rfl, number, unit⟩
            rw [parseSet_texts] at parsed
            rcases Outcome.bind_eq_ok_iff.mp parsed with ⟨_, parsed, ⟨⟩⟩
            refine ⟨key, value, Or.inr ⟨flag, numeral, n, rfl, number, ?_⟩⟩
            rcases unit with ⟨seconds, away⟩ | ⟨millis, away⟩
            · rcases (parseSetExpiry_seconds_accounted_iff seconds number).mp ⟨_, parsed, away⟩ with
                ⟨nonneg, few⟩
              exact ⟨nonneg, Or.inl ⟨seconds, few⟩⟩
            · rw [parseSetExpiry_of_millis millis, Outcome.ok.injEq] at parsed
              rw [← parsed] at away
              exact ⟨(deadlineAfter_parseInt_iff number).mp away, Or.inr millis⟩
    | _ => exact absurd accounts (by simp [Accounts])
  · rintro ⟨key, value, rfl | ⟨flag, numeral, n, rfl, number, nonneg, ⟨seconds, few⟩ | millis⟩⟩
    · exact ⟨.set key value none, rfl, rfl, rfl⟩
    · rcases (parseSetExpiry_seconds_accounted_iff seconds number).mpr ⟨nonneg, few⟩ with
        ⟨deadline, parsed, away⟩
      refine ⟨.set key value (some deadline), ?_, rfl, flag, numeral, n, rfl, number,
        Or.inl ⟨seconds, away⟩⟩
      rw [parseSet_texts]
      exact Outcome.bind_eq_ok_iff.mpr ⟨deadline, parsed, rfl⟩
    · refine ⟨.set key value (some (deadlineAfter now (parseInt numeral))), ?_, rfl, flag, numeral,
        n, rfl, number, Or.inr ⟨millis, (deadlineAfter_parseInt_iff number).mpr nonneg⟩⟩
      rw [parseSet_texts]
      exact Outcome.bind_eq_ok_iff.mpr ⟨_, parseSetExpiry_of_millis millis, rfl⟩

/-! ## EXPIRE -/

section

variable {key expiresIn : RespType} {rest : List RespType}

/-- Only the third argument is looked at. -/
theorem parseExpireOption_cons (option : RespType) :
    parseExpireOption (key :: expiresIn :: option :: rest) =
      match option with
      | .bulkString opt =>
          if opt = "NX" ∨ opt = "XX" ∨ opt = "GT" ∨ opt = "LT" then
            .ok (some opt)
          else
            .error "Invalid option in expire command. Only NX, XX, GT, LT are supported."
      | _ => .error "Invalid option format in expire command. Expected a bulk string." := by
  have three : rest.length + 3 > 2 := Nat.le_add_left 3 _
  simp only [parseExpireOption, List.length_cons, if_pos three, argument_cons_zero,
    argument_cons_succ, Outcome.ok_bind]
  rfl

theorem some_mem_expireOptions {opt : String} :
    some opt ∈ expireOptions ↔ opt = "NX" ∨ opt = "XX" ∨ opt = "GT" ∨ opt = "LT" := by
  simp [expireOptions]

theorem parseExpireOption_known {opt : String} (known : some opt ∈ expireOptions) :
    parseExpireOption (key :: expiresIn :: .bulkString opt :: rest) = .ok (some opt) := by
  rw [parseExpireOption_cons]
  exact if_pos (some_mem_expireOptions.mp known)

theorem parseExpireOption_unknown {option : RespType}
    (unknown : ¬∃ opt, option = .bulkString opt ∧ some opt ∈ expireOptions) :
    ∃ e, parseExpireOption (key :: expiresIn :: option :: rest) = .error e := by
  rw [parseExpireOption_cons]
  split
  next opt =>
    rw [if_neg fun known => unknown ⟨opt, rfl, some_mem_expireOptions.mpr known⟩]
    exact ⟨_, rfl⟩
  next => exact ⟨_, rfl⟩

end

/-- The texts of an EXPIRE decide about all but its option. -/
theorem parseExpire_texts (key numeral : String) (rest : List RespType) :
    parseExpire now (.bulkString key :: .bulkString numeral :: rest) = (do
      let option ← parseExpireOption (.bulkString key :: .bulkString numeral :: rest)
      return .expire key (deadlineAfter now (parseInt numeral)) option) :=
  rfl

theorem parseExpire_mixed {key expiresIn : RespType} (mixed : ¬(IsText key ∧ IsText expiresIn))
    (rest : List RespType) :
    parseExpire now (key :: expiresIn :: rest) =
      .error "EXPIRE command requires an argument." := by
  simp only [parseExpire, argument_cons_zero, argument_cons_succ, Outcome.ok_bind]
  split
  next key numeral => exact absurd ⟨⟨key, rfl⟩, ⟨numeral, rfl⟩⟩ mixed
  next => rfl

theorem parseExpire_error_iff :
    (∃ e, parseExpire now args = .error e) ↔ Refused args "EXPIRE" := by
  rcases args with _ | ⟨key, _ | ⟨expiresIn, rest⟩⟩
  · exact iff_of_false nofun nofun
  · exact iff_of_false nofun nofun
  · by_cases texts : IsText key ∧ IsText expiresIn
    · rcases texts with ⟨⟨key, rfl⟩, ⟨numeral, rfl⟩⟩
      rw [parseExpire_texts]
      constructor
      · rintro ⟨e, refused⟩
        rcases Outcome.bind_eq_error_iff.mp refused with refused | ⟨option, -, refused⟩
        · cases rest with
          | nil => cases refused
          | cons option more =>
              refine ⟨_, _, _, rfl, Or.inr ⟨option, more, rfl, ?_⟩⟩
              rintro ⟨opt, rfl, known⟩
              rw [parseExpireOption_known known] at refused
              cases refused
        · cases refused
      · rintro ⟨_, _, _, ⟨⟩, mixed | ⟨option, more, rfl, unknown⟩⟩
        · exact absurd ⟨⟨key, rfl⟩, ⟨numeral, rfl⟩⟩ mixed
        · rcases parseExpireOption_unknown unknown with ⟨e, refused⟩
          exact ⟨e, Outcome.bind_eq_error_iff.mpr (Or.inl refused)⟩
    · exact iff_of_true ⟨_, parseExpire_mixed texts rest⟩
        ⟨key, expiresIn, rest, rfl, Or.inl texts⟩

theorem parseExpire_accounted_iff :
    (∃ c, parseExpire now args = .ok c ∧ Accounts now "EXPIRE" args c) ↔
      WellFormed args "EXPIRE" := by
  constructor
  · rintro ⟨c, parsed, accounts⟩
    cases c with
    | expire key deadline option =>
        rcases accounts with ⟨-, numeral, n, rfl, number, away, known⟩
        rw [parseExpire_texts] at parsed
        rcases Outcome.bind_eq_ok_iff.mp parsed with ⟨_, -, made⟩
        rw [Outcome.pure_eq_ok, Outcome.ok.injEq, Command.expire.injEq] at made
        rcases made with ⟨-, rfl, -⟩
        exact ⟨key, numeral, n, option, known, rfl, number,
          (deadlineAfter_parseInt_iff number).mp away⟩
    | set key value expiresAt => cases expiresAt <;> exact absurd accounts.1 (by decide)
    | _ => exact absurd accounts (by simp [Accounts])
  · rintro ⟨key, numeral, n, option, known, rfl, number, nonneg⟩
    refine ⟨.expire key (deadlineAfter now (parseInt numeral)) option, ?_, rfl, numeral, n, rfl,
      number, (deadlineAfter_parseInt_iff number).mpr nonneg, known⟩
    rw [parseExpire_texts]
    apply Outcome.bind_eq_ok_iff.mpr
    refine ⟨option, ?_, rfl⟩
    cases option with
    | none => rfl
    | some opt => exact parseExpireOption_known known

/-! ## All commands -/

theorem parseCommand_accounted_iff (listed : name ∈ namesWithArguments) :
    (∃ c, parseCommand target now name args = .ok c ∧ Accounts now name args c) ↔
      WellFormed args name := by
  simp only [namesWithArguments, List.mem_cons, List.not_mem_nil, or_false] at listed
  rcases listed with rfl | rfl | rfl | rfl | rfl | rfl | rfl | rfl
  · exact parseSet_accounted_iff
  · exact parseText_accounted_iff fun _ => and_iff_right rfl
  · exact parseText_accounted_iff fun _ => and_iff_right rfl
  · exact parseText_accounted_iff fun _ => and_iff_right rfl
  · exact parseText_push_accounted_iff fun _ _ => and_iff_right rfl
  · exact parseText_push_accounted_iff fun _ _ => and_iff_right rfl
  · exact parseLrange_accounted_iff
  · exact parseExpire_accounted_iff

theorem parseCommand_error_iff (listed : name ∈ namesWithArguments) :
    (∃ e, parseCommand target now name args = .error e) ↔ Refused args name := by
  simp only [namesWithArguments, List.mem_cons, List.not_mem_nil, or_false] at listed
  rcases listed with rfl | rfl | rfl | rfl | rfl | rfl | rfl | rfl
  · exact parseSet_error_iff
  · exact parseText_error_iff
  · exact parseText_error_iff
  · exact parseText_error_iff
  · exact parseText_error_iff
  · exact parseText_error_iff
  · exact parseLrange_error_iff
  · exact parseExpire_error_iff

/-- The commands that are made of arguments. -/
def hasArguments : Command → Bool
  | .echo _ | .get _ | .delete _ | .set _ _ _ | .lpush _ _ | .rpush _ _ | .lrange _ _ _
  | .expire _ _ _ => true
  | _ => false

theorem mem_namesWithArguments {c : Command} (made : c.hasArguments = true) :
    parseCommand target now name args = .ok c → name ∈ namesWithArguments := by
  fun_cases parseCommand target now name args with
  -- the commands without arguments, among them COMMAND, which is taken for a PING
  | case1 | case10 | case11 | case12 | case13 | case14 =>
      rintro ⟨⟩
      cases made
  | case15 => rintro ⟨⟩
  | _ => exact fun _ => by decide

/-- A command with arguments is made of a request that names it.  Such a request either
gives a command that accounts for all arguments or is refused, when it is well formed
or one of those that are refused, and only then. -/
theorem extractCommand_accounts_iff (target : Target) (now : Instant) :
    (∀ items c, extractCommand target now (.array items) = .ok c → c.hasArguments = true →
      ∃ name args, items = .bulkString name :: args ∧
        toAsciiUppercase name ∈ namesWithArguments) ∧
    ∀ name args, toAsciiUppercase name ∈ namesWithArguments →
      let result := extractCommand target now (.array (.bulkString name :: args))
      ((∃ c, result = .ok c ∧ Accounts now (toAsciiUppercase name) args c) ∨
          (∃ e, result = .error e) ↔
        WellFormed args (toAsciiUppercase name) ∨ Refused args (toAsciiUppercase name)) := by
  constructor
  · intro items c extracted made
    rw [extractCommand.eq_def] at extracted
    split at extracted
    next name args same =>
      cases same
      exact ⟨name, args, rfl, mem_namesWithArguments made extracted⟩
    next => cases extracted
  · intro name args listed
    exact or_congr (parseCommand_accounted_iff listed) (parseCommand_error_iff listed)

/-- A SET for two seconds accounts for all its arguments. -/
theorem extractCommand_accounts_iff_seconds :
    let args := [.bulkString "k", .bulkString "v", .bulkString "ex", .bulkString "2"]
    let result := extractCommand ⟨true, 32⟩ 5 (.array (.bulkString "set" :: args))
    (∃ name rest, .bulkString "set" :: args = .bulkString name :: rest ∧
      toAsciiUppercase name ∈ namesWithArguments) ∧
    ((∃ c, result = .ok c ∧ Accounts 5 "SET" args c) ∨ ∃ e, result = .error e) := by
  have law := extractCommand_accounts_iff ⟨true, 32⟩ 5
  have upper : toAsciiUppercase "set" = "SET" := by decide
  have number : Signed 31 (utf8Bytes "2") 2 := signed_iff.mpr ⟨"2", rfl, by decide +kernel⟩
  constructor
  · exact law.1 _ (.set "k" "v" (some 2000000005)) (by decide +kernel) rfl
  · have sound := law.2 "set" [.bulkString "k", .bulkString "v", .bulkString "ex", .bulkString "2"]
    rw [upper] at sound
    apply (sound (by decide)).mpr
    exact Or.inl ⟨"k", "v", Or.inr ⟨"ex", "2", 2, rfl, number, by decide, Or.inl (by decide)⟩⟩

/-- The lone third argument of a SET is dropped, and so are an integer that is pushed and
a second key.  What is no number counts as zero, and a key that is missing panics. -/
theorem extractCommand_ignores :
    (extractCommand ⟨true, 32⟩ 5 (.array [.bulkString "SET", .bulkString "k", .bulkString "v",
        .bulkString "NX"]) = .ok (.set "k" "v" none) ∧
      ¬Accounts 5 "SET" [.bulkString "k", .bulkString "v", .bulkString "NX"]
        (.set "k" "v" none)) ∧
    extractCommand ⟨true, 32⟩ 5 (.array [.bulkString "LPUSH", .bulkString "k", .integer 1,
      .bulkString "a"]) = .ok (.lpush "k" ["a"]) ∧
    extractCommand ⟨true, 32⟩ 5 (.array [.bulkString "DELETE", .bulkString "k",
      .bulkString "l"]) = .ok (.delete "k") ∧
    extractCommand ⟨true, 32⟩ 5 (.array [.bulkString "SET", .bulkString "k", .bulkString "v",
      .bulkString "EX", .bulkString "1h"]) = .ok (.set "k" "v" (some 5)) ∧
    extractCommand ⟨true, 32⟩ 5 (.array [.bulkString "GET"]) = .panic := by
  refine ⟨⟨?_, nofun⟩, ?_⟩
  · decide +kernel
  · decide +kernel

end Ember.Command
