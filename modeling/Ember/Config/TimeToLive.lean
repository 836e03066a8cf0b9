import Ember.Command.ExpireOptions
import Ember.Command.Extraction
import Ember.Command.Replay
import Ember.Config.Client

/-!
# Times to live

SET and EXPIRE give a key a number of units of time to live.  The number is a signed
integer that is cast to an unsigned one, the unit of EXPIRE is the millisecond, and
the deadline is computed when the request is parsed and not when it takes effect.
So negative times reach far into the future, EXPIRE does not say what the seconds
of SET say, and the time that a request spends in the queue of a transaction counts.
-/

namespace Ember

open Ember.Base Ember.Database Ember.Resp Dispatcher

/-- The requests that give a key a time to live, with the names and flags as they
are spelled: SET with a number of seconds or of milliseconds, and EXPIRE. -/
inductive TtlRequest where
  | seconds (name flag value : String)
  | millis (name flag value : String)
  | expire (name : String)

namespace TtlRequest

/-- Names and flags are those of the request, in any case. -/
def Spelled : TtlRequest → Prop
  | seconds name flag _ => toAsciiUppercase name = "SET" ∧ toAsciiUppercase flag = "EX"
  | millis name flag _ => toAsciiUppercase name = "SET" ∧ toAsciiUppercase flag = "PX"
  | expire name => toAsciiUppercase name = "EXPIRE"

/-- The frame of a request. -/
def frame (key numeral : String) : TtlRequest → RespType
  | seconds name flag value | millis name flag value =>
      Command.setFrame name key value flag numeral []
  | expire name => .array [.bulkString name, .bulkString key, .bulkString numeral]

/-- The command of a request whose deadline is known. -/
def command (key : String) (deadline : Instant) : TtlRequest → Command
  | seconds _ _ value | millis _ _ value => .set key value (some deadline)
  | expire _ => .expire key deadline none

/-- The number of milliseconds that the request counts. -/
def milliseconds (target : Target) (n : Int32) : TtlRequest → Outcome String Int32
  | seconds _ _ _ => target.mulI32 n 1000
  | millis _ _ _ | expire _ => .ok n

theorem not_controls (request : TtlRequest) (key : String) (deadline : Instant) :
    ¬(request.command key deadline).Controls := by
  cases request <;> exact id

theorem extractCommand_frame {target : Target} {now : Instant} {request : TtlRequest}
    (spelled : request.Spelled) (key numeral : String) :
    Command.extractCommand target now (request.frame key numeral) = (do
      let millis ← request.milliseconds target (Command.parseInt numeral)
      return request.command key (Command.deadlineAfter now millis)) := by
  cases request with
  | seconds name flag value =>
      rw [frame, Command.extractCommand_setFrame spelled.1, Command.parseSetExpiry,
        if_pos spelled.2]
      exact bind_assoc _ _ _
  | millis name flag value =>
      rw [frame, Command.extractCommand_setFrame spelled.1,
        Command.parseSetExpiry_of_millis spelled.2, milliseconds, Outcome.ok_bind,
        Outcome.ok_bind, command]
  | expire name =>
      have named : toAsciiUppercase name = "EXPIRE" := spelled
      rw [frame, Command.extractCommand, named]
      rfl

end TtlRequest

/-! ## Requests of a client outside a transaction -/

section

variable {target : Target} {now : Instant} {session : Session}

/-- A plain command takes effect at the time it is sent. -/
theorem serve_plain (outside : session.client.inTransaction = false) {resp : RespType}
    {cmd : Command} (extracted : Command.extractCommand target now resp = .ok cmd)
    (plain : ¬cmd.Controls) :
    Client.serve target (fun _ => now) resp session =
      ((effect target now session.db cmd).1,
        ⟨session.client, (effect target now session.db cmd).2, session.tick + 2⟩) := by
  have dispatched := @dispatch_of_outside target (fun _ => now)
    { session with tick := session.tick + 1 } outside 2 cmd
  rw [executeCommand_plain target _ plain] at dispatched
  rw [Client.serve, extracted]
  dsimp only
  rw [dispatched]
  rfl

theorem serve_frame_ok (outside : session.client.inTransaction = false) {request : TtlRequest}
    (spelled : request.Spelled) {key numeral : String} {millis : Int32}
    (counted : request.milliseconds target (Command.parseInt numeral) = .ok millis) :
    let cmd := request.command key (Command.deadlineAfter now millis)
    Client.serve target (fun _ => now) (request.frame key numeral) session =
      ((effect target now session.db cmd).1,
        ⟨session.client, (effect target now session.db cmd).2, session.tick + 2⟩) := by
  intro cmd
  apply serve_plain outside
  · rw [TtlRequest.extractCommand_frame spelled, counted]
    rfl
  · exact request.not_controls key _

theorem serve_frame_panic {request : TtlRequest} (spelled : request.Spelled) {key numeral : String}
    (overflow : request.milliseconds target (Command.parseInt numeral) = .panic) :
    Client.serve target (fun _ => now) (request.frame key numeral) session = (.panic, session) := by
  rw [Client.serve, TtlRequest.extractCommand_frame spelled, overflow]
  rfl

end

/-! ## Negative times -/

/-- No reader after `now` finds the key, whatever the readers and the cleanup cycle
have removed until then. -/
def AbsentAfter (now : Instant) (key : String) (db : DB) : Prop :=
  ∀ later, now < later → ∀ db', DB.Reaped later db db' → db'.visible later key = none

/-- The request is refused and changes nothing, or the key is gone. -/
def NotProlonged (now : Instant) (key : String) (before : DB)
    (result : Outcome String RespType × DB) : Prop :=
  (∃ e, result.1 = .error e ∧ result.2 = before) ∨ AbsentAfter now key result.2

/-- The negative times with which a request does not prolong the life of a key: none
in milliseconds, those in seconds that wrap around to zero or, where overflows are
checked, panic while there is nothing to see under the key, and all times for
EXPIRE of a key that does not exist. -/
def TtlRequest.SparesNegative (target : Target) (now : Instant) (key : String) (n : ℤ) (db : DB) :
    TtlRequest → Prop
  | seconds _ _ _ =>
      if target.overflowChecks then n * 1000 < -2 ^ 31 ∧ AbsentAfter now key db
      else (2 : ℤ) ^ 29 ∣ n
  | millis _ _ _ => False
  | expire _ => db.data.lookup key = none

section

variable {target : Target} {now : Instant} {key : String} {db : DB}

/-- A key with a value and a deadline is gone when the deadline is not in the
future. -/
theorem absentAfter_iff {value : RedisObject} {deadline : Instant}
    (present : db.data.lookup key = some value)
    (scheduled : db.expirations.lookup key = some deadline) :
    AbsentAfter now key db ↔ deadline ≤ now := by
  constructor
  · intro absent
    have next := absent (now + 1) (Nat.lt_succ_self now) db (.refl _ db)
    by_contra future
    have live : ¬db.expired (now + 1) key = true := by
      intro passed
      rcases DB.expired_eq_true_iff.mp passed with ⟨deadline', found, before⟩
      cases scheduled.symm.trans found
      exact future (Nat.le_of_lt_succ before)
    cases next.symm.trans (DB.visible_eq_some_iff.mpr ⟨live, present⟩)
  · intro past later after db' reaped
    have passed : db.expired later key = true :=
      DB.expired_eq_true_iff.mpr ⟨deadline, scheduled, past.trans_lt after⟩
    rw [reaped.visible_eq le_rfl, DB.visible, if_pos passed]

/-- A command that gives the key a deadline leaves the key in both maps. -/
theorem lookup_effect_command (request : TtlRequest) (deadline : Instant)
    (accepted : Accepted target now db (request.command key deadline)) :
    let result := effect target now db (request.command key deadline)
    (∃ reply, result.1 = .ok reply) ∧ (∃ value, result.2.data.lookup key = some value) ∧
      result.2.expirations.lookup key = some deadline := by
  refine ⟨(effect_eq_ok_iff target (request.not_controls key deadline) now db).mpr accepted, ?_⟩
  cases request with
  | seconds name flag value | millis name flag value =>
      rw [TtlRequest.command, effect_set, DB.lookup_bindKey_data, DB.lookup_bindKey_expirations,
        if_pos rfl, if_pos rfl]
      exact ⟨⟨_, rfl⟩, rfl⟩
  | expire name =>
      rw [TtlRequest.command, data_effect_expire, lookup_effect_expire accepted.1]
      exact ⟨Option.isSome_iff_exists.mp accepted.1, rfl⟩

theorem deadlineAfter_le_iff {millis : Int32} :
    Command.deadlineAfter now millis ≤ now ↔ millis.toInt = 0 := by
  have zero := @asU64_eq_iff millis 0 (by decide)
  rw [Nat.cast_zero] at zero
  rw [← zero, Command.deadlineAfter]
  constructor
  · intro past
    have none := Nat.le_zero.mp (Nat.le_of_add_le_add_left (past.trans_eq (Nat.add_zero now).symm))
    exact (Nat.mul_eq_zero.mp none).resolve_right (by decide)
  · intro none
    rw [none, Nat.zero_mul, Nat.add_zero]

/-- An accepted request leaves the key gone when it counts no time at all. -/
theorem notProlonged_iff_of_accepted {request : TtlRequest} {millis : Int32}
    (accepted : Accepted target now db
      (request.command key (Command.deadlineAfter now millis))) :
    NotProlonged now key db
        (effect target now db (request.command key (Command.deadlineAfter now millis))) ↔
      millis.toInt = 0 := by
  rcases lookup_effect_command request _ accepted with
    ⟨⟨reply, replied⟩, ⟨value, present⟩, scheduled⟩
  rw [← @deadlineAfter_le_iff now millis, ← absentAfter_iff present scheduled]
  apply or_iff_right
  rintro ⟨e, refused, -⟩
  cases replied.symm.trans refused

theorem notProlonged_serve_iff {session : Session}
    (outside : session.client.inTransaction = false) {request : TtlRequest}
    (spelled : request.Spelled) {numeral : String} {millis : Int32}
    (counted : request.milliseconds target (Command.parseInt numeral) = .ok millis)
    (accepted : Accepted target now session.db
      (request.command key (Command.deadlineAfter now millis))) :
    let result := Client.serve target (fun _ => now) (request.frame key numeral) session
    NotProlonged now key session.db (result.1, result.2.db) ↔ millis.toInt = 0 := by
  rw [serve_frame_ok outside spelled counted]
  exact notProlonged_iff_of_accepted accepted

/-- The seconds that are a number of milliseconds in 32 bits, checked or wrapped. -/
theorem mulI32_thousand_cases (target : Target) (a : Int32) :
    (-2 ^ 31 ≤ a.toInt * 1000 ∧ a.toInt * 1000 < 2 ^ 31 ∧
        ∃ millis, target.mulI32 a 1000 = (.ok millis : Outcome String Int32) ∧
          millis.toInt = a.toInt * 1000) ∨
      ¬(-2 ^ 31 ≤ a.toInt * 1000 ∧ a.toInt * 1000 < 2 ^ 31) ∧
        (if target.overflowChecks then target.mulI32 a 1000 = (.panic : Outcome String Int32)
          else ∃ millis, target.mulI32 a 1000 = (.ok millis : Outcome String Int32) ∧
            (millis.toInt = 0 ↔ (2 : ℤ) ^ 29 ∣ a.toInt)) := by
  have thousand : (1000 : Int32).toInt = 1000 := rfl
  by_cases fits : -2 ^ 31 ≤ a.toInt * 1000 ∧ a.toInt * 1000 < 2 ^ 31
  · left
    have exact := (@Target.mulI32_exact_iff String target a 1000).mpr fits
    rw [thousand] at exact
    exact ⟨fits.1, fits.2, exact⟩
  · right
    refine ⟨fits, ?_⟩
    split
    next checks => exact target.mulI32_eq_panic_iff.mpr ⟨checks, fits⟩
    next wraps =>
      refine ⟨a * 1000, ?_, ?_⟩
      · rw [Target.mulI32, Target.wrapI32, thousand, if_neg fits, if_neg wraps]
      · rw [Int32.toInt_mul, thousand, ← Int.dvd_iff_bmod_eq_zero]
        omega

section

variable {session : Session} {name flag value numeral : String} {n : ℤ}

theorem notProlonged_seconds_iff (outside : session.client.inTransaction = false)
    (spelled : (TtlRequest.seconds name flag value).Spelled)
    (read : (Command.parseInt numeral).toInt = n) (negative : n < 0) :
    let request := TtlRequest.seconds name flag value
    let result := Client.serve target (fun _ => now) (request.frame key numeral) session
    NotProlonged now key session.db (result.1, result.2.db) ↔
      if target.overflowChecks then n * 1000 < -2 ^ 31 ∧ AbsentAfter now key session.db
      else (2 : ℤ) ^ 29 ∣ n := by
  intro request result
  rcases mulI32_thousand_cases target (Command.parseInt numeral) with
    ⟨lower, upper, millis, counted, product⟩ | ⟨overflow, wrapped⟩
  · -- The product is exact and negative, and too small to wrap around to zero.
    apply (notProlonged_serve_iff outside spelled counted trivial).trans
    apply iff_of_false
    · omega
    · split
      · omega
      · omega
  · split
    next checks =>
      rw [if_pos checks] at wrapped
      have served : result = (.panic, session) := serve_frame_panic spelled wrapped
      rw [served, NotProlonged, or_iff_right nofun, and_iff_right]
      omega
    next wraps =>
      rw [if_neg wraps] at wrapped
      rcases wrapped with ⟨millis, counted, zero⟩
      apply (notProlonged_serve_iff outside spelled counted trivial).trans
      rw [zero, read]

/-- EXPIRE refuses a key that does not exist, and counts no time only for zero. -/
theorem notProlonged_expire_iff (outside : session.client.inTransaction = false)
    (spelled : (TtlRequest.expire name).Spelled)
    (nonzero : (Command.parseInt numeral).toInt ≠ 0) :
    let request := TtlRequest.expire name
    let result := Client.serve target (fun _ => now) (request.frame key numeral) session
    NotProlonged now key session.db (result.1, result.2.db) ↔
      session.db.data.lookup key = none := by
  intro request result
  by_cases present : (session.db.data.lookup key).isSome
  · have accepted : Accepted target now session.db (.expire key
        (Command.deadlineAfter now (Command.parseInt numeral)) none) :=
      ⟨present, List.mem_cons_self⟩
    apply (notProlonged_serve_iff outside spelled rfl accepted).trans
    apply iff_of_false nonzero
    intro absent
    rw [absent] at present
    cases present
  · have served := @serve_frame_ok target now session outside request spelled key numeral
      (Command.parseInt numeral) rfl
    apply iff_of_true _ (Option.not_isSome_iff_eq_none.mp present)
    left
    refine ⟨"Failed to execute command. E: Entry not found.", ?_⟩
    rw [show result = _ from served, TtlRequest.command, effect_expire, DB.exec_expire,
      if_neg present]
    exact ⟨rfl, rfl⟩

end

end

/-- Negative times to live.  A SET with a negative number of milliseconds always
prolongs the life of its key, one with a negative number of seconds unless the number
of milliseconds overflows to zero or panics, and EXPIRE with a negative time prolongs
the life of every key that exists. -/
theorem negative_ttl_iff (target : Target) (now : Instant) {session : Session}
    (outside : session.client.inTransaction = false) {request : TtlRequest}
    (spelled : request.Spelled) (key : String) {numeral : String} {n : ℤ}
    (number : Signed 31 (utf8Bytes numeral) n) (negative : n < 0) :
    let result := Client.serve target (fun _ => now) (request.frame key numeral) session
    NotProlonged now key session.db (result.1, result.2.db) ↔
      request.SparesNegative target now key n session.db := by
  intro result
  have read := Command.toInt_parseInt_of_signed number
  have nonzero : (Command.parseInt numeral).toInt ≠ 0 := by
    rw [read]
    exact negative.ne
  cases request with
  | seconds name flag value => exact notProlonged_seconds_iff outside spelled read negative
  | millis name flag value =>
      apply (notProlonged_serve_iff outside spelled rfl trivial).trans
      exact iff_of_false nonzero id
  | expire name => exact notProlonged_expire_iff outside spelled nonzero

/-- EXPIRE of a missing key is refused. -/
theorem negative_ttl_iff_missing :
    let session : Session := ⟨Client.new, DB.newInMemory, 0⟩
    let result := Client.serve ⟨true, 32⟩ (fun _ => 5)
      ((TtlRequest.expire "expire").frame "k" "-1") session
    Signed 31 (utf8Bytes "-1") (-1) ∧ NotProlonged 5 "k" session.db (result.1, result.2.db) := by
  intro session result
  have number : Signed 31 (utf8Bytes "-1") (-1) := signed_iff.mpr ⟨"-1", rfl, by decide +kernel⟩
  have spelled : (TtlRequest.expire "expire").Spelled := by
    unfold TtlRequest.Spelled
    decide
  refine ⟨number, ?_⟩
  exact (@negative_ttl_iff ⟨true, 32⟩ 5 session rfl _ spelled "k" _ _ number (by decide)).mpr rfl

/-- `SET k v PX -1` is accepted, and the key is still there a long time later; so is
a key whose life `EXPIRE k -1` should end. -/
theorem negative_ttl_prolongs :
    let session : Session := ⟨Client.new, DB.newInMemory, 0⟩
    let stored : Session :=
      ⟨Client.new, ⟨FiniteMap.put ∅ "k" (some (.string "v")), FiniteMap.put ∅ "k" (some 7)⟩, 0⟩
    let set := Client.serve ⟨true, 32⟩ (fun _ => 5)
      ((TtlRequest.millis "SET" "PX" "v").frame "k" "-1") session
    let expire := Client.serve ⟨true, 32⟩ (fun _ => 5)
      ((TtlRequest.expire "EXPIRE").frame "k" "-1") stored
    set.1 = .ok (.simpleString "Ok") ∧
      set.2.db.visible (5 + 10 ^ 18) "k" = some (.string "v") ∧
      expire.1 = .ok (.simpleString "Ok") ∧ stored.db.visible (5 + 10 ^ 18) "k" = none ∧
      expire.2.db.visible (5 + 10 ^ 18) "k" = some (.string "v") := by
  intro session stored set expire
  refine ⟨rfl, ?_, rfl, ?_, ?_⟩
  · decide +kernel
  · decide +kernel
  · decide +kernel

/-! ## Seconds and milliseconds -/

section

variable {target : Target} {now : Instant}

/-- A time within the range of an exact conversion. -/
def TtlRequest.Exact (n : ℤ) : TtlRequest → Prop
  | seconds _ _ _ => 0 ≤ n ∧ n ≤ 2147483
  | millis _ _ _ | expire _ => 0 ≤ n

/-- The time to live in nanoseconds, as the request counts it. -/
def TtlRequest.nanoseconds (n : ℤ) : TtlRequest → ℕ
  | seconds _ _ _ => n.toNat * 1000000000
  | millis _ _ _ | expire _ => n.toNat * 1000000

theorem milliseconds_exact {request : TtlRequest} {numeral : String} {n : ℤ}
    (number : Signed 31 (utf8Bytes numeral) n) (exact : request.Exact n) :
    ∃ millis, request.milliseconds target (Command.parseInt numeral) = .ok millis ∧
      Command.deadlineAfter now millis = now + request.nanoseconds n := by
  have read := Command.toInt_parseInt_of_signed number
  have bound := Int32.toInt_lt (Command.parseInt numeral)
  have single : 0 ≤ n →
      Command.deadlineAfter now (Command.parseInt numeral) = now + n.toNat * 1000000 := by
    intro nonneg
    apply (Command.deadlineAfter_eq_iff (by omega)).mpr
    rw [read, Int.toNat_of_nonneg nonneg]
  cases request with
  | seconds name flag value =>
      rcases mulI32_thousand_cases target (Command.parseInt numeral) with
        ⟨-, -, millis, counted, product⟩ | ⟨overflow, -⟩
      · refine ⟨millis, counted, ?_⟩
        rw [TtlRequest.nanoseconds, show 1000000000 = 1000 * 1000000 from rfl, ← Nat.mul_assoc]
        apply (Command.deadlineAfter_eq_iff (by omega)).mpr
        rw [product, read, Nat.cast_mul, Int.toNat_of_nonneg exact.1, Nat.cast_ofNat]
      · rw [TtlRequest.Exact] at exact
        omega
  | millis name flag value => exact ⟨Command.parseInt numeral, rfl, single exact⟩
  | expire name => exact ⟨Command.parseInt numeral, rfl, single exact⟩

/-- An exact time to live is counted from the time of parsing. -/
theorem extractCommand_exact {request : TtlRequest} (spelled : request.Spelled) (key : String)
    {numeral : String} {n : ℤ} (number : Signed 31 (utf8Bytes numeral) n)
    (exact : request.Exact n) :
    Command.extractCommand target now (request.frame key numeral) =
      .ok (request.command key (now + request.nanoseconds n)) := by
  rcases milliseconds_exact number exact with ⟨millis, counted, deadline⟩
  rw [TtlRequest.extractCommand_frame spelled, counted, ← deadline]
  rfl

/-- EXPIRE of a key without a deadline gives what SET with the deadline gives. -/
theorem effect_expire_bindKey (db : DB) (key : String) (value : RedisObject) (deadline : Instant) :
    (effect target now (db.bindKey key value none) (.expire key deadline none)).2 =
      db.bindKey key value (some deadline) := by
  have present : ((db.bindKey key value none).data.lookup key).isSome := by
    rw [DB.lookup_bindKey_data, if_pos rfl]
    rfl
  rw [effect_expire, DB.exec_expire, if_pos present]
  rfl

theorem bindKey_deadline_injective {db : DB} {key : String} {value : RedisObject}
    {deadline deadline' : Option Instant}
    (same : db.bindKey key value deadline = db.bindKey key value deadline') :
    deadline = deadline' := by
  have lookups := congrArg (fun db => db.expirations.lookup key) same
  simpa only [DB.lookup_bindKey_expirations, if_true] using lookups

/-- A SET without a deadline. -/
theorem serve_set {session : Session} (outside : session.client.inTransaction = false)
    {name : String} (set : toAsciiUppercase name = "SET") (key value : String) :
    Client.serve target (fun _ => now)
        (.array [.bulkString name, .bulkString key, .bulkString value]) session =
      (.ok (.simpleString "Ok"),
        ⟨session.client, session.db.bindKey key (.string value) none, session.tick + 2⟩) := by
  have extracted : Command.extractCommand target now
      (.array [.bulkString name, .bulkString key, .bulkString value]) =
        .ok (.set key value none) := by
    rw [Command.extractCommand, set]
    rfl
  have served := @serve_plain target now session outside _ _ extracted id
  rwa [effect_set] at served

end

/-- The two ways to give a key a time to live, at the same time and with a number of
seconds that is exact.  SET followed by EXPIRE leaves the maps that SET with seconds
leaves exactly when EXPIRE has a thousand times the number, so never for the same
number. -/
theorem set_ex_eq_expire_iff (target : Target) (now : Instant) {session : Session}
    (outside : session.client.inTransaction = false) {setName flag expireName : String}
    (set : toAsciiUppercase setName = "SET") (ex : toAsciiUppercase flag = "EX")
    (expire : toAsciiUppercase expireName = "EXPIRE") (key value : String)
    {numeral numeral' : String} {n m : ℤ} (number : Signed 31 (utf8Bytes numeral) n)
    (number' : Signed 31 (utf8Bytes numeral') m) (positive : 1 ≤ n) (exact : n ≤ 2147483) :
    let send := Client.serve target fun _ => now
    let direct := (send (Command.setFrame setName key value flag numeral []) session).2
    let plain := (send (.array [.bulkString setName, .bulkString key, .bulkString value])
      session).2
    let scheduled := (send (.array [.bulkString expireName, .bulkString key,
      .bulkString numeral']) plain).2
    (direct.db = scheduled.db ↔ m = 1000 * n) ∧ (n = m → direct.db ≠ scheduled.db) := by
  intro send direct plain scheduled
  have read := Command.toInt_parseInt_of_signed number'
  have bound := Int32.toInt_lt (Command.parseInt numeral')
  have extracted := @extractCommand_exact target now (.seconds setName flag value) ⟨set, ex⟩ key
    numeral n number ⟨by omega, exact⟩
  have directDb : direct.db =
      session.db.bindKey key (.string value) (some (now + n.toNat * 1000000000)) := by
    have served := serve_plain outside extracted id
    rw [TtlRequest.command, effect_set] at served
    exact congrArg (fun result => result.2.db) served
  have plainSession : plain =
      ⟨session.client, session.db.bindKey key (.string value) none, session.tick + 2⟩ :=
    congrArg Prod.snd (serve_set outside set key value)
  have plainDb : plain.db = session.db.bindKey key (.string value) none :=
    congrArg Session.db plainSession
  have scheduledDb : scheduled.db = session.db.bindKey key (.string value)
      (some (Command.deadlineAfter now (Command.parseInt numeral'))) := by
    have served := @serve_frame_ok target now plain (by rw [plainSession]; exact outside)
      (.expire expireName) expire key numeral' (Command.parseInt numeral') rfl
    rw [← @effect_expire_bindKey target now, ← plainDb]
    exact congrArg (fun result => result.2.db) served
  have same : direct.db = scheduled.db ↔ m = 1000 * n := by
    have unit : n.toNat * 1000000000 = n.toNat * 1000 * 1000000 := by omega
    have product : ((n.toNat * 1000 : ℕ) : ℤ) = 1000 * n := by omega
    rw [directDb, scheduledDb, ← product, ← read,
      ← @Command.deadlineAfter_eq_iff now (Command.parseInt numeral') (n.toNat * 1000) (by omega),
      ← unit]
    constructor
    · intro equal
      exact (Option.some.inj (bindKey_deadline_injective equal)).symm
    · intro equal
      rw [equal]
  refine ⟨same, ?_⟩
  rintro rfl equal
  have thousand := same.mp equal
  omega

/-- Two seconds of SET are two thousand units of EXPIRE. -/
theorem set_ex_eq_expire_iff_two :
    let session : Session := ⟨Client.new, DB.newInMemory, 0⟩
    let send := Client.serve ⟨true, 32⟩ fun _ => 5
    let plain := (send (.array [.bulkString "SET", .bulkString "k", .bulkString "v"]) session).2
    (send (Command.setFrame "SET" "k" "v" "EX" "2" []) session).2.db =
      (send (.array [.bulkString "EXPIRE", .bulkString "k", .bulkString "2000"]) plain).2.db := by
  intro session send plain
  have number : Signed 31 (utf8Bytes "2") 2 := signed_iff.mpr ⟨"2", rfl, by decide +kernel⟩
  have number' : Signed 31 (utf8Bytes "2000") 2000 :=
    signed_iff.mpr ⟨"2000", rfl, by decide +kernel⟩
  exact (@set_ex_eq_expire_iff ⟨true, 32⟩ 5 session rfl "SET" "EX" "EXPIRE" (by decide) (by decide)
    (by decide) "k" "v" _ _ _ _ number number' (by decide) (by decide)).1.mpr rfl

/-- After `SET k v` and `EXPIRE k 1` the key lives for a millisecond, after
`SET k v EX 1` for a second. -/
theorem expire_counts_milliseconds :
    let session : Session := ⟨Client.new, DB.newInMemory, 0⟩
    let send := Client.serve ⟨true, 32⟩ fun _ => 5
    let direct := (send (Command.setFrame "SET" "k" "v" "EX" "1" []) session).2
    let plain := (send (.array [.bulkString "SET", .bulkString "k", .bulkString "v"]) session).2
    let scheduled := (send (.array [.bulkString "EXPIRE", .bulkString "k", .bulkString "1"])
      plain).2
    direct.db.expirations.lookup "k" = some (5 + 1000000000) ∧
      scheduled.db.expirations.lookup "k" = some (5 + 1000000) := by
  intro session send direct plain scheduled
  constructor
  · decide +kernel
  · decide +kernel

end Ember
