import Ember.Config.Services

/-!
# Where stored values come from

Any number of connections and of cleanup cycles share the maps, and their calls are
interleaved in any way.  Races may lose writes, but nothing comes out of thin air: what
is stored under a key, and what a client reads from it inside or outside of a
transaction, was sent by some client for that very key or was there from the start.
-/

namespace Ember

open Ember.Base Ember.Base.Framing Ember.Database Ember.Resp

/-- Some client asks for the command, whenever that may be. -/
def Sent (target : Target) (workers : List Worker) (c : Command) : Prop :=
  ∃ events, .connection events ∈ workers ∧ ∃ resp, .frame resp ∈ requests target events [] ∧
    ∃ now, Command.extractCommand target now resp = .ok c

/-- The clock shows the time in a turn of the task. -/
def Reads (schedule : List (ℕ × Env)) (i : ℕ) (now : Instant) : Prop :=
  ∃ turn ∈ schedule, turn.1 = i ∧ turn.2.now = now

/-- Some client asks for the command, with the clock as in a turn of its connection. -/
def SentAt (target : Target) (workers : List Worker) (schedule : List (ℕ × Env)) (c : Command) :
    Prop :=
  ∃ i events, workers[i]? = some (.connection events) ∧
    ∃ resp, .frame resp ∈ requests target events [] ∧
      ∃ now, Reads schedule i now ∧ Command.extractCommand target now resp = .ok c

namespace Provenance

section Stems

variable (sent : Command → Prop) (start : DB)

/-- A text that was stored under the key from the start, or sent for it. -/
def StemsText (key text : String) : Prop :=
  start.data.lookup key = some (.string text) ∨ ∃ expiresAt, sent (.set key text expiresAt)

/-- An item that the list under the key had from the start, or that was pushed to it. -/
def StemsItem (key : String) (item : RedisObject) : Prop :=
  (∃ items, start.data.lookup key = some (.list items) ∧ item ∈ items) ∨
    ∃ values text, item = .string text ∧ text ∈ values ∧
      (sent (.lpush key values) ∨ sent (.rpush key values))

/-- A value of which every text was sent for the key or was there from the start. -/
def StemsValue (key : String) : RedisObject → Prop
  | .string text => StemsText sent start key text
  | .list items => ∀ item ∈ items, StemsItem sent start key item

/-- A deadline that the key had from the start, or that was given to it. -/
def StemsDeadline (key : String) (deadline : Instant) : Prop :=
  start.expirations.lookup key = some deadline ∨
    (∃ value, sent (.set key value (some deadline))) ∨ ∃ option, sent (.expire key deadline option)

/-- Everything in the maps stems from somewhere. -/
structure Traced (db : DB) : Prop where
  value : ∀ {key value}, db.data.lookup key = some value → StemsValue sent start key value
  deadline : ∀ {key deadline}, db.expirations.lookup key = some deadline →
    StemsDeadline sent start key deadline

/-- A call that writes only what stems from somewhere. -/
def Honest : Call → Prop
  | .dataInsert key value => StemsValue sent start key value
  | .dataGetMut key update => ∀ value value', StemsValue sent start key value →
      update value = .ok value' → StemsValue sent start key value'
  | .expirationsInsert key deadline => StemsDeadline sent start key deadline
  | _ => True

variable {sent start}

theorem traced_start : Traced sent start start where
  value := by
    intro key value stored
    cases value with
    | string text => exact Or.inl stored
    | list items => exact fun item member => Or.inl ⟨items, stored, member⟩
  deadline := Or.inl

theorem Traced.insertValue {db : DB} (traced : Traced sent start db) {key : String}
    {value : RedisObject} (stems : StemsValue sent start key value) :
    Traced sent start { db with data := db.data.insert key value } where
  value := by
    intro key' value' stored
    rw [FiniteMap.lookup_insert_if] at stored
    split at stored
    next same =>
      cases stored
      rwa [same]
    next => exact traced.value stored
  deadline := traced.deadline

theorem Traced.insertDeadline {db : DB} (traced : Traced sent start db) {key : String}
    {deadline : Instant} (stems : StemsDeadline sent start key deadline) :
    Traced sent start { db with expirations := db.expirations.insert key deadline } where
  value := traced.value
  deadline := by
    intro key' deadline' stored
    rw [FiniteMap.lookup_insert_if] at stored
    split at stored
    next same =>
      cases stored
      rwa [same]
    next => exact traced.deadline stored

theorem lookup_of_erase {α : Type} {map : FiniteMap String α} {key key' : String} {value : α}
    (stored : (map.erase key).lookup key' = some value) : map.lookup key' = some value := by
  rw [FiniteMap.lookup_erase_if] at stored
  split at stored
  · cases stored
  · exact stored

/-- One call keeps the invariant. -/
theorem Traced.step (env : Env) (op : Call) (db : DB) (honest : Honest sent start op)
    (traced : Traced sent start db) : Traced sent start (op.step env db).2 := by
  cases op with
  | dataInsert key value => exact traced.insertValue honest
  | dataRemove key => exact ⟨fun stored => traced.value (lookup_of_erase stored), traced.deadline⟩
  | dataGetMut key update =>
      rw [Call.step]
      cases found : db.data.lookup key with
      | none => exact traced
      | some value =>
          dsimp only
          cases updated : update value with
          | ok value' => exact traced.insertValue (honest value value' (traced.value found) updated)
          | error reason => exact traced
          | panic => exact traced
  | expirationsInsert key deadline => exact traced.insertDeadline honest
  | expirationsRemove key =>
      exact ⟨traced.value, fun stored => traced.deadline (lookup_of_erase stored)⟩
  | _ => exact traced

/-! ## The tasks make honest calls -/

theorem honest_set {key text : String} {expiresAt : Option Instant}
    (asked : sent (.set key text expiresAt)) :
    (DB.set key (.string text) expiresAt).Calls (Honest sent start) := by
  have stems : StemsText sent start key text := Or.inr ⟨expiresAt, asked⟩
  cases expiresAt with
  | none => exact ⟨trivial, fun _ => ⟨stems, fun _ => trivial⟩⟩
  | some deadline =>
      exact ⟨trivial, fun _ => ⟨stems, fun _ => ⟨Or.inr (Or.inl ⟨text, asked⟩), fun _ => trivial⟩⟩⟩

theorem honest_lazyExpiration (key : String) :
    (DB.lazyExpiration key).Calls (Honest sent start) := by
  constructor
  · trivial
  · rintro (_ | deadline)
    · trivial
    · constructor
      · trivial
      · rintro (_ | _)
        · trivial
        · exact ⟨trivial, fun _ => ⟨trivial, fun _ => trivial⟩⟩

theorem honest_get (key : String) : (DB.get key).Calls (Honest sent start) := by
  apply (honest_lazyExpiration key).bind
  rintro (_ | _)
  · constructor
    · trivial
    · rintro (_ | value) <;> trivial
  · trivial

theorem honest_lrange (target : Target) (key : String) (first last : Int32) :
    (DB.lrange target key first last).Calls (Honest sent start) := by
  apply (honest_lazyExpiration key).bind
  rintro (_ | _)
  · constructor
    · trivial
    · rintro (_ | _ | _) <;> trivial
  · trivial

/-- A push of items that stem from somewhere, in front of a list or behind it. -/
theorem honest_push {key : String} {fresh : List RedisObject}
    {update : List RedisObject → List RedisObject}
    (items : ∀ item ∈ fresh, StemsItem sent start key item)
    (updated : ∀ list, ∀ item ∈ update list, item ∈ list ∨ item ∈ fresh) :
    (DB.push key fresh update).Calls (Honest sent start) := by
  constructor
  · intro value value' stems extended
    cases value with
    | string text => cases extended
    | list list =>
        cases extended
        intro item member
        rcases updated list item member with old | new
        · exact stems item old
        · exact items item new
  · rintro (_ | result)
    · exact ⟨items, fun _ => trivial⟩
    · trivial

theorem stemsItem_pushed {key : String} {values : List String}
    (asked : sent (.lpush key values) ∨ sent (.rpush key values)) {item : RedisObject}
    (member : item ∈ values.map RedisObject.string) : StemsItem sent start key item := by
  rcases List.mem_map.mp member with ⟨text, pushed, rfl⟩
  exact Or.inr ⟨values, text, rfl, pushed, asked⟩

theorem honest_updateExpiry (key : String) (deadline : Instant) (option : Option String) :
    (DB.updateExpiry key deadline option).Calls (Honest sent start) := by
  cases option with
  | none => trivial
  | some opt =>
      simp only [DB.updateExpiry]
      split_ifs
      · exact ⟨trivial, fun _ => trivial⟩
      · exact ⟨trivial, fun _ => trivial⟩
      · exact ⟨trivial, fun _ => trivial⟩
      · exact ⟨trivial, fun _ => trivial⟩
      · trivial

theorem honest_expire {key : String} {deadline : Instant} {option : Option String}
    (asked : sent (.expire key deadline option)) :
    (DB.expire key deadline option).Calls (Honest sent start) := by
  constructor
  · trivial
  · rintro (_ | _)
    · trivial
    · apply (honest_updateExpiry key deadline option).bind
      rintro (_ | _ | _)
      · trivial
      · trivial
      · exact ⟨Or.inr (Or.inr ⟨option, asked⟩), fun _ => trivial⟩

theorem covers_honest (target : Target) : Covers (.maps target) sent (Honest sent start) where
  clock := ⟨trivial, fun _ => trivial⟩
  operation := by
    intro c prog asked found
    cases c with
    | ping | echo | save =>
        cases found
        trivial
    | multi | discard | exec => cases found
    | set key value expiresAt =>
        cases found
        exact (honest_set asked).bind fun _ => trivial
    | get key =>
        cases found
        exact (honest_get key).bind fun _ => trivial
    | delete key =>
        cases found
        exact ⟨trivial, fun _ => ⟨trivial, fun _ => trivial⟩⟩
    | lpush key values =>
        cases found
        refine Prog.Calls.bind (honest_push ?_ ?_) fun _ => trivial
        · intro item member
          exact stemsItem_pushed (Or.inl asked) (List.mem_reverse.mp member)
        · intro list item member
          rcases List.mem_append.mp member with new | old
          · exact Or.inr (List.mem_reverse.mpr new)
          · exact Or.inl old
    | rpush key values =>
        cases found
        refine Prog.Calls.bind (honest_push ?_ ?_) fun _ => trivial
        · intro item member
          exact stemsItem_pushed (Or.inr asked) member
        · exact fun list item member => List.mem_append.mp member
    | lrange key first last =>
        cases found
        exact (honest_lrange target key first last).bind fun _ => trivial
    | expire key deadline option =>
        cases found
        exact (honest_expire asked).bind fun _ => trivial

theorem honest_reapSample (now : Instant) (sample : List String) (expired : ℕ) :
    (DB.reapSample now sample expired).Calls (Honest sent start) := by
  induction sample generalizing expired with
  | nil => trivial
  | cons key rest ih =>
      constructor
      · trivial
      · rintro (_ | deadline)
        · exact ih expired
        · change (if deadline < now then _ else _ : DbProg ℕ).Calls _
          split
          · exact ⟨trivial, fun _ => ⟨trivial, fun _ => ih (expired + 1)⟩⟩
          · exact ih expired

theorem honest_activeExpirationCycle (passes : ℕ) :
    (DB.activeExpirationCycle passes).Calls (Honest sent start) := by
  have pass : DB.activeExpirationPass.Calls (Honest sent start) := by
    refine ⟨trivial, fun now => ⟨trivial, fun total => ?_⟩⟩
    change (if total = 0 then _ else _ : DbProg Bool).Calls _
    split
    · trivial
    · refine ⟨trivial, fun skip => ⟨trivial, fun order => ?_⟩⟩
      exact (honest_reapSample now _ 0).bind fun _ => trivial
  induction passes with
  | zero => trivial
  | succ passes ih =>
      apply pass.bind
      rintro (_ | _)
      · trivial
      · exact ih

/-! ## What readers see -/

/-- The answers that calls get while everything in the maps stems from somewhere. -/
abbrev Truthful (sent : Command → Prop) (start : DB) : (op : Call) → op.Response → Prop :=
  Pool.Possible Call.step (Traced sent start)

theorem stems_of_get {key : String} {result : Outcome String RedisObject}
    (returns : (DB.get key).Returns (Truthful sent start) result) :
    ∃ value, result = .ok value ∧ (value = DB.nil ∨ StemsValue sent start key value) := by
  rcases Prog.returns_bind_iff.mp returns with ⟨_ | _, _, rest⟩
  · rcases Prog.returns_call_iff.mp rest with ⟨_ | value, ⟨env, db, traced, found⟩, last⟩
    · exact ⟨_, Prog.returns_ret_iff.mp last, Or.inl rfl⟩
    · exact ⟨_, Prog.returns_ret_iff.mp last, Or.inr (traced.value found)⟩
  · exact ⟨_, Prog.returns_ret_iff.mp rest, Or.inl rfl⟩

theorem mem_of_range {target : Target} {first last : Int32} {list items : List RedisObject}
    (ranged : DB.range target first last list = .ok items) : items ⊆ list := by
  rcases Outcome.bind_eq_ok_iff.mp ranged with ⟨from', -, rest⟩
  rcases Outcome.bind_eq_ok_iff.mp rest with ⟨to', -, made⟩
  cases made
  intro item member
  rcases List.mem_map.mp member with ⟨⟨item, index⟩, kept, rfl⟩
  exact List.fst_mem_of_mem_zipIdx (List.mem_filter.mp kept).1

theorem stems_of_lrange {target : Target} {key : String} {first last : Int32}
    {items : List RedisObject}
    (returns : (DB.lrange target key first last).Returns (Truthful sent start)
      (.ok (.list items))) : ∀ item ∈ items, StemsItem sent start key item := by
  rcases Prog.returns_bind_iff.mp returns with ⟨_ | _, _, rest⟩
  · rcases Prog.returns_call_iff.mp rest with ⟨_ | (text | list), ⟨env, db, traced, found⟩, last⟩
    · cases Prog.returns_ret_iff.mp last
    · cases Prog.returns_ret_iff.mp last
    · have ranged := (Prog.returns_ret_iff.mp last).symm
      rcases Outcome.map_eq_ok_iff.mp ranged with ⟨part, made, same⟩
      cases same
      have stems : StemsValue sent start key (.list list) := traced.value found
      intro item member
      exact stems item (mem_of_range made member)
  · cases Prog.returns_ret_iff.mp rest

variable (sent start) in
/-- What GET and LRANGE show stems from somewhere. -/
def Shows : Command → Outcome String RespType → Prop
  | .get key, outcome => ∀ text, outcome = .ok (.bulkString text) →
      text = "nil" ∨ StemsText sent start key text
  | .lrange key _ _, outcome => ∀ items, outcome = .ok (.array items) →
      ∀ item ∈ items, ∃ text, item = .bulkString text ∧ StemsItem sent start key (.string text)
  | _, _ => True

variable (sent start) in
/-- How a connection is answered: with readings of the clock of a kind, and with texts
that stem from somewhere. -/
def Answers (readable : Instant → Prop) : (ask : Ask) → ask.Response → Prop
  | .clock, now => readable now
  | .execute c, outcome => Shows sent start c outcome

theorem shows_of_controls {c : Command} (controls : c.Controls)
    (outcome : Outcome String RespType) : Shows sent start c outcome := by
  cases c with
  | multi | discard | exec => trivial
  | _ => exact controls.elim

theorem shows_of_returns {target : Target} {c : Command} {prog : DbProg (Outcome String RespType)}
    {outcome : Outcome String RespType} (found : Dispatcher.operation target c = some prog)
    (returns : prog.Returns (Truthful sent start) outcome) : Shows sent start c outcome := by
  cases c with
  | get key =>
      cases found
      rcases Prog.returns_bind_iff.mp returns with ⟨result, got, last⟩
      rcases stems_of_get got with ⟨value, rfl, origin⟩
      cases Prog.returns_ret_iff.mp last
      intro text given
      cases value with
      | list items => cases given
      | string stored =>
          cases given
          rcases origin with missing | stems
          · cases missing
            exact Or.inl rfl
          · exact Or.inr stems
  | lrange key first last =>
      cases found
      rcases Prog.returns_bind_iff.mp returns with ⟨result, ranged, made⟩
      cases Prog.returns_ret_iff.mp made
      intro shown given
      cases result with
      | error e => cases given
      | panic => cases given
      | ok value =>
          cases value with
          | string text => cases given
          | list stored =>
              cases given
              intro item member
              rcases List.mem_filterMap.mp member with ⟨object, listed, reads⟩
              cases object with
              | list items => cases reads
              | string text =>
                  cases reads
                  exact ⟨text, rfl, stems_of_lrange ranged _ listed⟩
  | _ => trivial

end Stems

/-! ## The tasks among each other -/

section Tasks

variable {sent : Command → Prop} {start : DB} {target : Target} {workers : List Worker}

/-- All tasks keep the contents of the maps traced, and rely on it. -/
def setting (sent : Command → Prop) (start : DB) : Setting DB Env Call Call.Response where
  handle := Call.step
  rely db db' := Traced sent start db → Traced sent start db'
  guarantee db db' := Traced sent start db → Traced sent start db'

theorem stable_traced : Stable (setting sent start).rely (Traced sent start) :=
  fun kept => kept

/-- A program that makes only honest calls. -/
theorem triple_honest {α : Type} {admits : Env → Prop} {prog : DbProg α}
    (honest : prog.Calls (Honest sent start)) :
    Prog.Triple (setting sent start) admits (Traced sent start) prog fun value db =>
      Traced sent start db ∧ prog.Returns (Truthful sent start) value := by
  apply Prog.Triple.of_calls stable_traced _ honest
  intro env op db honest traced
  have next := traced.step env op db honest
  exact ⟨fun _ => next, next⟩

theorem triple_answeredBy {admits : Env → Prop} {readable : Instant → Prop}
    (admitted : ∀ env, admits env → readable env.now) (ask : Ask) (within : ask.Within sent) :
    Prog.Triple (setting sent start) admits (Traced sent start) (ask.answeredBy (.maps target))
      fun answer db => Traced sent start db ∧ Answers sent start readable ask answer := by
  have stable (fact : Prop) : Stable (setting sent start).rely fun db =>
      Traced sent start db ∧ fact := fun kept holds => ⟨kept holds.1, holds.2⟩
  cases ask with
  | clock =>
      change Prog.Triple (setting sent start) admits (Traced sent start) (perform .now)
        fun now db => Traced sent start db ∧ readable now
      apply Prog.Triple.perform stable_traced fun now => stable (readable now)
      exact fun env db inTime traced => ⟨id, traced, admitted env inTime⟩
  | execute c =>
      have made : Ask.answeredBy (.maps target) (.execute c) =
          (Dispatcher.operation target c).getD (return .panic) := rfl
      rw [made]
      cases found : Dispatcher.operation target c with
      | none =>
          apply Prog.Triple.ret stable_traced
          refine fun db traced => ⟨traced, ?_⟩
          cases c with
          | multi | discard | exec => trivial
          | _ => cases found
      | some prog =>
          apply (triple_honest ((covers_honest target).operation within found)).weaken
            stable_traced fun _ => id
          exact fun outcome db returned => ⟨returned.1, shows_of_returns found returned.2⟩

theorem triple_connection (spill : Spill UInt8) {admits : Env → Prop} {readable : Instant → Prop}
    (admitted : ∀ env, admits env → readable env.now) {events : List ReadEvent}
    (asked : ∀ resp, .frame resp ∈ requests target events [] → AsksAt readable target sent resp) :
    Prog.Triple (setting sent start) admits (Traced sent start)
      (Task.connection spill (.maps target) events) fun result db => Traced sent start db ∧
        (Task.connection spill (.asks target) events).Returns (Answers sent start readable)
          result := by
  have reads : ∀ now, Answers sent start readable .clock now → readable now := fun _ => id
  exact Task.triple_handle (fun _ => rfl) stable_traced reads (triple_answeredBy admitted) asked
    (Client.queues_new sent)

/-- What is known of the end of a task. -/
def Served (spill : Spill UInt8) (target : Target) (workers : List Worker)
    (possible : ℕ → (ask : Ask) → ask.Response → Prop) (i : ℕ)
    (result : Option (Exit × Connection Client)) (_ : DB) : Prop :=
  ∀ events exit conn, workers[i]? = some (.connection events) → result = some (exit, conn) →
    (Task.connection spill (.asks target) events).Returns (possible i) (exit, conn)

theorem agrees_workers (spill : Spill UInt8) {admits : ℕ → Env → Prop}
    {readable : ℕ → Instant → Prop} (admitted : ∀ i env, admits i env → readable i env.now)
    (asked : ∀ i events, workers[i]? = some (.connection events) →
      ∀ resp, .frame resp ∈ requests target events [] → AsksAt (readable i) target sent resp) :
    Pool.Agrees (setting sent start) admits
      (Served spill target workers fun i => Answers sent start (readable i))
      ⟨start, workers.map (Worker.prog spill target)⟩ := by
  intro i thread found
  rw [List.getElem?_map, Option.map_eq_some_iff] at found
  rcases found with ⟨worker, listed, rfl⟩
  refine ⟨Traced sent start, traced_start, ?_⟩
  have stable (fact : Prop) : Stable (setting sent start).rely fun db =>
      Traced sent start db ∧ fact := fun kept holds => ⟨kept holds.1, holds.2⟩
  cases worker with
  | cleanup passes =>
      apply (triple_honest (honest_activeExpirationCycle passes)).bind
      intro _
      apply Prog.Triple.ret (stable _)
      rintro db - events exit conn listed' ⟨⟩
  | connection events =>
      apply (triple_connection spill (admitted i) (asked i events listed)).bind
      intro result
      apply Prog.Triple.ret (stable _)
      rintro db ⟨-, returns⟩ events' exit conn listed' ⟨⟩
      cases listed.symm.trans listed'
      exact returns

/-- What a client with certain commands in its queue is shown in reply to a request: by GET
and LRANGE themselves, and by EXEC for each command of the queue. -/
structure Told (target : Target) (sent : Command → Prop) (start : DB) (queue : List Command)
    (resp reply : RespType) : Prop where
  get : ∀ key text, Asks target (· = .get key) resp → reply = .bulkString text →
    text = "nil" ∨ StemsText sent start key text
  lrange : ∀ key first last items, Asks target (· = .lrange key first last) resp →
    reply = .array items →
      ∀ item ∈ items, ∃ text, item = .bulkString text ∧ StemsItem sent start key (.string text)
  exec : ∀ items, Asks target (· = .exec) resp → reply = .array items →
    List.Forall₂ (fun c item => sent c ∧ Shows sent start c (.ok item)) queue items

theorem told_of_served {readable : Instant → Prop} {resp reply : RespType} {client next : Client}
    {outcome : Outcome String RespType} (queued : client.Queues sent)
    (served : (Task.serve (.asks target) resp client).Returns (Answers sent start readable)
      (outcome, next)) (given : answer outcome = some reply) :
    Told target sent start client.queuedCommands resp reply where
  get := by
    rintro key text asks rfl
    rcases Task.returns_serve_asks id served asks with ⟨e, rfl⟩ | rfl | rfl | shows
    · cases given
    · cases given
    · cases given
    · cases outcome <;> cases given
      exact shows text rfl
  lrange := by
    rintro key first last items asks rfl
    rcases Task.returns_serve_asks id served asks with ⟨e, rfl⟩ | rfl | rfl | shows
    · cases given
    · cases given
    · cases given
    · cases outcome <;> cases given
      exact shows items rfl
  exec := by
    rintro items asks rfl
    cases outcome <;> cases given
    have origins := Task.returns_serve_exec served asks
    apply ((List.forall₂_and_left _ _).mpr ⟨queued, origins⟩).imp
    rintro c item ⟨within, controls | shows⟩
    · exact ⟨within, shows_of_controls controls _⟩
    · exact ⟨within, shows⟩

/-- What the client of a connection is shown. -/
theorem told_of_returns {spill : Spill UInt8} {readable : Instant → Prop}
    {events : List ReadEvent} {exit : Exit} {conn : Connection Client}
    (asked : ∀ resp, .frame resp ∈ requests target events [] → AsksAt readable target sent resp)
    (returns : (Task.connection spill (.asks target) events).Returns (Answers sent start readable)
      (exit, conn)) :
    ∃ (answered rest : List Incoming) (replies : List RespType),
      requests target events [] = answered ++ rest ∧ replies.length = answered.length ∧
      conn.writer.written = replies.flatMap RespType.toBytes ∧
      ∀ (n : ℕ) (resp reply : RespType), answered[n]? = some (.frame resp) →
        replies[n]? = some reply → ∃ client,
          Answered (.asks target) (Answers sent start readable) (answered.take n) Client.new
            (replies.take n) client ∧
          Told target sent start client.queuedCommands resp reply := by
  obtain ⟨answered, rest, replies, client, finished⟩ := Task.finished_handle returns
  refine ⟨answered, rest, replies, finished.requests, finished.answers.length_eq,
    finished.written, ?_⟩
  intro n resp reply here replied
  have reads : ∀ now, (Service.asks target).now.Returns (Answers sent start readable) now →
      readable now := by
    intro now returns
    rcases Prog.returns_call_iff.mp returns with ⟨reading, given, last⟩
    cases Prog.returns_ret_iff.mp last
    exact given
  have frames : ∀ resp, .frame resp ∈ answered → AsksAt readable target sent resp := by
    intro resp member
    exact asked resp (finished.requests ▸ List.mem_append_left rest member)
  rcases Task.served_at_of_answered reads finished.answers frames (Client.queues_new sent) here
    replied with ⟨client, outcome, next, queued, before, served, given⟩
  exact ⟨client, before, told_of_served queued served given⟩

theorem calls_worker (spill : Spill UInt8) (target : Target) (start : DB) {workers : List Worker}
    {worker : Worker} (listed : worker ∈ workers) :
    (worker.prog spill target).Calls (Honest (Sent target workers) start) := by
  cases worker with
  | cleanup passes => exact (honest_activeExpirationCycle passes).bind fun _ => trivial
  | connection events =>
      refine Prog.Calls.bind (Task.calls_connection (covers_honest target) ?_) fun _ => trivial
      intro resp member now c extracted
      exact ⟨events, listed, resp, member, now, extracted⟩

end Tasks

/-- Under every interleaving of connections and cleanup cycles, the values and deadlines
in the maps stem from commands on their key or were there from the start; and so do the
texts that a client is shown by GET and LRANGE, inside of transactions as well.  A command
that gives a deadline does so by the clock as it was read in a turn of its connection. -/
theorem nothing_out_of_thin_air (spill : Spill UInt8) (target : Target) (start : DB)
    (workers : List Worker) (schedule : List (ℕ × Env)) :
    let final := Pool.run Call.step ⟨start, workers.map (Worker.prog spill target)⟩ schedule
    let sent := SentAt target workers schedule
    (∀ key value, final.shared.data.lookup key = some value → StemsValue sent start key value) ∧
    (∀ key deadline, final.shared.expirations.lookup key = some deadline →
      StemsDeadline sent start key deadline) ∧
    ∀ (i : ℕ) (events : List ReadEvent) (exit : Exit) (conn : Connection Client),
      workers[i]? = some (.connection events) →
      final.threads[i]? = some (.ret (some (exit, conn))) →
      (Task.connection spill (.asks target) events).Returns
          (Answers sent start (Reads schedule i)) (exit, conn) ∧
      ∃ (answered rest : List Incoming) (replies : List RespType),
        requests target events [] = answered ++ rest ∧ replies.length = answered.length ∧
        conn.writer.written = replies.flatMap RespType.toBytes ∧
        ∀ (n : ℕ) (resp reply : RespType), answered[n]? = some (.frame resp) →
          replies[n]? = some reply → ∃ client,
            Answered (.asks target) (Answers sent start (Reads schedule i)) (answered.take n)
              Client.new (replies.take n) client ∧
            Told target sent start client.queuedCommands resp reply := by
  intro final sent
  let admits : ℕ → Env → Prop := fun i env => (i, env) ∈ schedule
  have reads : ∀ i env, admits i env → Reads schedule i env.now :=
    fun i env listed => ⟨(i, env), listed, rfl, rfl⟩
  have asked : ∀ i events, workers[i]? = some (.connection events) →
      ∀ resp, .frame resp ∈ requests target events [] →
        AsksAt (Reads schedule i) target sent resp :=
    fun i events listed resp member now read c extracted =>
      ⟨i, events, listed, resp, member, now, read, extracted⟩
  have initially : Pool.Agrees (setting sent start) admits _ _ := agrees_workers spill reads asked
  have traced : Traced sent start final.shared :=
    initially.run_shared id stable_traced traced_start fun _ => id
  refine ⟨fun _ _ => traced.value, fun _ _ => traced.deadline, ?_⟩
  intro i events exit conn listed ended
  have ending : final.Agrees (setting sent start) admits _ := initially.run id fun _ => id
  have returns := ending.returned ended events exit conn listed rfl
  exact ⟨returns, told_of_returns (asked i events listed) returns⟩

/-- A client that reads a key in a transaction, while another one sets it for a second. -/
theorem nothing_out_of_thin_air_exec :
    let start := { DB.newInMemory with data := FiniteMap.ofList [("k", .string "v")] }
    let reader := [ReadEvent.bytes (utf8Bytes "MULTI\r\nGET k\r\nEXEC\r\n")]
    let writer := [ReadEvent.bytes (utf8Bytes "SET k w PX 1000\r\n")]
    let workers := [Worker.connection reader, .connection writer]
    let schedule := [(0, Env.at 0), (0, .at 0), (1, .at 7), (1, .at 7), (1, .at 7), (1, .at 7),
      (0, .at 9), (0, .at 9), (0, .at 9), (0, .at 9)]
    let final := Pool.run Call.step ⟨start, workers.map (Worker.prog .atFlush ⟨true, 24⟩)⟩ schedule
    let sent := SentAt ⟨true, 24⟩ workers schedule
    let output := utf8Bytes "+Ok\r\n+QUEUED\r\n*1\r\n$1\r\nw\r\n"
    final.threads[0]?.bind Worker.output = some output ∧
      StemsDeadline sent start "k" 1000000007 ∧
      ∃ replies : List RespType, output = replies.flatMap RespType.toBytes ∧
        ∀ items, replies[2]? = some (.array items) → ∃ queue : List Command,
          List.Forall₂ (fun c item => sent c ∧ Shows sent start c (.ok item)) queue items := by
  intro start reader writer workers schedule final sent output
  have sends : final.threads[0]?.bind Worker.output = some output := by decide +kernel
  rcases Worker.ended_of_output sends with ⟨exit, conn, ended, written⟩
  obtain ⟨-, deadlines, reads⟩ :=
    nothing_out_of_thin_air .atFlush ⟨true, 24⟩ start workers schedule
  obtain ⟨-, answered, rest, replies, found, length, wrote, told⟩ :=
    reads 0 reader exit conn rfl ended
  have stems : StemsDeadline sent start "k" 1000000007 := by
    apply deadlines
    decide +kernel
  rw [written] at wrote
  refine ⟨sends, stems, replies, wrote, fun items third => ?_⟩
  let resp : RespType := .array [.bulkString "EXEC"]
  have asked : answered[2]? = some (.frame resp) := by
    have inside : 2 < answered.length := length ▸ (List.getElem?_eq_some_iff.mp third).1
    have all : (requests ⟨true, 24⟩ reader [])[2]? = some (.frame resp) := rfl
    rwa [found, List.getElem?_append_left inside] at all
  have asks : Asks ⟨true, 24⟩ (· = .exec) resp := by
    intro now c extracted
    cases extracted
    rfl
  rcases told 2 resp (.array items) asked third with ⟨client, -, shown⟩
  exact ⟨client.queuedCommands, shown.exec items asks rfl⟩

end Provenance

end Ember
