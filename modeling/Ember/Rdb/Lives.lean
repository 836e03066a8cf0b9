import Ember.Rdb.LiveSave

/-!
# Where values come from, over many lives

A server is started from a snapshot, serves clients, saves its maps beside them and
stops, and the next one is started from what was saved.  Nothing comes out of thin air
on the way through the maps, the file and back: what a client is shown in any life,
inside or outside of a transaction, was sent for that very key, in this life or in an
earlier one.
-/

namespace Ember.Rdb.Lives

open Ember.Base Ember.Database Ember.Resp Ember.Provenance Ember.Rdb.Recovery Ember.Rdb.LiveSave

/-- The snapshots that a server can find, when the clients of all lives before it asked
only for certain commands.  Texts and lists that are saved are shorter than 2³². -/
inductive Era (target : Target) (ever : Command → Prop) : Option (List UInt8) → Prop
  | fresh : Era target ever none
  | saved {file : Option (List UInt8)} {load : ℕ → Clocks} {start : DB} {spill : Spill UInt8}
      {workers : List Worker} {dataKeys expirationKeys : List String} {schedule : List (ℕ × Env)}
      {captured : DB} {task : SaveTask} {bytes : List UInt8} (before : Era target ever file)
      (loaded : DB.new load file = .ok start) (asked : ∀ c, Sent target workers c → ever c)
      (returned : ((pool spill target start workers dataKeys expirationKeys).run Call.step
        schedule).threads[0]? = some (.ret (some captured)))
      (short : Short captured) (captures : Captures task captured)
      (written : task.serialization = .ok bytes) : Era target ever (some bytes)

variable {spill : Spill UInt8} {target : Target} {ever sent : Command → Prop}
  {start origin db : DB} {key : String} {value : RedisObject}

/-- Where the values of a start come from, those that stem from it come from. -/
theorem stemsValue_trans
    (starts : ∀ key value, start.data.lookup key = some value → StemsValue ever origin key value)
    (stems : StemsValue ever start key value) : StemsValue ever origin key value := by
  cases value with
  | string text =>
      rcases stems with old | set
      · exact starts key _ old
      · exact Or.inr set
  | list items =>
      intro item member
      rcases stems item member with ⟨old, stored, inside⟩ | pushed
      · exact starts key _ stored item inside
      · exact Or.inr pushed

theorem answers_trans {readable : Instant → Prop} {ask : Ask} {answer : ask.Response}
    (starts : ∀ key value, start.data.lookup key = some value → StemsValue ever origin key value)
    (answers : Answers ever start readable ask answer) :
    Answers ever origin readable ask answer := by
  cases ask with
  | clock => exact answers
  | execute c =>
      cases c with
      | get key =>
          intro text given
          rcases answers text given with missing | stems
          · exact Or.inl missing
          · have origin : StemsValue ever origin key (.string text) :=
              stemsValue_trans starts stems
            exact Or.inr origin
      | lrange key first last =>
          intro items given item member
          rcases answers items given item member with ⟨text, rfl, stems⟩
          have one : StemsValue ever start key (.list [.string text]) :=
            fun item listed => List.mem_singleton.mp listed ▸ stems
          have origin : StemsValue ever origin key (.list [.string text]) :=
            stemsValue_trans starts one
          exact ⟨text, rfl, origin _ (List.mem_singleton.mpr rfl)⟩
      | _ => trivial

theorem stemsValue_mono (asked : ∀ c, sent c → ever c) (stems : StemsValue sent start key value) :
    StemsValue ever start key value := by
  cases value with
  | string text => exact stems.imp_right fun ⟨expiresAt, set⟩ => ⟨expiresAt, asked _ set⟩
  | list items =>
      intro item member
      apply (stems item member).imp_right
      rintro ⟨values, text, rfl, pushed, front | back⟩
      · exact ⟨values, text, rfl, pushed, Or.inl (asked _ front)⟩
      · exact ⟨values, text, rfl, pushed, Or.inr (asked _ back)⟩

/-! ## Through the save -/

theorem stems_of_collect {slots : List Slot} {found captured : DB}
    (returns : (DB.collect slots found).Returns (Truthful sent start) captured)
    (before : ∀ key value, found.data.lookup key = some value → StemsValue sent start key value) :
    ∀ key value, captured.data.lookup key = some value → StemsValue sent start key value := by
  induction slots generalizing found with
  | nil =>
      cases Prog.returns_ret_iff.mp returns
      exact before
  | cons slot rest ih =>
      cases slot with
      | data key' =>
          rcases Prog.returns_call_iff.mp returns with ⟨_ | value', ⟨env, db, traced, read⟩, later⟩
          · exact ih later before
          · apply ih later
            intro key value stored
            rw [FiniteMap.lookup_insert_if] at stored
            split at stored
            next same =>
              cases stored
              exact same ▸ traced.value read
            next => exact before key value stored
      | deadline key' =>
          rcases Prog.returns_call_iff.mp returns with ⟨_ | deadline, -, later⟩
          · exact ih later before
          · exact ih later before

theorem stems_of_returned {workers : List Worker} {dataKeys expirationKeys : List String}
    {schedule : List (ℕ × Env)} {captured : DB}
    (returned : ((pool spill target start workers dataKeys expirationKeys).run Call.step
      schedule).threads[0]? = some (.ret (some captured))) :
    ∀ key value, captured.data.lookup key = some value →
      StemsValue (Sent target workers) start key value := by
  have found : (pool spill target start workers dataKeys expirationKeys).threads[0]? =
      some (do return some (← DB.saveRdb dataKeys expirationKeys)) := rfl
  have returns := Pool.returns_of_run
    (Pool.Safe (Traced (Sent target workers) start) (Honest (Sent target workers) start))
    (Pool.Safe.turn Traced.step) (fun _ safe => safe.shared)
    (safe_pool spill target start workers dataKeys expirationKeys) found returned
  rcases Prog.returns_bind_iff.mp returns with ⟨result, collected, last⟩
  cases Prog.returns_ret_iff.mp last
  apply stems_of_collect collected
  intro key value stored
  cases stored

/-! ## Through the file -/

theorem new_eq_ok_iff {load : ℕ → Clocks} {file : Option (List UInt8)} :
    DB.new load file = .ok db ↔
      ∃ loaded, loadRdb load file = .ok loaded ∧ db = ⟨loaded.db, loaded.expirations⟩ := by
  rw [DB.new]
  cases loadRdb load file with
  | ok loaded =>
      constructor
      · rintro ⟨⟩
        exact ⟨loaded, rfl, rfl⟩
      · rintro ⟨_, ⟨⟩, rfl⟩
        rfl
  | error reason =>
      constructor
      · rintro ⟨⟩
      · rintro ⟨_, ⟨⟩, -⟩
  | panic =>
      constructor
      · rintro ⟨⟩
      · rintro ⟨_, ⟨⟩, -⟩

theorem flat_of_stems
    (stems : ∀ key value, db.data.lookup key = some value →
      StemsValue ever DB.newInMemory key value) : Flat db := by
  intro key items found item member
  rcases stems key _ found item member with ⟨old, stored, -⟩ | ⟨values, text, rfl, -, -⟩
  · cases stored
  · exact ⟨text, rfl⟩

/-- The values that a server starts with were sent in earlier lives. -/
theorem stems_of_era {file : Option (List UInt8)} {load : ℕ → Clocks} (era : Era target ever file)
    (loaded : DB.new load file = .ok start) :
    ∀ key value, start.data.lookup key = some value →
      StemsValue ever DB.newInMemory key value := by
  induction era generalizing load start with
  | fresh =>
      cases loaded
      intro key value stored
      cases stored
  | @saved _ _ _ _ _ _ _ _ captured task bytes _ earlier asked returned short captures written ih =>
      have stems : ∀ key value, captured.data.lookup key = some value →
          StemsValue ever DB.newInMemory key value := fun key value stored =>
        stemsValue_trans (ih earlier)
          (stemsValue_mono asked (stems_of_returned returned key value stored))
      have fits : Fits captured := fits_iff.mpr ⟨flat_of_stems stems, short⟩
      rcases new_eq_ok_iff.mp loaded with ⟨again, accepted, rfl⟩
      have free := (exists_parse_eq_ok_iff fits captures.data captures.expirations written load).mp
        ⟨again, accepted⟩
      obtain ⟨loaded', accepted', data, -⟩ := exists_parse_of_free fits captures.data
        captures.expirations written load free
      cases accepted.symm.trans accepted'
      intro key value stored
      exact stems key value (Option.eq_some_of_filter_eq_some ((data key).symm.trans stored))

/-- In every life of a server, under every interleaving of its connections and cleanups,
each stored value was sent by some client of this or an earlier life for that very key,
and so was each text that GET and LRANGE show, inside of transactions as well. -/
theorem nothing_out_of_thin_air_ever (spill : Spill UInt8) {file : Option (List UInt8)}
    (era : Era target ever file) {load : ℕ → Clocks} (loaded : DB.new load file = .ok start)
    {workers : List Worker} (asked : ∀ c, Sent target workers c → ever c)
    (schedule : List (ℕ × Env)) :
    let final := Pool.run Call.step ⟨start, workers.map (Worker.prog spill target)⟩ schedule
    (∀ key value, final.shared.data.lookup key = some value →
      StemsValue ever DB.newInMemory key value) ∧
    ∀ (i : ℕ) (events : List ReadEvent) (exit : Exit) (conn : Connection Client),
      workers[i]? = some (.connection events) →
      final.threads[i]? = some (.ret (some (exit, conn))) →
      (Task.connection spill (.asks target) events).Returns
          (Answers ever DB.newInMemory fun _ => True) (exit, conn) ∧
      ∃ (answered rest : List Incoming) (replies : List RespType),
        requests target events [] = answered ++ rest ∧ replies.length = answered.length ∧
        conn.writer.written = replies.flatMap RespType.toBytes ∧
        ∀ (n : ℕ) (resp reply : RespType), answered[n]? = some (.frame resp) →
          replies[n]? = some reply → ∃ client,
            Answered (.asks target) (Answers ever DB.newInMemory fun _ => True)
              (answered.take n) Client.new (replies.take n) client ∧
            Told target ever DB.newInMemory client.queuedCommands resp reply := by
  intro final
  have starts := stems_of_era era loaded
  let admits : ℕ → Env → Prop := fun _ _ => True
  let readable : ℕ → Instant → Prop := fun _ _ => True
  have frames : ∀ i events, workers[i]? = some (.connection events) →
      ∀ resp, .frame resp ∈ requests target events [] → AsksAt (readable i) target ever resp :=
    fun i events listed resp member now _ c extracted =>
      asked c ⟨events, List.mem_of_getElem? listed, resp, member, now, extracted⟩
  have initially : Pool.Agrees (setting ever start) admits _ _ :=
    @agrees_workers _ _ _ _ spill _ readable (fun _ _ _ => trivial) frames
  have traced : Traced ever start final.shared :=
    initially.run_shared id stable_traced traced_start fun _ _ => trivial
  refine ⟨fun key value stored => stemsValue_trans starts (traced.value stored), ?_⟩
  intro i events exit conn listed ended
  have ending : final.Agrees (setting ever start) admits _ :=
    initially.run id fun _ _ => trivial
  have returns := (ending.returned ended events exit conn listed rfl).mono
    fun _ _ => answers_trans starts
  exact ⟨returns, told_of_returns (frames i events listed) returns⟩

/-- A value that is set in one life and read in the next. -/
theorem nothing_out_of_thin_air_ever_get :
    let ever : Command → Prop := fun c => c = .set "k" "v" none ∨ c = .get "k"
    let start : DB := ⟨FiniteMap.ofList [("k", .string "v")], ∅⟩
    let workers := [Worker.connection [.bytes (utf8Bytes "GET k\r\n")]]
    let final := Pool.run Call.step ⟨start, workers.map (Worker.prog .atFlush ⟨true, 24⟩)⟩
      ([0, 0, 0].map fun i => (i, Env.at 0))
    ∃ bytes, Era ⟨true, 24⟩ ever (some bytes) ∧
      DB.new (fun _ => ⟨0, 90⟩) (some bytes) = .ok start ∧
      final.threads[0]?.bind Worker.output = some (utf8Bytes "$1\r\nv\r\n") ∧
      ∃ replies : List RespType, utf8Bytes "$1\r\nv\r\n" = replies.flatMap RespType.toBytes ∧
        ∀ text, replies = [.bulkString text] →
          text = "nil" ∨ StemsText ever DB.newInMemory "k" text := by
  intro ever start workers final
  let setter := Worker.connection [.bytes (utf8Bytes "SET k v\r\n")]
  let saving := pool .atFlush ⟨true, 24⟩ DB.newInMemory [setter] ["k"] []
  let schedule := [1, 1, 1, 0].map fun i => (i, Env.at 0)
  let task := SaveTask.inOnePiece (fun _ => ⟨10, 20⟩) [("k", .string "v")] []
  have entry : ((saving.run Call.step schedule).threads[0]?.bind capture).map
      (fun db => db.data.lookup "k") = some (some (.string "v")) := by
    decide +kernel
  rcases Option.map_eq_some_iff.mp entry with ⟨captured, made, found⟩
  have returned := returned_of_capture made
  have half : schedule.foldl readsAfter 0 = 1 := rfl
  have returned' : (saving.run Call.step (schedule ++ [])).threads[0]? =
      some (.ret (some captured)) := returned
  have captures : Captures task captured :=
    captures_of_returned half returned' (by decide) (by decide) (by decide) (by decide)
      (congrArg (fun found => [found]) found) rfl
  have short : Short captured := short_of_captures captures (by decide) (by decide)
  have set : ∀ c, Sent ⟨true, 24⟩ [setter] c → ever c := by
    rintro c ⟨events, listed, resp, member, now, extracted⟩
    rw [Worker.connection.inj (List.mem_singleton.mp listed)] at member
    cases List.mem_singleton.mp member
    cases extracted
    exact Or.inl rfl
  have get : ∀ c, Sent ⟨true, 24⟩ workers c → ever c := by
    rintro c ⟨events, listed, resp, member, now, extracted⟩
    rw [Worker.connection.inj (List.mem_singleton.mp listed)] at member
    cases List.mem_singleton.mp member
    cases extracted
    exact Or.inr rfl
  obtain ⟨bytes, written⟩ : ∃ bytes, task.serialization = .ok bytes := ⟨_, rfl⟩
  have era : Era ⟨true, 24⟩ ever (some bytes) :=
    @Era.saved _ _ _ (fun _ => ⟨0, 0⟩) DB.newInMemory _ _ _ _ _ _ _ _ .fresh rfl set returned short
      captures written
  have loaded : DB.new (fun _ => ⟨0, 90⟩) (some bytes) = .ok start := by
    cases written
    rfl
  have sends : final.threads[0]?.bind Worker.output = some (utf8Bytes "$1\r\nv\r\n") := by
    decide +kernel
  rcases Worker.ended_of_output sends with ⟨exit, conn, ended, output⟩
  obtain ⟨-, reads⟩ := nothing_out_of_thin_air_ever .atFlush era loaded get
    ([0, 0, 0].map fun i => (i, Env.at 0))
  obtain ⟨-, answered, rest, replies, frames, length, sent, told⟩ := reads 0 _ exit conn rfl ended
  refine ⟨bytes, era, loaded, sends, replies, output ▸ sent, ?_⟩
  rintro text rfl
  let resp : RespType := .array [.bulkString "GET", .bulkString "k"]
  have asked : answered[0]? = some (.frame resp) := by
    rcases answered with _ | ⟨first, others⟩
    · cases length
    · cases (List.cons.inj frames).1
      rfl
  rcases told 0 resp (.bulkString text) asked rfl with ⟨client, -, shown⟩
  refine shown.get "k" text ?_ rfl
  intro now c extracted
  cases extracted
  rfl

end Ember.Rdb.Lives
