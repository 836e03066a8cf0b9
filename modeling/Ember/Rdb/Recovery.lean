import Ember.Rdb.Restart
import Ember.Rdb.SnapshotFile

/-!
# Crashes and restarts

A server that clients send commands to, that saves its maps to a disk on which anything
can fail, that crashes at any moment and is started again, over and over.  As long as no
save begins before the last one has ended and no reserved key gets a deadline, it always
starts again, with what the last published save captured.
-/

namespace Ember

open Ember.Base Ember.Database Ember.Resp Ember.Rdb Ember.Rdb.SnapshotFile

/-! ## The maps that a dispatch saves -/

namespace Dispatcher

/-- The maps at each SAVE that EXEC comes to. -/
def savedInQueue (target : Target) (clock : ℕ → Instant) : List Command → Session → List DB
  | [], _ => []
  | c :: rest, session =>
      (if c = .save then [session.db] else []) ++
        match executeCommand target clock 1 session c with
        | some (.ok _, session) => savedInQueue target clock rest session
        | _ => []

/-- The maps at each SAVE that a dispatch executes. -/
def saved (target : Target) (clock : ℕ → Instant) (session : Session) : Command → List DB
  | .save => if session.client.inTransaction then [] else [session.db]
  | .exec => savedInQueue target clock session.client.queuedCommands session
  | _ => []

end Dispatcher

/-- The maps that are saved in a step of the server. -/
def Server.saved (target : Target) (server : Server) : Event → List DB
  | .dispatch id cmd clock =>
      Dispatcher.saved target clock ⟨server.clients id, server.db, 0⟩ cmd
  | .cleanup _ => []

namespace Rdb.Recovery

/-! ## The life of a server -/

/-- The maps were captured for a save. -/
structure Captures (task : SaveTask) (db : DB) : Prop where
  data : FiniteMap.Traverses task.db db.data
  expirations : FiniteMap.Traverses task.expirations db.expirations

/-- A running server with the saves that it has spawned. -/
structure Process where
  server : Server
  tasks : List SaveTask
  threads : List (FileProg (Outcome String Unit))

/-- A save has created its temporary file and is not yet at its end. -/
def Underway (thread : FileProg (Outcome String Unit)) : Prop :=
  match thread.nextOp with
  | some (.write _ _ _) | some (.rename _ _) => True
  | some (.create _) | none => False

instance : (thread : FileProg (Outcome String Unit)) → Decidable (Underway thread)
  | .ret _ | .call (.create _) _ => isFalse id
  | .call (.write _ _ _) _ | .call (.rename _ _) _ => isTrue trivial

namespace Process

/-- A server that has just been started. -/
def start (db : DB) : Process :=
  ⟨⟨db, fun _ => Client.new⟩, [], []⟩

/-- A command or a cleanup, with the saves that it spawns. -/
def serve (target : Target) (process : Process) (event : Server.Event)
    (spawned : List SaveTask) : Process :=
  ⟨process.server.step target event, process.tasks ++ spawned,
    process.threads ++ spawned.map (SaveTask.saveRdb rdbFile)⟩

/-- The next file call of a save. -/
def nextCall (process : Process) (i : ℕ) : Option (FileCall String) :=
  process.threads[i]?.bind Prog.nextOp

/-- A save is about to create its temporary file. -/
def begins (process : Process) (i : ℕ) : Bool :=
  match process.nextCall i with
  | some (.create _) => true
  | _ => false

/-- A save is about to give its temporary file the name of the snapshot. -/
def ends (process : Process) (i : ℕ) : Bool :=
  match process.nextCall i with
  | some (.rename _ _) => true
  | _ => false

/-- The files and the saves after a file call of one of them. -/
def turn (fs : FileSystem String) (process : Process) (i : ℕ) (fault : Option Fault) :
    Pool (FileSystem String) (FileCall String) FileCall.Response (Outcome String Unit) :=
  Pool.turn FileCall.step ⟨fs, process.threads⟩ (i, fault)

/-- The save that a file call publishes. -/
def publishes (process : Process) (i : ℕ) : Option Fault → Option SaveTask
  | none => if process.ends i then process.tasks[i]? else none
  | some _ => none

end Process

/-- The histories of a server, with the files, the process if there is one, and the save
that was published last.  Clients do not give a reserved key a deadline, and texts and
lists that are saved are shorter than 2³²; a save begins only when no other is under
way. -/
inductive History (target : Target) :
    FileSystem String → Option Process → Option SaveTask → Prop
  | fresh {fs : FileSystem String} (absent : fs.read rdbFile = none) : History target fs none none
  | start {fs : FileSystem String} {last : Option SaveTask} {load : ℕ → Clocks} {db : DB}
      (before : History target fs none last)
      (loaded : DB.new load (fs.read rdbFile) = .ok db) :
      History target fs (some (Process.start db)) last
  | serve {fs : FileSystem String} {process : Process} {last : Option SaveTask}
      (before : History target fs (some process) last) {event : Server.Event}
      {spawned : List SaveTask}
      (within : event.Within fun c => ∀ key, c.Schedules key → ¬Reserved key)
      (captured : List.Forall₂ Captures spawned (process.server.saved target event))
      (short : ∀ db ∈ process.server.saved target event, Short db) :
      History target fs (some (process.serve target event spawned)) last
  | file {fs : FileSystem String} {process : Process} {last : Option SaveTask}
      (before : History target fs (some process) last) {i : ℕ} {fault : Option Fault}
      (alone : process.begins i = true → ∀ thread ∈ process.threads, ¬Underway thread) :
      History target (process.turn fs i fault).shared
        (some { process with threads := (process.turn fs i fault).threads })
        (process.publishes i fault <|> last)
  | crash {fs : FileSystem String} {process : Process} {last : Option SaveTask}
      (before : History target fs (some process) last) : History target fs none last

/-- A save that comes to its end is published. -/
theorem History.publish {target : Target} {fs : FileSystem String} {process : Process}
    {last : Option SaveTask} (before : History target fs (some process) last) {i : ℕ}
    {task : SaveTask} (ends : process.ends i = true) (mine : process.tasks[i]? = some task) :
    History target (process.turn fs i none).shared
      (some { process with threads := (process.turn fs i none).threads }) (some task) := by
  have published : (process.publishes i none <|> last) = some task := by
    rw [Process.publishes, if_pos ends, mine]
    rfl
  rw [← published]
  apply before.file
  intro begins
  unfold Process.begins at begins
  unfold Process.ends at ends
  split at begins
  next created =>
    rw [created] at ends
    cases ends
  next => cases begins

/-! ## What is saved can be loaded -/

/-- The loader accepts the snapshot of these maps. -/
structure Loadable (db : DB) : Prop where
  fits : Fits db
  free : NoDeadline Reserved db

/-- The deadline that a key gets at a restart: as far ahead as its wall-clock millisecond
then is, or the time of loading once that has passed. -/
def restoredDeadline (saved load : Clocks) (deadline : Instant) : Instant :=
  load.instant + (max 0
    (savedDeadline (saved.system - saved.instant) deadline saved.instant - load.system)).toNat

/-- The milliseconds from the epoch to a deadline fit 64 bits. -/
def Representable (saved : Clocks) (deadline : Instant) : Prop :=
  (max deadline saved.instant : ℕ) + (saved.system - saved.instant) < 2 ^ 64 * 1000000

/-- The deadline of a key after a restart, from the one that a save captured.  Each record
of the file is written and read at a time of its own. -/
def Moved (task : SaveTask) (load : ℕ → Clocks) (key : String) :
    Option Instant → Option Instant → Prop
  | none, loaded => loaded = none
  | some deadline, loaded => ∃ i, task.expirations[i]? = some (key, deadline) ∧
      loaded.isSome = true ∧
      (Representable (task.clock i) deadline →
        loaded = some (restoredDeadline (task.clock i) (load i) deadline))

/-- The server starts from the file of a save with the values that the save captured,
except empty lists, and with their deadlines. -/
theorem Captures.exists_new {task : SaveTask} {captured : DB} (captures : Captures task captured)
    (loadable : Loadable captured) {bytes : List UInt8} (written : task.serialization = .ok bytes)
    (load : ℕ → Clocks) :
    ∃ db, DB.new load (some bytes) = .ok db ∧
      (∀ key, db.data.lookup key = (captured.data.lookup key).filter (· ≠ .list [])) ∧
      ∀ key, Moved task load key (captured.expirations.lookup key) (db.expirations.lookup key) := by
  obtain ⟨loaded, accepted, data, others, deadlines⟩ := exists_parse_of_free loadable.fits
    captures.data captures.expirations written load loadable.free
  refine ⟨⟨loaded.db, loaded.expirations⟩, ?_, data, fun key => ?_⟩
  · simp only [DB.new, loadRdb, accepted]
  · cases found : captured.expirations.lookup key with
    | none => exact others key found
    | some deadline =>
        have listed := captures.expirations.mem_iff.mpr found
        rcases List.mem_iff_getElem?.mp listed with ⟨i, here⟩
        rcases deadlines i key deadline here with ⟨ms, computed, bound⟩
        have ahead : (task.clock i).system = (task.clock i).instant +
            ((task.clock i).system - (task.clock i).instant) := by
          rw [add_sub_cancel]
        refine ⟨i, here, ?_, fun inRange => ?_⟩
        · rw [bound]
          rfl
        · rw [bound, loadDeadline_expiryMillis ahead inRange computed]
          rfl

/-- The maps that a server has after its start, if a given save was published last. -/
def Restores (load : ℕ → Clocks) (db : DB) : Option SaveTask → Prop
  | none => db = DB.newInMemory
  | some task => ∃ captured, Captures task captured ∧
      (∀ key, db.data.lookup key = (captured.data.lookup key).filter (· ≠ .list [])) ∧
      ∀ key, Moved task load key (captured.expirations.lookup key) (db.expirations.lookup key)

/-- The snapshot is that of the save that was published last. -/
def Snapshot (fs : FileSystem String) : Option SaveTask → Prop
  | none => fs.read rdbFile = none
  | some task => ∃ captured bytes, Captures task captured ∧ Loadable captured ∧
      task.serialization = .ok bytes ∧ fs.read rdbFile = some bytes

variable {target : Target} {fs fs' : FileSystem String} {last : Option SaveTask}

theorem Snapshot.of_read_eq (snapshot : Snapshot fs last)
    (same : fs'.read rdbFile = fs.read rdbFile) : Snapshot fs' last := by
  cases last with
  | none => exact same.trans snapshot
  | some task =>
      rcases snapshot with ⟨captured, bytes, captures, loadable, written, here⟩
      exact ⟨captured, bytes, captures, loadable, written, same.trans here⟩

/-- What the invariant of a running server says of its maps. -/
structure Sound (db : DB) : Prop where
  flat : Flat db
  free : NoDeadline Reserved db

/-- The snapshot can be loaded, and what is loaded is sound. -/
theorem Snapshot.restores (snapshot : Snapshot fs last) (load : ℕ → Clocks) :
    ∃ db, DB.new load (fs.read rdbFile) = .ok db ∧ Restores load db last ∧ Sound db := by
  cases last with
  | none =>
      rw [show fs.read rdbFile = none from snapshot]
      refine ⟨DB.newInMemory, rfl, rfl, ?_, fun _ _ => rfl⟩
      intro key items found
      cases found
  | some task =>
      rcases snapshot with ⟨captured, bytes, captures, loadable, written, here⟩
      rcases captures.exists_new loadable written load with ⟨db, loaded, data, deadlines⟩
      refine ⟨db, here ▸ loaded, ⟨captured, captures, data, deadlines⟩, ?_, ?_⟩
      · intro key items found
        rw [data] at found
        exact (fits_iff.mp loadable.fits).1 key items (Option.eq_some_of_filter_eq_some found)
      · intro key reserved
        have moved := deadlines key
        rwa [loadable.free key reserved] at moved

theorem sound_of_savedInQueue {clock : ℕ → Instant} {allowed : Command → Prop}
    (effects : ∀ now db c, ¬c.Controls → allowed c → Sound db →
      Sound (Dispatcher.effect target now db c).2) {commands : List Command}
    (plain : ∀ c ∈ commands, ¬c.Controls) (every : ∀ c ∈ commands, allowed c) {session : Session}
    (start : Sound session.db) :
    ∀ db ∈ Dispatcher.savedInQueue target clock commands session, Sound db := by
  induction commands generalizing session with
  | nil => intro db member; cases member
  | cons c rest ih =>
      rcases List.forall_mem_cons.mp plain with ⟨plainHead, plainRest⟩
      rcases List.forall_mem_cons.mp every with ⟨allowedHead, allowedRest⟩
      intro db member
      rw [Dispatcher.savedInQueue, Dispatcher.executeCommand_plain target clock plainHead] at member
      rcases List.mem_append.mp member with now | later
      · split at now
        · exact List.mem_singleton.mp now ▸ start
        · cases now
      · split at later
        next session' executed =>
          obtain rfl := congrArg Prod.snd (Option.some.inj executed)
          exact ih plainRest allowedRest (effects _ _ c plainHead allowedHead start) db later
        next => cases later

/-- The maps that a step of the server saves are sound. -/
theorem sound_of_saved {server : Server} {allowed : Command → Prop}
    (effects : ∀ now db c, ¬c.Controls → allowed c → Sound db →
      Sound (Dispatcher.effect target now db c).2)
    (keeps : Server.Keeps Sound allowed server) {event : Server.Event} :
    ∀ db ∈ server.saved target event, Sound db := by
  cases event with
  | cleanup run => intro db member; cases member
  | dispatch id cmd clock =>
      rcases keeps.clients id with ⟨wf, queued⟩
      intro db member
      cases cmd with
      | save =>
          simp only [Server.saved, Dispatcher.saved] at member
          split at member
          · cases member
          · exact List.mem_singleton.mp member ▸ keeps.db
      | exec =>
          exact sound_of_savedInQueue effects wf.plain queued keeps.db db member
      | _ => cases member

/-! ## The saves of a running server -/

/-- At most one save is under way, which holds the temporary file. -/
structure Saving (fs : FileSystem String) (stages : List (SaveTask × Stage))
    (tasks : List SaveTask) (threads : List (FileProg (Outcome String Unit)))
    (last : Option SaveTask) : Prop where
  threads_eq : threads = stages.map (thread rdbFile)
  tasks_eq : stages.map Prod.fst = tasks
  single : stages.Pairwise fun saver other =>
    ¬(Underway (thread rdbFile saver) ∧ Underway (thread rdbFile other))
  holds : ∀ saver ∈ stages, Underway (thread rdbFile saver) → Holds rdbFile fs saver
  captured : ∀ task ∈ tasks, ∃ db, Captures task db ∧ Loadable db
  snapshot : Snapshot fs last

namespace Saving

variable {stages before after : List (SaveTask × Stage)} {tasks : List SaveTask}
  {threads : List (FileProg (Outcome String Unit))} {task : SaveTask} {stage stage' : Stage}
  {last' : Option SaveTask}

/-- While a save is under way, no other one is. -/
theorem others (saving : Saving fs (before ++ (task, stage) :: after) tasks threads last)
    (here : Underway (thread rdbFile (task, stage))) :
    ∀ saver ∈ before ++ after, ¬Underway (thread rdbFile saver) := by
  rcases List.pairwise_append.mp saving.single with ⟨-, behind, across⟩
  intro saver member underway
  rcases List.mem_append.mp member with earlier | later
  · exact across saver earlier _ List.mem_cons_self ⟨underway, here⟩
  · exact (List.pairwise_cons.mp behind).1 saver later ⟨here, underway⟩

/-- A save goes on to another stage while no other one is under way. -/
theorem advance (saving : Saving fs (before ++ (task, stage) :: after) tasks threads last)
    (others : ∀ saver ∈ before ++ after, ¬Underway (thread rdbFile saver))
    (holds : Underway (thread rdbFile (task, stage')) → Holds rdbFile fs' (task, stage'))
    (snapshot : Snapshot fs' last') :
    Saving fs' (before ++ (task, stage') :: after) tasks
      (before.map (thread rdbFile) ++ thread rdbFile (task, stage') :: after.map (thread rdbFile))
      last' where
  threads_eq := by rw [List.map_append, List.map_cons]
  tasks_eq := by
    rw [← saving.tasks_eq, List.map_append, List.map_append, List.map_cons, List.map_cons]
  single := Pool.pairwise_replace saving.single
    (fun saver member underway => others saver (List.mem_append_left _ member) underway.1)
    (fun saver member underway => others saver (List.mem_append_right _ member) underway.2)
  holds := by
    intro saver member underway
    rcases List.mem_append.mp member with earlier | here
    · exact absurd underway (others saver (List.mem_append_left _ earlier))
    · rcases List.mem_cons.mp here with rfl | later
      · exact holds underway
      · exact absurd underway (others saver (List.mem_append_right _ later))
  captured := saving.captured
  snapshot := snapshot

/-- The save that is published by a call of a given save. -/
def published (task : SaveTask) (last : Option SaveTask) :
    FileCall String → Option Fault → Option SaveTask
  | .rename _ _, none => some task
  | _, _ => last

/-- The snapshot after a call of a save. -/
theorem snapshot_of_publishes (saving : Saving fs stages tasks threads last) (member : task ∈ tasks)
    {op : FileCall String} {fault : Option Fault}
    (publishes : Publishes task (fs.read rdbFile) (fs'.read rdbFile) op fault) :
    Snapshot fs' (published task last op fault) := by
  unfold Publishes at publishes
  split at publishes
  next =>
    rcases publishes with ⟨bytes, complete, here⟩
    rcases saving.captured task member with ⟨captured, captures, loadable⟩
    exact ⟨captured, bytes, captures, loadable, complete, here⟩
  next other =>
    have same : published task last op fault = last := by
      unfold published
      split
      next => exact absurd rfl (other _ _ rfl)
      next => rfl
    rw [same]
    exact saving.snapshot.of_read_eq publishes

theorem underway_of_call {prog : FileProg (Outcome String Unit)} {op : FileCall String}
    {next : op.Response → FileProg (Outcome String Unit)} (here : prog = .call op next)
    (opened : ∀ path, op ≠ .create path) : Underway prog := by
  rw [here]
  cases op with
  | create path => exact absurd rfl (opened path)
  | write | rename => trivial

/-- One file call of a server that runs. -/
theorem turn {process : Process} (saving : Saving fs stages process.tasks process.threads last)
    (i : ℕ) (fault : Option Fault)
    (alone : process.begins i = true → ∀ thread ∈ process.threads, ¬Underway thread) :
    ∃ stages', Saving (process.turn fs i fault).shared stages' process.tasks
      (process.turn fs i fault).threads (process.publishes i fault <|> last) := by
  rcases @Pool.turn_stages _ _ _ _ _ ⟨fs, process.threads⟩ _ _ _ FileCall.step
      saving.threads_eq (i, fault) with
    ⟨same, idle⟩ | ⟨before, ⟨task, stage⟩, after, op, next, rfl, here, position, call, made⟩
  · have nothing : process.publishes i fault = none := by
      cases fault with
      | none =>
          rw [Process.publishes, Process.ends, show process.nextCall i = none from idle]
          rfl
      | some fault => rfl
    rw [Process.turn, same, nothing]
    exact ⟨stages, saving⟩
  · have others : ∀ saver ∈ before ++ after, ¬Underway (thread rdbFile saver) := by
      by_cases creates : ∃ path, op = .create path
      · rcases creates with ⟨path, rfl⟩
        have begins : process.begins i = true := by
          rw [Process.begins, show process.nextCall i = some (.create path) from call]
        intro saver member
        apply alone begins
        rw [saving.threads_eq]
        apply List.mem_map_of_mem
        exact List.mem_append.mpr ((List.mem_append.mp member).imp_right (List.mem_cons_of_mem _))
      · exact saving.others (underway_of_call here (not_exists.mp creates))
    have holding (opened : ∀ path, op ≠ .create path) : Holds rdbFile fs (task, stage) :=
      saving.holds _ (List.mem_append_right _ List.mem_cons_self) (underway_of_call here opened)
    have member : task ∈ process.tasks := by
      rw [← saving.tasks_eq, List.map_append]
      exact List.mem_append_right _ List.mem_cons_self
    rcases exists_stage here fault holding with ⟨stage', rest, holds, published⟩
    have snapshot := saving.snapshot_of_publishes member published
    have publishes : (process.publishes i fault <|> last) =
        Saving.published task last op fault := by
      have mine : process.tasks[i]? = some task := by
        rw [← saving.tasks_eq, ← show before.length = i from position, List.map_append,
          List.getElem?_append_right (List.length_map Prod.fst).le, List.length_map, Nat.sub_self]
        rfl
      cases fault with
      | some fault => cases op <;> rfl
      | none =>
          rw [Process.publishes, Process.ends, show process.nextCall i = some op from call]
          cases op with
          | create | write => rfl
          | rename => exact congrArg (· <|> last) mine
    rw [Process.turn, made, publishes, ← rest]
    exact ⟨_, saving.advance others (fun _ => holds) snapshot⟩

end Saving

/-- What the commands of a history keep. -/
theorem sound_effect {now : Instant} {db : DB} {c : Command} (plain : ¬c.Controls)
    (schedules : ∀ key, c.Schedules key → ¬Reserved key) (sound : Sound db) :
    Sound (Dispatcher.effect target now db c).2 :=
  ⟨sound.flat.of_effect plain, sound.free.of_effect plain schedules⟩

/-- What holds along a history: of the files, and of a running server. -/
structure Safe (fs : FileSystem String) (running : Option Process) (last : Option SaveTask) :
    Prop where
  snapshot : Snapshot fs last
  server : ∀ process, running = some process →
    process.server.Keeps Sound fun c => ∀ key, c.Schedules key → ¬Reserved key
  saves : ∀ process, running = some process →
    ∃ stages, Saving fs stages process.tasks process.threads last

/-- Saves that have not begun are not under way. -/
theorem not_underway_waiting {spawned : List SaveTask} {saver : SaveTask × Stage}
    (member : saver ∈ spawned.map fun task => (task, Stage.waiting)) :
    ¬Underway (thread rdbFile saver) := by
  rcases List.mem_map.mp member with ⟨task, -, rfl⟩
  exact id

theorem Saving.spawn {stages : List (SaveTask × Stage)} {process : Process}
    (saving : Saving fs stages process.tasks process.threads last) {spawned : List SaveTask}
    (captured : ∀ task ∈ spawned, ∃ db, Captures task db ∧ Loadable db) (event : Server.Event) :
    Saving fs (stages ++ spawned.map fun task => (task, .waiting))
      (process.serve target event spawned).tasks (process.serve target event spawned).threads
      last where
  threads_eq := by
    rw [Process.serve, saving.threads_eq, List.map_append, List.map_map]
    rfl
  tasks_eq := by
    rw [Process.serve, List.map_append, saving.tasks_eq, List.map_map]
    exact congrArg (process.tasks ++ ·) (List.map_id spawned)
  single := by
    refine List.pairwise_append.mpr ⟨saving.single, ?_, ?_⟩
    · rw [List.pairwise_iff_forall_sublist]
      intro saver other both underway
      exact not_underway_waiting (both.subset List.mem_cons_self) underway.1
    · exact fun _ _ other member underway => not_underway_waiting member underway.2
  holds := by
    intro saver member underway
    rcases List.mem_append.mp member with old | new
    · exact saving.holds saver old underway
    · exact absurd underway (not_underway_waiting new)
  captured := by
    intro task member
    rcases List.mem_append.mp member with old | new
    · exact saving.captured task old
    · exact captured task new
  snapshot := saving.snapshot

theorem captured_of_saved {process : Process} {event : Server.Event} {spawned : List SaveTask}
    (sound : ∀ db ∈ process.server.saved target event, Sound db)
    (captured : List.Forall₂ Captures spawned (process.server.saved target event))
    (short : ∀ db ∈ process.server.saved target event, Short db) :
    ∀ task ∈ spawned, ∃ db, Captures task db ∧ Loadable db := by
  intro task member
  rcases List.mem_iff_getElem.mp member with ⟨i, inside, rfl⟩
  have inside' := captured.length_eq ▸ inside
  have here := List.getElem_mem inside'
  refine ⟨_, (List.forall₂_iff_get.mp captured).2 i inside inside', ?_, (sound _ here).free⟩
  exact fits_iff.mpr ⟨(sound _ here).flat, short _ here⟩

theorem safe_of_history {running : Option Process} (history : History target fs running last) :
    Safe fs running last := by
  induction history with
  | fresh absent => exact ⟨absent, nofun, nofun⟩
  | @start fs last load db before loaded ih =>
      refine ⟨ih.snapshot, ?_, ?_⟩
      · rintro _ ⟨⟩
        rcases ih.snapshot.restores load with ⟨db', loaded', -, sound⟩
        cases loaded.symm.trans loaded'
        exact ⟨sound, fun _ => ⟨Client.wellFormed_of_queue_nil false, nofun⟩⟩
      · rintro _ ⟨⟩
        exact ⟨[], rfl, rfl, .nil, nofun, nofun, ih.snapshot⟩
  | @serve fs process last before event spawned within captured short ih =>
      have keeps := ih.server process rfl
      rcases ih.saves process rfl with ⟨stages, saving⟩
      have effects : ∀ now db c, ¬Command.Controls c → (∀ key, c.Schedules key → ¬Reserved key) →
          Sound db → Sound (Dispatcher.effect target now db c).2 :=
        fun now db c => sound_effect
      refine ⟨ih.snapshot, ?_, ?_⟩
      · rintro _ ⟨⟩
        exact keeps.step effects
          (fun _ _ _ reaped sound => ⟨sound.flat.of_reaped reaped, sound.free.of_reaped reaped⟩)
          within
      · rintro _ ⟨⟩
        exact ⟨_, saving.spawn
          (captured_of_saved (sound_of_saved effects keeps) captured short) event⟩
  | @file fs process last before i fault alone ih =>
      rcases ih.saves process rfl with ⟨stages, saving⟩
      rcases saving.turn i fault alone with ⟨stages', saving'⟩
      refine ⟨saving'.snapshot, ?_, ?_⟩
      · rintro _ ⟨⟩
        exact ih.server process rfl
      · rintro _ ⟨⟩
        exact ⟨stages', saving'⟩
  | crash before ih => exact ⟨ih.snapshot, nofun, nofun⟩

/-- In every history a server can be started from its files, whatever failed on its disk
and whenever it crashed, and comes up with the maps that the save captured which was
published last. -/
theorem restart_recovers_last_save {running : Option Process}
    (history : History target fs running last) (load : ℕ → Clocks) :
    ∃ db, DB.new load (fs.read rdbFile) = .ok db ∧ Restores load db last := by
  rcases (safe_of_history history).snapshot.restores load with ⟨db, loaded, restores, -⟩
  exact ⟨db, loaded, restores⟩

/-- A save of a key with a deadline is published, and after another SET there is one that
finds the disk full.  The deadline was six milliseconds ahead, and four of them are left
when the server is started again two milliseconds later. -/
theorem restart_recovers_last_save_disk_full :
    let task := SaveTask.inOnePiece (fun _ => ⟨1000000, 2000000⟩) [("a", .string "1")]
      [("a", 7000000)]
    ∃ fs, History ⟨true, 24⟩ fs none (some task) ∧
      ∃ db, DB.new (fun _ => ⟨100, 4000000⟩) (fs.read rdbFile) = .ok db ∧
        db.data.lookup "a" = some (.string "1") ∧
        db.expirations.lookup "a" = some 4000100 := by
  intro task
  let second := SaveTask.inOnePiece (fun _ => ⟨1000000, 2000000⟩) [("a", .string "2")] []
  have captures : Captures task
      ⟨FiniteMap.ofList [("a", .string "1")], FiniteMap.ofList [("a", 7000000)]⟩ :=
    ⟨FiniteMap.traverses_ofList (List.nodup_singleton _),
      FiniteMap.traverses_ofList (List.nodup_singleton _)⟩
  have captures' : Captures second
      ⟨FiniteMap.ofList [("a", .string "2")], FiniteMap.ofList []⟩ :=
    ⟨FiniteMap.traverses_ofList (List.nodup_singleton _), FiniteMap.traverses_ofList List.nodup_nil⟩
  have short {task : SaveTask} {captured : DB} (captures : Captures task captured)
      (entries : ∀ entry ∈ task.db, ShortText entry.1 ∧ Storable entry.2)
      (keys : ∀ entry ∈ task.expirations, ShortText entry.1) :
      ∀ db ∈ [captured], Short db := by
    intro db member
    rw [List.mem_singleton.mp member]
    exact (fits_iff.mp (.of_traverses captures.data captures.expirations entries keys)).2
  let set (value : String) (expiry : Option Instant) : Server.Event :=
    .dispatch 0 (.set "a" value expiry) fun _ => 0
  let save : Server.Event := .dispatch 0 .save fun _ => 0
  have started : History ⟨true, 24⟩ .empty (some (Process.start DB.newInMemory)) none :=
    @History.start _ _ _ (fun _ => ⟨0, 0⟩) _ (.fresh rfl) rfl
  have first := @History.serve _ _ _ _ started (set "1" (some 7000000)) []
    (by rintro key ⟨rfl, -⟩; decide) .nil (List.forall_mem_nil _)
  have saving := @History.serve _ _ _ _ first save [task] (by rintro key ⟨⟩)
    (.cons captures .nil) (short captures (by decide) (by decide))
  have created := @History.file _ _ _ _ saving 0 none (by decide +kernel)
  have written := @History.file _ _ _ _ created 0 none (by decide +kernel)
  have renamed := @History.publish _ _ _ _ written 0 task (by decide +kernel) rfl
  have again := @History.serve _ _ _ _ renamed (set "2" none) [] (by rintro key ⟨-, ⟨⟩⟩) .nil
    (List.forall_mem_nil _)
  have resaving := @History.serve _ _ _ _ again save [second] (by rintro key ⟨⟩)
    (.cons captures' .nil) (short captures' (by decide) (by decide))
  have full := @History.file _ _ _ _ resaving 1
    (some ⟨"No space left on device (os error 28)", 0, false⟩) (by decide +kernel)
  refine ⟨_, full.crash, ?_⟩
  rcases restart_recovers_last_save full.crash fun _ => ⟨100, 4000000⟩ with
    ⟨db, loaded, captured, found, data, deadlines⟩
  have value : captured.data.lookup "a" = some (.string "1") :=
    found.data.mem_iff.mp (List.mem_singleton.mpr rfl)
  have deadline : captured.expirations.lookup "a" = some 7000000 :=
    found.expirations.mem_iff.mp (List.mem_singleton.mpr rfl)
  have moved := deadlines "a"
  rw [deadline] at moved
  rcases moved with ⟨i, -, -, restored⟩
  refine ⟨db, loaded, (data "a").trans ?_, (restored ?_).trans ?_⟩
  · rw [value]
    rfl
  · change ((max 7000000 1000000 : ℕ) : ℤ) + (2000000 - (1000000 : ℕ)) < 2 ^ 64 * 1000000
    decide
  · change some (restoredDeadline ⟨1000000, 2000000⟩ ⟨100, 4000000⟩ 7000000) = some 4000100
    decide

end Rdb.Recovery

end Ember
