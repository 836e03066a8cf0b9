import Ember.Base.FileSystem
import Ember.Rdb.Writer

/-!
# The snapshot file

A save writes its snapshot to a temporary file, which it then renames.  All saves use
the same temporary name.  The file under the name of the snapshot is whole at every
moment of a run in which a save does not write or rename any more once another one has
created the temporary file; otherwise a save can publish what another has truncated.
-/

namespace Ember.Rdb

open Ember.Base Ember.Database

/-- Where the server keeps its snapshot. -/
def rdbFile : String :=
  "snapshots/dump.rdb"

/-- The name under which a snapshot is written. -/
def tempPath (filePath : String) : String :=
  filePath ++ ".tmp"

theorem ne_tempPath (filePath : String) : filePath ≠ tempPath filePath := by
  intro same
  have lengths := congrArg String.length same
  rw [tempPath, String.length_append] at lengths
  exact absurd lengths (Nat.ne_of_lt (Nat.lt_add_of_pos_right (by decide)))

/-- Programs of file calls. -/
abbrev FileProg := Prog (FileCall String) FileCall.Response

/-- The captured maps, in the orders in which they are written, and the pieces in which
the buffered writer hands the bytes on.  They make up the whole serialization if there
is one; otherwise the task panics after them. -/
structure SaveTask where
  clock : ℕ → Clocks
  db : List (String × RedisObject)
  expirations : List (String × Instant)
  pieces : List (List UInt8)
  flatten_pieces : ∀ bytes, saveRdb clock db expirations = .ok bytes → pieces.flatten = bytes

namespace SaveTask

/-- The file that the task is to leave behind. -/
def serialization (task : SaveTask) : Outcome String (List UInt8) :=
  saveRdb task.clock task.db task.expirations

/-- What a save returns after the rename. -/
def result : Except String Unit → Outcome String Unit
  | .ok () => .ok ()
  | .error reason => .error reason

/-- The end of a save: the temporary file gets its name, unless the task has panicked. -/
def publish (filePath : String) (task : SaveTask) : FileProg (Outcome String Unit) :=
  match task.serialization with
  | .ok _ => do
      let renamed ← FileCall.perform (.rename (tempPath filePath) filePath)
      return result renamed
  | .error reason => return .error reason
  | .panic => return .panic

/-- The dropped writer tries once more to write what it still holds. -/
def retry (file offset : ℕ) (rest : List UInt8) (reason : String) :
    FileProg (Outcome String Unit) := do
  let _ ← FileCall.perform (.write file offset rest)
  return .error reason

/-- The writes that are left, each where the one before it ended, up to the first that
fails, and the end. -/
def finish (filePath : String) (task : SaveTask) (file : ℕ) :
    ℕ → List (List UInt8) → FileProg (Outcome String Unit)
  | _, [] => task.publish filePath
  | offset, piece :: rest => do
      match ← FileCall.perform (.write file offset piece) with
      | none => finish filePath task file (offset + piece.length) rest
      | some fault =>
          if fault.buffered then
            retry file (offset + fault.written) (piece.drop fault.written) fault.reason
          else
            return .error fault.reason

/-- A task that hands on all of its bytes at once. -/
def inOnePiece (clock : ℕ → Clocks) (db : List (String × RedisObject))
    (expirations : List (String × Instant)) : SaveTask where
  clock := clock
  db := db
  expirations := expirations
  pieces :=
    match Rdb.saveRdb clock db expirations with
    | .ok bytes => [bytes]
    | .error _ | .panic => []
  flatten_pieces bytes complete := by
    rw [complete]
    exact List.flatten_singleton

/-- The task that a save spawns. -/
def saveRdb (filePath : String) (task : SaveTask) : FileProg (Outcome String Unit) := do
  match ← FileCall.perform (.create (tempPath filePath)) with
  | .ok file => task.finish filePath file 0 task.pieces
  | .error reason => return .error reason

/-- A save that comes to its end with a call has not panicked. -/
theorem publish_calls {task : SaveTask} {filePath : String} {op : FileCall String}
    {next : op.Response → FileProg (Outcome String Unit)}
    (here : task.publish filePath = .call op next) :
    ∃ bytes, task.serialization = .ok bytes ∧ task.publish filePath =
      .call (.rename (tempPath filePath) filePath) fun renamed => .ret (result renamed) := by
  unfold publish at here ⊢
  cases complete : task.serialization with
  | ok bytes => exact ⟨bytes, rfl, rfl⟩
  | error reason =>
      rw [complete] at here
      cases here
  | panic =>
      rw [complete] at here
      cases here

end SaveTask

namespace SnapshotFile

/-- Saves that run side by side. -/
abbrev Saves := Pool (FileSystem String) (FileCall String) FileCall.Response (Outcome String Unit)

/-- The tasks of several saves. -/
def saves (filePath : String) (fs : FileSystem String) (tasks : List SaveTask) : Saves :=
  ⟨fs, tasks.map (SaveTask.saveRdb filePath)⟩

/-- The call that a turn makes. -/
def madeCall (pool : Saves) (turn : ℕ × Option Fault) : Option (FileCall String) :=
  pool.threads[turn.1]?.bind Prog.nextOp

/-- The task that created the temporary file last, after a turn. -/
def lastCreator (last : Option ℕ) (pool : Saves) (turn : ℕ × Option Fault) : Option ℕ :=
  match madeCall pool turn, turn.2 with
  | some (.create _), none => some turn.1
  | _, _ => last

/-- A turn that writes or renames is one of the task that created the temporary file
last. -/
def ByLastCreator (last : Option ℕ) (pool : Saves) (turn : ℕ × Option Fault) : Prop :=
  match madeCall pool turn with
  | some (.write _ _ _) | some (.rename _ _) => last = some turn.1
  | _ => True

/-- All writes and renames of a schedule are made by the task that created the temporary
file last. -/
def Exclusive : Option ℕ → Saves → List (ℕ × Option Fault) → Prop
  | _, _, [] => True
  | last, pool, turn :: rest =>
      ByLastCreator last pool turn ∧
        Exclusive (lastCreator last pool turn) (pool.turn FileCall.step turn) rest

theorem Exclusive.of_append {last : Option ℕ} {pool : Saves}
    {before after : List (ℕ × Option Fault)}
    (exclusive : Exclusive last pool (before ++ after)) : Exclusive last pool before := by
  induction before generalizing last pool with
  | nil => trivial
  | cons turn before ih => exact ⟨exclusive.1, ih exclusive.2⟩

/-! ## The stages of a save -/

/-- How far a save has come. -/
inductive Stage where
  | waiting
  | writing (file : ℕ) (written : List UInt8) (left : List (List UInt8))
  | retrying (file offset : ℕ) (rest : List UInt8) (reason : String)
  | done (result : Outcome String Unit)

/-- What is left of a save. -/
def thread (filePath : String) : SaveTask × Stage → FileProg (Outcome String Unit)
  | (task, .waiting) => task.saveRdb filePath
  | (task, .writing file written left) => task.finish filePath file written.length left
  | (_, .retrying file offset rest reason) => SaveTask.retry file offset rest reason
  | (_, .done result) => return result

/-- The temporary file is that of a save which has come so far. -/
def Holds (filePath : String) (fs : FileSystem String) : SaveTask × Stage → Prop
  | (task, .writing file written left) =>
      fs.names (tempPath filePath) = some file ∧ fs.files file = written ∧
        written ++ left.flatten = task.pieces.flatten
  | (_, .retrying file _ _ _) => fs.names (tempPath filePath) = some file
  | _ => True

/-- What a call of a save makes of the snapshot: a rename that does not fail publishes the
whole serialization, and everything else leaves the snapshot alone. -/
def Publishes (task : SaveTask) (before after : Option (List UInt8)) :
    FileCall String → Option Fault → Prop
  | .rename _ _, none => ∃ bytes, task.serialization = .ok bytes ∧ after = some bytes
  | _, _ => after = before

section Step

variable {filePath : String} {fs : FileSystem String} {task : SaveTask} {file : ℕ}
  {written piece : List UInt8} {left : List (List UInt8)}

/-- A created temporary file is empty. -/
theorem holds_create (filePath : String) (fs : FileSystem String) (task : SaveTask) :
    Holds filePath (fs.create (tempPath filePath)).2
      (task, .writing (fs.create (tempPath filePath)).1 [] task.pieces) :=
  ⟨fs.names_create _, fs.files_create _, rfl⟩

/-- Writing to the temporary file leaves the snapshot alone. -/
theorem read_write_temp (named : fs.names (tempPath filePath) = some file) (offset : ℕ)
    (bytes : List UInt8) : (fs.write file offset bytes).read filePath = fs.read filePath :=
  FileSystem.read_setFile_of_ne named (ne_tempPath filePath) _

/-- A save that still holds its file adds a piece to it. -/
theorem Holds.write (holds : Holds filePath fs (task, .writing file written (piece :: left))) :
    Holds filePath (fs.write file written.length piece)
      (task, .writing file (written ++ piece) left) := by
  rcases holds with ⟨named, contents, all⟩
  refine ⟨named, ?_, ?_⟩
  · rw [FileSystem.write, FileSystem.files_setFile_self, contents, FileSystem.writeAt_length]
  · rw [← all, List.flatten_cons, List.append_assoc]

/-- A save that still holds its file publishes all of its serialization. -/
theorem Holds.rename {bytes : List UInt8}
    (holds : Holds filePath fs (task, .writing file written []))
    (complete : task.serialization = .ok bytes) :
    (fs.rename (tempPath filePath) filePath).2.read filePath = some bytes := by
  rcases holds with ⟨named, contents, all⟩
  rw [FileSystem.read_rename named, contents, ← task.flatten_pieces bytes complete, ← all,
    List.flatten_nil, List.append_nil]

/-- A file call, whether it fails or not, leads a save to another stage. -/
theorem exists_stage {stage : Stage} {op : FileCall String}
    {next : op.Response → FileProg (Outcome String Unit)}
    (here : thread filePath (task, stage) = .call op next) (fault : Option Fault)
    (holds : (∀ path, op ≠ .create path) → Holds filePath fs (task, stage)) :
    let made := FileCall.step fault op fs
    ∃ stage', thread filePath (task, stage') = next made.1 ∧
      Holds filePath made.2 (task, stage') ∧
      Publishes task (fs.read filePath) (made.2.read filePath) op fault := by
  cases stage with
  | done result => cases here
  | waiting =>
      cases here
      cases fault with
      | none =>
          exact ⟨.writing (fs.create (tempPath filePath)).1 [] task.pieces, rfl,
            holds_create filePath fs task, fs.read_create_of_ne (ne_tempPath filePath)⟩
      | some fault => exact ⟨.done (.error fault.reason), rfl, trivial, rfl⟩
  | retrying file offset rest reason =>
      cases here
      have named := holds (by rintro path ⟨⟩)
      refine ⟨.done (.error reason), rfl, trivial, ?_⟩
      cases fault <;> exact read_write_temp named _ _
  | writing file written left =>
      cases left with
      | cons piece left =>
          cases here
          have holding := holds (by rintro path ⟨⟩)
          cases fault with
          | none =>
              refine ⟨.writing file (written ++ piece) left, ?_, holding.write,
                read_write_temp holding.1 _ _⟩
              rw [thread, List.length_append]
              rfl
          | some fault =>
              have untouched := read_write_temp holding.1 written.length (piece.take fault.written)
              by_cases buffered : fault.buffered = true
              · refine ⟨.retrying file (written.length + fault.written) (piece.drop fault.written)
                  fault.reason, ?_, holding.1, untouched⟩
                exact (if_pos buffered).symm
              · exact ⟨.done (.error fault.reason), (if_neg buffered).symm, trivial, untouched⟩
      | nil =>
          rcases SaveTask.publish_calls here with ⟨bytes, complete, ends⟩
          cases here.symm.trans ends
          have holding := holds (by rintro path ⟨⟩)
          refine ⟨.done _, rfl, trivial, ?_⟩
          cases fault with
          | none => exact ⟨bytes, complete, holding.rename complete⟩
          | some fault => rfl

end Step

/-! ## The snapshot during the saves -/

/-- The name refers to what it referred to at first, or to the serialization of a task. -/
def Whole (filePath : String) (initial : Option (List UInt8)) (tasks : List SaveTask)
    (fs : FileSystem String) : Prop :=
  fs.read filePath = initial ∨
    ∃ task ∈ tasks, ∃ bytes, task.serialization = .ok bytes ∧ fs.read filePath = some bytes

/-- The snapshot is whole, and the last creator of the temporary file still holds it. -/
structure Safe (filePath : String) (initial : Option (List UInt8)) (tasks : List SaveTask)
    (last : Option ℕ) (stages : List (SaveTask × Stage)) (pool : Saves) : Prop where
  threads : pool.threads = stages.map (thread filePath)
  tasks_eq : stages.map Prod.fst = tasks
  whole : Whole filePath initial tasks pool.shared
  holds : ∀ i saver, last = some i → stages[i]? = some saver → Holds filePath pool.shared saver

variable {filePath : String} {initial : Option (List UInt8)} {tasks : List SaveTask}
  {last : Option ℕ} {stages : List (SaveTask × Stage)} {pool : Saves} {fs : FileSystem String}

/-- The calls of a save keep the snapshot whole. -/
theorem Whole.of_publishes {task : SaveTask} {op : FileCall String} {fault : Option Fault}
    (whole : Whole filePath initial tasks fs) (member : task ∈ tasks) {fs' : FileSystem String}
    (publishes : Publishes task (fs.read filePath) (fs'.read filePath) op fault) :
    Whole filePath initial tasks fs' := by
  unfold Publishes at publishes
  split at publishes
  next =>
    rcases publishes with ⟨bytes, complete, published⟩
    exact Or.inr ⟨task, member, bytes, complete, published⟩
  next =>
    unfold Whole
    rw [publishes]
    exact whole

/-- A task that does not create the temporary file is its last creator. -/
theorem eq_lastCreator {turn : ℕ × Option Fault} {op : FileCall String}
    (call : madeCall pool turn = some op) (opened : ∀ path, op ≠ .create path)
    (allowed : ByLastCreator last pool turn) : last = some turn.1 := by
  unfold ByLastCreator at allowed
  rw [call] at allowed
  cases op with
  | create path => exact absurd rfl (opened path)
  | write file offset bytes => exact allowed
  | rename source target => exact allowed

/-- A task that makes a call is then the last creator of the temporary file, unless it has
failed to create it. -/
theorem lastCreator_cases {turn : ℕ × Option Fault} {op : FileCall String}
    (call : madeCall pool turn = some op) (allowed : ByLastCreator last pool turn) :
    lastCreator last pool turn = some turn.1 ∨
      lastCreator last pool turn = last ∧ (FileCall.step turn.2 op fs).2 = fs := by
  rcases turn with ⟨i, fault⟩
  unfold lastCreator
  rw [call]
  cases op with
  | create path =>
      cases fault with
      | none => exact Or.inl rfl
      | some fault => exact Or.inr ⟨rfl, rfl⟩
  | write | rename => exact Or.inl (eq_lastCreator call (by rintro path ⟨⟩) allowed)

namespace Safe

variable {task : SaveTask} {stage stage' : Stage} {before after : List (SaveTask × Stage)}

/-- A save goes on to another stage, as the last creator of the temporary file or without
touching anything. -/
theorem advance {last' : Option ℕ}
    (safe : Safe filePath initial tasks last (before ++ (task, stage) :: after) pool)
    {fs : FileSystem String} (whole : Whole filePath initial tasks fs)
    (holds : Holds filePath fs (task, stage'))
    (creator : last' = some before.length ∨ last' = last ∧ fs = pool.shared) :
    Safe filePath initial tasks last' (before ++ (task, stage') :: after)
      ⟨fs, before.map (thread filePath) ++ thread filePath (task, stage') ::
        after.map (thread filePath)⟩ := by
  constructor
  · rw [List.map_append, List.map_cons]
  · rw [← safe.tasks_eq, List.map_append, List.map_append, List.map_cons, List.map_cons]
  · exact whole
  · intro i saver isLast present
    have replaced : before ++ (task, stage') :: after =
        (before ++ (task, stage) :: after).set before.length (task, stage') := by
      simp
    rw [replaced, List.getElem?_set] at present
    split at present
    next here =>
      rw [if_pos (by simp)] at present
      cases present
      exact holds
    next elsewhere =>
      rcases creator with itself | ⟨same, untouched⟩
      · exact absurd (Option.some.inj (itself.symm.trans isLast)) elsewhere
      · rw [untouched]
        exact safe.holds i saver (same ▸ isLast) present

theorem holds_at (safe : Safe filePath initial tasks (some before.length)
      (before ++ (task, stage) :: after) pool) : Holds filePath pool.shared (task, stage) := by
  apply safe.holds before.length _ rfl
  rw [List.getElem?_append_right (Nat.le_refl _), Nat.sub_self]
  rfl

/-- One turn, if its task may make it. -/
theorem turn (safe : Safe filePath initial tasks last stages pool) (turn : ℕ × Option Fault)
    (allowed : ByLastCreator last pool turn) :
    ∃ stages', Safe filePath initial tasks (lastCreator last pool turn) stages'
      (pool.turn FileCall.step turn) := by
  rcases Pool.turn_stages FileCall.step safe.threads turn with
    ⟨same, idle⟩ | ⟨before, ⟨task, stage⟩, after, op, next, rfl, here, position, call, made⟩
  · have sameLast : lastCreator last pool turn = last := by
      rw [lastCreator, madeCall, idle]
    rw [same, sameLast]
    exact ⟨stages, safe⟩
  · have holds (opened : ∀ path, op ≠ .create path) :
        Holds filePath pool.shared (task, stage) := by
      have creator := eq_lastCreator call opened allowed
      rw [creator, ← position] at safe
      exact safe.holds_at
    have member : task ∈ tasks := by
      rw [← safe.tasks_eq, List.map_append]
      exact List.mem_append_right _ List.mem_cons_self
    rcases exists_stage here turn.2 holds with ⟨stage', rest, holds', publishes⟩
    rw [made, ← rest]
    refine ⟨_, safe.advance (safe.whole.of_publishes member publishes) holds' ?_⟩
    rw [position]
    exact lastCreator_cases call allowed

/-- A whole run. -/
theorem run {schedule : List (ℕ × Option Fault)}
    (safe : Safe filePath initial tasks last stages pool)
    (exclusive : Exclusive last pool schedule) :
    Whole filePath initial tasks (pool.run FileCall.step schedule).shared := by
  induction schedule generalizing last stages pool with
  | nil => exact safe.whole
  | cons turn rest ih =>
      rcases safe.turn turn exclusive.1 with ⟨stages', next⟩
      exact ih next exclusive.2

end Safe

theorem safe_saves (filePath : String) (fs : FileSystem String) (tasks : List SaveTask) :
    Safe filePath (fs.read filePath) tasks none (tasks.map fun task => (task, .waiting))
      (saves filePath fs tasks) := by
  constructor
  · rw [List.map_map]
    rfl
  · rw [List.map_map]
    exact List.map_id tasks
  · exact Or.inl rfl
  · intro i saver isLast
    cases isLast

/-- If no save writes or renames any more once another one has created the temporary
file, then at every moment, wherever the saves stop, the snapshot is the one that was
there at first or the complete serialization of one of the saves. -/
theorem snapshot_whole (filePath : String) (fs : FileSystem String) (tasks : List SaveTask)
    {before after : List (ℕ × Option Fault)}
    (exclusive : Exclusive none (saves filePath fs tasks) (before ++ after)) :
    let now := ((saves filePath fs tasks).run FileCall.step before).shared.read filePath
    now = fs.read filePath ∨
      ∃ task ∈ tasks, ∃ bytes,
        Rdb.saveRdb task.clock task.db task.expirations = .ok bytes ∧ now = some bytes :=
  (safe_saves filePath fs tasks).run exclusive.of_append

/-- A save has come to its end when another one begins. -/
theorem snapshot_whole_one_after_other :
    let first := SaveTask.inOnePiece (fun _ => ⟨10, 20⟩) [("a", .string "1")] []
    let second := SaveTask.inOnePiece (fun _ => ⟨10, 20⟩) [("a", .string "2")] []
    let schedule := [0, 0, 0, 1, 1].map fun i => (i, none)
    let final := (saves rdbFile .empty [first, second]).run FileCall.step schedule
    let now := final.shared.read rdbFile
    now = none ∨ ∃ task ∈ [first, second], ∃ bytes,
      Rdb.saveRdb task.clock task.db task.expirations = .ok bytes ∧ now = some bytes := by
  have exclusive : Exclusive none
      (saves rdbFile .empty [
        SaveTask.inOnePiece (fun _ => ⟨10, 20⟩) [("a", .string "1")] [],
        SaveTask.inOnePiece (fun _ => ⟨10, 20⟩) [("a", .string "2")] []])
      (([0, 0, 0, 1, 1].map fun i => (i, none)) ++ []) :=
    ⟨trivial, rfl, rfl, trivial, rfl, trivial⟩
  exact snapshot_whole rdbFile .empty _ exclusive

/-- No serialization is empty. -/
theorem saveRdb_ne_nil (clock : ℕ → Clocks) (db : List (String × RedisObject))
    (expirations : List (String × Instant)) : Rdb.saveRdb clock db expirations ≠ .ok [] := by
  intro complete
  simp only [Rdb.saveRdb, Outcome.bind_eq_ok_iff, Outcome.pure_eq_ok, Outcome.ok.injEq] at complete
  rcases complete with ⟨body, -, nothing⟩
  exact absurd (List.append_eq_nil_iff.mp nothing).1 (by decide)

/-- A save publishes its file after another one has truncated it: the snapshot is empty. -/
theorem snapshot_truncated :
    let tasks := [
      SaveTask.inOnePiece (fun _ => ⟨10, 20⟩) [("a", .string "1")] [],
      SaveTask.inOnePiece (fun _ => ⟨10, 20⟩) [("a", .string "2")] []]
    let schedule := [0, 0, 1, 0].map fun i => (i, none)
    let now := ((saves rdbFile .empty tasks).run FileCall.step schedule).shared.read rdbFile
    now = some [] ∧
      ¬(now = FileSystem.empty.read rdbFile ∨ ∃ task ∈ tasks, ∃ bytes,
        Rdb.saveRdb task.clock task.db task.expirations = .ok bytes ∧ now = some bytes) := by
  refine ⟨rfl, ?_⟩
  rintro (absent | ⟨task, -, bytes, complete, same⟩)
  · cases absent
  · cases same
    exact saveRdb_ne_nil _ _ _ complete

end SnapshotFile

end Ember.Rdb
