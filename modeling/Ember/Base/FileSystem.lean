import Ember.Base.Prog
import Mathlib.Logic.Function.Basic

/-!
# Files and their names

A file is known by its identity, and a name refers to at most one file.  An open file
is written to by its identity, so that the writer of a file does not notice when its
name is given to another one, nor when another writer truncates it.  Every call can fail.
-/

namespace Ember.Base

universe u

/-- The names of a directory and the contents of the files.  A name refers to a file
that has been allocated, and no file has two names. -/
structure FileSystem (Path : Type u) where
  names : Path → Option ℕ
  files : ℕ → List UInt8
  next : ℕ
  allocated : ∀ {path file}, names path = some file → file < next
  unshared : ∀ {path path' file}, names path = some file → names path' = some file → path = path'

namespace FileSystem

variable {Path : Type u} {path other source target : Path} {file : ℕ}

/-- No name refers to a file. -/
def empty : FileSystem Path where
  names _ := none
  files _ := []
  next := 0
  allocated := nofun
  unshared := nofun

/-- The contents of the file a name refers to. -/
def read (fs : FileSystem Path) (path : Path) : Option (List UInt8) :=
  (fs.names path).map fs.files

/-- Give a file new contents. -/
def setFile (fs : FileSystem Path) (file : ℕ) (contents : List UInt8) : FileSystem Path :=
  { fs with files := Function.update fs.files file contents }

@[simp]
theorem names_setFile (fs : FileSystem Path) (file : ℕ) (contents : List UInt8) :
    (fs.setFile file contents).names = fs.names :=
  rfl

@[simp]
theorem files_setFile_self (fs : FileSystem Path) (file : ℕ) (contents : List UInt8) :
    (fs.setFile file contents).files file = contents := by
  simp [setFile]

/-- New contents of a file are not read under other names than its own. -/
theorem read_setFile_of_ne {fs : FileSystem Path} (named : fs.names path = some file)
    (different : other ≠ path) (contents : List UInt8) :
    (fs.setFile file contents).read other = fs.read other := by
  unfold read
  cases found : fs.names other with
  | none => rw [names_setFile, found]; rfl
  | some file' =>
      have elsewhere : file' ≠ file := by
        intro same
        subst same
        exact different (fs.unshared found named)
      rw [names_setFile, found]
      simp [setFile, Function.update_of_ne elsewhere]

/-- Contents with bytes written over them from an offset on; a gap is filled with
zeros. -/
def writeAt (contents : List UInt8) (offset : ℕ) (bytes : List UInt8) : List UInt8 :=
  contents.take offset ++ List.replicate (offset - contents.length) 0 ++ bytes ++
    contents.drop (offset + bytes.length)

theorem writeAt_length (contents bytes : List UInt8) :
    writeAt contents contents.length bytes = contents ++ bytes := by
  simp [writeAt]

/-- Write to an open file. -/
def write (fs : FileSystem Path) (file offset : ℕ) (bytes : List UInt8) : FileSystem Path :=
  fs.setFile file (writeAt (fs.files file) offset bytes)

variable [DecidableEq Path]

/-- A new file under a name that refers to none. -/
def allocate (fs : FileSystem Path) (path : Path) : FileSystem Path where
  names := Function.update fs.names path (some fs.next)
  files := Function.update fs.files fs.next []
  next := fs.next + 1
  allocated {path' file} named := by
    rw [Function.update_apply] at named
    split at named
    · cases named
      exact Nat.lt_succ_self fs.next
    · exact Nat.lt_succ_of_lt (fs.allocated named)
  unshared {first second file} named named' := by
    rw [Function.update_apply] at named named'
    split at named <;> split at named'
    next here here' => exact here.trans here'.symm
    next =>
      cases named
      exact absurd (fs.allocated named') (Nat.lt_irrefl fs.next)
    next =>
      cases named'
      exact absurd (fs.allocated named) (Nat.lt_irrefl fs.next)
    next => exact fs.unshared named named'

/-- Open a file for writing: it is truncated if it exists. -/
def create (fs : FileSystem Path) (path : Path) : ℕ × FileSystem Path :=
  match fs.names path with
  | some file => (file, fs.setFile file [])
  | none => (fs.next, fs.allocate path)

theorem names_create (fs : FileSystem Path) (path : Path) :
    (fs.create path).2.names path = some (fs.create path).1 := by
  unfold create
  split
  next file named => exact named
  next => simp [allocate]

theorem files_create (fs : FileSystem Path) (path : Path) :
    (fs.create path).2.files (fs.create path).1 = [] := by
  unfold create
  split
  next file named => exact fs.files_setFile_self file []
  next => simp [allocate]

theorem read_create_of_ne (fs : FileSystem Path) (different : other ≠ path) :
    (fs.create path).2.read other = fs.read other := by
  unfold create
  split
  next file named => exact read_setFile_of_ne named different []
  next =>
    have sameName : (fs.allocate path).names other = fs.names other := by
      simp [allocate, Function.update_of_ne different]
    unfold read
    rw [sameName]
    cases found : fs.names other with
    | none => rfl
    | some file =>
        have old : file ≠ fs.next := Nat.ne_of_lt (fs.allocated found)
        simp [allocate, Function.update_of_ne old]

/-- Let a name refer to a file that had another name. -/
def move (fs : FileSystem Path) (source target : Path) {file : ℕ}
    (named : fs.names source = some file) : FileSystem Path where
  names := Function.update (Function.update fs.names source none) target (some file)
  files := fs.files
  next := fs.next
  allocated {path file'} found := by
    simp only [Function.update_apply] at found
    split at found
    · cases found
      exact fs.allocated named
    · split at found
      · cases found
      · exact fs.allocated found
  unshared {first second file'} found found' := by
    -- the file is found under the target only, any other one where it was
    have under : ∀ {path}, Function.update (Function.update fs.names source none) target
        (some file) path = some file' →
        path = target ∧ file' = file ∨ path ≠ source ∧ fs.names path = some file' := by
      intro path at_path
      simp only [Function.update_apply] at at_path
      split at at_path
      next here =>
        cases at_path
        exact Or.inl ⟨here, rfl⟩
      next =>
        split at at_path
        · cases at_path
        next elsewhere => exact Or.inr ⟨elsewhere, at_path⟩
    rcases under found with ⟨here, same⟩ | ⟨elsewhere, old⟩ <;>
      rcases under found' with ⟨here', same'⟩ | ⟨elsewhere', old'⟩
    · exact here.trans here'.symm
    · subst same
      exact absurd (fs.unshared old' named) elsewhere'
    · subst same'
      exact absurd (fs.unshared old named) elsewhere
    · exact fs.unshared old old'

/-- Rename a file, which takes the place of the one that had the new name.  The answer
is whether there was a file to rename. -/
def rename (fs : FileSystem Path) (source target : Path) : Bool × FileSystem Path :=
  match named : fs.names source with
  | some _ => (true, fs.move source target named)
  | none => (false, fs)

theorem read_rename {fs : FileSystem Path} (named : fs.names source = some file) :
    (fs.rename source target).2.read target = some (fs.files file) := by
  unfold rename
  split
  next file' found =>
    cases named.symm.trans found
    simp [read, move]
  next missing => cases named.symm.trans missing

end FileSystem

/-- The calls of programs that work on files. -/
inductive FileCall (Path : Type u) where
  | create (path : Path)
  | write (file offset : ℕ) (bytes : List UInt8)
  | rename (source target : Path)

/-- What goes wrong with a call on a disk that is full or broken: its message, how many
bytes of a write came through, and whether they were those of a buffer, which is tried
again when the writer is dropped. -/
structure Fault where
  reason : String
  written : ℕ
  buffered : Bool

namespace FileCall

variable {Path : Type u}

/-- The answers of the calls. -/
abbrev Response : FileCall Path → Type
  | create _ => Except String ℕ
  | write _ _ _ => Option Fault
  | rename _ _ => Except String Unit

/-- The effect of a call that may fail.  A write that fails may have come through in
part; the other calls have no effect when they fail. -/
def step [DecidableEq Path] :
    Option Fault → (call : FileCall Path) → FileSystem Path → call.Response × FileSystem Path
  | none, create path, fs => (.ok (fs.create path).1, (fs.create path).2)
  | none, write file offset bytes, fs => (none, fs.write file offset bytes)
  | none, rename source target, fs =>
      (if (fs.rename source target).1 then .ok ()
        else .error "No such file or directory (os error 2)", (fs.rename source target).2)
  | some fault, create _, fs => (.error fault.reason, fs)
  | some fault, write file offset bytes, fs =>
      (some fault, fs.write file offset (bytes.take fault.written))
  | some fault, rename _ _, fs => (.error fault.reason, fs)

/-- A program that makes one call. -/
abbrev perform (call : FileCall Path) : Prog (FileCall Path) Response call.Response :=
  Prog.perform call

end FileCall

end Ember.Base
