import Ember.Base.Threads
import Ember.Database.SameKey
import Mathlib.Data.List.Permutation

/-!
# EXPIREs of one key

An EXPIRE with an option looks at the deadline in a call of its own before it writes, so
that another update can come in between.  If there are only EXPIREs, and they look at no
more than whether there is a deadline, this does no harm: deadlines do not go away, and of
those that found none the last one to write might as well have been the first.  Only an
EXPIRE without an option must not run beside one with NX, which it could overtake.
-/

namespace Ember.Database

open Ember.Base

namespace Update

/-- EXPIREs that look at most at whether there is a deadline.  One that writes only where
there is none does not run beside one that always writes. -/
structure Checked (updates : List Update) : Prop where
  expires : ∀ update ∈ updates, ∃ expiresAt option, update = expire expiresAt option ∧
    option ≠ some "GT" ∧ option ≠ some "LT"
  apart : (∀ expiresAt, expire expiresAt none ∉ updates) ∨
    ∀ expiresAt, expire expiresAt (some "NX") ∉ updates

theorem Checked.silent {updates : List Update} (checked : Checked updates) {update : Update}
    (member : update ∈ updates) : update.writes = false := by
  rcases checked.expires update member with ⟨expiresAt, option, rfl, -⟩
  rfl

section Options

variable {expiresAt : Instant} {option : Option String} {current current' : Option Instant}

theorem replaces_congr (coarse : option ≠ some "GT" ∧ option ≠ some "LT")
    (same : current.isSome = current'.isSome) :
    DB.replacesDeadline expiresAt option current =
      DB.replacesDeadline expiresAt option current' := by
  cases option with
  | none => rfl
  | some opt =>
      have notGT : opt ≠ "GT" := fun eq => coarse.1 (congrArg some eq)
      have notLT : opt ≠ "LT" := fun eq => coarse.2 (congrArg some eq)
      simp only [DB.replacesDeadline, if_neg notGT, if_neg notLT, same]

theorem replaces_xx :
    DB.replacesDeadline expiresAt (some "XX") current = some current.isSome :=
  rfl

/-- An EXPIRE that writes has no option, NX or XX. -/
theorem option_of_replaces (coarse : option ≠ some "GT" ∧ option ≠ some "LT")
    (replaces : DB.replacesDeadline expiresAt option current = some true) :
    option = none ∨ option = some "NX" ∨ option = some "XX" := by
  cases option with
  | none => exact Or.inl rfl
  | some opt =>
      have notGT : opt ≠ "GT" := fun eq => coarse.1 (congrArg some eq)
      have notLT : opt ≠ "LT" := fun eq => coarse.2 (congrArg some eq)
      right
      simp only [DB.replacesDeadline, if_neg notGT, if_neg notLT] at replaces
      split_ifs at replaces with nx xx
      · exact Or.inl (congrArg some nx)
      · exact Or.inr (congrArg some xx)

end Options

/-- The EXPIREs with NX. -/
def startsDeadline : Update → Bool
  | expire _ option => option = some "NX"
  | _ => false

theorem startsDeadline_eq_true {update : Update} :
    update.startsDeadline = true ↔ ∃ expiresAt, update = expire expiresAt (some "NX") := by
  cases update with
  | expire expiresAt option => simp [startsDeadline]
  | set | delete => simp [startsDeadline]

/-! ## Sequential orders of EXPIREs -/

section Orders

variable {updates : List Update} {expiresAt : Instant} {option : Option String} {entry : Entry}

theorem apply_expire_of_replaces (present : entry.value ≠ none)
    (replaces : DB.replacesDeadline expiresAt option entry.deadline = some true) :
    (expire expiresAt option).apply entry = { entry with deadline := some expiresAt } := by
  rw [apply, if_pos ⟨Option.isSome_iff_ne_none.mpr present, replaces⟩]

theorem apply_expire_of_keeps
    (keeps : DB.replacesDeadline expiresAt option entry.deadline ≠ some true) :
    (expire expiresAt option).apply entry = entry := by
  rw [apply, if_neg fun both => keeps both.2]

theorem foldl_of_keeps (keeps : ∀ update ∈ updates, update.apply entry = entry) :
    updates.foldl (fun entry update => update.apply entry) entry = entry := by
  induction updates with
  | nil => rfl
  | cons update rest ih =>
      rw [List.forall_mem_cons] at keeps
      rw [List.foldl_cons, keeps.1]
      exact ih keeps.2

theorem deadline_apply_ne_none {update : Update} (silent : update.writes = false)
    (dated : entry.deadline ≠ none) : (update.apply entry).deadline ≠ none := by
  cases update with
  | expire expiresAt option =>
      rw [apply]
      split
      · exact Option.some_ne_none expiresAt
      · exact dated
  | set | delete => cases silent

/-- EXPIREs remove no deadline. -/
theorem foldl_deadline_ne_none (silent : ∀ update ∈ updates, update.writes = false)
    (dated : entry.deadline ≠ none) :
    (updates.foldl (fun entry update => update.apply entry) entry).deadline ≠ none := by
  induction updates generalizing entry with
  | nil => exact dated
  | cons update rest ih =>
      rw [List.forall_mem_cons] at silent
      exact ih silent.2 (deadline_apply_ne_none silent.1 dated)

end Orders

/-! ## The stages of an EXPIRE -/

/-- How far an EXPIRE has come. -/
inductive Stage where
  | waiting
  | found
  | granted
  | written
  | declined (result : Outcome String Unit)
  | refused

/-- An EXPIRE under way. -/
structure Attempt where
  expiresAt : Instant
  option : Option String
  stage : Stage

namespace Attempt

/-- An EXPIRE at its start. -/
def ofUpdate : Update → Attempt
  | .expire expiresAt option => ⟨expiresAt, option, .waiting⟩
  | _ => ⟨0, none, .waiting⟩

theorem stage_ofUpdate (update : Update) : (ofUpdate update).stage = .waiting := by
  cases update <;> rfl

/-- The EXPIRE. -/
def update (attempt : Attempt) : Update :=
  .expire attempt.expiresAt attempt.option

/-- What is left of it. -/
def thread (key : String) (attempt : Attempt) : DbProg (Outcome String Unit) :=
  match attempt.stage with
  | .waiting => DB.expire key attempt.expiresAt attempt.option
  | .found => do
      match ← DB.updateExpiry key attempt.expiresAt attempt.option with
      | some true =>
          perform (.expirationsInsert key attempt.expiresAt)
          return .ok ()
      | some false => return .ok ()
      | none => return .error "Invalid option for expire command."
  | .granted => do
      perform (.expirationsInsert key attempt.expiresAt)
      return .ok ()
  | .written => return .ok ()
  | .declined result => return result
  | .refused => return .error "Entry not found."

/-- The deadline that it has written, if it has. -/
def wrote (attempt : Attempt) : Option (Option Instant) :=
  match attempt.stage with
  | .written => some (some attempt.expiresAt)
  | _ => none

end Attempt

/-- One call of an EXPIRE, seen from the entry of its key. -/
inductive Stage.Moves (expiresAt : Instant) (option : Option String) :
    Stage → Entry → Stage → Entry → Prop
  | refuse {entry : Entry} (missing : entry.value = none) :
      Moves expiresAt option waiting entry refused entry
  | find {entry : Entry} (present : entry.value ≠ none) :
      Moves expiresAt option waiting entry found entry
  | grant {entry : Entry}
      (replaces : DB.replacesDeadline expiresAt option entry.deadline = some true) :
      Moves expiresAt option found entry granted entry
  | decline {entry : Entry} (result : Outcome String Unit)
      (keeps : DB.replacesDeadline expiresAt option entry.deadline ≠ some true) :
      Moves expiresAt option found entry (declined result) entry
  | write {stage : Stage} {entry : Entry}
      (ready : stage = granted ∨ stage = found ∧
        DB.replacesDeadline expiresAt option entry.deadline = some true) :
      Moves expiresAt option stage entry written { entry with deadline := some expiresAt }

namespace Attempt

variable {key : String} {expiresAt : Instant} {option : Option String}

/-- The call that checks an option sees what is there. -/
theorem updateExpiry_step {op : Call} {next : op.Response → DbProg (Option Bool)}
    (here : DB.updateExpiry key expiresAt option = .call op next) (env : Env) (db : DB) :
    ∃ replaces, next (op.step env db).1 = .ret (some replaces) ∧ (op.step env db).2 = db ∧
      DB.replacesDeadline expiresAt option (db.entry key).deadline = some replaces := by
  cases option with
  | none => cases here
  | some opt =>
      rw [DB.updateExpiry] at here
      simp only [DB.replacesDeadline]
      split_ifs at here ⊢ <;> cases here <;> exact ⟨_, rfl, rfl, rfl⟩

theorem updateExpiry_ret {result : Option Bool}
    (here : DB.updateExpiry key expiresAt option = .ret result) (current : Option Instant) :
    DB.replacesDeadline expiresAt option current = result := by
  cases option with
  | none =>
      cases here
      rfl
  | some opt =>
      rw [DB.updateExpiry] at here
      simp only [DB.replacesDeadline]
      split_ifs at here ⊢ <;> cases here
      rfl

theorem thread_step {attempt : Attempt} {op : Call}
    {next : op.Response → DbProg (Outcome String Unit)}
    (here : attempt.thread key = .call op next) (env : Env) (db : DB) :
    ∃ stage, next (op.step env db).1 = thread key { attempt with stage := stage } ∧
      Stage.Moves attempt.expiresAt attempt.option attempt.stage (db.entry key) stage
        ((op.step env db).2.entry key) := by
  rcases attempt with ⟨expiresAt, option, stage⟩
  cases stage with
  | waiting =>
      cases here
      cases seen : db.data.lookup key with
      | none =>
          have answer : (Call.step env (.dataContainsKey key) db).1 = false := by
            simp [Call.step, seen]
          rw [answer]
          exact ⟨.refused, rfl, .refuse seen⟩
      | some value =>
          have answer : (Call.step env (.dataContainsKey key) db).1 = true := by
            simp [Call.step, seen]
          rw [answer]
          exact ⟨.found, rfl, .find (by simp [DB.entry, seen])⟩
  | found =>
      rw [thread] at here
      cases checks : DB.updateExpiry key expiresAt option with
      | ret result =>
          dsimp only at here
          rw [checks] at here
          rcases result with _ | _ | _
          · cases here
          · cases here
          · cases here
            refine ⟨.written, rfl, ?_⟩
            rw [Progress.entry_expirationsInsert]
            exact .write (Or.inr ⟨rfl, updateExpiry_ret checks _⟩)
      | call op' next' =>
          dsimp only at here
          rw [checks] at here
          cases here
          rcases updateExpiry_step checks env db with ⟨replaces, answer, same, sees⟩
          dsimp only
          rw [answer, same]
          cases replaces with
          | true => exact ⟨.granted, rfl, .grant sees⟩
          | false => exact ⟨.declined (.ok ()), rfl, .decline _ (by rw [sees]; simp)⟩
  | granted =>
      cases here
      refine ⟨.written, rfl, ?_⟩
      rw [Progress.entry_expirationsInsert]
      exact .write (Or.inl rfl)
  | written | declined | refused => cases here

/-- An EXPIRE that is done: it has written, or has not for a reason. -/
def Ended (attempt : Attempt) : Prop :=
  match attempt.stage with
  | .waiting | .granted => False
  | .found => ∀ current,
      DB.replacesDeadline attempt.expiresAt attempt.option current ≠ some true
  | .written | .declined _ | .refused => True

theorem ended {attempt : Attempt} (finished : (attempt.thread key).Finished) :
    attempt.Ended := by
  rcases attempt with ⟨expiresAt, option, stage⟩
  cases stage with
  | waiting | granted => exact finished
  | written | declined | refused => trivial
  | found =>
      intro current replaces
      rw [thread] at finished
      dsimp only at finished
      cases checks : DB.updateExpiry key expiresAt option with
      | ret result =>
          rw [checks] at finished
          cases (updateExpiry_ret checks current).symm.trans replaces
          exact finished
      | call op next =>
          rw [checks] at finished
          exact finished

/-! ## What every call preserves -/

/-- What deadline an EXPIRE can see: none only if there was none at first, and one only if
there was one or some EXPIRE gives a key its first one. -/
structure Seen (initial : Entry) (updates : List Update) (current : Option Instant) : Prop where
  missing : current = none → initial.deadline = none
  present : current ≠ none → initial.deadline ≠ none ∨ ∃ expiresAt option,
    Update.expire expiresAt option ∈ updates ∧
      DB.replacesDeadline expiresAt option none = some true

/-- What is known of an EXPIRE by its stage, and by the deadline that there is now. -/
def Fits (initial : Entry) (updates : List Update) (deadline : Option Instant)
    (attempt : Attempt) : Prop :=
  match attempt.stage with
  | .waiting => True
  | .found => initial.value ≠ none
  | .granted | .written => initial.value ≠ none ∧ ∃ current, Seen initial updates current ∧
      DB.replacesDeadline attempt.expiresAt attempt.option current = some true
  | .declined _ => initial.value ≠ none ∧ ∃ current, Seen initial updates current ∧
      DB.replacesDeadline attempt.expiresAt attempt.option current ≠ some true ∧
        (current ≠ none → deadline ≠ none)
  | .refused => initial.value = none

section Fits

variable {initial : Entry} {updates : List Update} {deadline deadline' : Option Instant}
  {attempt : Attempt}

/-- As long as deadlines do not go away, it stays known. -/
theorem Fits.mono (fits : attempt.Fits initial updates deadline)
    (kept : deadline ≠ none → deadline' ≠ none) : attempt.Fits initial updates deadline' := by
  rcases attempt with ⟨expiresAt, option, stage⟩
  cases stage with
  | declined result =>
      rcases fits with ⟨present, current, seen, keeps, dated⟩
      exact ⟨present, current, seen, keeps, kept ∘ dated⟩
  | waiting | found | granted | written | refused => exact fits

/-- What an EXPIRE writes, others can see. -/
theorem seen_of_grants (member : attempt.update ∈ updates) {current : Option Instant}
    (seen : Seen initial updates current)
    (replaces : DB.replacesDeadline attempt.expiresAt attempt.option current = some true) :
    Seen initial updates (some attempt.expiresAt) where
  missing := by rintro ⟨⟩
  present _ := by
    cases current with
    | none => exact Or.inr ⟨_, _, member, replaces⟩
    | some deadline => exact seen.present (Option.some_ne_none deadline)

end Fits

/-- The entry of the key and the stages of its EXPIREs. -/
structure Consistent (initial : Entry) (updates : List Update) (attempts : List Attempt)
    (entry : Entry) : Prop where
  listed : attempts.map update = updates
  value : entry.value = initial.value
  deadline : LastWritten initial.deadline entry.deadline (attempts.map wrote)
  seen : Seen initial updates entry.deadline
  fits : ∀ attempt ∈ attempts, attempt.Fits initial updates entry.deadline

namespace Consistent

variable {initial entry entry' : Entry} {updates : List Update}
  {attempts before after : List Attempt} {attempt : Attempt} {stage : Stage}

theorem update_mem (consistent : Consistent initial updates attempts entry)
    (member : attempt ∈ attempts) : attempt.update ∈ updates := by
  rw [← consistent.listed]
  exact List.mem_map_of_mem member

theorem start (entry : Entry) (attempts : List Attempt)
    (waits : ∀ attempt ∈ attempts, attempt.stage = .waiting) :
    Consistent entry (attempts.map update) attempts entry where
  listed := rfl
  value := rfl
  deadline := by
    refine Or.inl ⟨rfl, fun record member => ?_⟩
    rcases List.mem_map.mp member with ⟨attempt, inside, rfl⟩
    rw [wrote, waits attempt inside]
  seen := ⟨id, Or.inl⟩
  fits := by
    intro attempt member
    rw [Fits, waits attempt member]
    trivial

/-- An EXPIRE goes on, and deadlines do not go away. -/
theorem replace {attempt' : Attempt}
    (consistent : Consistent initial updates (before ++ attempt :: after) entry)
    (same : attempt'.update = attempt.update) (value : entry'.value = entry.value)
    (wrote : attempt'.wrote = attempt.wrote ∧ entry'.deadline = entry.deadline ∨
      attempt'.wrote = some entry'.deadline)
    (kept : entry.deadline ≠ none → entry'.deadline ≠ none)
    (seen : Seen initial updates entry'.deadline)
    (fits : attempt'.Fits initial updates entry'.deadline) :
    Consistent initial updates (before ++ attempt' :: after) entry' where
  listed := by
    rw [← consistent.listed]
    simp [same]
  value := value.trans consistent.value
  deadline := by
    have deadline := consistent.deadline
    rw [List.map_append, List.map_cons] at deadline ⊢
    exact deadline.move wrote
  seen := seen
  fits := Pool.forall_mem_replace (fun other member => (consistent.fits other member).mono kept)
    fits

theorem move (consistent : Consistent initial updates (before ++ attempt :: after) entry)
    (moves : Stage.Moves attempt.expiresAt attempt.option attempt.stage entry stage entry') :
    Consistent initial updates (before ++ { attempt with stage := stage } :: after) entry' := by
  have here : attempt ∈ before ++ attempt :: after :=
    List.mem_append_right before List.mem_cons_self
  have member := consistent.update_mem here
  have known := consistent.fits attempt here
  have seen := consistent.seen
  rcases attempt with ⟨expiresAt, option, stage'⟩
  dsimp only at moves
  cases moves with
  | refuse missing =>
      refine consistent.replace rfl rfl (Or.inl ⟨rfl, rfl⟩) id seen ?_
      exact consistent.value.symm.trans missing
  | find present =>
      refine consistent.replace rfl rfl (Or.inl ⟨rfl, rfl⟩) id seen ?_
      rw [consistent.value] at present
      exact present
  | grant replaces =>
      refine consistent.replace rfl rfl (Or.inl ⟨rfl, rfl⟩) id seen ?_
      exact ⟨known, entry.deadline, seen, replaces⟩
  | decline result keeps =>
      refine consistent.replace rfl rfl (Or.inl ⟨rfl, rfl⟩) id seen ?_
      exact ⟨known, entry.deadline, seen, keeps, id⟩
  | write ready =>
      have granted : initial.value ≠ none ∧ ∃ current, Seen initial updates current ∧
          DB.replacesDeadline expiresAt option current = some true := by
        rcases ready with rfl | ⟨rfl, replaces⟩
        · exact known
        · exact ⟨known, entry.deadline, seen, replaces⟩
      rcases granted.2 with ⟨current, saw, replaces⟩
      refine consistent.replace rfl rfl (Or.inr rfl) (fun _ => Option.some_ne_none expiresAt) ?_ ?_
      · exact seen_of_grants member saw replaces
      · exact granted

/-- The EXPIRE whose deadline is there has seen what it looks for. -/
theorem exists_writer (consistent : Consistent initial updates attempts entry)
    (written : some entry.deadline ∈ attempts.map wrote) :
    ∃ expiresAt option, Update.expire expiresAt option ∈ updates ∧
      entry.deadline = some expiresAt ∧ initial.value ≠ none ∧ ∃ current,
        Seen initial updates current ∧
          DB.replacesDeadline expiresAt option current = some true := by
  rcases List.mem_map.mp written with ⟨⟨expiresAt, option, stage⟩, inside, wrote⟩
  have member := consistent.update_mem inside
  have known := consistent.fits _ inside
  cases stage with
  | written => exact ⟨expiresAt, option, member, (Option.some.inj wrote).symm, known⟩
  | waiting | found | granted | declined | refused => cases wrote

section Order

variable (checked : Checked updates) (consistent : Consistent initial updates attempts entry)

include checked

theorem silent_of_perm {rest after : List Update} (perm : (rest ++ after).Perm updates) :
    ∀ update ∈ rest, update.writes = false := by
  intro update member
  exact checked.silent (perm.subset (List.mem_append_left after member))

theorem coarse_of_mem {expiresAt : Instant} {option : Option String}
    (member : Update.expire expiresAt option ∈ updates) :
    option ≠ some "GT" ∧ option ≠ some "LT" := by
  rcases checked.expires _ member with ⟨expiresAt', option', same, coarse⟩
  cases same
  exact coarse

include consistent

/-- One that finds what it looks for comes last. -/
theorem yields_of_last (present : initial.value ≠ none) {expiresAt : Instant}
    {option : Option String} (wrote : entry.deadline = some expiresAt) {rest : List Update}
    (perm : (rest ++ [Update.expire expiresAt option]).Perm updates)
    (replaces : DB.replacesDeadline expiresAt option
      (rest.foldl (fun entry update => update.apply entry) initial).deadline = some true) :
    Update.Yields updates initial entry := by
  have value := foldl_value (silent_of_perm checked perm) initial
  refine ⟨_, perm, ?_⟩
  rw [List.foldl_append, List.foldl_cons, List.foldl_nil, apply_expire_of_replaces _ replaces]
  · exact Entry.ext (value.trans consistent.value.symm) wrote.symm
  · rw [value]
    exact present

/-- So does one with XX, behind one that gives the key a deadline if none has it before. -/
theorem yields_of_xx (present : initial.value ≠ none) {expiresAt : Instant}
    (member : Update.expire expiresAt (some "XX") ∈ updates)
    (wrote : entry.deadline = some expiresAt) {current : Option Instant}
    (seen : Seen initial updates current) (dated : current ≠ none) :
    Update.Yields updates initial entry := by
  rcases seen.present dated with dated | ⟨expiresAt', option, first, replaces⟩
  · rcases exists_last member with ⟨rest, perm⟩
    have left := foldl_deadline_ne_none (silent_of_perm checked perm) dated
    apply yields_of_last checked consistent present wrote perm
    rw [replaces_xx, Option.isSome_iff_ne_none.mpr left]
  · have different : Update.expire expiresAt' option ≠ .expire expiresAt (some "XX") := by
      intro same
      cases same
      cases replaces
    rcases exists_last_two different first member with ⟨rest, perm⟩
    have silent := silent_of_perm checked perm
    have given : ((Update.expire expiresAt' option).apply initial).deadline ≠ none := by
      by_cases missing : initial.deadline = none
      · rw [apply_expire_of_replaces present (by rw [missing]; exact replaces)]
        exact Option.some_ne_none expiresAt'
      · exact deadline_apply_ne_none rfl missing
    have left := foldl_deadline_ne_none silent given
    have perm' : (Update.expire expiresAt' option :: rest ++
        [Update.expire expiresAt (some "XX")]).Perm updates :=
      List.perm_middle.symm.trans perm
    apply yields_of_last checked consistent present wrote perm'
    rw [List.foldl_cons, replaces_xx, Option.isSome_iff_ne_none.mpr left]

/-- One with NX comes first of those with NX, which then find a deadline.  The others
find none before it. -/
theorem yields_of_nx (present : initial.value ≠ none) {expiresAt : Instant}
    (member : Update.expire expiresAt (some "NX") ∈ updates)
    (wrote : entry.deadline = some expiresAt) (undated : initial.deadline = none) :
    Update.Yields updates initial entry := by
  rcases exists_last member with ⟨rest, perm⟩
  have plain : ∀ expiresAt, Update.expire expiresAt none ∉ updates := by
    rcases checked.apart with plain | checks
    · exact plain
    · exact absurd member (checks expiresAt)
  have early : ∀ update ∈ rest.filter (!·.startsDeadline), update.apply initial = initial := by
    intro update inside
    rcases List.mem_filter.mp inside with ⟨inRest, other⟩
    have listed := perm.subset (List.mem_append_left _ inRest)
    rcases checked.expires update listed with ⟨expiresAt', option, rfl, coarse⟩
    apply apply_expire_of_keeps
    intro replaces
    rcases option_of_replaces coarse replaces with rfl | rfl | rfl
    · exact plain expiresAt' listed
    · cases other
    · rw [undated] at replaces
      cases replaces
  have late : ∀ update ∈ rest.filter startsDeadline, update.apply entry = entry := by
    intro update inside
    rcases List.mem_filter.mp inside with ⟨-, same⟩
    rcases startsDeadline_eq_true.mp same with ⟨expiresAt', rfl⟩
    apply apply_expire_of_keeps
    rw [wrote]
    rintro ⟨⟩
  have middle : (Update.expire expiresAt (some "NX")).apply initial = entry := by
    rw [apply_expire_of_replaces present (by rw [undated]; rfl)]
    exact Entry.ext consistent.value.symm wrote.symm
  refine ⟨rest.filter (!·.startsDeadline) ++
    Update.expire expiresAt (some "NX") :: rest.filter startsDeadline, ?_, ?_⟩
  · have split := List.filter_append_perm (!·.startsDeadline) rest
    simp only [Bool.not_not] at split
    have last := (List.perm_append_singleton (Update.expire expiresAt (some "NX")) rest).symm
    exact ((List.perm_middle.trans (split.cons _)).trans last).trans perm
  · rw [List.foldl_append, foldl_of_keeps early, List.foldl_cons, middle, foldl_of_keeps late]

variable (ended : ∀ attempt ∈ attempts, attempt.Ended)

include ended

/-- If nobody has written, any order does. -/
theorem yields_of_unwritten (present : initial.value ≠ none)
    (unwritten : entry.deadline = initial.deadline)
    (silent : ∀ record ∈ attempts.map wrote, record = none) :
    Update.Yields updates initial entry := by
  refine ⟨updates, List.Perm.refl updates, ?_⟩
  rw [show entry = initial from Entry.ext consistent.value unwritten]
  apply foldl_of_keeps
  intro update member
  rw [← consistent.listed] at member
  rcases List.mem_map.mp member with ⟨attempt, inside, rfl⟩
  have known := consistent.fits attempt inside
  have coarse := coarse_of_mem checked (consistent.update_mem inside)
  apply apply_expire_of_keeps
  have done := ended attempt inside
  rcases attempt with ⟨expiresAt, option, stage⟩
  cases stage with
  | waiting | granted => exact done.elim
  | found => exact done initial.deadline
  | written => cases silent _ (List.mem_map_of_mem inside)
  | declined result =>
      -- What it saw is there from the start, or not.
      rcases known with ⟨-, current, seen, keeps, dated⟩
      rw [unwritten] at dated
      have same : initial.deadline.isSome = current.isSome := by
        cases current with
        | none => rw [seen.missing rfl]
        | some deadline => exact Option.isSome_iff_ne_none.mpr (dated (Option.some_ne_none _))
      rwa [replaces_congr coarse same]
  | refused => exact absurd known present

/-- The entry that finished EXPIREs leave is the one of a sequential order. -/
theorem yields : Update.Yields updates initial entry := by
  by_cases missing : initial.value = none
  · refine ⟨updates, List.Perm.refl updates, ?_⟩
    have unwritten : entry.deadline = initial.deadline := by
      rcases consistent.deadline with ⟨unwritten, -⟩ | written
      · exact unwritten
      · rcases exists_writer consistent written with ⟨expiresAt, option, -, -, present, -⟩
        exact absurd missing present
    rw [show entry = initial from Entry.ext consistent.value unwritten]
    exact foldl_of_missing (fun _ => checked.silent) missing
  · rcases consistent.deadline with ⟨unwritten, silent⟩ | written
    · exact consistent.yields_of_unwritten checked ended missing unwritten silent
    · rcases exists_writer consistent written with
        ⟨expiresAt, option, member, wrote, present, current, seen, replaces⟩
      rcases option_of_replaces (coarse_of_mem checked member) replaces with rfl | rfl | rfl
      · rcases exists_last member with ⟨rest, perm⟩
        exact yields_of_last checked consistent present wrote perm rfl
      · apply yields_of_nx checked consistent present member wrote
        cases current with
        | none => exact seen.missing rfl
        | some deadline => cases replaces
      · apply yields_of_xx checked consistent present member wrote seen
        rintro rfl
        cases replaces

end Order

end Consistent

end Attempt

/-! ## Finished runs -/

variable {key : String} {updates : List Update} {initial : Entry}

/-- The threads of a pool are EXPIREs at stages that fit the entry of the key. -/
def Expiring (key : String) (initial : Entry) (updates : List Update)
    (pool : Pool DB Call Call.Response (Outcome String Unit)) : Prop :=
  ∃ attempts : List Attempt, pool.threads = attempts.map (Attempt.thread key) ∧
    Attempt.Consistent initial updates attempts (pool.shared.entry key)

theorem Expiring.turn (pool : Pool DB Call Call.Response (Outcome String Unit)) (turn : ℕ × Env)
    (expiring : Expiring key initial updates pool) :
    Expiring key initial updates (pool.turn Call.step turn) := by
  rcases expiring with ⟨attempts, threads, consistent⟩
  rcases Pool.turn_stages Call.step threads turn with
    ⟨same, -⟩ | ⟨before, attempt, after, op, next, rfl, here, -, -, made⟩
  · rw [same]
    exact ⟨attempts, threads, consistent⟩
  · rcases Attempt.thread_step here turn.2 pool.shared with ⟨stage, left, moves⟩
    refine ⟨before ++ { attempt with stage := stage } :: after, ?_, ?_⟩
    · rw [made, left, List.map_append, List.map_cons]
    · rw [made]
      exact consistent.move moves

theorem exists_sequential_of_checked (db : DB) (key : String) (checked : Checked updates)
    (schedule : List (ℕ × Env))
    (finished : ((race db key updates).run Call.step schedule).Finished) (now : Instant) :
    ∃ order : List Update, order.Perm updates ∧
      ((race db key updates).run Call.step schedule).shared.entry key =
        (sequential now key order db).entry key := by
  have same : ∀ update ∈ updates, (Attempt.ofUpdate update).update = update ∧
      (Attempt.ofUpdate update).thread key = update.prog key := by
    intro update member
    rcases checked.expires update member with ⟨expiresAt, option, rfl, -⟩
    exact ⟨rfl, rfl⟩
  have start : Expiring key (db.entry key) updates (race db key updates) := by
    refine ⟨updates.map .ofUpdate, ?_, ?_⟩
    · rw [List.map_map]
      exact List.map_congr_left fun update member => (same update member).2.symm
    · have listed : (updates.map Attempt.ofUpdate).map Attempt.update = updates := by
        rw [List.map_map]
        exact (List.map_congr_left fun update member => (same update member).1).trans
          (List.map_id updates)
      have consistent := Attempt.Consistent.start (db.entry key) (updates.map .ofUpdate)
        fun attempt member => by
          rcases List.mem_map.mp member with ⟨update, -, rfl⟩
          exact Attempt.stage_ofUpdate update
      rwa [listed] at consistent
  rcases Pool.run_preserves _ Expiring.turn start schedule with ⟨attempts, threads, consistent⟩
  have ended : ∀ attempt ∈ attempts, attempt.Ended := by
    intro attempt member
    have inside : attempt.thread key ∈ _ := List.mem_map_of_mem member
    rw [← threads] at inside
    exact Attempt.ended (finished _ inside)
  exact (consistent.yields checked ended).exists_sequential_entry now

/-- None of the calls of an update looks at the clock. -/
theorem steady_calls (key : String) (update : Update) :
    (update.prog key).Calls fun op => ∀ env env' db, op.step env db = op.step env' db := by
  cases update with
  | set value expiresAt =>
      refine ⟨fun _ _ _ => rfl, fun _ => ⟨fun _ _ _ => rfl, fun _ => ?_⟩⟩
      cases expiresAt with
      | none => trivial
      | some deadline => exact ⟨fun _ _ _ => rfl, fun _ => trivial⟩
  | delete => exact ⟨fun _ _ _ => rfl, fun _ => ⟨fun _ _ _ => rfl, fun _ => trivial⟩⟩
  | expire expiresAt option =>
      refine ⟨fun _ _ _ => rfl, fun present => ?_⟩
      cases present with
      | false => trivial
      | true =>
          change Prog.Calls _ (DB.updateExpiry key expiresAt option >>= _)
          apply Prog.Calls.bind
          · cases option with
            | none => trivial
            | some opt =>
                rw [DB.updateExpiry]
                split_ifs <;> first | exact ⟨fun _ _ _ => rfl, fun _ => trivial⟩ | trivial
          · rintro (_ | _ | _)
            · trivial
            · trivial
            · exact ⟨fun _ _ _ => rfl, fun _ => trivial⟩

/-- An update that is alone leaves what it leaves. -/
theorem shared_race_single (db : DB) (key : String) (update : Update) (schedule : List (ℕ × Env))
    (finished : ((race db key [update]).run Call.step schedule).Finished) (now : Instant) :
    ((race db key [update]).run Call.step schedule).shared =
      (DB.exec now (update.prog key) db).2 := by
  have one : ((race db key [update]).run Call.step schedule).threads.length = 1 :=
    Pool.run_preserves (·.threads.length = 1)
      (fun _ choice => (Pool.length_threads_turn choice).trans) rfl schedule
  rcases List.length_eq_one_iff.mp one with ⟨thread, only⟩
  have ended := finished thread (only ▸ List.mem_singleton_self thread)
  cases thread with
  | call op next => exact ended.elim
  | ret value =>
      rcases Pool.runs_of_run (congrArg (·[0]?) only) with ⟨envs, runs⟩
      have ran := runs.eq_run (fun _ => id) (steady_calls key update) (Env.at now)
      exact (congrArg Prod.snd ran).symm

/-- Updates of one key whose separate calls do not matter. -/
inductive Compatible (updates : List Update) : Prop
  | single (alone : updates.length ≤ 1)
  | unchecked (unchecked : Unchecked updates)
  | checked (checked : Checked updates)

/-- Compatible updates of one key, interleaved in any way, leave the value and the
deadline that some sequential order of them leaves. -/
theorem exists_sequential (db : DB) (key : String) {updates : List Update}
    (compatible : Compatible updates) (schedule : List (ℕ × Env))
    (finished : ((race db key updates).run Call.step schedule).Finished) (now : Instant) :
    ∃ order : List Update, order.Perm updates ∧
      ((race db key updates).run Call.step schedule).shared.entry key =
        (sequential now key order db).entry key := by
  cases compatible with
  | single alone =>
      match updates, alone with
      | [], _ =>
          have unchecked : Unchecked [] := ⟨by simp, Or.inl (by simp), by simp⟩
          exact exists_sequential_of_unchecked db key unchecked schedule finished now
      | [update], _ =>
          refine ⟨[update], List.Perm.refl _, ?_⟩
          rw [shared_race_single db key update schedule finished now]
          rfl
  | unchecked unchecked =>
      exact exists_sequential_of_unchecked db key unchecked schedule finished now
  | checked checked => exact exists_sequential_of_checked db key checked schedule finished now

/-- A SET whose value is stored after an EXPIRE has found the old one. -/
theorem exists_sequential_set_expire :
    let db : DB := ⟨FiniteMap.ofList [("k", .string "a")], ∅⟩
    let updates := [set (.string "b") none, expire 7 none]
    let final := (race db "k" updates).run Call.step
      [(0, Env.at 0), (1, Env.at 0), (1, Env.at 0), (0, Env.at 0)]
    final.Finished ∧ ∃ order : List Update, order.Perm updates ∧
      final.shared.entry "k" = (sequential 0 "k" order db).entry "k" := by
  intro db updates final
  have finished : final.Finished := by decide
  have compatible : Compatible updates :=
    .unchecked ⟨by simp [updates], Or.inl (by simp [updates]), by simp [updates]⟩
  exact ⟨finished, exists_sequential db "k" compatible _ finished 0⟩

theorem sequential_ne {db : DB} {pair : Entry}
    (all : ∀ order ∈ updates.permutations',
      order.foldl (fun entry update => update.apply entry) (db.entry key) ≠ pair)
    (now : Instant) (order : List Update) (perm : order.Perm updates) :
    (sequential now key order db).entry key ≠ pair := by
  rw [entry_sequential]
  exact all order (List.mem_permutations'.mpr perm)

/-- A value with the deadline of another SET, and a deadline without a value. -/
theorem torn_pairs :
    let sets := [set (.string "a") (some 5), set (.string "b") none]
    let final := (race DB.newInMemory "k" sets).run Call.step
      ([0, 0, 1, 1, 0].map fun i => (i, Env.at 0))
    let mixed := [set (.string "a") none, expire 7 none, delete]
    let final' := (race DB.newInMemory "k" mixed).run Call.step
      ([0, 0, 1, 2, 2, 1].map fun i => (i, Env.at 0))
    (final.Finished ∧ final.shared.entry "k" = ⟨some (.string "b"), some 5⟩ ∧
      ∀ now order, order.Perm sets →
        (sequential now "k" order DB.newInMemory).entry "k" ≠ final.shared.entry "k") ∧
    (final'.Finished ∧ final'.shared.entry "k" = ⟨none, some 7⟩ ∧
      ∀ now order, order.Perm mixed →
        (sequential now "k" order DB.newInMemory).entry "k" ≠ final'.shared.entry "k") := by
  constructor
  · exact ⟨by decide, rfl, sequential_ne (by decide)⟩
  · exact ⟨by decide, rfl, sequential_ne (by decide)⟩

end Update

end Ember.Database
