import Ember.Rdb.RoundTrip

/-!
# Snapshots that were cut

The loader takes the end of the file, where a record would begin, for the end of
the snapshot.  So it notices a cut exactly when it falls inside the header or
inside a record, or behind a record that it refuses anyway.  A file that was cut
between two records loads without the entries of the records that are missing.
-/

namespace Ember.Rdb

open Ember.Base Ember.Database Reader

/-! ## The readers are steady -/

theorem steady_readByte : Steady readByte :=
  steady_readOne unexpectedEof

theorem steady_readLengthWithFirst (first : UInt8) : Steady (readLengthWithFirst first) := by
  unfold readLengthWithFirst
  split
  · exact steady_pure _
  · split
    · exact (steady_readExact unexpectedEof 4).bind fun buf => steady_pure _
    · exact steady_fail _

theorem steady_readLength : Steady readLength :=
  steady_readByte.bind steady_readLengthWithFirst

theorem steady_readStringWithFirstLen (first : UInt8) : Steady (readStringWithFirstLen first) :=
  (steady_readLengthWithFirst first).bind fun len =>
    (steady_readExact unexpectedEof len).bind fun _ => steady_pure _

theorem steady_readString : Steady readString :=
  steady_readLength.bind fun len =>
    (steady_readExact unexpectedEof len).bind fun _ => steady_pure _

theorem steady_readExpiry (now : Clocks) : Steady (readExpiry now) :=
  (steady_readExact unexpectedEof 8).bind fun _ => steady_pure _

theorem steady_readHeader : Steady readHeader := by
  apply (steady_readExact unexpectedEof 9).bind
  intro buf
  split
  · exact steady_pure _
  · exact steady_fail _

theorem steady_readItem : Steady readItem := by
  apply steady_readByte.bind
  intro valueType
  split
  · exact steady_fail _
  · exact steady_readString.bind fun key => steady_readString.bind fun item => steady_pure _

theorem steady_readItems (n : ℕ) (key : Option String) (values : List RedisObject) :
    Steady (readItems n key values) := by
  induction n generalizing key values with
  | zero => exact steady_pure _
  | succ n ih => exact steady_readItem.bind fun read => ih _ _

theorem steady_parseToken (clock : ℕ → Clocks) (loaded : Loaded) (marker : UInt8)
    (token : String) : Steady (parseToken clock loaded marker token) := by
  unfold parseToken
  split
  · apply steady_readByte.bind
    intro valueType
    split
    · exact steady_fail _
    · exact steady_readString.bind fun key => steady_readString.bind fun value => steady_pure _
  · apply steady_readLength.bind
    intro length
    apply (steady_readItems length none []).bind
    rintro ⟨_ | key, values⟩
    · exact steady_pure _
    · exact steady_pure _
  · apply steady_readByte.bind
    intro opcode
    split
    · exact steady_fail _
    · exact (steady_readExpiry _).bind fun expiry => steady_pure _

theorem steady_parseRecord (clock : ℕ → Clocks) (loaded : Loaded) :
    Steady (parseRecord clock loaded) := by
  apply steady_readByte.bind
  intro marker
  split
  · exact steady_readLength.bind fun number => steady_pure _
  · split
    · exact steady_readString.bind fun key =>
        (steady_readExpiry _).bind fun expiry => steady_pure _
    · split
      · exact steady_pure _
      · exact (steady_readStringWithFirstLen marker).bind fun token =>
          (steady_parseToken clock loaded marker token).bind fun loaded' => steady_pure _

/-! ## The record loop on a cut file -/

/-- The record loop ends well, with as much fuel as there are bytes. -/
def Accepts (clock : ℕ → Clocks) (loaded : Loaded) (input : List UInt8) : Prop :=
  ∃ fuel final, input.length ≤ fuel ∧ parseRecords clock fuel loaded input = .ok final

section Loop

variable {clock : ℕ → Clocks} {loaded loaded' : Loaded} {piece rest front : List UInt8}

/-- A front part ends inside the first piece, or reaches up to its end. -/
theorem inside_or_behind (cut : front <+: piece ++ rest) :
    (front <+: piece ∧ front ≠ piece) ∨ ∃ behind, front = piece ++ behind ∧ behind <+: rest := by
  by_cases inside : front <+: piece ∧ front ≠ piece
  · exact Or.inl inside
  · have reaches : piece <+: front := by
      rcases List.prefix_or_prefix_of_prefix cut (List.prefix_append piece rest) with short | long
      · rw [not_and_not_right.mp inside short]
      · exact long
    rcases reaches with ⟨behind, rfl⟩
    exact Or.inr ⟨behind, rfl, (List.prefix_append_right_inj piece).mp cut⟩

/-- An accepted file that is not at its end goes on with a record that is read. -/
theorem Accepts.exists_record (accepts : Accepts clock loaded front) (taken : front ≠ []) :
    ∃ next tail, parseRecord clock loaded front = .ok (next, tail) ∧
      ∀ loaded', next = some loaded' → tail.length < front.length →
        Accepts clock loaded' tail := by
  rcases accepts with ⟨_ | fuel, final, enough, parsed⟩
  · exact absurd (List.eq_nil_of_length_eq_zero (Nat.le_zero.mp enough)) taken
  · rcases List.exists_cons_of_ne_nil taken with ⟨first, others, rfl⟩
    rw [parseRecords.eq_3 _ _ _ _ taken] at parsed
    cases step : parseRecord clock loaded (first :: others) with
    | panic =>
        rw [step] at parsed
        cases parsed
    | error reason =>
        rw [step] at parsed
        cases parsed
    | ok read =>
        refine ⟨read.1, read.2, rfl, ?_⟩
        rintro loaded' more shorter
        rcases read with ⟨_, tail⟩
        subst more
        rw [step] at parsed
        exact ⟨fuel, final, Nat.le_of_lt_succ (shorter.trans_le enough), parsed⟩

/-- The loop takes a whole record or has come to the end of the file. -/
theorem Accepts.record (accepts : Accepts clock loaded front) (cut : front <+: piece ++ rest)
    (taken : piece ≠ []) (decoded : Decodes (parseRecord clock loaded) piece (some loaded')) :
    front = [] ∨ ∃ behind, front = piece ++ behind ∧ behind <+: rest ∧
      Accepts clock loaded' behind := by
  by_cases ended : front = []
  · exact Or.inl ended
  · right
    rcases accepts.exists_record ended with ⟨next, tail, read, goesOn⟩
    rcases inside_or_behind cut with ⟨inside, proper⟩ | ⟨behind, rfl, later⟩
    · rcases (steady_parseRecord clock loaded).fails_of_cut decoded inside proper with
        ⟨reason, failed⟩
      cases read.symm.trans failed
    · cases read.symm.trans (decoded behind)
      refine ⟨tail, rfl, later, goesOn loaded' rfl ?_⟩
      have pos := List.length_pos_of_ne_nil taken
      rw [List.length_append]
      omega

/-- The loop does not get past the beginning of a record that is refused. -/
theorem Accepts.refused (accepts : Accepts clock loaded front) (cut : front <+: piece ++ rest)
    (refuses : Refuses (parseRecord clock loaded) piece) : front = [] := by
  by_contra goesOn
  rcases accepts.exists_record goesOn with ⟨next, tail, read, -⟩
  have failed : ∃ reason, parseRecord clock loaded front = .error reason := by
    rcases inside_or_behind cut with ⟨inside, -⟩ | ⟨behind, rfl, -⟩
    · exact (steady_parseRecord clock loaded).fails_of_cut_refused refuses inside
    · exact refuses behind
  rcases failed with ⟨reason, failed⟩
  cases read.symm.trans failed

/-- An accepted cut among the data records is between two of them. -/
theorem Accepts.entries {entries : List (String × RedisObject)}
    (storable : ∀ entry ∈ entries, ShortText entry.1 ∧ Storable entry.2)
    (accepts : Accepts clock loaded front) (cut : front <+: entries.flatMap writeEntry ++ rest) :
    (∃ k, front = (entries.take k).flatMap writeEntry) ∨
      ∃ behind, front = entries.flatMap writeEntry ++ behind ∧ behind <+: rest ∧
        Accepts clock (entries.foldl Loaded.addEntry loaded) behind := by
  induction entries generalizing loaded front with
  | nil => exact Or.inr ⟨front, rfl, cut, accepts⟩
  | cons entry others ih =>
      rcases List.forall_mem_cons.mp storable with ⟨⟨shortKey, value⟩, storable⟩
      rw [List.flatMap_cons, List.append_assoc] at cut
      rcases accepts.record cut (writeEntry_ne_nil entry)
        (decodes_writeEntry clock loaded shortKey value) with rfl | ⟨front', rfl, cut', accepts'⟩
      · exact Or.inl ⟨0, rfl⟩
      · rcases ih storable accepts' cut' with ⟨k, rfl⟩ | ⟨behind, rfl, later, goesOn⟩
        · exact Or.inl ⟨k + 1, by rw [List.take_succ_cons, List.flatMap_cons]⟩
        · refine Or.inr ⟨behind, ?_, later, goesOn⟩
          rw [List.flatMap_cons, List.append_assoc]

/-- An accepted cut among the expiry records is between two of them, and all those
before it are accepted. -/
theorem Accepts.expiries {save : ℕ → Clocks} {expirations : List (String × Instant)} {i : ℕ}
    {records : List UInt8} (written : writeExpiries save i expirations = .ok records)
    (short : ∀ entry ∈ expirations, ShortText entry.1) (accepts : Accepts clock loaded front)
    (cut : front <+: records) :
    ∃ j, writeExpiries save i (expirations.take j) = .ok front ∧
      ∀ entry ∈ expirations.take j, ¬Reserved entry.1 := by
  induction expirations generalizing i records loaded front with
  | nil =>
      cases written
      exact ⟨0, by rw [List.prefix_nil.mp cut]; rfl, nofun⟩
  | cons entry others ih =>
      rcases entry with ⟨key, expire⟩
      rcases writeExpiries_cons_eq_ok_iff.mp written with ⟨ms, later, computed, writtenLater, rfl⟩
      rcases List.forall_mem_cons.mp short with ⟨shortKey, short⟩
      by_cases reserved : Reserved key
      · rw [accepts.refused cut (refuses_expiry clock loaded shortKey reserved)]
        exact ⟨0, rfl, nofun⟩
      · rcases accepts.record cut (expiry_ne_nil key ms)
          (decodes_expiry clock loaded shortKey reserved (expiryMillis_lt computed)) with
          rfl | ⟨front', rfl, cut', accepts'⟩
        · exact ⟨0, rfl, nofun⟩
        · rcases ih writtenLater short accepts' cut' with ⟨j, writtenFront, free⟩
          refine ⟨j + 1, ?_, ?_⟩
          · exact writeExpiries_cons_eq_ok_iff.mpr ⟨ms, front', computed, writtenFront, rfl⟩
          · rw [List.take_succ_cons]
            exact List.forall_mem_cons.mpr ⟨reserved, free⟩

end Loop

/-! ## The whole file -/

theorem parseRecords_ne_panic (clock : ℕ → Clocks) (fuel : ℕ) (loaded : Loaded)
    (input : List UInt8) : parseRecords clock fuel loaded input ≠ .panic := by
  induction fuel generalizing loaded input with
  | zero => rintro ⟨⟩
  | succ fuel ih =>
      cases input with
      | nil => rintro ⟨⟩
      | cons first others =>
          rw [parseRecords.eq_3 _ _ _ _ (List.cons_ne_nil first others)]
          cases read : parseRecord clock loaded (first :: others) with
          | panic => exact absurd read ((steady_parseRecord clock loaded).returns _)
          | error reason => rintro ⟨⟩
          | ok result =>
              rcases result with ⟨_ | loaded', rest⟩
              · rintro ⟨⟩
              · exact ih loaded' rest

theorem parse_ne_panic (clock : ℕ → Clocks) (file : List UInt8) : parse clock file ≠ .panic := by
  rw [parse]
  cases header : readHeader file with
  | panic => exact absurd header (steady_readHeader.returns file)
  | error reason => rintro ⟨⟩
  | ok read => exact parseRecords_ne_panic clock _ _ _

/-- The header of an accepted file is whole. -/
theorem accepts_of_parse {clock : ℕ → Clocks} {front body : List UInt8} {loaded : Loaded}
    (cut : front <+: utf8Bytes "REDIS0001" ++ body) (accepted : parse clock front = .ok loaded) :
    ∃ behind, front = utf8Bytes "REDIS0001" ++ behind ∧ behind <+: body ∧
      Accepts clock Loaded.empty behind := by
  rcases Outcome.bind_eq_ok_iff.mp accepted with ⟨⟨_, records⟩, header, parsed⟩
  rcases inside_or_behind cut with ⟨inside, proper⟩ | ⟨behind, rfl, later⟩
  · rcases steady_readHeader.fails_of_cut decodes_readHeader inside proper with ⟨reason, failed⟩
    cases header.symm.trans failed
  · cases header.symm.trans (decodes_readHeader behind)
    exact ⟨records, rfl, later, _, loaded, le_rfl, parsed⟩

/-- A file that ends with a whole record: the header alone, the snapshot of the
first few entries, or that of all entries with the first few deadlines, none of
which has a reserved key. -/
def EndsWithRecord (save : ℕ → Clocks) (data : List (String × RedisObject))
    (expirations : List (String × Instant)) (front : List UInt8) : Prop :=
  front = utf8Bytes "REDIS0001" ∨
    (∃ k, saveRdb save (data.take k) [] = .ok front) ∨
    ∃ j, saveRdb save data (expirations.take j) = .ok front ∧
      ∀ entry ∈ expirations.take j, ¬Reserved entry.1

section Cut

variable {save : ℕ → Clocks} {data : List (String × RedisObject)}
  {expirations : List (String × Instant)} {bytes front : List UInt8} {load : ℕ → Clocks}

theorem endsWithRecord_of_parse (written : saveRdb save data expirations = .ok bytes)
    (storable : ∀ entry ∈ data, ShortText entry.1 ∧ Storable entry.2)
    (short : ∀ entry ∈ expirations, ShortText entry.1) (cut : front <+: bytes) {loaded : Loaded}
    (accepted : parse load front = .ok loaded) : EndsWithRecord save data expirations front := by
  rcases saveRdb_eq_ok_iff.mp written with ⟨records, expiries, rfl⟩
  rcases accepts_of_parse cut accepted with ⟨body, rfl, cut, accepts⟩
  rw [List.append_assoc] at cut
  rcases accepts.record cut (List.cons_ne_nil _ _) (decodes_selector load Loaded.empty) with
    rfl | ⟨body', rfl, cut, accepts⟩
  · exact Or.inl (List.append_nil _)
  rcases accepts.entries storable cut with ⟨k, rfl⟩ | ⟨body'', rfl, cut, accepts⟩
  · refine Or.inr (Or.inl ⟨k, saveRdb_eq_ok_iff.mpr ⟨[], rfl, ?_⟩⟩)
    rw [List.append_nil]
  · rcases accepts.expiries expiries short cut with ⟨j, writtenFront, free⟩
    refine Or.inr (Or.inr ⟨j, saveRdb_eq_ok_iff.mpr ⟨body'', writtenFront, ?_⟩, free⟩)
    simp only [List.append_assoc]

theorem exists_parse_of_saveRdb (written : saveRdb save data expirations = .ok bytes)
    (storable : ∀ entry ∈ data, ShortText entry.1 ∧ Storable entry.2)
    (short : ∀ entry ∈ expirations, ShortText entry.1)
    (free : ∀ entry ∈ expirations, ¬Reserved entry.1)
    (distinct : (expirations.map Prod.fst).Nodup) (load : ℕ → Clocks) :
    ∃ loaded, parse load bytes = .ok loaded := by
  obtain ⟨records, expiries, loads⟩ := parse_saveRdb load written storable
  obtain ⟨loaded, parses, -⟩ := parses_expiries load expiries short free distinct
    (data.foldl Loaded.addEntry Loaded.empty)
  exact ⟨loaded, loads _ parses⟩

/-- A cut inside the header is noticed. -/
theorem parse_cut_header (written : saveRdb save data expirations = .ok bytes)
    (load : ℕ → Clocks) (cut : front <+: bytes)
    (inside : front.length < (utf8Bytes "REDIS0001").length) :
    ∃ reason, parse load front = .error reason := by
  cases parsed : parse load front with
  | error reason => exact ⟨reason, rfl⟩
  | panic => exact absurd parsed (parse_ne_panic load front)
  | ok loaded =>
      rcases saveRdb_eq_ok_iff.mp written with ⟨records, -, rfl⟩
      rcases accepts_of_parse (by simpa only [List.append_assoc] using cut) parsed with
        ⟨behind, rfl, -⟩
      rw [List.length_append] at inside
      omega

/-- Which cuts are noticed.  A cut inside the header always is.  For maps whose records
fit the file format, the loader returns an error for a front part of a snapshot exactly
when that part does not end with a whole record, or a record before its end is refused in
the whole snapshot as well. -/
theorem parse_cut_eq_error_iff (written : saveRdb save data expirations = .ok bytes)
    (load : ℕ → Clocks) (cut : front <+: bytes) :
    (front.length < (utf8Bytes "REDIS0001").length →
      ∃ reason, parse load front = .error reason) ∧
    ∀ {db : DB}, Fits db → FiniteMap.Traverses data db.data →
      FiniteMap.Traverses expirations db.expirations →
        ((∃ reason, parse load front = .error reason) ↔
          ¬EndsWithRecord save data expirations front) := by
  refine ⟨parse_cut_header written load cut, ?_⟩
  intro db fits dataOrder deadlineOrder
  have storable : ∀ entry ∈ data, ShortText entry.1 ∧ Storable entry.2 :=
    fun entry member => fits.entries _ _ (dataOrder.mem_iff.mp member)
  have short : ∀ entry ∈ expirations, ShortText entry.1 :=
    fun entry member => fits.keys _ _ (deadlineOrder.mem_iff.mp member)
  constructor
  · rintro ⟨reason, failed⟩ ends
    have accepted : ∃ loaded, parse load front = .ok loaded := by
      rcases ends with rfl | ⟨k, writtenFront⟩ | ⟨j, writtenFront, free⟩
      · exact ⟨Loaded.empty, rfl⟩
      · exact exists_parse_of_saveRdb writtenFront
          (fun entry member => storable entry (List.mem_of_mem_take member)) nofun nofun
          List.nodup_nil load
      · refine exists_parse_of_saveRdb writtenFront storable
          (fun entry member => short entry (List.mem_of_mem_take member)) free ?_ load
        rw [List.map_take]
        exact deadlineOrder.distinct.sublist (List.take_sublist _ _)
    rcases accepted with ⟨loaded, accepted⟩
    cases failed.symm.trans accepted
  · intro inside
    cases parsed : parse load front with
    | ok loaded => exact absurd (endsWithRecord_of_parse written storable short cut parsed) inside
    | error reason => exact ⟨reason, rfl⟩
    | panic => exact absurd parsed (parse_ne_panic load front)

end Cut

/-- A list with a deadline, cut inside its data record and inside its expiry
record. -/
theorem parse_cut_eq_error_iff_list :
    let data := [("l", .list [.string "a"])]
    let expirations := [("l", 7)]
    ∃ bytes, saveRdb (fun _ => ⟨0, 0⟩) data expirations = .ok bytes ∧
      (∃ reason, parse (fun _ => ⟨0, 0⟩) (bytes.take 15) = .error reason) ∧
      ¬EndsWithRecord (fun _ => ⟨0, 0⟩) data expirations (bytes.take 15) ∧
      (∃ reason, parse (fun _ => ⟨0, 0⟩) (bytes.take 24) = .error reason) ∧
      ¬EndsWithRecord (fun _ => ⟨0, 0⟩) data expirations (bytes.take 24) := by
  intro data expirations
  have dataOrder := FiniteMap.traverses_ofList (show (data.map Prod.fst).Nodup by decide)
  have deadlineOrder :=
    FiniteMap.traverses_ofList (show (expirations.map Prod.fst).Nodup by decide)
  have fits : Fits ⟨FiniteMap.ofList data, FiniteMap.ofList expirations⟩ :=
    .of_traverses dataOrder deadlineOrder (by decide) (by decide)
  obtain ⟨bytes, written, first, second⟩ :
      ∃ bytes, saveRdb (fun _ => ⟨0, 0⟩) data expirations = .ok bytes ∧
        (∃ reason, parse (fun _ => ⟨0, 0⟩) (bytes.take 15) = .error reason) ∧
        ∃ reason, parse (fun _ => ⟨0, 0⟩) (bytes.take 24) = .error reason :=
    ⟨_, rfl, ⟨_, rfl⟩, ⟨_, rfl⟩⟩
  have noticed := fun n => (parse_cut_eq_error_iff written (fun _ => ⟨0, 0⟩)
    (List.take_prefix n bytes)).2 fits dataOrder deadlineOrder
  exact ⟨bytes, written, first, (noticed 15).mp first, second, (noticed 24).mp second⟩

/-- The snapshot of one key loads, and so does its front part that ends with the
database selector, without the key. -/
theorem parse_cut_loses_key :
    ∃ bytes loaded, saveRdb (fun _ => ⟨0, 0⟩) [("a", .string "1")] [] = .ok bytes ∧
      parse (fun _ => ⟨0, 0⟩) bytes = .ok loaded ∧
      loaded.db.lookup "a" = some (.string "1") ∧
      bytes.take 11 ≠ bytes ∧ parse (fun _ => ⟨0, 0⟩) (bytes.take 11) = .ok Loaded.empty := by
  refine ⟨_, _, rfl, rfl, ?_, by decide, rfl⟩
  exact Finmap.lookup_insert _

end Ember.Rdb
